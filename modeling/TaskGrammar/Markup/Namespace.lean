import TaskGrammar.Markup.Attribute

/-!
# `TaskGrammar.Markup.Namespace`: what prefixes stand for

A tag declares prefixes of names: `xmlns:p="uri"` lets the prefix `p` stand for the
namespace `uri` from there on. Two namespaces belong to fixed prefixes, `xml` and
`xmlns`, and a declaration that says otherwise is refused (`Declaration.isAllowed`).

`Scopes` are the declarations of the tags that are open, the innermost first. Names
are otherwise compared without their prefix, so the one use of the scopes is the
attribute `nil` of the namespace of schema instances: an element with this attribute
has no value (`Scopes.isNil`).
-/

set_option autoImplicit false

namespace TaskGrammar.Markup

/-- The namespace of a standard for markup, which is named after a place. -/
def standardNamespace (path : String) : Text :=
  "http:".toList ++ "//www.w3.org/".toList ++ path.toList

/-- The namespace of the prefix `xml`. -/
def xmlNamespace : Text :=
  standardNamespace "XML/1998/namespace"

/-- The namespace of the prefix `xmlns`. -/
def declarationNamespace : Text :=
  standardNamespace "2000/xmlns/"

/-- The namespace of the attributes that any element may have, such as `nil`. -/
def instanceNamespace : Text :=
  standardNamespace "2001/XMLSchema-instance"

/-- A declaration of what a prefix, the label, stands for. -/
structure Declaration where
  label : Text
  uri : Text
  deriving DecidableEq, Repr

namespace Declaration

/-- The declaration that an attribute makes, if it makes one. -/
def ofAttribute? (entry : Attribute) : Option Declaration :=
  if "xmlns:".toList.isPrefixOf entry.key then
    some { label := entry.key.drop 6, uri := entry.raw }
  else none

/-- Whether a declaration leaves the fixed prefixes and their namespaces together. -/
def isAllowed (declaration : Declaration) : Bool :=
  if declaration.label = "xml".toList then declaration.uri = xmlNamespace
  else
    declaration.label ≠ "xmlns".toList ∧ declaration.uri ≠ xmlNamespace ∧
      declaration.uri ≠ declarationNamespace

/-- The declarations of a tag up to its first malformed attribute; a key may come twice. -/
def ofTag (attributes : Text) : List Declaration :=
  (((Attribute.scanAll false attributes).takeWhile Option.isSome).filterMap id).filterMap
    ofAttribute?

end Declaration

/-- The declarations of the tags that are open, the innermost tag first. -/
abbrev Scopes := List (List Declaration)

namespace Scopes

/-- The scopes inside a tag, if its declarations are allowed. -/
def enter? (scopes : Scopes) (attributes : Text) : Option Scopes :=
  if (Declaration.ofTag attributes).all Declaration.isAllowed then
    some (Declaration.ofTag attributes :: scopes)
  else none

/-- What a prefix stands for: the innermost declaration of it counts, and of two in one
tag the last. -/
def uri? (scopes : Scopes) (label : Text) : Option Text :=
  if label = [] then none
  else
    ((scopes.flatMap List.reverse).find? fun declaration => declaration.label = label).map
      Declaration.uri

/-- Whether an attribute says that its element has no value. -/
def marksNil (scopes : Scopes) (entry : Attribute) : Bool :=
  (prefixOf? entry.key).bind scopes.uri? = some instanceNamespace ∧
    localName entry.key = "nil".toList ∧ (entry.raw = "1".toList ∨ entry.raw = "true".toList)

/-- Whether a tag says that its element has no value. Malformed attributes do not count. -/
def isNil (scopes : Scopes) (attributes : Text) : Bool :=
  ((Attribute.scanAll true attributes).filterMap id).any scopes.marksNil

end Scopes

end TaskGrammar.Markup
