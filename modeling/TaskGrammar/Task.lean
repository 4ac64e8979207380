import TaskGrammar.Text.Basic

/-!
# `TaskGrammar.Task`: a generated sentence and its annotations

A task is a sequence of tokens. Each token is a piece of the sentence with the
remarks that go with it. `Task.text` is the sentence, which `Task.writeTo` writes token
by token, `Task.groups` the remarks by the token they belong to, and `Task.report` the
sentence and the groups as one text. Remarks of tokens that add nothing to the sentence
are pooled in one last group.
-/

set_option autoImplicit false

namespace TaskGrammar

/-- A piece of a sentence with its remarks. -/
structure Token where
  text : Text
  metadata : List Text
  deriving DecidableEq, Repr

namespace Token

/-- A piece of a sentence without remarks. -/
def literal (text : Text) : Token :=
  { text := text, metadata := [] }

/-- The token with one more remark at the end, if there is one. -/
def annotate (token : Token) : Option Text → Token
  | none => token
  | some remark => { token with metadata := token.metadata ++ [remark] }

end Token

/-- The remarks under one heading. -/
structure MetadataGroup where
  heading : Text
  entries : List Text
  deriving DecidableEq, Repr

/-- A generated sentence, token by token. -/
structure Task where
  tokens : List Token
  deriving DecidableEq, Repr

namespace Task

/-- The heading of the remarks that belong to no piece of the sentence. -/
def remarksHeading : Text :=
  "remarks".toList

/-- The sentence. -/
def text (task : Task) : Text :=
  task.tokens.flatMap Token.text

/-- What has been written, and the sentence behind it: each token writes its own text. -/
def writeTo (written : Text) (task : Task) : Text :=
  task.tokens.foldl (fun written token => written ++ token.text) written

/-- The groups of the tokens that have a text and remarks, in token order. -/
def namedGroups (tokens : List Token) : List MetadataGroup :=
  (tokens.filter fun token => !token.metadata.isEmpty && !token.text.isEmpty).map fun token =>
    { heading := token.text, entries := token.metadata }

/-- The remarks of the tokens without text, in token order. -/
def remarks (tokens : List Token) : List Text :=
  (tokens.filter fun token => token.text.isEmpty).flatMap Token.metadata

/-- The remarks by the token they belong to; those without a text come last, under
one heading. -/
def groups (task : Task) : List MetadataGroup :=
  namedGroups task.tokens ++
    match remarks task.tokens with
    | [] => []
    | entries => [{ heading := remarksHeading, entries := entries }]

/-- A heading on a line of its own, then each entry on a line after a tab. -/
def groupReport (group : MetadataGroup) : Text :=
  ['\n'] ++ group.heading ++ group.entries.flatMap fun entry => ['\n', '\t'] ++ entry

/-- The sentence, an empty line, and the groups. -/
def report (task : Task) : Text :=
  task.text ++ ['\n'] ++ task.groups.flatMap groupReport

end Task

end TaskGrammar
