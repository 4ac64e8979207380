import TaskGrammar.Text.Quoted
import TaskGrammar.Tier

/-!
# `TaskGrammar.Fault`: what can go wrong

`StorageFault` lists the reasons for which a file operation fails, `Fault` every
failure and every problem that the library reports. A fault is a cause; its wording
is in `Fault.message` alone.
-/

set_option autoImplicit false

namespace TaskGrammar

/-- Why a file operation failed. -/
inductive StorageFault
  | notFound
  | notADirectory
  | isADirectory
  | nameTooLong
  | invalidName
  | invalidEncoding
  | alreadyExists
  /-- A reason that only the system can name. -/
  | other (reason : Text)
  deriving DecidableEq, Repr

/-- The wording of a storage fault. -/
def StorageFault.message : StorageFault → Text
  | notFound => "No such file or directory (os error 2)".toList
  | notADirectory => "Not a directory (os error 20)".toList
  | isADirectory => "Is a directory (os error 21)".toList
  | nameTooLong => "File name too long (os error 36)".toList
  | invalidName => "file name contained an unexpected NUL byte".toList
  | invalidEncoding => "stream did not contain valid UTF-8".toList
  | alreadyExists => "File exists (os error 17)".toList
  | other reason => reason

/-- A failure of an operation, or a problem found in a grammar. -/
inductive Fault
  /-- A file or a stream could not be used. -/
  | storage (cause : StorageFault)
  /-- A path at which there is a grammar does not end in the name of a file. -/
  | invalidFileName (path : Text)
  /-- A line of a grammar file is none of the forms that such a line can have. -/
  | malformedLine (number : Nat)
  /-- A word names no tier. -/
  | unknownTier (word : Text)
  /-- A word names no gender. -/
  | unknownGender (person word : Text)
  /-- A word names no familiarity. -/
  | unknownFamiliarity (object word : Text)
  /-- A template refers to a rule that the grammar does not have. -/
  | undefinedReference (rule reference : Text)
  /-- A grammar has no root rule. -/
  | missingRoot (grammar : Text)
  /-- A dataset file exists but yields no dataset. -/
  | datasetLoad (file : Text) (cause : Fault)
  /-- A tier for which no task is generated. -/
  | invalidDifficulty (word : Text)
  /-- A rule leads back to a rule on the way to it; the path ends with that rule. -/
  | cyclicGrammar (path : List Text)
  /-- Rules are nested deeper than allowed. -/
  | recursionLimit (rule : Text) (limit : Nat)
  /-- No entity fits a wildcard of this key. -/
  | noCandidates (key : Text)
  /-- No grammar may serve a tier. -/
  | noGrammarForTier (tier : Tier)
  /-- A wildcard is still open at the end of its template. -/
  | unterminatedWildcard (template : Text) (offset : Nat)
  /-- A rule would be exported under an id that is kept for generated rules. -/
  | reservedRuleId (rule : Text)
  /-- A grammar's name is not the name of a file. -/
  | invalidGrammarName (name : Text)
  /-- A dataset file is not the markup it should be. -/
  | malformedMarkup
  /-- The settings file does not hold settings. -/
  | malformedSettings
  /-- Places of categories that no location has, each with its category. -/
  | unknownPlaces (places : List (Text × Text))
  /-- A document could not be written to its path. -/
  | unwritten (path : Text) (cause : StorageFault)
  /-- The random source offered no word that a draw could use. -/
  | endlessDraw
  deriving DecidableEq, Repr

namespace Fault

/-- A place and its category, as they are listed. -/
def unknownPlace (place : Text × Text) : Text :=
  place.1 ++ " (category ".toList ++ place.2 ++ ")".toList

/-- The wording of a fault. -/
def message : Fault → Text
  | storage cause => "IO error: ".toList ++ cause.message
  | invalidFileName path => "Parse error: invalid grammar file name: ".toList ++ path
  | malformedLine number =>
    "Parse error: line ".toList ++ Text.ofNat number ++ ": expected '$Rule = ...'".toList
  | unknownTier word => "Parse error: unknown tier '".toList ++ word ++ "'".toList
  | unknownGender person word =>
    "Parse error: name ".toList ++ person ++ ": unknown gender '".toList ++ word ++ "'".toList
  | unknownFamiliarity object word =>
    "Parse error: object ".toList ++ object ++ ": unknown type '".toList ++ word ++ "'".toList
  | undefinedReference rule reference =>
    "Parse error: ".toList ++ rule ++ ": undefined non-terminal ".toList ++ reference
  | missingRoot grammar => "Grammar '".toList ++ grammar ++ "' has no $Main rule".toList
  | datasetLoad file cause =>
    "Failed to load ".toList ++ file ++ " dataset: ".toList ++ cause.message
  | invalidDifficulty word => "Invalid difficulty code: ".toList ++ Text.quoted word
  | cyclicGrammar path => "Cyclic grammar: ".toList ++ Text.join " -> ".toList path
  | recursionLimit rule limit =>
    "Recursion limit of ".toList ++ Text.ofNat limit ++ " exceeded while expanding ".toList ++ rule
  | noCandidates key => "No candidates for wildcard \x7b".toList ++ key ++ "\x7d".toList
  | noGrammarForTier tier => "No grammar available for tier ".toList ++ tier.name
  | unterminatedWildcard template offset =>
    "Unterminated wildcard at offset ".toList ++ Text.ofNat offset ++ " in ".toList ++
      Text.quoted template
  | reservedRuleId rule =>
    "Rule ".toList ++ rule ++ " uses an id reserved for generated rules".toList
  | invalidGrammarName name =>
    "Grammar name ".toList ++ Text.quoted name ++ " cannot be used as a file name".toList
  | malformedMarkup => "XML dataset error".toList
  | malformedSettings => "Config error".toList
  | unknownPlaces places =>
    "Location validation failed: ".toList ++ Text.join ", ".toList (places.map unknownPlace)
  | unwritten path cause => "Failed to write ".toList ++ path ++ ": ".toList ++ cause.message
  | endlessDraw => "The random source does not end a draw".toList

end Fault

end TaskGrammar
