import TaskGrammar.Text.Basic

/-!
# `TaskGrammar.CommandLine.Options`: what a command line asks for

A command line names a subcommand and its options. An option has a short and a long
form and takes a value, either attached or as the next argument; a value of its own may
not look like an option, a lone `-` excepted. Short forms may be clustered: `-vs7` is
`-v -s 7`. After `--` every argument is positional. `-v` may be given anywhere and any
number of times, every other option once.

`Invocation.ofArguments` reads a command line. Arguments count from left to right: the
first that asks for help, or that is wrong, decides.
-/

set_option autoImplicit false

namespace TaskGrammar.CommandLine

/-- The subcommands. -/
inductive Subcommand
  | generate
  | convert
  | lint
  | serve
  deriving DecidableEq, Repr

/-- The options that take a value. -/
inductive ValueOption
  | data
  | config
  | seed
  | out
  deriving DecidableEq, Repr

namespace Subcommand

/-- The word for a subcommand. -/
def name : Subcommand → Text
  | generate => "generate".toList
  | convert => "convert".toList
  | lint => "lint".toList
  | serve => "serve".toList

/-- The subcommand that a word names. -/
def ofName? (word : Text) : Option Subcommand :=
  [generate, convert, lint, serve].find? fun subcommand => subcommand.name == word

/-- The options of a subcommand. -/
def options : Subcommand → List ValueOption
  | generate => [.data, .config, .seed]
  | convert => [.data, .out]
  | lint => [.data]
  | serve => [.data, .config]

/-- Whether a subcommand takes positional arguments. -/
def takesCodes : Subcommand → Bool
  | generate => true
  | _ => false

end Subcommand

namespace ValueOption

/-- The long form of an option, without its dashes. -/
def longName : ValueOption → Text
  | data => "data".toList
  | config => "config".toList
  | seed => "seed".toList
  | out => "out".toList

/-- The short form of an option, without its dash. -/
def shortName : ValueOption → Char
  | data => 'd'
  | config => 'c'
  | seed => 's'
  | out => 'o'

end ValueOption

/-- What has been given to a subcommand so far; the codes in reverse. -/
structure Given where
  data : Option Text
  config : Option Text
  seed : Option UInt64
  out : Option Text
  codes : List Text
  deriving DecidableEq, Repr

/-- What a subcommand starts from. -/
def Given.none : Given :=
  { data := .none, config := .none, seed := .none, out := .none, codes := [] }

/-- What a command line asks for. -/
inductive Invocation
  | generate (data : Text) (config : Option Text) (seed : Option UInt64) (codes : List Text)
  | convert (data out : Text)
  | lint (data : Text)
  | serve (data : Text) (config : Option Text)
  /-- To be told how to use the program, or its version. -/
  | help
  /-- Nothing that the program knows. -/
  | misuse
  deriving DecidableEq, Repr

/-- The seed that a word spells in digits, perhaps after a plus sign. -/
def seedOf? (word : Text) : Option UInt64 :=
  Text.toWord? (if word.head? = some '+' then word.tail else word)

/-- Gives a value to an option that has none yet. A path may not be empty, and a seed
must be a number. -/
def Given.set? (given : Given) (option : ValueOption) (value : Text) : Option Given :=
  match option with
  | .data =>
    if given.data.isSome ∨ value = [] then .none else some { given with data := some value }
  | .config =>
    if given.config.isSome ∨ value = [] then .none else some { given with config := some value }
  | .out =>
    if given.out.isSome ∨ value = [] then .none else some { given with out := some value }
  | .seed =>
    if given.seed.isSome then .none
    else (seedOf? value).map fun seed => { given with seed := some seed }

/-- The directory in which things are looked for, and put, unless told otherwise. -/
def currentDirectory : Text :=
  ['.']

/-- What a subcommand comes to with all that has been given to it. -/
def Given.invocation (given : Given) : Subcommand → Invocation
  | .generate =>
    if given.codes = [] then .misuse
    else
      .generate (given.data.getD currentDirectory) given.config given.seed given.codes.reverse
  | .convert => .convert (given.data.getD currentDirectory) (given.out.getD currentDirectory)
  | .lint => .lint (given.data.getD currentDirectory)
  | .serve => .serve (given.data.getD currentDirectory) given.config

/-- An argument by its form. -/
inductive Argument
  /-- The mark after which every argument is positional. -/
  | separator
  /-- A long form, with the value attached to it by an equals sign. -/
  | long (name : Text) (value : Option Text)
  /-- Short forms after one dash. -/
  | short (cluster : Text)
  | positional (value : Text)
  deriving DecidableEq, Repr

/-- The form of an argument. -/
def Argument.ofText : Text → Argument
  | ['-', '-'] => separator
  | '-' :: '-' :: rest =>
    match rest.dropWhile fun c => c != '=' with
    | [] => long rest none
    | _ :: value => long (rest.takeWhile fun c => c != '=') (some value)
  | ['-'] => positional ['-']
  | '-' :: cluster => short cluster
  | value => positional value

/-- What reading one argument comes to. -/
inductive Reading
  | done (given : Given)
  /-- An option that takes the next argument as its value. -/
  | awaiting (option : ValueOption) (given : Given)
  | help
  | misuse
  deriving DecidableEq, Repr

/-- Reads short forms. The value of an option is what is left of the cluster after it,
an equals sign in front of it dropped. -/
def readCluster (subcommand : Subcommand) (given : Given) : Text → Reading
  | [] => .done given
  | 'v' :: rest => readCluster subcommand given rest
  | 'h' :: _ => .help
  | c :: rest =>
    match subcommand.options.find? fun option => option.shortName = c with
    | none => .misuse
    | some option =>
      if rest = [] then .awaiting option given
      else
        match given.set? option (if rest.head? = some '=' then rest.tail else rest) with
        | none => .misuse
        | some given' => .done given'

/-- Reads a long form. -/
def readLong (subcommand : Subcommand) (given : Given) (name : Text) (value : Option Text) :
    Reading :=
  if name = "verbose".toList then (if value.isNone then .done given else .misuse)
  else if name = "help".toList then (if value.isNone then .help else .misuse)
  else
    match subcommand.options.find? fun option => option.longName = name, value with
    | none, _ => .misuse
    | some option, none => .awaiting option given
    | some option, some value =>
      match given.set? option value with
      | none => .misuse
      | some given' => .done given'

/-- Adds positional arguments, where the subcommand takes any. -/
def addCodes (subcommand : Subcommand) (given : Given) (codes : List Text) : Option Given :=
  if codes = [] then some given
  else if subcommand.takesCodes then some { given with codes := codes.reverse ++ given.codes }
  else none

/-- Reads the arguments after a subcommand; `pending` is an option that waits for its
value. -/
def readArguments (subcommand : Subcommand) (given : Given) (pending : Option ValueOption) :
    List Text → Invocation
  | [] => if pending.isNone then given.invocation subcommand else .misuse
  | argument :: rest =>
    match pending, Argument.ofText argument with
    | some option, .positional value =>
      match given.set? option value with
      | none => .misuse
      | some given' => readArguments subcommand given' none rest
    -- No value is an argument that looks like an option.
    | some _, _ => .misuse
    | none, .separator =>
      match addCodes subcommand given rest with
      | none => .misuse
      | some given' => given'.invocation subcommand
    | none, .positional value =>
      match addCodes subcommand given [value] with
      | none => .misuse
      | some given' => readArguments subcommand given' none rest
    | none, .long name value =>
      match readLong subcommand given name value with
      | .done given' => readArguments subcommand given' none rest
      | .awaiting option given' => readArguments subcommand given' (some option) rest
      | .help => .help
      | .misuse => .misuse
    | none, .short cluster =>
      match readCluster subcommand given cluster with
      | .done given' => readArguments subcommand given' none rest
      | .awaiting option given' => readArguments subcommand given' (some option) rest
      | .help => .help
      | .misuse => .misuse

/-- What a request for help with the given topics comes to. -/
def helpWith : List Text → Invocation
  | [] => .help
  | [topic] =>
    if (Subcommand.ofName? topic).isSome ∨ topic = "help".toList then .help else .misuse
  | _ => .misuse

/-- What short forms before the subcommand ask for: nothing, help, or misuse. -/
def readLeadingCluster : Text → Option Invocation
  | [] => none
  | 'v' :: rest => readLeadingCluster rest
  | 'h' :: _ => some .help
  | 'V' :: _ => some .help
  | _ => some .misuse

/-- What a command line asks for. -/
def Invocation.ofArguments : List Text → Invocation
  | [] => misuse
  | argument :: rest =>
    match Argument.ofText argument with
    | .separator => misuse
    | .positional word =>
      if word = "help".toList then helpWith rest
      else
        match Subcommand.ofName? word with
        | none => misuse
        | some subcommand => readArguments subcommand .none none rest
    | .long name value =>
      if value.isSome then misuse
      else if name = "verbose".toList then ofArguments rest
      else if name = "help".toList ∨ name = "version".toList then help
      else misuse
    | .short cluster =>
      match readLeadingCluster cluster with
      | none => ofArguments rest
      | some invocation => invocation

end TaskGrammar.CommandLine
