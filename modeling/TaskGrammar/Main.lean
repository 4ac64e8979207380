import TaskGrammar.CommandLine.Run

/-!
# `TaskGrammar.Main`: the program

The files of the system as a `Storage`, and the program that carries out its command
line on them. Requests are answered as they come in, one line at a time.
-/

set_option autoImplicit false

namespace TaskGrammar

/-- The cause of an error of the system. -/
def StorageFault.ofError : IO.Error → StorageFault
  | .noFileOrDirectory .. => notFound
  | .inappropriateType .. => notADirectory
  | .alreadyExists .. => alreadyExists
  | error => other error.toString.toList

/-- The result of an action on the system, its errors as causes. -/
def attemptAction {α : Type} (action : IO α) : IO (Except StorageFault α) := do
  match ← action.toBaseIO with
  | .ok value => pure (.ok value)
  | .error error => pure (.error (.ofError error))

/-- The entries of a directory of the system. -/
def listDirectory (path : Text) : IO (List DirectoryEntry) := do
  let entries ← (← IO.FS.realPath (String.ofList path)).readDir
  entries.toList.mapM fun entry => do
    let kind ← entry.path.metadata.toBaseIO
    let isFile := match kind with
      | .ok metadata => metadata.type == .file
      | .error _ => false
    pure { name := entry.fileName.toList, isFile := isFile }

/-- The files and directories of the system. -/
instance : Storage IO where
  read path := attemptAction do
    pure (← IO.FS.readBinFile (String.ofList path)).toList
  list path := attemptAction (listDirectory path)
  write path content := attemptAction do
    IO.FS.writeBinFile (String.ofList path) ⟨content.toArray⟩
  rename source target := attemptAction do
    IO.FS.rename (String.ofList source) (String.ofList target)
  remove path := attemptAction do
    IO.FS.removeFile (String.ofList path)
  createDirectories path := attemptAction do
    IO.FS.createDirAll (String.ofList path)

/-- The number that bytes spell, the first of them being the lowest. -/
def wordOfBytes (bytes : List UInt8) : UInt32 :=
  bytes.foldr (fun byte word => (word <<< 8) ||| byte.toUInt32) 0

/-- A random source that nobody can replay. -/
def entropySource : IO Keystream := do
  let bytes := (← IO.getRandomBytes 32).toList
  pure <| .ofKey <| (List.range 8).map fun i => wordOfBytes ((bytes.drop (4 * i)).take 4)

/-- Writes what a run comes to, and gives its exit code. -/
def conclude (outcome : CommandLine.Outcome) : IO UInt32 := do
  IO.print (String.ofList outcome.output)
  for notice in outcome.notices do
    IO.eprintln (String.ofList notice)
  if let some reason := outcome.failure then
    IO.eprintln s!"Error: {String.ofList reason}"
  pure (UInt32.ofNat outcome.code)

/-- Answers the requests of the standard input until it ends. -/
def answerRequests (handler : Handler Keystream Unit) : IO UInt32 := do
  let input ← IO.getStdin
  let output ← IO.getStdout
  let mut handler := handler
  repeat
    let text ← input.getLine
    if text.isEmpty then
      break
    let service := handler.serve (Text.encode text.toList)
    output.putStr (String.ofList (service.output.flatMap CommandLine.line))
    output.flush
    handler := service.handler
  pure 0

/-- How the program is used. -/
def usage : String :=
  "Usage: task-grammar [-v] <generate|convert|lint|serve> [options]

  generate [-d DIR] [-c FILE] [-s SEED] CODES...   tasks for the codes 1, 2 and 3
  convert  [-d DIR] [-o DIR]                       a document for each grammar
  lint     [-d DIR]                                the problems of each grammar
  serve    [-d DIR] [-c FILE]                      answers requests on standard input"

/-- Carries out a command line. -/
def runProgram (invocation : CommandLine.Invocation) : IO UInt32 := do
  let entropy ← entropySource
  match invocation with
  | .help => IO.println usage; pure 0
  | .misuse => IO.eprintln usage; pure 2
  | .serve data config =>
    match ← CommandLine.prepare data config none with
    | .error fault => conclude (.failed [] fault)
    | .ok generator =>
      answerRequests
        { generator := generator, source := CommandLine.sourceOf generator entropy, shared := none }
  | invocation => conclude (← CommandLine.run invocation [] entropy)

end TaskGrammar

/-- The program. -/
def main (arguments : List String) : IO UInt32 :=
  TaskGrammar.runProgram (.ofArguments (arguments.map String.toList))
