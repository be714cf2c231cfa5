import Lineage.CommandLine.Run

open Lineage.CommandLine

def fileError : IO.Error → String
  | .noFileOrDirectory .. => "No such file or directory (os error 2)"
  | .permissionDenied .. => "Permission denied (os error 13)"
  | .inappropriateType .. => "Is a directory (os error 21)"
  | .userError _ => "stream did not contain valid UTF-8"
  | e => toString e

def readText (path : String) : IO (Except String String) := do
  try
    return .ok (← IO.FS.readFile path)
  catch e =>
    return .error (fileError e)

def namedFiles : Request → List String
  | .run options command =>
    let model := match command with
      | .scan model _ _ | .attributes model _ | .knownEmpty model _ _ => model
    options.config.toList ++ [model]
  | _ => []

def main (args : List String) : IO UInt32 := do
  let request := Request.ofArgs args
  let texts ← (namedFiles request).mapM fun path => do
    return (path, ← readText path)
  let term ← IO.getEnv "TERM"
  let env : Environment := {
    readFile := fun path => (texts.lookup path).getD (.error "No such file or directory (os error 2)")
    noColor := (← IO.getEnv "NO_COLOR").isSome
    terminalColor := term.any (· != "dumb") }
  let reply := answer env request
  match reply with
  | .success output => IO.print output
  | .failure messages => IO.eprint (failureText messages)
  | .misuse => IO.eprint mainHelp
  return reply.exitCode
