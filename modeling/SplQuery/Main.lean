import SplQuery.CommandLine.Answer

/-!
# The program

Reads what a request is about, and writes its answer.
-/

namespace SplQuery.CommandLine

/-- Runs a reading action, and says why it failed if it did. -/
def attempt (action : IO String) : IO (Except ReadError String) := do
  try
    return .ok (← action)
  catch e =>
    return .error <| match e with
      | .noFileOrDirectory .. => .notFound
      | .permissionDenied .. => .denied
      | .inappropriateType _ 20 _ => .notDirectory
      | .inappropriateType .. => .isDirectory
      | .userError _ => .notText
      | e => .other (toString e)

/-- Reads what a source stands for. -/
def readSource (terminal : Bool) : Option Source → IO Surroundings
  | some .input => do
    let input ← attempt do
      let stream ← IO.getStdin
      stream.readToEnd
    return ⟨input, fun _ => .error .notFound, terminal⟩
  | some (.file path) => do
    let text ← attempt (IO.FS.readFile path)
    return ⟨.ok "", fun _ => text, terminal⟩
  | _ => return ⟨.ok "", fun _ => .error .notFound, terminal⟩

end SplQuery.CommandLine

open SplQuery.CommandLine

def main (arguments : List String) : IO UInt32 := do
  let output ← IO.getStdout
  let errors ← IO.getStderr
  let terminal := (← output.isTty) && (← errors.isTty)
  let source := (Request.ofArguments arguments).toOption.bind (·.source?)
  let answer := answerArguments (← readSource terminal source) arguments
  output.putStr answer.output
  output.flush
  errors.putStr answer.errors
  errors.flush
  return UInt32.ofNat answer.status
