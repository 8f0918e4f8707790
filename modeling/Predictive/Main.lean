import Predictive.Command.Response

/-!
The command line program: reads what a request needs, prints the response, and exits with its code.
-/
namespace Predictive.Command

/-- A failure to read a file as a read fault. -/
def readFaultOf : IO.Error → ReadFault
  | .noFileOrDirectory _ _ _ => .missing
  | .permissionDenied _ _ _ => .refused "Permission denied" 13
  | .inappropriateType _ code details => .refused details code.toNat
  | .invalidArgument _ code details => .refused details code.toNat
  | .otherError code details => .refused details code.toNat
  | fault => .refused fault.toString 0

/-- Reads a file's bytes. -/
def readBytes (path : String) : IO (Except ReadFault (List UInt8)) := do
  try
    return .ok (← IO.FS.readBinFile path).toList
  catch fault =>
    return .error (readFaultOf fault)

/-- Reads the standard input to its end, if a request needs it. -/
def readInput (request : Request) : IO (List UInt8) := do
  if request.outputs.any fun output => output.ReadsInput then
    return (← (← IO.getStdin).readBinToEnd).toList
  else
    return []

/-- Runs the command and returns its exit code. -/
def run (args : List String) : IO UInt32 := do
  let response ← match Request.ofArgs? args with
    | none => pure (respond args (fun _ => .ok []) [])
    | some request => do
      let file ← match request.grammarFile with
        | none => pure (.ok [])
        | some path => readBytes path
      pure (respond args (fun _ => file) (← readInput request))
  (← IO.getStdout).putStr response.stdout
  (← IO.getStderr).putStr response.stderr
  return response.code.toUInt32

end Predictive.Command

/-- The program. -/
def main (args : List String) : IO UInt32 := Predictive.Command.run args
