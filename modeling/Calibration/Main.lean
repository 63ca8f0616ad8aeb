import Calibration.CommandLine.Run

/-! # The program -/
namespace Calibration

def faultOf : IO.Error → FileFault
  | .noFileOrDirectory .. => .notFound
  | .inappropriateType _ code words | .permissionDenied _ code words
  | .resourceExhausted _ code words | .alreadyExists _ code words
  | .invalidArgument _ code words => .system words code.toNat
  | e => .system (toString e) 0

def orFault {α : Type} (act : IO α) : IO (Except FileFault α) := do
  try
    return .ok (← act)
  catch e =>
    return .error (faultOf e)

def systemFiles : Files IO where
  read path := orFault (IO.FS.readBinFile path)
  readInput := orFault do (← IO.getStdin).readBinToEnd
  write path bytes := orFault (IO.FS.writeBinFile path bytes)

end Calibration

def main (args : List String) : IO UInt32 := do
  let ending ← Calibration.CommandLine.run Calibration.systemFiles args
  (← IO.getStdout).putStr ending.out
  (← IO.getStderr).putStr ending.err
  return ending.code.toUInt32
