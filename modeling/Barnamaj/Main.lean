import Barnamaj.CommandLine.Run

/-!
# The program

The command line over the files of the system.
-/

namespace Barnamaj.CommandLine

/-- A fault of the system by its number. -/
def faultOfNumber (number : UInt32) (text : String) : SystemFault :=
  match number.toNat with
  | 2 => .notFound
  | 20 => .notDirectory
  | 21 => .isDirectory
  | 36 => .nameTooLong
  | n => .other n text

/-- What the system reports about a path. -/
def systemFault : IO.Error → SystemFault
  | .noFileOrDirectory _ n text => faultOfNumber n text
  | .inappropriateType _ n text => faultOfNumber n text
  | .invalidArgument _ n text => faultOfNumber n text
  | .permissionDenied _ n text => faultOfNumber n text
  | .resourceExhausted _ n text => faultOfNumber n text
  | .noSuchThing _ n text => faultOfNumber n text
  | .alreadyExists _ n text => faultOfNumber n text
  | .resourceBusy n text => faultOfNumber n text
  | .hardwareFault n text => faultOfNumber n text
  | .illegalOperation n text => faultOfNumber n text
  | .otherError n text => faultOfNumber n text
  | e => faultOfNumber 5 (toString e)

/-- The text of a file of the system. -/
def readFile (path : String) : IO (Except ReadFault String) := do
  try
    let handle ← IO.FS.Handle.mk path .read
    let bytes ← handle.readBinToEnd
    return sourceOfBytes bytes.toList
  catch e =>
    return .error (.system (systemFault e) path)

/-- Open a file of the system for writing. -/
def openFile (path : String) : IO (Except WriteFault IO.FS.Handle) := do
  try
    return .ok (← IO.FS.Handle.mk path .write)
  catch e =>
    return .error (.opening (systemFault e) path)

/-- Write a file of the system. -/
def writeFile (path text : String) : IO (Except WriteFault Unit) := do
  match ← openFile path with
  | .error f => return .error f
  | .ok handle =>
    try
      handle.putStr text
      handle.flush
      return .ok ()
    catch e =>
      return .error (.storing (systemFault e))

/-- Run the program over the files of the system. -/
def runWithFiles (arguments : List String) : IO Report := do
  match Job.ofArguments arguments with
  | .error e => return e.report
  | .ok job =>
    let product := job.product (← readFile job.source)
    let written ← match product with
      | .done _ => pure (.ok ())
      | .save path listing _ _ => writeFile path listing
    return product.finish written

end Barnamaj.CommandLine

/-- Run the program and show its report. -/
def main (arguments : List String) : IO UInt32 := do
  let report ← Barnamaj.CommandLine.runWithFiles arguments
  (← IO.getStdout).putStr report.out
  (← IO.getStderr).putStr report.err
  return report.exit.toUInt32
