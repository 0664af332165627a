import CssResources.CommandLine.Run

/-!
# The program

The program on the files of the system it runs on.
-/

namespace CssResources

/-- The fault that a number of the system stands for, or else a description of it. Some
calls of the system give the number with its sign changed. -/
def faultOfCode (code : UInt32) (description : String) : FileFault :=
  let number := min code (0 - code)
  if number = 2 then .notFound
  else if number = 13 then .permissionDenied
  else if number = 20 then .notDirectory
  else if number = 21 then .isDirectory
  else if number = 36 then .nameTooLong
  else .other (description ++ " (os error " ++ toString number ++ ")").toList

/-- The fault that an error of the system stands for. -/
def faultOfError : IO.Error → FileFault
  | .noFileOrDirectory _ code description => faultOfCode code description
  | .inappropriateType _ code description => faultOfCode code description
  | .invalidArgument _ code description => faultOfCode code description
  | .permissionDenied _ code description => faultOfCode code description
  | .resourceExhausted _ code description => faultOfCode code description
  | e => .other e.toString.toList

/-- The result of an action, or the fault that it ends with. -/
def orFault {α : Type} (action : IO α) : IO (Except FileFault α) := do
  try
    return .ok (← action)
  catch e => return .error (faultOfError e)

/-- The system's own files. -/
instance : Host IO where
  hasPath path := do
    try
      discard (IO.FS.realPath (String.ofList path))
      return true
    catch _ => return false
  readBytes path := orFault (IO.FS.readBinFile (String.ofList path))
  writeText path t := orFault (IO.FS.writeFile (String.ofList path) (String.ofList t))
  clock := IO.monoMsNow

end CssResources

/-- Runs the program with the arguments given to it. -/
def main (args : List String) : IO UInt32 := do
  let report ← CssResources.run (m := IO) (args.map String.toList)
  IO.print (String.ofList report.output)
  IO.eprint (String.ofList report.errors)
  return UInt32.ofNat report.exitCode
