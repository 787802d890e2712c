import ScreenDoc.CommandLine.Basic

/-!
# The program

Hands the arguments, the environment and the reading of files over to the command line, and
prints what comes back.
-/

namespace ScreenDoc.CommandLine

/-- What a system error says of a path of the wrong kind; its number may come negated. -/
def wrongKind (code : UInt32) (reason : String) : ReadFault :=
  if code == 21 || 0 - code == 21 then .isDirectory
  else if code == 20 || 0 - code == 20 then .notDirectory
  else .other reason

def readFile (path : String) : IO (Except ReadFault String) := do
  try
    return .ok (← IO.FS.readFile path)
  catch
    | .noFileOrDirectory .. => return .error .notFound
    | .permissionDenied .. => return .error .denied
    | .inappropriateType _ code reason => return .error (wrongKind code reason)
    | fault => return .error (.other (toString fault))

def environment : IO Environment := do
  return {
    configHome := ← IO.getEnv "XDG_CONFIG_HOME"
    home := ← IO.getEnv "HOME"
    temporary := (← IO.getEnv "TMPDIR").getD "/tmp" }

end ScreenDoc.CommandLine

def main (arguments : List String) : IO UInt32 := do
  let env ← ScreenDoc.CommandLine.environment
  let outcome ← ScreenDoc.CommandLine.run ScreenDoc.CommandLine.readFile env arguments
  for text in outcome.stderr do
    IO.eprintln text
  for text in outcome.stdout do
    IO.println text
  return outcome.code.toUInt32
