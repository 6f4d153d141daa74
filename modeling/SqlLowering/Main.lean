import SqlLowering.Command.Run

/-!
# The command line

The surroundings of a command on the real system, and the program itself.
-/

namespace SqlLowering.Command

/-- The content of a file, if it can be read as text. -/
def readFile? (path : String) : IO (Option String) := do
  match ← (IO.FS.readFile path).toBaseIO with
  | .ok text => pure (some text)
  | .error _ => pure none

/-- The whole standard input, if it is text. -/
def readInput? : IO (Option String) := do
  match ← (do (← IO.getStdin).readToEnd : IO String).toBaseIO with
  | .ok text => pure (some text)
  | .error _ => pure none

/-- A path leads to a file: it can be opened and read from, which a directory cannot, or only
lacks the permission. -/
def isFile (path : String) : IO Bool := do
  match ← (do discard ((← IO.FS.Handle.mk path .read).read 1) : IO Unit).toBaseIO with
  | .ok _ => pure true
  | .error (.permissionDenied _ _ _) => pure true
  | .error _ => pure false

/-- The directory of the user's configuration files. A setting that is not absolute does not
count. -/
def configDirectory? : IO (Option String) := do
  match ← IO.getEnv "XDG_CONFIG_HOME" with
  | some path => if path.startsWith "/" then pure (some path) else home
  | none => home
where
  home : IO (Option String) := do
    match ← IO.getEnv "HOME" with
    | some path => pure (if path.isEmpty then none else some (path ++ "/.config"))
    | none => pure none

/-- The real system. -/
def system : Host IO where
  contentOf := readFile?
  isFile := isFile
  inputText := readInput?
  environment name := IO.getEnv name
  configDirectory := configDirectory?

end SqlLowering.Command

/-- Run the command line, print what it says and leave with its exit code. -/
def main (words : List String) : IO UInt32 := do
  match ← SqlLowering.Command.system.run words with
  | .ok output =>
    IO.print output
    pure 0
  | .error failure =>
    match failure.message? with
    | some text => IO.eprintln ("Error: " ++ text)
    | none => IO.eprint SqlLowering.Command.usage
    pure failure.code
