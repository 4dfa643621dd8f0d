import SmallC.Files
import SmallC.Text.Shell

/-!
# Tools

Running a program is a function of its arguments and the files. A build takes any such function;
the one here knows `true`, `false` and `cat`, and no other program.
-/

namespace SmallC

structure ToolRun where
  /-- The files afterwards. -/
  files : Files
  stdout : Text := []
  stderr : Text := []
  failure : Option Failure := none

/-- Runs the program named by the first argument. `capture` says whether its output is wanted. -/
abbrev Tools := (argv : List Text) → (capture : Bool) → Files → ToolRun

namespace Tools

def exitStatus : Failure := .plain "exit status 1"

/-- Copies files to the output; missing ones are reported and fail the run in the end. -/
def concatenate (names : List Text) (files : Files) : ToolRun :=
  let complaint (name : Text) : Text :=
    if files.contains name then []
    else Text.ofString "cat: " ++ name ++ Text.ofString ": No such file or directory\n"
  { files
    stdout := names.flatMap fun name => (files.find? name).getD []
    stderr := names.flatMap complaint
    failure := if names.all files.contains then none else some exitStatus }

def notFound (program : Text) : Failure :=
  if program = [] then .plain "exec: no command"
  else .plain (Text.ofString "exec: " ++ Text.quoted program
    ++ Text.ofString ": executable file not found in $PATH")

/-- The programs that are known; a failure tells the command. -/
def known : Tools := fun argv _ files =>
  let program := argv.head?.getD []
  let run : ToolRun :=
    if program = Text.ofString "true" then { files }
    else if program = Text.ofString "false" then { files, failure := some exitStatus }
    else if program = Text.ofString "cat" then concatenate argv.tail files
    else { files, failure := some (notFound program) }
  { run with
    failure := run.failure.map fun e =>
      .during (Text.ofString "running " ++ Text.shellCommand argv) e }

end Tools
end SmallC
