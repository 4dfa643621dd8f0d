import SmallC.Failure
import SmallC.Text.Shell

/-!
# Toolchain

The commands that a build runs. A command is a text that is split as a shell would; a build
appends file names to it.
-/

namespace SmallC

structure Toolchain where
  /-- The preprocessor, or `builtin` for the one at hand. -/
  preprocessor : Text
  /-- Where system headers are. -/
  includeDir : Text
  /-- Makes assembly code; the output and the input follow. -/
  backend : Text
  /-- Makes an object; the output and the input follow. -/
  assembler : Text
  /-- Makes an executable; the output and the objects follow. -/
  linker : Text
  /-- The name of the executable if no other is asked for. -/
  output : Text
  deriving DecidableEq, Repr

namespace Toolchain

def default : Toolchain where
  preprocessor := "cpp -nostdinc -isystem"
  includeDir := "/tmp/include"
  backend := "qbe -o"
  assembler := "as -g -o"
  linker := "cc -g -no-pie -o"
  output := "a.out"

def isBuiltin (tc : Toolchain) : Bool := tc.preprocessor = Text.ofString "builtin"

/-- Where headers are looked up besides the directory of the file that asks for them. -/
def headerDirs (tc : Toolchain) : List Text := if tc.includeDir = [] then [] else [tc.includeDir]

/-! ## Commands -/

/-- The words of a command that is called `name` in messages. -/
def words (name : String) (command : Text) : Except Failure (List Text) :=
  match Text.shellWords command with
  | .error e =>
    .error (.during (Text.ofString "bad " ++ Text.ofString name ++ Text.ofString " command "
      ++ Text.quoted command) (.plain e.message))
  | .ok [] =>
    .error (.plain (Text.ofString "no " ++ Text.ofString name
      ++ Text.ofString " command configured"))
  | .ok ws => .ok ws

def preprocessArgs (tc : Toolchain) (file : Text) : Except Failure (List Text) := do
  return (← words "cpp" tc.preprocessor) ++ tc.headerDirs ++ [file]

def backendArgs (tc : Toolchain) (output input : Text) : Except Failure (List Text) := do
  return (← words "qbe" tc.backend) ++ [output, input]

def assembleArgs (tc : Toolchain) (output input : Text) : Except Failure (List Text) := do
  return (← words "as" tc.assembler) ++ [output, input]

def linkArgs (tc : Toolchain) (output : Text) (objects : List Text) :
    Except Failure (List Text) := do
  return (← words "link" tc.linker) ++ output :: objects

end Toolchain
end SmallC
