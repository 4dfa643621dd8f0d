import SmallC.Build
import SmallC.Flags
import SmallC.Toolchain.Settings

/-!
# The command

The whole command as a function of its arguments, the files and the tools: what it prints, its
exit status, and the files afterwards.
-/

namespace SmallC

structure Outcome where
  status : UInt32 := 0
  stdout : Text := []
  stderr : Text := []
  files : Files

namespace Command

def usageLines : List String := [
  "Usage:",
  "  qbecc [-vcSTM] [-o outfile] file... [flags]",
  "",
  "Flags:",
  "  -S, --assembly        generate assembly files but don't link them",
  "  -c, --compile         generate object files but don't link them",
  "      --config string   YAML file overriding the toolchain commands",
  "  -T, --dump-ast        dump the AST trees for each input file",
  "  -M, --dump-symbols    dump the symbol table for each input file",
  "  -h, --help            help for qbecc",
  "  -o, --output string   produce the outfile executable file",
  "  -v, --verbose         give verbose output of the compilation stages"]

def usage : Text := usageLines.flatMap fun l => Text.ofString l ++ Text.ofString "\n"

def help : Text :=
  Text.ofString "Compile C-like source files to QBE IR and build them\n\n" ++ usage

def newline : Text := ['\n'.toUInt8]

def misused (files : Files) (message : Text) : Outcome :=
  { status := 1, stderr := message ++ newline ++ usage, files }

def options (flags : Flags) : BuildOptions where
  compileOnly := flags.compile
  assemblyOnly := flags.assembly
  listTrees := flags.listTrees
  listSymbols := flags.listSymbols
  output := flags.output

def toolchain (files : Files) (flags : Flags) : Toolchain × Option Failure :=
  if flags.config = [] then (Toolchain.default, none) else Toolchain.load files flags.config

def build (tools : Tools) (files : Files) (flags : Flags) : Outcome :=
  let (toolchain, failure) := toolchain files flags
  match failure with
  | some e => { status := 1, stderr := e.shown ++ newline, files }
  | none =>
    let setup := { tools, toolchain, options := options flags }
    let log (w : Workspace) : Text := w.events.flatMap (Event.render flags.verbose)
    match Build.run setup flags.args { files } with
    | .ok _ w => { stdout := w.listing, stderr := log w, files := w.files }
    | .error e w =>
      { status := 1, stdout := w.listing, stderr := log w ++ e.shown ++ newline, files := w.files }

def run (tools : Tools) (files : Files) (args : List Text) : Outcome :=
  match Flags.parse Flag.all args with
  | (_, some fault) => misused files fault.message
  | (flags, none) =>
    if flags.help then { stdout := help, files }
    else match flags.missingArgs? with
      | some message => misused files message
      | none => build tools files flags

/-- The names of files that the command may read, as far as the files at hand tell. -/
def wanted (files : Files) (args : List Text) : List Text :=
  match Flags.parse Flag.all args with
  | (_, some _) => []
  | (flags, none) =>
    let dirs := (toolchain files flags).1.headerDirs
    let headers := files.toList.flatMap fun f => Preprocess.mentioned dirs f.2 f.1
    (if flags.config = [] then [] else [flags.config]) ++ flags.args ++ headers

end Command
end SmallC
