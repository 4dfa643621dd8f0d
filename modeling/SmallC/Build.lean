import SmallC.Build.Event
import SmallC.Build.Tools
import SmallC.Preprocess
import SmallC.Session
import SmallC.Toolchain

/-!
# Builds

Each input is preprocessed and compiled, its code becomes assembly and then an object, and in the
end all objects are linked; the options say where to stop. Products lie next to the input, with
another suffix. The first failure ends a build. What a failed step has left is removed at once,
and the intermediates when the build is over.
-/

namespace SmallC

structure BuildOptions where
  /-- Stop after assembling and keep the objects. -/
  compileOnly : Bool := false
  /-- Stop before assembling and keep code and assembly. -/
  assemblyOnly : Bool := false
  listTrees : Bool := false
  listSymbols : Bool := false
  /-- The executable; if empty, the toolchain names it. -/
  output : Text := []
  deriving DecidableEq, Repr

def BuildOptions.links (o : BuildOptions) : Bool := !o.compileOnly && !o.assemblyOnly

def BuildOptions.assembles (o : BuildOptions) : Bool := !o.assemblyOnly

structure BuildSetup where
  tools : Tools
  toolchain : Toolchain
  options : BuildOptions := {}

structure Workspace where
  files : Files
  /-- Files to remove when the build is over. -/
  intermediates : List Text := []
  /-- In the order they happened. -/
  events : List Event := []
  listing : Text := []

def Workspace.note (w : Workspace) (e : Event) : Workspace := { w with events := w.events ++ [e] }

def Workspace.calls (w : Workspace) : List (List Text) :=
  w.events.filterMap fun
    | .running argv => some argv
    | _ => none

abbrev Build := EStateM Failure Workspace

namespace Build

def note (e : Event) : Build Unit := modify (·.note e)

def addIntermediate (file : Text) : Build Unit :=
  modify fun w => { w with intermediates := w.intermediates ++ [file] }

def removePartial (file : Text) : Build Unit := do
  match (← get).files.remove file with
  | .ok files => modify fun w => { w with files }
  | .error e => note (.partialKept file e)

def call (setup : BuildSetup) (argv : List Text) (capture : Bool) :
    Build (Except Failure Text) := do
  note (.running argv)
  let run := setup.tools argv capture (← get).files
  modify fun w => { w with files := run.files }
  if run.stderr ≠ [] then note (.printed run.stderr)
  match run.failure with
  | some e => return .error e
  | none => return .ok run.stdout

/-- Runs a program that makes `output`; `work` says what has failed if it fails. -/
def produce (setup : BuildSetup) (argv : List Text) (output work : Text) : Build Unit := do
  match ← call setup argv false with
  | .error e =>
    removePartial output
    throw (.during work e)
  | .ok _ =>
    match (← get).files.find? output with
    | some content => note (.wrote output content.length)
    | none => return

def orFail {α : Type} : Except Failure α → Build α
  | .ok a => return a
  | .error e => throw e

def product (file : Text) (letter : Char) (hint : String) : Build Text :=
  match Path.withExtension? file letter with
  | some name => return name
  | none =>
    throw (.plain (file ++ Text.ofString " has no suffix, try " ++ Text.ofString hint
      ++ Text.ofString " on the end"))

def preprocess (setup : BuildSetup) (file : Text) : Build Text := do
  let unable := Text.ofString "Unable to open " ++ file
  if setup.toolchain.isBuiltin then
    match Preprocess.file (← get).files setup.toolchain.headerDirs file [] with
    | .ok source _ => return source
    | .error e _ => throw (.during unable e)
  else
    let argv ← orFail (setup.toolchain.preprocessArgs file)
    match ← call setup argv true with
    | .ok source => return source
    | .error e => throw (.during unable e)

/-- Compiles a file; the code is written next to it. -/
def compile (setup : BuildSetup) (file : Text) : Build Text := do
  let code ← product file 'q' ".c"
  note (.compiling file)
  let source ← preprocess setup file
  let compiled := SmallC.compile source file
  let trees := if setup.options.listTrees then compiled.treeListing else []
  let symbols := if setup.options.listSymbols then compiled.symbolListing else []
  modify fun w => { w with listing := w.listing ++ trees ++ symbols }
  match compiled.outcome with
  | .error d =>
    removePartial code
    throw (.diagnostic d)
  | .ok ir =>
    match (← get).files.write code ir with
    | .error e =>
      removePartial code
      throw (.during (Text.ofString "Unable to create " ++ code) e)
    | .ok files =>
      modify fun w => { w with files }
      note (.wrote code ir.length)
      return code

def makeAssembly (setup : BuildSetup) (code : Text) : Build Text := do
  let assembly ← product code 's' ".qbe"
  let argv ← orFail (setup.toolchain.backendArgs assembly code)
  produce setup argv assembly
    (Text.ofString "QBE translation of " ++ code ++ Text.ofString " failed")
  return assembly

def makeObject (setup : BuildSetup) (assembly : Text) : Build Text := do
  let object ← product assembly 'o' ".s"
  let argv ← orFail (setup.toolchain.assembleArgs object assembly)
  produce setup argv object (Text.ofString "Assembly of " ++ assembly ++ Text.ofString " failed")
  return object

def link (setup : BuildSetup) (objects : List Text) : Build Unit := do
  let asked := setup.options.output
  let output := if asked = [] then setup.toolchain.output else asked
  let argv ← orFail (setup.toolchain.linkArgs output objects)
  produce setup argv output "Linking failed"

/-- Takes one file as far as the options ask; the object, if one is made. -/
def file (setup : BuildSetup) (input : Text) : Build (Option Text) := do
  let code ← compile setup input
  if setup.options.assembles then addIntermediate code
  let assembly ← makeAssembly setup code
  if setup.options.assembles then
    addIntermediate assembly
    let object ← makeObject setup assembly
    if setup.options.links then addIntermediate object
    return some object
  else return none

/-- All steps, with the intermediates left. -/
def steps (setup : BuildSetup) (inputs : List Text) : Build Unit := do
  let objects ← inputs.mapM (file setup)
  if setup.options.links then link setup (objects.filterMap id)

/-- Removes a list of files; what could not be removed. -/
def removeAll : List Text → Workspace → List Failure × Workspace
  | [], w => ([], w)
  | name :: rest, w =>
    let w := w.note (.removing name)
    match w.files.remove name with
    | .ok files => removeAll rest { w with files }
    | .error e =>
      let (failures, w) := removeAll rest w
      (.during (Text.ofString "removing " ++ name) e :: failures, w)

def cleanup (w : Workspace) : List Failure × Workspace :=
  removeAll w.intermediates { w with intermediates := [] }

/-- Builds the inputs. Intermediates that cannot be removed fail a build that has succeeded so
far. -/
def run (setup : BuildSetup) (inputs : List Text) : Build Unit := fun w =>
  if inputs.isEmpty then .error (.plain "no input files") w
  else match steps setup inputs w with
    | .ok _ w =>
      match cleanup w with
      | ([], w) => .ok () w
      | (failures, w) => .error (.several failures) w
    | .error e w =>
      match cleanup w with
      | ([], w) => .error e w
      | (failures, w) => .error e (w.note (.cleanupFailed (.several failures)))

end Build
end SmallC
