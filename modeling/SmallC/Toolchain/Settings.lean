import SmallC.Files
import SmallC.Toolchain
import SmallC.Yaml.Document

/-!
# Settings of a toolchain

A settings file is a YAML document that maps names to texts. The settings that it makes replace
the defaults. What is no text is passed over and told at the end; what cannot be read at all
ends the reading, and the settings made before it stay.
-/

namespace SmallC.Toolchain

/-! ## Faults -/

inductive SettingFault where
  /-- A node that is not what is `wanted`. -/
  | unsuitable (line : Nat) (tag : Yaml.Tag) (text : Text) (wanted : String)
  | repeatedKey (line : Nat) (key : Text) (first : Nat)
  /-- Two keys that are written differently name one setting. -/
  | repeatedSetting (line : Nat) (name : Text)
  deriving DecidableEq, Repr

/-- A text of more than ten bytes is shown by its first seven. -/
def excerpt (t : Text) : Text :=
  let shown := if t.length > 10 then t.take 7 ++ Text.ofString "..." else t
  Text.ofString " \x60" ++ shown ++ Text.ofString "\x60"

/-- What a text and what all settings together are called in messages. -/
def textName : String := "string"

def settingsName : String := "driver.Toolchain"

def SettingFault.message (f : SettingFault) : Text :=
  let told (line : Nat) (t : Text) :=
    Text.ofString "  line " ++ Text.ofNat line ++ Text.ofString ": " ++ t
  match f with
  | .unsuitable line tag text wanted =>
    let shown := if tag = Yaml.Tag.seq || tag = Yaml.Tag.map then [] else excerpt text
    told line (Text.ofString "cannot unmarshal " ++ tag ++ shown ++ Text.ofString " into "
      ++ Text.ofString wanted)
  | .repeatedKey line key first =>
    told line (Text.ofString "mapping key " ++ Text.quoted key
      ++ Text.ofString " already defined at line " ++ Text.ofNat first)
  | .repeatedSetting line name =>
    told line (Text.ofString "field " ++ name ++ Text.ofString " already set in type "
      ++ Text.ofString settingsName)

/-! ## Names -/

inductive Setting where
  | preprocessor
  | includeDir
  | backend
  | assembler
  | linker
  | output
  deriving DecidableEq, Repr

def Setting.ofName? (name : Text) : Option Setting :=
  [(Text.ofString "cpp", preprocessor), ("includeDir", includeDir), ("qbe", backend),
    ("as", assembler), ("link", linker), ("output", output)].lookup name

def set (tc : Toolchain) (value : Text) : Setting → Toolchain
  | .preprocessor => { tc with preprocessor := value }
  | .includeDir => { tc with includeDir := value }
  | .backend => { tc with backend := value }
  | .assembler => { tc with assembler := value }
  | .linker => { tc with linker := value }
  | .output => { tc with output := value }

/-! ## Applying a document -/

structure Progress where
  toolchain : Toolchain
  faults : List SettingFault := []
  deriving Repr

abbrev Apply := EStateM Yaml.Problem Progress

def note (f : SettingFault) : Apply Unit := modify fun p => { p with faults := p.faults ++ [f] }

/-- The keys that come again after an entry. -/
def repetitions : List (Yaml.Node × Yaml.Node) → List SettingFault
  | [] => []
  | (key, _) :: rest =>
    (rest.filter fun e => e.1.spelling = key.spelling).map
        (fun e => .repeatedKey e.1.line key.spelling.2 key.line)
      ++ repetitions rest

def notText (line : Nat) (tag : Yaml.Tag) : Apply (Option Text) := do
  note (.unsuitable line tag [] textName)
  return none

/-- The text of a node that is no reference; none if it is null or no text. -/
def textOf : Yaml.Node → Apply (Option Text)
  | .scalar _ tag text =>
    match Yaml.scalarText tag text with
    | .ok t => return t
    | .error p => throw p
  | .sequence line tag _ => notText line tag
  | .mapping line tag entries =>
    match repetitions entries with
    | [] => notText line tag
    | faults => do
      faults.forM note
      return none
  | .reference .. => return none

/-- The node that is meant by a node. -/
def target (d : Yaml.Document) : Yaml.Node → Yaml.Node
  | n@(.reference _ _ _ target) => d.anchored.getD target n
  | n => n

/-- The name that a key is known by when mappings are merged. -/
def mergeName? (d : Yaml.Document) (key : Yaml.Node) : Option Text :=
  match target d key with
  | .scalar _ tag text => if tag.isChecked then none else (Yaml.scalarText tag text).toOption.join
  | _ => none

structure Met where
  /-- The settings made by it. -/
  settings : List Setting := []
  /-- The names made known by it and, while mappings are merged, by those before it. -/
  names : Option (List Text) := none
  /-- The value of its merge key. -/
  merge : Option Yaml.Node := none

def applyEntry (d : Yaml.Document) (met : Met) (key value : Yaml.Node) : Apply Met := do
  if key.isMerge then return { met with merge := value }
  match ← textOf (target d key) with
  | none => return met
  | some name =>
    if (met.names.getD []).contains name then return met
    let met := { met with names := met.names.map (name :: ·) }
    match Setting.ofName? name with
    | none => return met
    | some setting =>
      if met.settings.contains setting then
        note (.repeatedSetting key.line name)
        return met
      if let some text ← textOf (target d value) then
        modify fun p => { p with toolchain := p.toolchain.set text setting }
      return { met with settings := setting :: met.settings }

def applyEntries (d : Yaml.Document) : Met → List (Yaml.Node × Yaml.Node) → Apply Met
  | met, [] => return met
  | met, (key, value) :: rest => do applyEntries d (← applyEntry d met key value) rest

/-- Makes the settings of a node, which should be a mapping. `names` are those that mappings merged
so far have made known, and `within` the references that led here; entries that are merged come
after the others. Gives the names known afterwards. -/
def applyNode (d : Yaml.Document) :
    (fuel : Nat) → (within : List Nat) → (names : Option (List Text)) → Yaml.Node →
      Apply (Option (List Text))
  | 0, _, names, _ => return names
  | fuel + 1, within, names, n => do
    match n with
    | .reference _ name number _ =>
      if within.contains number then throw (.cyclicAnchor name)
      applyNode d fuel (number :: within) names (target d n)
    | .scalar line tag text =>
      if (← textOf n).isSome then note (.unsuitable line tag text settingsName)
      return names
    | .sequence line tag _ =>
      note (.unsuitable line tag [] settingsName)
      return names
    | .mapping _ _ entries =>
      match repetitions entries with
      | [] =>
        let met ← applyEntries d { names } entries
        match met.merge with
        | none => return met.names
        | some m =>
          let operands := match m with
            | .sequence _ _ items => items
            | m => [m]
          let known := met.names.getD (entries.filterMap fun e => mergeName? d e.1)
          let known ← operands.foldlM (fun known operand => do
            if !(target d operand).isMapping then throw .mergeOperand
            applyNode d fuel within known operand) (some known)
          return if met.names.isSome then known else none
      | faults =>
        faults.forM note
        return names

/-- Makes the settings of a document. On the way into it every reference is passed once, and
between two of them nodes are nested less deeply than the document is large. -/
def applyDocument (d : Yaml.Document) : Apply Unit :=
  match d.root with
  | none => return
  | some root => discard (applyNode d ((d.references + 1) * (d.size + 1)) [] none root)

/-- Applies the settings in a text: the toolchain as far as it could be set, and what is wrong. -/
def configure (tc : Toolchain) (source : Text) : Toolchain × Option Failure :=
  match Yaml.Document.read source with
  | .error e => (tc, some (.plain e.message))
  | .ok document =>
    match applyDocument document { toolchain := tc } with
    | .error problem p => (p.toolchain, some (.plain (Yaml.Fault.message { problem })))
    | .ok _ { toolchain, faults := [] } => (toolchain, none)
    | .ok _ { toolchain, faults } =>
      let lines := Text.ofString "yaml: unmarshal errors:" :: faults.map SettingFault.message
      (toolchain, some (.plain (Text.joinWith "\n" lines)))

def load (files : Files) (path : Text) : Toolchain × Option Failure :=
  match files.read path with
  | .error e => (default, some (.during (Text.ofString "reading toolchain config " ++ path) e))
  | .ok source =>
    match default.configure source with
    | (tc, none) => (tc, none)
    | (tc, some e) => (tc, some (.during (Text.ofString "parsing toolchain config " ++ path) e))

end SmallC.Toolchain
