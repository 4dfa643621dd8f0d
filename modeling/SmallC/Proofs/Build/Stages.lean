import SmallC.Build
import SmallC.Proofs.Files
import SmallC.Proofs.Outcome

/-!
# What a stage of a build touches

A stage makes one file. Where the tools keep to the output they are given, it touches no other file,
and if it fails it leaves nothing of that one, unless it had not begun to make it. The list of
intermediates is not changed by a stage: entering a file there is a step of its own.
-/

namespace SmallC

open Files (Same)

/-! ## Tools -/

/-- Running the program leaves the files in `spared` as they are, and no removal is refused after
it if none was before. -/
def Tools.Spares (tools : Tools) (argv : List Text) (capture : Bool) (spared : Text → Prop) : Prop :=
  ∀ fs, (∀ name, spared name → (tools argv capture fs).files.find? name = fs.find? name)
    ∧ (fs.refusedRemoval = [] → (tools argv capture fs).files.refusedRemoval = [])

/-- Every tool touches no file but the output it is given; the preprocessor is given none. -/
structure BuildSetup.Confined (setup : BuildSetup) : Prop where
  preprocessor {file : Text} {argv : List Text} :
    setup.toolchain.preprocessArgs file = .ok argv → setup.tools.Spares argv true fun _ => True
  backend {output input : Text} {argv : List Text} :
    setup.toolchain.backendArgs output input = .ok argv →
      setup.tools.Spares argv false (¬ Same · output)
  assembler {output input : Text} {argv : List Text} :
    setup.toolchain.assembleArgs output input = .ok argv →
      setup.tools.Spares argv false (¬ Same · output)
  linker {output : Text} {objects argv : List Text} :
    setup.toolchain.linkArgs output objects = .ok argv →
      setup.tools.Spares argv false (¬ Same · output)

def BuildSetup.executable (setup : BuildSetup) : Text :=
  if setup.options.output = [] then setup.toolchain.output else setup.options.output

namespace Build

variable {α β : Type} {setup : BuildSetup} {w w' w'' : Workspace} {argv : List Text} {name : Text}

/-! ## Touching one file -/

/-- What became of a workspace when at most the files of `touched` changed. -/
structure Spared (touched : Text → Prop) (w w' : Workspace) : Prop where
  others : ∀ name, ¬ touched name → w'.files.find? name = w.files.find? name
  intermediates : w'.intermediates = w.intermediates
  removable : w.files.refusedRemoval = [] → w'.files.refusedRemoval = []

namespace Spared

variable {touched : Text → Prop}

lemma refl (w : Workspace) : Spared touched w w := ⟨fun _ _ => rfl, rfl, id⟩

lemma trans (h : Spared touched w w') (h' : Spared touched w' w'') : Spared touched w w'' where
  others name other := (h'.others name other).trans (h.others name other)
  intermediates := h'.intermediates.trans h.intermediates
  removable none := h'.removable (h.removable none)

lemma weaken {touched' : Text → Prop} (h : Spared touched w w')
    (more : ∀ name, touched name → touched' name) : Spared touched' w w' :=
  ⟨fun name other => h.others name (other ∘ more name), h.intermediates, h.removable⟩

lemma of_files_eq (files : w'.files = w.files) (intermediates : w'.intermediates = w.intermediates) :
    Spared touched w w' :=
  ⟨fun _ _ => by rw [files], intermediates, fun none => by rw [files, none]⟩

end Spared

/-- What holds however a step of a build ends. -/
def Ends (x : Build α) (w : Workspace) (Q : α → Workspace → Prop) (E : Workspace → Prop) : Prop :=
  match x w with
  | .ok a w' => Q a w'
  | .error _ w' => E w'

variable {Q : α → Workspace → Prop} {E : Workspace → Prop}

lemma Ends.bind {x : Build β} {f : β → Build α} {P : β → Workspace → Prop} (hx : Ends x w P E)
    (hf : ∀ b w1, P b w1 → Ends (f b) w1 Q E) : Ends (x >>= f) w Q E := by
  unfold Ends at hx ⊢
  change match EStateM.bind x f w with | .ok a w' => Q a w' | .error _ w' => E w'
  unfold EStateM.bind
  cases run : x w with
  | ok b w1 =>
    rw [run] at hx
    exact hf b w1 hx
  | error e w1 =>
    rw [run] at hx
    exact hx

lemma Ends.mono {x : Build α} {P : α → Workspace → Prop} {F : Workspace → Prop} (hx : Ends x w P F)
    (h : ∀ a w', P a w' → Q a w') (he : ∀ w', F w' → E w') : Ends x w Q E := by
  unfold Ends at hx ⊢
  cases run : x w with
  | ok a w' =>
    rw [run] at hx
    exact h a w' hx
  | error e w' =>
    rw [run] at hx
    exact he w' hx

@[simp] lemma ends_pure {a : α} : Ends (pure a) w Q E ↔ Q a w := Iff.rfl

@[simp] lemma ends_throw {e : Failure} : Ends (throw e : Build α) w Q E ↔ E w := Iff.rfl

@[simp] lemma ends_get {f : Workspace → Build α} :
    Ends ((get : Build Workspace) >>= f) w Q E ↔ Ends (f w) w Q E := Iff.rfl

@[simp] lemma ends_modify {g : Workspace → Workspace} {f : PUnit → Build α} :
    Ends ((modify g : Build PUnit) >>= f) w Q E ↔ Ends (f ⟨⟩) (g w) Q E := Iff.rfl

@[simp] lemma ends_note {event : Event} {f : Unit → Build α} :
    Ends (note event >>= f) w Q E ↔ Ends (f ()) (w.note event) Q E := Iff.rfl

/-! ## Stages -/

structure Cleared (name : Text) (w w' : Workspace) : Prop extends Spared (Same · name) w w' where
  unmade : w.files.refusedRemoval = [] →
    w'.files.find? name = none ∨ w'.files.find? name = w.files.find? name

/-- What a failed stage leaves: nothing has changed before its output has a name. -/
def Unmade : Option Text → Workspace → Workspace → Prop
  | none => Spared fun _ => False
  | some name => Cleared name

/-- `x` makes the file `name?` and nothing else. -/
def Makes (name? : Option Text) (x : Build Text) : Prop :=
  ∀ w, Ends x w (fun name w' => name? = some name ∧ Spared (Same · name) w w') (Unmade name? w)

lemma Cleared.of_spared (h : Spared (fun _ => False) w w') : Cleared name w w' where
  toSpared := h.weaken fun _ never => never.elim
  unmade _ := .inr (h.others name id)

lemma Unmade.of_spared {name? : Option Text} (h : Spared (fun _ => False) w w') :
    Unmade name? w w' := by
  cases name? with
  | none => exact h
  | some name => exact Cleared.of_spared h

lemma ends_removePartial : Ends (removePartial name) w
      (fun _ w' => Spared (Same · name) w w'
        ∧ (w.files.refusedRemoval = [] → w'.files.find? name = none)) E := by
  unfold removePartial
  rw [ends_get]
  cases removal : w.files.remove name with
  | ok files =>
    obtain rfl := Files.remove_eq_ok removal
    exact ⟨⟨fun _ => Files.find?_drop_of_not_same, rfl, id⟩, fun _ => Files.find?_drop_self name⟩
  | error e =>
    refine ⟨.of_files_eq rfl rfl, fun none => ?_⟩
    rw [Files.remove_of_refused_nil none] at removal
    cases removal

lemma ends_call {capture : Bool} {spared : Text → Prop} (h : setup.tools.Spares argv capture spared) :
    Ends (call setup argv capture) w (fun _ w' => Spared (¬ spared ·) w w') E := by
  obtain ⟨others, removable⟩ := h w.files
  have ran : ∀ w', w'.files = (setup.tools argv capture w.files).files →
      w'.intermediates = w.intermediates → Spared (¬ spared ·) w w' := by
    intro w' files intermediates
    refine ⟨fun name other => ?_, intermediates, ?_⟩
    · rw [files]
      exact others name (not_not.mp other)
    · rw [files]
      exact removable
  unfold call
  have noted : (w.note (.running argv)).files = w.files := rfl
  simp only [ends_note, ends_get, ends_modify, noted]
  by_cases printed : (setup.tools argv capture w.files).stderr = []
  · rw [if_neg (not_not.mpr printed)]
    cases (setup.tools argv capture w.files).failure with
    | none => exact ran _ rfl rfl
    | some e => exact ran _ rfl rfl
  · rw [if_pos printed, ends_note]
    cases (setup.tools argv capture w.files).failure with
    | none => exact ran _ rfl rfl
    | some e => exact ran _ rfl rfl

lemma ends_produce {output : Text} (h : setup.tools.Spares argv false (¬ Same · output)) {work : Text} :
    Ends (produce setup argv output work) w (fun _ w' => Spared (Same · output) w w')
      (Cleared output w) := by
  unfold produce
  refine (ends_call h).bind ?_
  intro outcome w1 ran
  have ran : Spared (Same · output) w w1 := ran.weaken fun _ same => not_not.mp same
  cases outcome with
  | error e =>
    refine ends_removePartial.bind ?_
    rintro - w2 ⟨removed, gone⟩
    exact ⟨ran.trans removed, fun none => .inl (gone (ran.removable none))⟩
  | ok _ =>
    rw [ends_get]
    cases w1.files.find? output with
    | none => exact ran
    | some content => exact ran.trans (.of_files_eq rfl rfl)

lemma ends_orFail {x : Except Failure β} {f : β → Build α} :
    Ends (orFail x >>= f) w Q E ↔ (∀ b, x = .ok b → Ends (f b) w Q E) ∧ (∀ e, x = .error e → E w) := by
  cases x with
  | ok b => exact ⟨fun h => ⟨fun _ eq => Except.ok.inj eq ▸ h, nofun⟩, fun h => h.1 b rfl⟩
  | error e => exact ⟨fun h => ⟨nofun, fun _ _ => h⟩, fun h => h.2 e rfl⟩

lemma ends_product {file : Text} {letter : Char} {hint : String} {f : Text → Build α} :
    Ends (product file letter hint >>= f) w Q E ↔
      (∀ name, Path.withExtension? file letter = some name → Ends (f name) w Q E)
        ∧ (Path.withExtension? file letter = none → E w) := by
  unfold product
  cases Path.withExtension? file letter with
  | none => exact ⟨fun h => ⟨nofun, fun _ => h⟩, fun h => h.2 rfl⟩
  | some name => exact ⟨fun h => ⟨fun _ eq => Option.some.inj eq ▸ h, nofun⟩, fun h => h.1 name rfl⟩

section
variable (confined : setup.Confined) (file : Text)
include confined

lemma ends_preprocess : Ends (preprocess setup file) w (fun _ => Spared (fun _ => False) w)
      (Spared (fun _ => False) w) := by
  unfold preprocess
  by_cases builtin : setup.toolchain.isBuiltin
  · simp only [builtin, if_true, ends_get]
    cases Preprocess.file w.files setup.toolchain.headerDirs file [] with
    | ok source _ => exact Spared.refl w
    | error e _ => exact Spared.refl w
  · simp only [builtin]
    refine ends_orFail.mpr ⟨fun argv args => ?_, fun _ _ => Spared.refl w⟩
    refine (ends_call (confined.preprocessor args)).bind ?_
    intro outcome w1 ran
    have ran : Spared (fun _ => False) w w1 := ran.weaken fun _ never => never trivial
    cases outcome with
    | ok source => exact ran
    | error e => exact ran

theorem compile_makes : Makes (Path.withExtension? file 'q') (compile setup file) := by
  intro w
  unfold compile
  refine ends_product.mpr ⟨fun code named => ?_, fun unnamed => ?_⟩
  swap
  · exact .of_spared (.refl w)
  rw [ends_note, named]
  have noted : Spared (fun _ => False) w (w.note (.compiling file)) := .of_files_eq rfl rfl
  refine ((ends_preprocess confined file).mono (fun _ _ h => noted.trans h)
    fun _ h => Cleared.of_spared (noted.trans h)).bind ?_
  intro source w1 read
  rw [ends_modify]
  -- listing does not touch the files
  generalize listed_eq : { w1 with listing := _ } = w2
  have listed : Spared (Same · code) w w2 :=
    (read.trans (listed_eq ▸ .of_files_eq rfl rfl)).weaken fun _ never => never.elim
  have removed : ∀ failure : Failure, Ends (do removePartial code; throw failure : Build Text) w2
        (fun name w' => some code = some name ∧ Spared (Same · name) w w') (Cleared code w) := by
    intro failure
    refine ends_removePartial.bind ?_
    rintro - w3 ⟨removed, gone⟩
    exact ⟨listed.trans removed, fun none => .inl (gone (listed.removable none))⟩
  cases (SmallC.compile source file).outcome with
  | error d => exact removed _
  | ok ir =>
    rw [ends_get]
    cases written : w2.files.write code ir with
    | error e => exact removed _
    | ok files =>
      obtain rfl := Files.write_eq_ok written
      refine ⟨rfl, listed.trans ⟨fun name other => ?_, rfl, id⟩⟩
      exact Files.find?_put_of_not_same other ir

theorem makeAssembly_makes (code : Text) :
    Makes (Path.withExtension? code 's') (makeAssembly setup code) := by
  intro w
  unfold makeAssembly
  refine ends_product.mpr ⟨fun assembly named => ?_, fun _ => .of_spared (.refl w)⟩
  refine ends_orFail.mpr ⟨fun argv args => ?_, fun _ _ => .of_spared (.refl w)⟩
  rw [named]
  refine (ends_produce (confined.backend args)).bind ?_
  intro _ w1 made
  exact ⟨rfl, made⟩

theorem makeObject_makes (assembly : Text) :
    Makes (Path.withExtension? assembly 'o') (makeObject setup assembly) := by
  intro w
  unfold makeObject
  refine ends_product.mpr ⟨fun object named => ?_, fun _ => .of_spared (.refl w)⟩
  refine ends_orFail.mpr ⟨fun argv args => ?_, fun _ _ => .of_spared (.refl w)⟩
  rw [named]
  refine (ends_produce (confined.assembler args)).bind ?_
  intro _ w1 made
  exact ⟨rfl, made⟩

theorem ends_link (objects : List Text) :
    Ends (link setup objects) w (fun _ w' => Spared (Same · setup.executable) w w')
      (Cleared setup.executable w) := by
  unfold link
  exact ends_orFail.mpr ⟨fun argv args => ends_produce (confined.linker args),
    fun _ _ => .of_spared (.refl w)⟩

end

end Build
end SmallC
