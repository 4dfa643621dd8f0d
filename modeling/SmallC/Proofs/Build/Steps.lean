import SmallC.Proofs.Build.Stages

/-!
# The steps of a build

A file that a build has touched is removed again, is an intermediate and will be removed, or is a product that
the options ask to keep. Every step keeps this. The tools are arbitrary, as far as they keep to their outputs.
-/

namespace SmallC.Build

open Files (Same)

variable {first name product input : Text} {e : Failure}
variable {α β : Type} {setup : BuildSetup} {inputs : List Text} {w w' w'' : Workspace}
  {Q : α → Workspace → Prop} {E : Workspace → Prop}

/-! ## Products -/

/-- The code, assembly and objects of the inputs. -/
def Sibling (inputs : List Text) (name : Text) : Prop :=
  ∃ input ∈ inputs, ∃ letter ∈ Path.productLetters, Path.withExtension? input letter = some name

inductive Product (setup : BuildSetup) (inputs : List Text) : Text → Prop where
  | sibling {name : Text} : Sibling inputs name → Product setup inputs name
  | executable : setup.options.links = true → Product setup inputs setup.executable

/-- A build of `inputs` that starts with the workspace `w` comes to `input` with the workspace `u`. -/
inductive Comes (setup : BuildSetup) : List Text → Workspace → Text → Workspace → Prop where
  | here {input : Text} {rest : List Text} {w : Workspace} : Comes setup (input :: rest) w input w
  | later {first input : Text} {rest : List Text} {w w1 u : Workspace} {object : Option Text} :
      file setup first w = .ok object w1 → Comes setup rest w1 input u →
      Comes setup (first :: rest) w input u

/-- The products that stay next to their inputs, each made by a stage that has succeeded. -/
inductive Stays (setup : BuildSetup) (inputs : List Text) (w : Workspace) : Text → Prop where
  | code {input name : Text} {u u' : Workspace} : setup.options.assemblyOnly = true →
      Comes setup inputs w input u → compile setup input u = .ok name u' →
      Path.withExtension? input 'q' = some name → Stays setup inputs w name
  | assembly {input name : Text} {u u' : Workspace} : setup.options.assemblyOnly = true →
      Comes setup inputs w input u → file setup input u = .ok none u' →
      Path.withExtension? input 's' = some name → Stays setup inputs w name
  | object {input name : Text} {u u' : Workspace} : setup.options.assemblyOnly = false →
      setup.options.compileOnly = true → Comes setup inputs w input u →
      file setup input u = .ok (some name) u' →
      Path.withExtension? input 'o' = some name → Stays setup inputs w name

inductive Kept (setup : BuildSetup) (inputs : List Text) (w : Workspace) : Text → Prop where
  | stays {name : Text} : Stays setup inputs w name → Kept setup inputs w name
  | linked {objects : List (Option Text)} {u u' : Workspace} : setup.options.links = true →
      inputs.mapM (file setup) w = .ok objects u →
      link setup (objects.filterMap id) u = .ok () u' → Kept setup inputs w setup.executable

/-! ## Steps -/

/-- How a workspace may have changed before the intermediates are removed. -/
structure Leads (touched kept : Text → Prop) (w w' : Workspace) : Prop where
  others : ∀ name, (∀ product, touched product → ¬ Same name product) →
    w'.files.find? name = w.files.find? name
  entered : ∃ more, w'.intermediates = w.intermediates ++ more ∧ ∀ name ∈ more, touched name
  removable : w.files.refusedRemoval = [] → w'.files.refusedRemoval = []
  fate : w.files.refusedRemoval = [] → ∀ name,
    w'.files.find? name = w.files.find? name ∨ w'.files.find? name = none
      ∨ (∃ product ∈ w'.intermediates, Same name product)
      ∨ ∃ product, kept product ∧ Same name product

namespace Leads

variable {touched kept : Text → Prop}

lemma refl (w : Workspace) : Leads touched kept w w :=
  ⟨fun _ _ => rfl, ⟨[], by rw [List.append_nil], nofun⟩, id, fun _ _ => .inl rfl⟩

lemma trans (h : Leads touched kept w w') (h' : Leads touched kept w' w'') :
    Leads touched kept w w'' := by
  obtain ⟨more, grown, mine⟩ := h.entered
  obtain ⟨more', grown', mine'⟩ := h'.entered
  refine ⟨fun name other => (h'.others name other).trans (h.others name other),
    ⟨more ++ more', ?_, ?_⟩, fun none => h'.removable (h.removable none), fun none name => ?_⟩
  · rw [grown', grown, List.append_assoc]
  · intro name mem
    exact (List.mem_append.mp mem).elim (mine name) (mine' name)
  · rcases h'.fate (h.removable none) name with same | later
    · rcases h.fate none name with same' | gone | ⟨product, mem, same'⟩ | stays
      · exact .inl (same.trans same')
      · exact .inr (.inl (same.trans gone))
      · refine .inr (.inr (.inl ⟨product, ?_, same'⟩))
        rw [grown']
        exact List.mem_append_left _ mem
      · exact .inr (.inr (.inr stays))
    · exact .inr later

lemma mono {touched' kept' : Text → Prop} (h : Leads touched kept w w')
    (more : ∀ name, touched name → touched' name) (keeps : ∀ name, kept name → kept' name) :
    Leads touched' kept' w w' where
  others name other := h.others name fun product mine => other product (more product mine)
  entered := by
    obtain ⟨names, grown, mine⟩ := h.entered
    exact ⟨names, grown, fun name mem => more name (mine name mem)⟩
  removable := h.removable
  fate none name := (h.fate none name).imp_right (.imp_right (.imp_right fun ⟨product, mine, same⟩ =>
    ⟨product, keeps product mine, same⟩))

lemma of_spared (h : Spared (Same · product) w w') (mine : touched product)
    (fate : w.files.refusedRemoval = [] →
      w'.files.find? product = w.files.find? product ∨ w'.files.find? product = none
        ∨ kept product) : Leads touched kept w w' where
  others name other := h.others name (other product mine)
  entered := ⟨[], by rw [h.intermediates, List.append_nil], nofun⟩
  removable := h.removable
  fate none name := by
    by_cases same : Same name product
    · rw [same.find?, same.find?]
      rcases fate none with unchanged | gone | stays
      · exact .inl unchanged
      · exact .inr (.inl gone)
      · exact .inr (.inr (.inr ⟨product, stays, same⟩))
    · exact .inl (h.others name same)

lemma of_cleared (h : Cleared product w w') (mine : touched product) : Leads touched kept w w' := by
  refine of_spared h.toSpared mine fun none => ?_
  rcases h.unmade none with gone | unchanged
  · exact .inr (.inl gone)
  · exact .inl unchanged

lemma of_unmade {product? : Option Text} (h : Unmade product? w w')
    (mine : ∀ product, product? = some product → touched product) : Leads touched kept w w' := by
  cases product? with
  | none =>
    have h : Spared (fun _ => False) w w' := h
    exact ⟨fun name _ => h.others name id, ⟨[], by rw [h.intermediates, List.append_nil], nofun⟩,
      h.removable, fun _ name => .inl (h.others name id)⟩
  | some product => exact of_cleared h (mine product rfl)

lemma of_entered (h : Spared (Same · product) w w') (mine : touched product) :
    Leads touched kept w { w' with intermediates := w'.intermediates ++ [product] } where
  others name other := h.others name (other product mine)
  entered := ⟨[product], by rw [h.intermediates], by simpa using mine⟩
  removable := h.removable
  fate _ name := by
    by_cases same : Same name product
    · exact .inr (.inr (.inl ⟨product, by simp, same⟩))
    · exact .inl (h.others name same)

end Leads

lemma ends_bind_of_ok {x : Build β} {f : β → Build α} {b : β} (run : x w = .ok b w') :
    Ends (x >>= f) w Q E ↔ Ends (f b) w' Q E := by
  have eq : (x >>= f) w = EStateM.bind x f w := rfl
  unfold Ends
  rw [eq, EStateM.bind, run]

lemma ends_bind_of_error {x : Build β} {f : β → Build α} (run : x w = .error e w') :
    Ends (x >>= f) w Q E ↔ E w' := by
  have eq : (x >>= f) w = EStateM.bind x f w := rfl
  unfold Ends
  rw [eq, EStateM.bind, run]

lemma Ends.of_ok {x : Build α} {a : α} (h : Ends x w Q E) (run : x w = .ok a w') : Q a w' := by
  unfold Ends at h
  rwa [run] at h

lemma Ends.of_error {x : Build α} (h : Ends x w Q E) (run : x w = .error e w') : E w' := by
  unfold Ends at h
  rwa [run] at h

lemma ends_addIntermediate {f : Unit → Build α} : Ends (addIntermediate name >>= f) w Q E ↔
      Ends (f ()) { w with intermediates := w.intermediates ++ [name] } Q E := Iff.rfl

lemma Leads.stage {kept : Text → Prop} {x : Build Text} {f : Text → Build α} {letter : Char}
    (sofar : Leads (Sibling inputs) kept w w') (mem : input ∈ inputs)
    (letter_mem : letter ∈ Path.productLetters) (makes : Makes (Path.withExtension? input letter) x)
    (next : ∀ name w1, x w' = .ok name w1 → Path.withExtension? input letter = some name →
      Spared (Same · name) w' w1 → Ends (f name) w1 Q (Leads (Sibling inputs) kept w)) :
    Ends (x >>= f) w' Q (Leads (Sibling inputs) kept w) := by
  cases run : x w' with
  | error e w1 =>
    rw [ends_bind_of_error run]
    exact sofar.trans (.of_unmade ((makes w').of_error run)
      fun _ named => ⟨input, mem, letter, letter_mem, named⟩)
  | ok name w1 =>
    rw [ends_bind_of_ok run]
    obtain ⟨named, made⟩ := (makes w').of_ok run
    exact next name w1 run named made

lemma file_leads_assembly (confined : setup.Confined) (stops : setup.options.assemblyOnly = true)
    (input : Text) (w : Workspace) :
    Ends (file setup input) w (fun _ => Leads (Sibling [input]) (Stays setup [input] w) w)
      (Leads (Sibling [input]) (Stays setup [input] w) w) := by
  have unassembled : setup.options.assembles = false := by simp [BuildOptions.assembles, stops]
  have steps : file setup input = compile setup input >>= fun code =>
      makeAssembly setup code >>= fun _ => pure none := by
    unfold file
    simp [unassembled]
  have self : input ∈ [input] := List.mem_singleton.mpr rfl
  rw [steps]
  refine (Leads.refl w).stage self (by decide) (compile_makes confined input) ?_
  intro code w1 compiled code_named code_made
  have first : Leads (Sibling [input]) (Stays setup [input] w) w w1 :=
    .of_spared code_made ⟨input, self, _, by decide, code_named⟩
      fun _ => .inr (.inr (.code stops .here compiled code_named))
  have makes := makeAssembly_makes confined code
  rw [Path.withExtension?_product (by decide) code_named] at makes
  refine first.stage self (by decide) makes ?_
  intro assembly w2 assembled named made
  have done : file setup input w = .ok none w2 := by
    rw [steps]
    simp [compiled, assembled]
  exact first.trans (.of_spared made ⟨input, self, _, by decide, named⟩
    fun _ => .inr (.inr (.assembly stops .here done named)))

/-- One input of a build that assembles: its code and its assembly are intermediates, and so is its
object if it is linked. -/
lemma file_leads_object (confined : setup.Confined) (goes_on : setup.options.assemblyOnly = false)
    (input : Text) (w : Workspace) :
    Ends (file setup input) w (fun _ => Leads (Sibling [input]) (Stays setup [input] w) w)
      (Leads (Sibling [input]) (Stays setup [input] w) w) := by
  have assembles : setup.options.assembles = true := by simp [BuildOptions.assembles, goes_on]
  have steps : file setup input = (do
      let code ← compile setup input
      addIntermediate code
      let assembly ← makeAssembly setup code
      addIntermediate assembly
      let object ← makeObject setup assembly
      if setup.options.links then addIntermediate object
      return some object) := by
    unfold file
    simp [assembles]
  have self : input ∈ [input] := List.mem_singleton.mpr rfl
  rw [steps]
  refine (Leads.refl w).stage self (by decide) (compile_makes confined input) ?_
  intro code w1 compiled code_named code_made
  rw [ends_addIntermediate]
  have first : Leads (Sibling [input]) (Stays setup [input] w) w _ :=
    .of_entered code_made ⟨input, self, _, by decide, code_named⟩
  have makes := makeAssembly_makes confined code
  rw [Path.withExtension?_product (by decide) code_named] at makes
  refine first.stage self (by decide) makes ?_
  intro assembly w2 assembled assembly_named assembly_made
  rw [ends_addIntermediate]
  have second := first.trans (.of_entered assembly_made ⟨input, self, _, by decide, assembly_named⟩)
  have makes := makeObject_makes confined assembly
  rw [Path.withExtension?_product (by decide) assembly_named] at makes
  refine second.stage self (by decide) makes ?_
  intro object w3 run named made
  have object_mine : Sibling [input] object := ⟨input, self, _, by decide, named⟩
  by_cases links : setup.options.links
  · simp only [links, if_true]
    rw [ends_addIntermediate]
    exact second.trans (.of_entered made object_mine)
  · have compileOnly : setup.options.compileOnly = true := by
      simpa [BuildOptions.links, goes_on] using links
    simp only [links]
    have done : file setup input w = .ok (some object) w3 := by
      rw [steps]
      simp only [bind_eq_ok, links]
      exact ⟨code, w1, compiled, (), _, rfl, assembly, w2, assembled, (), _, rfl, object, w3, run, rfl⟩
    exact second.trans (.of_spared made object_mine
      fun _ => .inr (.inr (.object goes_on compileOnly .here done named)))

theorem file_leads (confined : setup.Confined) :
    Ends (file setup input) w (fun _ => Leads (Sibling [input]) (Stays setup [input] w) w)
      (Leads (Sibling [input]) (Stays setup [input] w) w) := by
  cases stops : setup.options.assemblyOnly with
  | true => exact file_leads_assembly confined stops input w
  | false => exact file_leads_object confined stops input w

lemma Stays.later {rest : List Text} {object : Option Text} (run : file setup first w = .ok object w')
    (h : Stays setup rest w' name) : Stays setup (first :: rest) w name := by
  cases h with
  | code stops comes made named => exact .code stops (.later run comes) made named
  | assembly stops comes made named => exact .assembly stops (.later run comes) made named
  | object goes_on stops comes made named =>
    exact .object goes_on stops (.later run comes) made named

lemma Stays.of_first {rest : List Text} (h : Stays setup [first] w name) :
    Stays setup (first :: rest) w name := by
  have reaches : ∀ {input u}, Comes setup [first] w input u → Comes setup (first :: rest) w input u := by
    intro input u comes
    cases comes with
    | here => exact .here
    | later _ never => cases never
  cases h with
  | code stops comes made named => exact .code stops (reaches comes) made named
  | assembly stops comes made named => exact .assembly stops (reaches comes) made named
  | object goes_on stops comes made named => exact .object goes_on stops (reaches comes) made named

lemma Sibling.mono {inputs' : List Text} (h : Sibling inputs name) (more : inputs ⊆ inputs') :
    Sibling inputs' name := by
  obtain ⟨input, mem, rest⟩ := h
  exact ⟨input, more mem, rest⟩

theorem files_lead (confined : setup.Confined) (inputs : List Text) (w : Workspace) :
    Ends (inputs.mapM (file setup)) w (fun _ => Leads (Sibling inputs) (Stays setup inputs w) w)
      (Leads (Sibling inputs) (Stays setup inputs w) w) := by
  induction inputs generalizing w with
  | nil => exact Leads.refl w
  | cons first rest ih =>
    have widen : ∀ {w1}, Leads (Sibling [first]) (Stays setup [first] w) w w1 →
        Leads (Sibling (first :: rest)) (Stays setup (first :: rest) w) w w1 :=
      fun h => h.mono (fun _ sibling => sibling.mono (by simp)) fun _ stays => stays.of_first
    rw [List.mapM_cons]
    cases run : file setup first w with
    | error e w1 =>
      rw [ends_bind_of_error run]
      exact widen ((file_leads confined).of_error run)
    | ok object w1 =>
      rw [ends_bind_of_ok run]
      have head := widen ((file_leads confined).of_ok run)
      have onward : ∀ {w2}, Leads (Sibling rest) (Stays setup rest w1) w1 w2 →
          Leads (Sibling (first :: rest)) (Stays setup (first :: rest) w) w w2 :=
        fun h => head.trans (h.mono (fun _ sibling => sibling.mono (by simp))
          fun _ stays => stays.later run)
      exact ((ih w1).mono (fun _ _ => onward) fun _ => onward).bind fun _ _ lead => lead

/-- All steps of a build, however they end. -/
theorem steps_lead (confined : setup.Confined) (inputs : List Text) (w : Workspace) :
    Ends (steps setup inputs) w (fun _ => Leads (Product setup inputs) (Kept setup inputs w) w)
      (Leads (Product setup inputs) (Kept setup inputs w) w) := by
  have widen : ∀ {u}, Leads (Sibling inputs) (Stays setup inputs w) w u →
      Leads (Product setup inputs) (Kept setup inputs w) w u :=
    fun h => h.mono (fun _ => .sibling) fun _ => .stays
  unfold steps
  cases made : inputs.mapM (file setup) w with
  | error e u =>
    rw [ends_bind_of_error made]
    exact widen ((files_lead confined inputs w).of_error made)
  | ok objects u =>
    rw [ends_bind_of_ok made]
    have sofar := widen ((files_lead confined inputs w).of_ok made)
    by_cases links : setup.options.links
    · rw [if_pos links]
      have executable : Product setup inputs setup.executable := .executable links
      cases linked : link setup (objects.filterMap id) u with
      | error e u' =>
        unfold Ends
        rw [linked]
        exact sofar.trans (.of_cleared ((ends_link confined _).of_error linked) executable)
      | ok _ u' =>
        unfold Ends
        rw [linked]
        exact sofar.trans (.of_spared ((ends_link confined _).of_ok linked) executable
          fun _ => .inr (.inr (.linked links made linked)))
    · rw [if_neg links]
      exact sofar

end SmallC.Build
