import SmallC.Proofs.Build.Steps

/-!
# What a build leaves

When a build is over, no intermediate is left; what is new among the files is what the options ask to keep. An
input is not touched unless it ends like a product or is the executable. One that does is its own product, and
a build that links removes it in the end.
-/

namespace SmallC.Build

open Files (Same)

variable {first input name : Text} (rest names : List Text) {e : Failure}
variable {setup : BuildSetup} {inputs : List Text} {w w' u : Workspace}

/-! ## Removing the intermediates -/

lemma removeAll_cons_of_ok {files : Files} (removal : w.files.remove first = .ok files) :
    removeAll (first :: rest) w = removeAll rest { w.note (.removing first) with files } := by
  simp only [removeAll, Workspace.note, removal]

lemma removeAll_cons_of_error (removal : w.files.remove first = .error e) :
    ∃ failure, removeAll (first :: rest) w
      = (failure :: (removeAll rest (w.note (.removing first))).1,
        (removeAll rest (w.note (.removing first))).2) := by
  simp only [removeAll, Workspace.note, removal]
  exact ⟨_, rfl⟩

lemma removeAll_spared (w : Workspace) :
    Spared (fun name => ∃ removed ∈ names, Same name removed) w (removeAll names w).2 := by
  induction names generalizing w with
  | nil => exact .refl w
  | cons first rest ih =>
    have later : ∀ w1, Spared (fun name => ∃ removed ∈ first :: rest, Same name removed) w1
        (removeAll rest w1).2 :=
      fun w1 => (ih w1).weaken fun _ ⟨removed, mem, same⟩ =>
        ⟨removed, List.mem_cons_of_mem _ mem, same⟩
    cases removal : w.files.remove first with
    | ok files =>
      rw [removeAll_cons_of_ok rest removal]
      obtain rfl := Files.remove_eq_ok removal
      have dropped : Spared (fun name => ∃ removed ∈ first :: rest, Same name removed) w
          { w.note (.removing first) with files := w.files.drop first } := by
        refine ⟨fun name other => ?_, rfl, id⟩
        exact Files.find?_drop_of_not_same fun same => other ⟨first, List.mem_cons_self, same⟩
      exact dropped.trans (later _)
    | error e =>
      obtain ⟨failure, eq⟩ := removeAll_cons_of_error rest removal
      have refused : Spared (fun name => ∃ removed ∈ first :: rest, Same name removed) w
          (w.note (.removing first)) := .of_files_eq rfl rfl
      rw [eq]
      exact refused.trans (later _)

lemma removeAll_gone (w : Workspace) (ok : (removeAll names w).1 = []) :
    ∀ name ∈ names, (removeAll names w).2.files.find? name = none := by
  induction names generalizing w with
  | nil => exact nofun
  | cons first rest ih =>
    cases removal : w.files.remove first with
    | error e =>
      obtain ⟨failure, eq⟩ := removeAll_cons_of_error rest removal
      rw [eq] at ok
      cases ok
    | ok files =>
      rw [removeAll_cons_of_ok rest removal] at ok ⊢
      obtain rfl := Files.remove_eq_ok removal
      intro name mem
      by_cases again : ∃ removed ∈ rest, Same name removed
      · obtain ⟨removed, mem, same⟩ := again
        rw [same.find?]
        exact ih _ ok removed mem
      · have is_first : name = first :=
          (List.mem_cons.mp mem).resolve_right fun mem => again ⟨name, mem, rfl⟩
        rw [(removeAll_spared rest _).others name again, is_first]
        exact Files.find?_drop_self first

lemma removeAll_ok (free : w.files.refusedRemoval = []) : (removeAll names w).1 = [] := by
  induction names generalizing w with
  | nil => rfl
  | cons first rest ih =>
    rw [removeAll_cons_of_ok rest (Files.remove_of_refused_nil free first)]
    exact ih free

def after (setup : BuildSetup) (inputs : List Text) (w : Workspace) : Workspace :=
  match run setup inputs w with
  | .ok _ w' => w'
  | .error _ w' => w'

lemma after_of_ok (nonempty : inputs ≠ []) (ended : steps setup inputs w = .ok () u) :
    after setup inputs w = (cleanup u).2 := by
  have some_input : inputs.isEmpty = false := by simpa using nonempty
  unfold after run
  simp only [some_input, ended]
  cases cleaned : cleanup u with
  | mk failures u' =>
    cases failures with
    | nil => rfl
    | cons _ _ => rfl

lemma after_of_error (nonempty : inputs ≠ []) (ended : steps setup inputs w = .error e u) :
    (after setup inputs w).files = (cleanup u).2.files
      ∧ (after setup inputs w).intermediates = (cleanup u).2.intermediates := by
  have some_input : inputs.isEmpty = false := by simpa using nonempty
  unfold after run
  simp only [some_input, ended]
  cases cleaned : cleanup u with
  | mk failures u' =>
    cases failures with
    | nil => exact ⟨rfl, rfl⟩
    | cons _ _ => exact ⟨rfl, rfl⟩

lemma after_cleanup {P : Workspace → Prop} (nonempty : inputs ≠ [])
    (h : Ends (steps setup inputs) w (fun _ => P) P) :
    ∃ u, P u ∧ (after setup inputs w).files = (cleanup u).2.files
      ∧ (after setup inputs w).intermediates = [] := by
  have emptied : ∀ u, (cleanup u).2.intermediates = [] :=
    fun u => (removeAll_spared u.intermediates { u with intermediates := [] }).intermediates
  cases ended : steps setup inputs w with
  | ok _ u =>
    have eq := after_of_ok nonempty ended
    exact ⟨u, h.of_ok ended, by rw [eq], by rw [eq, emptied]⟩
  | error e u =>
    obtain ⟨files, intermediates⟩ := after_of_error nonempty ended
    exact ⟨u, h.of_error ended, files, intermediates.trans (emptied u)⟩

lemma after_of_no_input (w : Workspace) : after setup [] w = w := rfl

lemma cleanup_others (h : ∀ removed ∈ u.intermediates, ¬ Same name removed) :
    (cleanup u).2.files.find? name = u.files.find? name :=
  (removeAll_spared u.intermediates { u with intermediates := [] }).others name
    fun ⟨removed, mem, same⟩ => h removed mem same

lemma cleanup_gone (ok : (cleanup u).1 = []) {removed : Text} (mem : removed ∈ u.intermediates)
    (same : Same name removed) : (cleanup u).2.files.find? name = none := by
  rw [same.find?]
  exact removeAll_gone u.intermediates { u with intermediates := [] } ok removed mem

lemma after_others (confined : setup.Confined) (clean : w.intermediates = [])
    (other : ∀ product, Product setup inputs product → ¬ Same name product) :
    (after setup inputs w).files.find? name = w.files.find? name := by
  by_cases nonempty : inputs = []
  · rw [nonempty, after_of_no_input]
  · obtain ⟨u, leads, files, -⟩ := after_cleanup nonempty (steps_lead confined inputs w)
    obtain ⟨more, grown, mine⟩ := leads.entered
    rw [files, cleanup_others, leads.others name other]
    intro removed mem
    rw [grown, clean, List.nil_append] at mem
    exact other removed (mine removed mem)

/-- What a build leaves: files that are no products are as they were, what is new is kept, and the
list of intermediates is empty. -/
theorem after_leaves (confined : setup.Confined) (free : w.files.refusedRemoval = [])
    (clean : w.intermediates = []) (inputs : List Text) :
    (∀ name, (∀ product, Product setup inputs product → ¬ Same name product) →
        (after setup inputs w).files.find? name = w.files.find? name)
      ∧ (∀ name content, (after setup inputs w).files.find? name = some content →
          w.files.find? name ≠ some content →
          ∃ product, Kept setup inputs w product ∧ Same name product)
      ∧ (after setup inputs w).intermediates = [] := by
  refine ⟨fun name other => after_others confined clean other, ?_⟩
  by_cases nonempty : inputs = []
  · subst nonempty
    rw [after_of_no_input]
    exact ⟨fun _ _ found new => absurd found new, clean⟩
  · obtain ⟨u, leads, files, emptied⟩ := after_cleanup nonempty (steps_lead confined inputs w)
    refine ⟨fun name content found new => ?_, emptied⟩
    have left : ∀ removed ∈ u.intermediates, ¬ Same name removed := by
      intro removed mem same
      have ok : (cleanup u).1 = [] :=
        removeAll_ok (w := { u with intermediates := [] }) u.intermediates (leads.removable free)
      rw [files, cleanup_gone ok mem same] at found
      cases found
    rw [files, cleanup_others left] at found
    rcases leads.fate free name with unchanged | gone | ⟨removed, mem, same⟩ | kept
    · exact absurd (unchanged ▸ found) new
    · rw [gone] at found
      cases found
    · exact absurd same (left removed mem)
    · exact kept

/-! ## Names like those of products -/

def EndsLikeProduct (name : Text) : Prop :=
  ∃ letter ∈ Path.productLetters,
    Path.extension (Files.pathOf name) = Text.ofChars ['.', letter]

instance (name : Text) : Decidable (EndsLikeProduct name) :=
  List.decidableBEx _ Path.productLetters

lemma EndsLikeProduct.of_same_sibling {product : Text} (h : Sibling inputs product) (same : Same name product)
    : EndsLikeProduct name := by
  obtain ⟨input, -, letter, letter_mem, named⟩ := h
  have again : Path.withExtension? product letter = some product :=
    (Path.withExtension?_product letter_mem named letter).trans named
  refine ⟨letter, letter_mem, ?_⟩
  rw [show Files.pathOf name = Files.pathOf product from same, Path.extension_pathOf again,
    Path.extension_product letter_mem named]

lemma EndsLikeProduct.sibling_self {letter : Char} (h : EndsLikeProduct input) (mem : input ∈ inputs)
    (named : Path.withExtension? input letter = some name) : Sibling inputs input := by
  obtain ⟨own, own_mem, ends⟩ := h
  rw [Path.extension_pathOf named] at ends
  exact ⟨input, mem, own, own_mem, Path.withExtension?_self own_mem ends⟩

/-! ## Programs that write their name -/

/-- Programs that write their name to the third word of the command; one whose output is wanted
shows its last word. -/
def stamps : Tools
  | argv, true, fs => { files := fs, stdout := ((argv.getLast?.bind fs.find?).getD []) }
  | program :: _ :: output :: _, false, fs => { files := fs.put output program }
  | _, false, fs => { files := fs }

def stamping (options : BuildOptions) : BuildSetup where
  tools := stamps
  toolchain :=
    { preprocessor := "cpp", includeDir := "", backend := "qbe -o", assembler := "as -o"
      linker := "ld -o", output := "/out/a.out" }
  options := options

lemma stamps_spares {program flag output : Text} {rest : List Text} :
    stamps.Spares (program :: flag :: output :: rest) false (¬ Same · output) :=
  fun _ => ⟨fun _ other => Files.find?_put_of_not_same other program, id⟩

lemma stamping_confined (options : BuildOptions) : (stamping options).Confined where
  preprocessor _ _ := ⟨fun _ _ => rfl, id⟩
  backend args := by
    obtain rfl := Except.ok.inj args
    exact stamps_spares
  assembler args := by
    obtain rfl := Except.ok.inj args
    exact stamps_spares
  linker args := by
    obtain rfl := Except.ok.inj args
    exact stamps_spares

/-- Two sources, the second of which does not compile. -/
def twoSources : Workspace :=
  { files := .ofList .memory [("/src/a.c", "int f() { return 1; }"), ("/src/b.c", "int g(")] }

/-- The object of the first input stays although the build fails at the second. -/
theorem after_leaves_object :
    ((stamping { compileOnly := true }).Confined ∧ twoSources.files.refusedRemoval = []
      ∧ twoSources.intermediates = [])
    ∧ (after (stamping { compileOnly := true }) ["/src/a.c", "/src/b.c"] twoSources).files.find?
        "/src/b.c" = some "int g("
    ∧ (∃ product, Kept (stamping { compileOnly := true }) ["/src/a.c", "/src/b.c"] twoSources product
      ∧ Same "/src/a.o" product)
    ∧ (after (stamping { compileOnly := true }) ["/src/a.c", "/src/b.c"] twoSources).intermediates
      = [] := by
  obtain ⟨others, new, emptied⟩ := after_leaves (stamping_confined { compileOnly := true })
    (w := twoSources) rfl rfl ["/src/a.c", "/src/b.c"]
  refine ⟨⟨stamping_confined _, rfl, rfl⟩, ?_, ?_, emptied⟩
  · rw [others]
    · rfl
    · intro product mine same
      cases mine with
      | sibling sibling =>
        exact absurd (EndsLikeProduct.of_same_sibling sibling same) (by decide +kernel)
      | executable links => cases links
  · refine new "/src/a.o" "as" ?_ ?_
    · decide +kernel
    · decide +kernel

/-! ## Inputs and the executable -/

lemma file_enters (confined : setup.Confined) (links : setup.options.links = true) {object? : Option Text}
    (run : file setup input w = .ok object? w') :
    ∀ letter ∈ Path.productLetters, ∃ name ∈ w'.intermediates,
      Path.withExtension? input letter = some name := by
  have assembles : setup.options.assembles = true := by
    simp only [BuildOptions.links, Bool.and_eq_true] at links
    exact links.2
  unfold file at run
  simp only [assembles, links, if_true, bind_eq_ok, pure_eq_ok] at run
  obtain ⟨code, w1, compiled, _, w2, entered, assembly, w3, assembled, _, w4, entered', object, w5,
    made, _, w6, entered'', -, rfl⟩ := run
  obtain ⟨code_named, -⟩ := (compile_makes confined input w).of_ok compiled
  obtain ⟨assembly_named, third⟩ := (makeAssembly_makes confined code w2).of_ok assembled
  obtain ⟨object_named, fifth⟩ := (makeObject_makes confined assembly w4).of_ok made
  rw [Path.withExtension?_product (by decide) code_named] at assembly_named
  rw [Path.withExtension?_product (by decide) assembly_named] at object_named
  obtain rfl : { w1 with intermediates := w1.intermediates ++ [code] } = w2 :=
    (EStateM.Result.ok.inj entered).2
  obtain rfl : { w3 with intermediates := w3.intermediates ++ [assembly] } = w4 :=
    (EStateM.Result.ok.inj entered').2
  obtain rfl : { w5 with intermediates := w5.intermediates ++ [object] } = w' :=
    (EStateM.Result.ok.inj entered'').2
  have list : w5.intermediates ++ [object] = w1.intermediates ++ [code] ++ [assembly] ++ [object] := by
    rw [fifth.intermediates, third.intermediates]
  intro letter mem
  have which : letter = 'q' ∨ letter = 's' ∨ letter = 'o' := by
    simpa [Path.productLetters] using mem
  change ∃ name ∈ w5.intermediates ++ [object], _
  rw [list]
  rcases which with rfl | rfl | rfl
  · exact ⟨code, by simp, code_named⟩
  · exact ⟨assembly, by simp, assembly_named⟩
  · exact ⟨object, by simp, object_named⟩

lemma files_enter (confined : setup.Confined) (links : setup.options.links = true)
    {objects : List (Option Text)} (run : inputs.mapM (file setup) w = .ok objects w') :
    ∀ input ∈ inputs, ∀ letter ∈ Path.productLetters, ∃ name ∈ w'.intermediates,
      Path.withExtension? input letter = some name := by
  induction inputs generalizing w objects with
  | nil => exact nofun
  | cons first rest ih =>
    rw [List.mapM_cons] at run
    simp only [bind_eq_ok, pure_eq_ok] at run
    obtain ⟨object, w1, head, others, w2, tail, -, rfl⟩ := run
    intro input mem letter letter_mem
    rcases List.mem_cons.mp mem with rfl | mem
    · obtain ⟨name, name_mem, named⟩ := file_enters confined links head letter letter_mem
      obtain ⟨more, grown, -⟩ := ((files_lead confined rest w1).of_ok tail).entered
      exact ⟨name, grown ▸ List.mem_append_left _ name_mem, named⟩
    · exact ih tail input mem letter letter_mem

lemma exists_of_run_ok (ran : run setup inputs w = .ok () w') :
    ∃ u, steps setup inputs w = .ok () u ∧ cleanup u = ([], w') := by
  unfold run at ran
  split at ran
  · cases ran
  · cases ended : steps setup inputs w with
    | error e u =>
      rw [ended] at ran
      cases cleaned : cleanup u with
      | mk failures u' =>
        simp only [cleaned] at ran
        cases failures with
        | nil => cases ran
        | cons _ _ => cases ran
    | ok _ u =>
      rw [ended] at ran
      refine ⟨u, rfl, ?_⟩
      cases cleaned : cleanup u with
      | mk failures u' =>
        simp only [cleaned] at ran
        cases failures with
        | nil => rw [(EStateM.Result.ok.inj ran).2]
        | cons _ _ => cases ran

/-- What becomes of the inputs and of the executable. An input that neither ends like a product nor
is the executable is as it was, however the build ends. After a build that has linked, the inputs
that end like products are gone, and what the linker has left as the executable is there unless a
product of an input has its name. -/
theorem after_inputs (confined : setup.Confined) (clean : w.intermediates = [])
    (inputs : List Text) :
    (∀ input ∈ inputs, ¬ EndsLikeProduct input →
        (setup.options.links = true → ¬ Same input setup.executable) →
        (after setup inputs w).files.find? input = w.files.find? input)
      ∧ ∀ w', run setup inputs w = .ok () w' → setup.options.links = true →
        (∀ input ∈ inputs, EndsLikeProduct input → w'.files.find? input = none)
          ∧ ∃ objects u u', inputs.mapM (file setup) w = .ok objects u
            ∧ link setup (objects.filterMap id) u = .ok () u'
            ∧ ((∃ product, Sibling inputs product ∧ Same setup.executable product) →
              w'.files.find? setup.executable = none)
            ∧ ((∀ product, Sibling inputs product → ¬ Same setup.executable product) →
              w'.files.find? setup.executable = u'.files.find? setup.executable) := by
  constructor
  · intro input _ plain apart
    refine after_others confined clean fun product mine same => ?_
    cases mine with
    | sibling sibling => exact plain (.of_same_sibling sibling same)
    | executable links => exact apart links same
  · intro w' ran links
    obtain ⟨u', ended, cleaned⟩ := exists_of_run_ok ran
    unfold steps at ended
    rw [bind_eq_ok] at ended
    obtain ⟨objects, u, made, linked⟩ := ended
    rw [if_pos links] at linked
    have listed : u'.intermediates = u.intermediates :=
      ((ends_link confined _).of_ok linked).intermediates
    have gone : ∀ name product, Sibling inputs product → Same name product →
        w'.files.find? name = none := by
      rintro name product ⟨input, mem, letter, letter_mem, named⟩ same
      obtain ⟨name', mem', named'⟩ := files_enter confined links made input mem letter letter_mem
      obtain rfl : product = name' := Option.some.inj (named.symm.trans named')
      have := cleanup_gone (by rw [cleaned]) (listed ▸ mem') same
      rwa [cleaned] at this
    refine ⟨?_, objects, u, u', made, linked, ?_, ?_⟩
    · intro input mem ends
      obtain ⟨_, -, named⟩ := files_enter confined links made input mem 'q' (by decide)
      exact gone input input (ends.sibling_self mem named) rfl
    · rintro ⟨product, sibling, same⟩
      exact gone _ product sibling same
    · intro apart
      obtain ⟨more, grown, mine⟩ := ((files_lead confined inputs w).of_ok made).entered
      have kept : (cleanup u').2.files.find? setup.executable
          = u'.files.find? setup.executable := by
        refine cleanup_others fun removed mem => ?_
        rw [listed, grown, clean, List.nil_append] at mem
        exact apart removed (mine removed mem)
      rwa [cleaned] at kept

def Succeeds (setup : BuildSetup) (inputs : List Text) (w : Workspace) : Bool :=
  match run setup inputs w with
  | .ok _ _ => true
  | .error _ _ => false

lemma Succeeds.run_eq (h : Succeeds setup inputs w = true) :
    run setup inputs w = .ok () (after setup inputs w) := by
  unfold Succeeds at h
  unfold after
  cases ended : run setup inputs w with
  | ok _ _ => rfl
  | error _ _ =>
    rw [ended] at h
    cases h

def oneSource (name : Text) : Workspace :=
  { files := .ofList .memory [(name, "int main() { return 0; }")] }

/-- The source `x.c` is kept, and `a.out` is what the linker has written. -/
theorem after_inputs_plain :
    ((stamping {}).Confined ∧ (oneSource "/src/x.c").intermediates = [])
    ∧ (after (stamping {}) ["/src/x.c"] (oneSource "/src/x.c")).files.find? "/src/x.c"
      = some "int main() { return 0; }"
    ∧ ∃ objects u u', link (stamping {}) objects u = .ok () u'
      ∧ (after (stamping {}) ["/src/x.c"] (oneSource "/src/x.c")).files.find? "/out/a.out"
        = u'.files.find? "/out/a.out" := by
  obtain ⟨spared, linked⟩ := after_inputs (stamping_confined {}) (w := oneSource "/src/x.c") rfl
    ["/src/x.c"]
  refine ⟨⟨stamping_confined _, rfl⟩, ?_, ?_⟩
  · rw [spared "/src/x.c" (List.mem_singleton.mpr rfl) (by decide +kernel) (by decide +kernel)]
    rfl
  · obtain ⟨-, objects, u, u', made, link_ok, -, same⟩ := linked _
      (Succeeds.run_eq (by decide +kernel)) rfl
    refine ⟨_, u, u', link_ok, same fun product sibling shared => ?_⟩
    exact absurd (EndsLikeProduct.of_same_sibling sibling shared) (by decide +kernel)

/-- A source called `x.q` is removed by a build that succeeds, and so is the executable `x.o` of
`x.c` that was asked for. -/
theorem after_loses :
    (oneSource "/src/x.q").files.find? "/src/x.q" = some "int main() { return 0; }"
    ∧ (after (stamping {}) ["/src/x.q"] (oneSource "/src/x.q")).files.find? "/src/x.q" = none
    ∧ Succeeds (stamping { output := "/src/x.o" }) ["/src/x.c"] (oneSource "/src/x.c") = true
    ∧ (after (stamping { output := "/src/x.o" }) ["/src/x.c"] (oneSource "/src/x.c")).files.find?
      "/src/x.o" = none := by
  decide +kernel

end SmallC.Build
