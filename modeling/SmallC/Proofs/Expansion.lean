import SmallC.Proofs.Macro

/-!
# How deep an expansion nests

The names that are hidden in an expansion are made explicit here, and the work that it may do is
bounded: a text is scanned in as many steps as it has bytes, and expansions nest as deep as there
are macros to hide. Within these bounds every expansion ends, whatever the macros refer to.
-/

namespace SmallC

variable {depth steps : Nat}

namespace Macros

variable {ms : Macros} {w : Text} {hidden : List Text}

/-- The names that are defined. -/
def names (ms : Macros) : Finset Text := (ms.map (·.1)).toFinset

/-- The macros that are left when some names are hidden. -/
def hide (ms : Macros) (hidden : List Text) : Macros := ms.filter fun m => m.1 ∉ hidden

lemma hide_nil (ms : Macros) : ms.hide [] = ms := by simp [hide]

lemma erase_hide (ms : Macros) (w : Text) (hidden : List Text) :
    (ms.hide hidden).erase w = ms.hide (w :: hidden) := by
  simp only [erase, hide, List.filter_filter, List.mem_cons, not_or]
  exact List.filter_congr fun m _ => by simp

lemma find?_hide (ms : Macros) (hidden : List Text) (w : Text) :
    (ms.hide hidden).find? w = if w ∈ hidden then none else ms.find? w := by
  unfold hide find?
  induction ms with
  | nil => simp
  | cons m ms ih => grind

lemma exists_deeper {m : Macro} (found : ms.find? w = some m) (deep : ms.names.card ≤ depth) :
    ∃ d, depth = d + 1 ∧ (ms.erase w).names.card ≤ d := by
  obtain ⟨before, after, split, -⟩ := List.lookup_eq_some_iff.mp found
  have mem : w ∈ ms.names := by simp [names, split]
  have erased : (ms.erase w).names = ms.names.erase w := by
    ext name
    simp [names, erase, and_comm]
  have fewer := Finset.card_erase_lt_of_mem mem
  rw [← erased] at fewer
  exact ⟨depth - 1, by omega, by omega⟩

end Macros

/-- The expansion of a text with some names hidden, as far as it takes at most `steps` steps of the
scan and nests at most `depth` deep. A nested expansion hides one more name, and has a step for each
byte of its text. -/
def expandWithin (ms : Macros) (depth : Nat) (hidden : List Text) (steps : Nat) (t : Text) :
    Option Text :=
  match steps, t with
  | _, [] => some []
  | 0, _ :: _ => none
  | steps + 1, b :: rest =>
    let goOn (sofar next : Text) := (expandWithin ms depth hidden steps next).map (sofar ++ ·)
    let replace (w text next : Text) : Option Text :=
      match depth with
      | 0 => none
      | depth + 1 => do
        let inside ← expandWithin ms depth (w :: hidden) text.length text
        goOn inside next
    if b = Byte.slash && rest.head? = some Byte.slash then some (b :: rest)
    else
      match splitPiece b rest with
      | (.word w, after) =>
        match if w ∈ hidden then none else ms.find? w with
        | none => goOn w after
        | some m =>
          match m.params with
          | none => replace w m.body after
          | some params =>
            match macroArgs after with
            | some (args, next) =>
              if fits params args then replace w (substitute params args m.body) next
              else goOn w after
            | none => goOn w after
      | (p, after) => goOn p.text after
termination_by (depth, steps)

/-- A scan of a text that is not empty takes a step, and a piece leaves what the others can do. -/
lemma exists_step {b : UInt8} {rest : Text} (room : (b :: rest).length ≤ steps) :
    ∃ k, steps = k + 1 ∧ ∀ {p after}, splitPiece b rest = (p, after) → after.length ≤ k := by
  obtain ⟨k, rfl⟩ := Nat.exists_eq_add_of_le' (Nat.one_le_of_lt room)
  refine ⟨k, rfl, fun {p after} split => ?_⟩
  have := splitPiece_length_le b rest
  rw [split] at this
  exact this.trans (Nat.le_of_succ_le_succ room)

/-- What `depth` has to bound are the names that are not hidden yet. -/
lemma expandWithin_eq (ms : Macros) {visible : Macros} {hidden : List Text} {t : Text}
    (left : visible = ms.hide hidden) (deep : visible.names.card ≤ depth) (room : t.length ≤ steps) :
    expandWithin ms depth hidden steps t = some (expand visible t) := by
  fun_induction expand visible t generalizing depth steps hidden with
  | case1 => cases steps <;> simp [expandWithin]
  | case2 visible b rest comment =>
    obtain ⟨k, rfl, -⟩ := exists_step room
    simp [expandWithin, comment]
  | case3 visible b rest comment w after split undefined ih =>
    obtain ⟨k, rfl, short⟩ := exists_step room
    rw [left, Macros.find?_hide] at undefined
    simp [expandWithin, comment, split, undefined, ih left deep (short split)]
  | case4 visible b rest comment w after split m found object inside ih =>
    obtain ⟨k, rfl, short⟩ := exists_step room
    obtain ⟨d, rfl, fewer⟩ := Macros.exists_deeper found deep
    have nested := inside (left ▸ Macros.erase_hide ms w hidden) fewer (Nat.le_refl _)
    rw [left, Macros.find?_hide] at found
    simp [expandWithin, comment, split, found, object, nested, ih left deep (short split)]
  | case5 visible b rest comment w after split m found params function bare ih =>
    obtain ⟨k, rfl, short⟩ := exists_step room
    rw [left, Macros.find?_hide] at found
    simp [expandWithin, comment, split, found, function, bare, ih left deep (short split)]
  | case6 visible b rest comment w after split m found params function args next taken fit inside
      ih =>
    obtain ⟨k, rfl, short⟩ := exists_step room
    obtain ⟨d, rfl, fewer⟩ := Macros.exists_deeper found deep
    have nested := inside (left ▸ Macros.erase_hide ms w hidden) fewer (Nat.le_refl _)
    have rest := ih left deep ((macroArgs_length_lt taken).le.trans (short split))
    rw [left, Macros.find?_hide] at found
    simp [expandWithin, comment, split, found, function, taken, fit, nested, rest]
  | case7 visible b rest comment w after split m found params function args next taken unfit ih =>
    obtain ⟨k, rfl, short⟩ := exists_step room
    rw [left, Macros.find?_hide] at found
    simp [expandWithin, comment, split, found, function, taken, unfit, ih left deep (short split)]
  | case8 visible b rest comment p after other split ih =>
    obtain ⟨k, rfl, short⟩ := exists_step room
    cases p with
    | word w => exact absurd rfl (other w)
    | _ => simp [expandWithin, comment, split, ih left deep (short split)]

/-- Every expansion ends: a text is scanned in at most as many steps as it has bytes, nested ones
as well, and they nest at most as deep as there are macros, each of them hiding one more. -/
theorem expand_within (ms : Macros) (t : Text) :
    expandWithin ms ms.names.card [] t.length t = some (expand ms t) :=
  expandWithin_eq ms (Macros.hide_nil ms).symm (Nat.le_refl _) (Nat.le_refl _)

end SmallC
