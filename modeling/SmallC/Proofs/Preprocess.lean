import SmallC.Preprocess
import SmallC.Proofs.LineMarker
import SmallC.Proofs.Macro
import SmallC.Proofs.Outcome

/-!
# Positions in preprocessed text

Whoever reads the output line by line, goes to where a marker points and to the next line otherwise, stands at
the line of the source that a text came from, in every file of the tree of includes. Macros that were defined
beforehand may not hold a newline; those that the files define cannot.
-/

namespace SmallC

open Byte (newline)

variable {n : Nat} {t : Text} {b : UInt8} {physical : List Text}

namespace Text

variable {b : UInt8} {part : Text}

lemma splitAt_ne_nil (b : UInt8) (t : Text) : splitAt b t ≠ [] := by
  cases t with
  | nil => exact List.cons_ne_nil _ _
  | cons a rest =>
    unfold splitAt
    split
    · exact List.cons_ne_nil _ _
    · split <;> exact List.cons_ne_nil _ _

lemma splitAt_cons_self (b : UInt8) (t : Text) : splitAt b (b :: t) = [] :: splitAt b t := by
  cases parts : splitAt b t with
  | nil => exact absurd parts (splitAt_ne_nil b t)
  | cons part parts' => simp [splitAt, parts]

lemma splitAt_cons_of_ne {a : UInt8} (h : a ≠ b) {parts : List Text} (rest : splitAt b t = part :: parts) :
    splitAt b (a :: t) = (a :: part) :: parts := by
  simp [splitAt, rest, h]

lemma splitAt_append (h : b ∉ part) (t : Text) : splitAt b (part ++ b :: t) = part :: splitAt b t := by
  induction part with
  | nil => exact splitAt_cons_self b t
  | cons a part ih =>
    rw [List.mem_cons, not_or] at h
    exact splitAt_cons_of_ne (Ne.symm h.1) (ih h.2)

lemma notMem_of_mem_splitAt (mem : part ∈ splitAt b t) : b ∉ part := by
  induction t generalizing part with
  | nil =>
    obtain rfl := List.mem_singleton.mp mem
    exact List.not_mem_nil
  | cons a t ih =>
    by_cases h : a = b
    · subst h
      rw [splitAt_cons_self] at mem
      rcases List.mem_cons.mp mem with rfl | mem
      · exact List.not_mem_nil
      · exact ih mem
    · obtain ⟨first, more, parts⟩ := List.exists_cons_of_ne_nil (splitAt_ne_nil b t)
      rw [splitAt_cons_of_ne h parts] at mem
      rw [parts] at ih
      rcases List.mem_cons.mp mem with rfl | mem
      · rw [List.mem_cons, not_or]
        exact ⟨Ne.symm h, ih List.mem_cons_self⟩
      · exact ih (List.mem_cons_of_mem _ mem)

lemma newline_notMem_ofChars {cs : List Char} (h : '\n' ∉ cs) : newline ∉ ofChars cs := by
  intro mem
  obtain ⟨c, hc, hb⟩ := List.mem_flatMap.mp mem
  have self : Char.ofNat c.toNat = c := Char.ofNat_toNat c
  have value : c.val.toNat = c.toNat := rfl
  have tail (n : Nat) (hn : n < 256) (eq : newline = UInt8.ofNat n) : n = 10 := by
    have := congrArg UInt8.toNat eq
    rw [toNat_ofNat_of_lt hn] at this
    exact this.symm
  unfold String.utf8EncodeChar at hb
  rw [value] at hb
  simp only at hb
  split_ifs at hb <;> simp only [List.mem_cons, List.not_mem_nil, or_false] at hb
  · have ten := tail _ (by omega) hb
    rw [← self, ten] at hc
    exact h hc
  · rcases hb with hb | hb <;> have := tail _ (by omega) hb <;> omega
  · rcases hb with hb | hb | hb <;> have := tail _ (by omega) hb <;> omega
  · rcases hb with hb | hb | hb | hb <;> have := tail _ (by omega) hb <;> omega

end Text

/-! ## Logical lines -/

namespace LogicalLine

/-- The lines `more` are joined to `first`, as a backslash at the end asks for each of them. -/
inductive Joins : (first : Text) → (more : List Text) → (content : Text) → Prop
  | done (first : Text) : Joins first [] first
  | next {first next content : Text} {more : List Text}
      (continued : first.getLast? = some Byte.backslash)
      (rest : Joins (first.dropLast ++ next) more content) : Joins first (next :: more) content

/-- The logical lines that the lines from number `n` on make up. -/
inductive Tiles : (n : Nat) → List LogicalLine → List Text → Prop
  | nil (n : Nat) : Tiles n [] []
  | cons {n : Nat} {content first : Text} {more rest : List Text} {lines : List LogicalLine}
      (joins : Joins first more content)
      (ends : content.getLast? = some Byte.backslash → rest = [])
      (after : Tiles (n + more.length + 1) lines rest) :
      Tiles n (⟨n, content, more.length⟩ :: lines) (first :: (more ++ rest))

lemma tiles_joinFrom {first : Text} {more : List Text}
    (sofar : ∀ {ms c}, Joins t ms c → Joins first (more ++ ms) c) (rest : List Text) :
    Tiles n (joinFrom ⟨n, t, more.length⟩ rest) (first :: (more ++ rest)) := by
  induction rest generalizing n t first more with
  | nil =>
    have joins := sofar (.done t)
    rw [List.append_nil] at joins
    exact .cons joins (fun _ => rfl) (.nil _)
  | cons next rest ih =>
    by_cases continued : t.getLast? = some Byte.backslash
    · rw [joinFrom, if_pos continued]
      have := @ih n (t.dropLast ++ next) first (more ++ [next]) fun joins => by
        have := sofar (.next continued joins)
        rwa [List.append_assoc, List.singleton_append]
      rwa [List.length_append, List.length_singleton, List.append_assoc, List.singleton_append] at this
    · have joins := sofar (.done t)
      rw [List.append_nil] at joins
      rw [joinFrom, if_neg continued]
      exact .cons joins (fun h => absurd h continued) (@ih _ _ _ [] id)

lemma tiles_ofSource (source : Text) : Tiles 1 (ofSource source) (Text.splitAt newline source) := by
  obtain ⟨first, rest, parts⟩ := List.exists_cons_of_ne_nil (Text.splitAt_ne_nil newline source)
  have parts' : Text.splitAt '\n'.toUInt8 source = first :: rest := parts
  rw [ofSource, parts', parts]
  exact @tiles_joinFrom _ _ _ [] id rest

lemma Joins.notMem {first content : Text} {more : List Text} (joins : Joins first more content)
    (hfirst : b ∉ first) (hmore : ∀ t ∈ more, b ∉ t) : b ∉ content := by
  induction joins with
  | done => exact hfirst
  | next _ _ ih =>
    rw [List.forall_mem_cons] at hmore
    refine ih (List.not_mem_append (fun mem => hfirst (List.dropLast_subset _ mem)) hmore.1) hmore.2

lemma Tiles.notMem {lines : List LogicalLine} (tiles : Tiles n lines physical) (h : ∀ t ∈ physical, b ∉ t) :
    ∀ line ∈ lines, b ∉ line.content := by
  induction tiles with
  | nil => simp
  | cons joins _ _ ih =>
    rw [List.forall_mem_cons, List.forall_mem_append] at h
    exact List.forall_mem_cons.mpr ⟨joins.notMem h.1 h.2.1, ih h.2.2⟩

end LogicalLine

/-! ## Rows of the output -/

/-- A line of the output: a marker, or a text. -/
inductive Row where
  | marker (line : Nat) (file : Text)
  | text (content : Text)

def Row.content : Row → Text
  | .marker n file => (LineMarker.render n file).dropLast
  | .text content => content

structure Position where
  file : Text
  line : Nat

namespace Position

/-- A marker sets the position, any other row goes to the next line. -/
def next (p : Position) : Row → Position
  | .marker n file => ⟨file, n⟩
  | .text _ => ⟨p.file, p.line + 1⟩

def after (p : Position) (rows : List Row) : Position := rows.foldl next p

lemma after_append (p : Position) (rows rows' : List Row) :
    p.after (rows ++ rows') = (p.after rows).after rows' :=
  List.foldl_append

lemma after_replicate_text (p : Position) (k : Nat) (content : Text) :
    p.after (List.replicate k (.text content)) = ⟨p.file, p.line + k⟩ := by
  induction k generalizing p with
  | zero => rfl
  | succ k ih =>
    rw [List.replicate_succ, after, List.foldl_cons, ← after, ih]
    simp only [next, Nat.add_assoc, Nat.add_comm 1 k]

end Position

namespace Chunk

variable {p : Position}

/-- The rows of a part of the output: what became of a logical line stands in its first. -/
def rows : Chunk → List Row
  | .marker n file => [.marker n file]
  | .line _ _ content height => .text content :: List.replicate (height - 1) (.text [])

/-- A reader who comes to a part of the output with a text stands at the line that it came from. -/
def Located : Position → List Chunk → Prop
  | _, [] => True
  | p, .marker n file :: chunks => Located (p.after (Chunk.rows (.marker n file))) chunks
  | p, .line file n content height :: chunks =>
    p = ⟨file, n⟩ ∧ Located (p.after (Chunk.rows (.line file n content height))) chunks

lemma Located.position {before rest : List Chunk} {file content : Text} {height : Nat}
    (h : Located p (before ++ .line file n content height :: rest)) :
    p.after (before.flatMap rows) = ⟨file, n⟩ := by
  induction before generalizing p with
  | nil => exact h.1
  | cons c before ih =>
    rw [List.flatMap_cons, Position.after_append]
    cases c with
    | marker => exact ih h
    | line => exact ih h.2

lemma Located.append {chunks more : List Chunk} (h : Located p chunks) (rest : ∀ q, Located q more) :
    Located p (chunks ++ more) := by
  induction chunks generalizing p with
  | nil => exact rest p
  | cons c chunks ih =>
    cases c with
    | marker => exact ih h
    | line => exact ⟨h.1, ih h.2⟩

/-- It is written as its rows, each with a newline, and no row holds another one. -/
structure Ruled (c : Chunk) : Prop where
  plain : ∀ row ∈ c.rows, newline ∉ row.content
  render : c.render = c.rows.flatMap fun row => row.content ++ [newline]

lemma ruled_marker (n : Nat) (file : Text) : (Chunk.marker n file).Ruled := by
  obtain ⟨body, written⟩ := LineMarker.exists_written n file
  have whole : LineMarker.render n file = Text.ofChars ('#' :: body) ++ [newline] := by
    rw [written.render, ← List.cons_append, Text.ofChars_append]
    rfl
  have content : (Row.marker n file).content = Text.ofChars ('#' :: body) := by
    rw [Row.content, whole, List.dropLast_concat]
  constructor
  · intro row mem
    obtain rfl := List.mem_singleton.mp mem
    rw [content]
    refine Text.newline_notMem_ofChars ?_
    rw [List.mem_cons, not_or]
    exact ⟨by decide, written.line⟩
  · rw [Chunk.render, rows, List.flatMap_singleton, content, whole]

lemma ruled_line {content : Text} (plain : newline ∉ content) {file : Text} {k : Nat} :
    (Chunk.line file n content (k + 1)).Ruled := by
  constructor
  · intro row mem
    rcases List.mem_cons.mp mem with rfl | mem
    · exact plain
    · obtain ⟨-, rfl⟩ := List.mem_replicate.mp mem
      exact List.not_mem_nil
  · have empty : (List.replicate k (Row.text [])).flatMap (fun row => row.content ++ [newline]) =
        List.replicate k newline := by
      rw [List.flatMap_replicate]
      exact List.flatten_replicate_singleton
    rw [Chunk.render, rows, List.flatMap_cons, Nat.add_sub_cancel, empty, List.append_assoc]
    rfl

lemma splitAt_render {chunks : List Chunk} (ruled : ∀ c ∈ chunks, c.Ruled) :
    Text.splitAt newline (chunks.flatMap Chunk.render) =
      (chunks.flatMap rows).map Row.content ++ [[]] := by
  have rowsOf (rows : List Row) (plain : ∀ row ∈ rows, newline ∉ row.content) (rest : Text) :
      Text.splitAt newline ((rows.flatMap fun row => row.content ++ [newline]) ++ rest) =
        rows.map Row.content ++ Text.splitAt newline rest := by
    induction rows with
    | nil => rfl
    | cons row rows ih =>
      rw [List.forall_mem_cons] at plain
      rw [List.flatMap_cons, List.append_assoc, List.append_assoc, List.singleton_append,
        Text.splitAt_append plain.1, ih plain.2]
      rfl
  induction chunks with
  | nil => rfl
  | cons c chunks ih =>
    rw [List.forall_mem_cons] at ruled
    rw [List.flatMap_cons, ruled.1.render, rowsOf _ ruled.1.plain, ih ruled.2, List.flatMap_cons,
      List.map_append, List.append_assoc]

end Chunk

namespace Preprocess

/-! ## The tree of includes -/

section
variable (files : Files) (dirs : List Text)

/-- What becomes of the lines of a file that stand inside some conditionals, with the macros before and after
them. -/
inductive Unfolds : (file : Text) → List Branch → Macros → List LogicalLine → List Chunk → Macros → Prop
  | nil (file : Text) (ms : Macros) : Unfolds file [] ms [] [] ms
  | line {file content : Text} {stack stack' : List Branch} {ms ms₁ ms₂ : Macros} {line : LogicalLine}
      {lines : List LogicalLine} {chunks : List Chunk} (none : included? stack line = none)
      (becomes : step file stack line ms = .ok (stack', content) ms₁)
      (rest : Unfolds file stack' ms₁ lines chunks ms₂) :
      Unfolds file stack ms (line :: lines)
        (.line file line.number content (line.joined + 1) :: chunks) ms₂
  | includes {file operand path source : Text} {stack : List Branch} {ms ms₁ ms₂ : Macros}
      {line : LogicalLine} {lines lines' : List LogicalLine} {inside chunks : List Chunk}
      (asked : included? stack line = some operand)
      (found : findIncluded files dirs file operand = .ok (path, source))
      (tiles : LogicalLine.Tiles 1 lines' (Text.splitAt newline source))
      (unfolds : Unfolds path [] ms lines' inside ms₁) (rest : Unfolds file stack ms₁ lines chunks ms₂) :
      Unfolds file stack ms (line :: lines)
        (.marker 1 path :: inside ++ .marker (line.number + line.joined + 1) file :: chunks) ms₂

end

variable {files : Files} {dirs : List Text}

section
variable {available : List Text} {file : Text} {stack : List Branch} {rest : List LogicalLine}
  {ms ms' : Macros} {chunks : List Chunk}

lemma unfolds_lines (run : lines files dirs available file stack rest ms = .ok chunks ms') :
    Unfolds files dirs file stack ms rest chunks ms' := by
  induction available, file, stack, rest using lines.induct files dirs generalizing ms ms' chunks with
  | case1 available file =>
    rw [lines, pure_eq_ok] at run
    obtain ⟨rfl, rfl⟩ := run
    exact .nil file _
  | case2 available file top below =>
    rw [lines] at run
    cases run
  | case3 available file stack line rest none ih =>
    rw [lines, none] at run
    simp only [bind_eq_ok, pure_eq_ok] at run
    obtain ⟨⟨stack', content⟩, ms₁, becomes, after, ms₂, run, rfl, rfl⟩ := run
    exact .line none becomes (ih stack' run)
  | case4 available file stack line rest operand asked fault found =>
    rw [lines, asked] at run
    simp only [found] at run
    cases run
  | case5 available file stack line rest operand asked path source found mem others ihInside =>
    rename_i ihRest
    rw [lines, asked] at run
    simp only [found, dif_pos mem, bind_eq_ok, pure_eq_ok] at run
    obtain ⟨inside, ms₁, runInside, after, ms₂, runRest, rfl, rfl⟩ := run
    exact .includes asked found (LogicalLine.tiles_ofSource source) (ihInside runInside)
      (ihRest runRest)
  | case6 available file stack line rest operand asked path source found mem =>
    rw [lines, asked] at run
    simp only [found, dif_neg mem] at run
    cases run

lemma Unfolds.located {lines : List LogicalLine} (unfolds : Unfolds files dirs file stack ms lines chunks ms')
    (tiles : LogicalLine.Tiles n lines physical) : Chunk.Located ⟨file, n⟩ chunks := by
  induction unfolds generalizing n physical with
  | nil => trivial
  | line _ _ _ ih =>
    cases tiles with
    | @cons _ _ _ more _ _ joins ends after =>
      refine ⟨rfl, ?_⟩
      rw [Chunk.rows, Position.after, List.foldl_cons, ← Position.after, Position.after_replicate_text]
      have := ih after
      simpa [Position.next, Nat.add_assoc, Nat.add_comm 1] using this
  | includes _ _ inner _ _ ihInside ihRest =>
    cases tiles with
    | cons joins ends after =>
      -- the first marker leads into the file, the second to the line after the include
      exact (ihInside inner).append fun _ => ihRest after

lemma notMem_definition {line : LogicalLine} {definition : Text} (kind : line.kind = .define definition)
    (h : b ∉ line.content) : b ∉ definition := by
  have margin := Text.notMem_dropWhile (p := Text.isBlankOrTab) h
  unfold LogicalLine.kind at kind
  split at kind
  · rename_i rest begins
    rw [begins] at margin
    simp only at kind
    split_ifs at kind
    cases kind
    exact Text.notMem_dropWhile (Text.notMem_dropWhile (List.not_mem_of_not_mem_cons margin))
  · cases kind

lemma step_notMem {content : Text} {stack' : List Branch} {line : LogicalLine}
    (run : step file stack line ms = .ok (stack', content) ms') (hline : b ∉ line.content) (hms : ms.Lacks b) :
    b ∉ content ∧ ms'.Lacks b := by
  unfold step at run
  cases kind : line.kind with
  | text =>
    simp only [kind, ite_eq_ok, bind_eq_ok, pure_eq_ok] at run
    rcases run with ⟨-, ms₁, s, got, eq, rfl⟩ | ⟨-, eq, rfl⟩
    · cases got
      cases eq
      exact ⟨notMem_expand hline hms, hms⟩
    · cases eq
      exact ⟨List.not_mem_nil, hms⟩
  | when name defined =>
    simp only [kind, bind_eq_ok, pure_eq_ok] at run
    obtain ⟨ms₁, s, got, eq, rfl⟩ := run
    cases got
    cases eq
    exact ⟨List.not_mem_nil, hms⟩
  | otherwise =>
    cases stack with
    | nil =>
      simp only [kind] at run
      cases run
    | cons top below =>
      simp only [kind, ite_eq_ok, pure_eq_ok] at run
      rcases run with ⟨-, run⟩ | ⟨-, eq, rfl⟩
      · cases run
      · cases eq
        exact ⟨List.not_mem_nil, hms⟩
  | close =>
    cases stack with
    | nil =>
      simp only [kind] at run
      cases run
    | cons top below =>
      simp only [kind, pure_eq_ok] at run
      obtain ⟨eq, rfl⟩ := run
      cases eq
      exact ⟨List.not_mem_nil, hms⟩
  | includeFile operand =>
    simp only [kind, pure_eq_ok] at run
    obtain ⟨eq, rfl⟩ := run
    cases eq
    exact ⟨List.not_mem_nil, hms⟩
  | define definition =>
    simp only [kind, ite_eq_ok, pure_eq_ok] at run
    rcases run with ⟨-, run⟩ | ⟨-, eq, rfl⟩
    · cases read : readDefinition definition with
      | ok found =>
        simp only [read, bind_eq_ok, pure_eq_ok] at run
        obtain ⟨_, s, inserted, eq, rfl⟩ := run
        cases inserted
        cases eq
        exact ⟨List.not_mem_nil,
          hms.insert _ (notMem_readDefinition read (notMem_definition kind hline))⟩
      | error fault =>
        rw [read] at run
        cases fault <;> cases run
    · cases eq
      exact ⟨List.not_mem_nil, hms⟩
  | undefine name =>
    simp only [kind, ite_eq_ok, bind_eq_ok, pure_eq_ok] at run
    rcases run with ⟨-, _, s, erased, eq, rfl⟩ | ⟨-, eq, rfl⟩
    · cases erased
      cases eq
      exact ⟨List.not_mem_nil, hms.erase name⟩
    · cases eq
      exact ⟨List.not_mem_nil, hms⟩
  | other =>
    simp only [kind, pure_eq_ok] at run
    obtain ⟨eq, rfl⟩ := run
    cases eq
    refine ⟨?_, hms⟩
    split
    · exact hline
    · exact List.not_mem_nil

lemma Unfolds.ruled {lines : List LogicalLine}
    (unfolds : Unfolds files dirs file stack ms lines chunks ms')
    (hlines : ∀ line ∈ lines, newline ∉ line.content) (hms : ms.Lacks newline) :
    (∀ c ∈ chunks, c.Ruled) ∧ ms'.Lacks newline := by
  induction unfolds with
  | nil => exact ⟨fun _ mem => absurd mem List.not_mem_nil, hms⟩
  | line _ becomes _ ih =>
    rw [List.forall_mem_cons] at hlines
    obtain ⟨plain, hms⟩ := step_notMem becomes hlines.1 hms
    obtain ⟨rest, hms⟩ := ih hlines.2 hms
    exact ⟨List.forall_mem_cons.mpr ⟨Chunk.ruled_line plain, rest⟩, hms⟩
  | includes _ _ tiles _ _ ihInside ihRest =>
    rw [List.forall_mem_cons] at hlines
    obtain ⟨inside, hms⟩ := ihInside (tiles.notMem fun t mem => Text.notMem_of_mem_splitAt mem) hms
    obtain ⟨rest, hms⟩ := ihRest hlines.2 hms
    refine ⟨?_, hms⟩
    simp only [List.forall_mem_append, List.forall_mem_cons]
    exact ⟨⟨Chunk.ruled_marker _ _, inside⟩, Chunk.ruled_marker _ _, rest⟩

end

/-! ## The whole -/

open Text (ofString)

lemma file_eq_ok {path out : Text} {ms ms' : Macros} (run : file files dirs path ms = .ok out ms') :
    ∃ content, files.read path = .ok content ∧ source files dirs content path ms = .ok out ms' := by
  cases read : files.read path with
  | ok content =>
    rw [file, read] at run
    exact ⟨content, rfl, run⟩
  | error e =>
    rw [file, read] at run
    cases run

/-- On coming to the text that became of the logical line at line `n` of `f`, a reader of the output stands
at that line of that file, in every file of the tree of includes. -/
theorem source_line_map {path text out : Text} {ms ms' : Macros}
    (run : source files dirs text path ms = .ok out ms' ∨
      files.read path = .ok text ∧ file files dirs path ms = .ok out ms')
    (bodies : ms.Lacks newline) :
    ∃ lines chunks, LogicalLine.Tiles 1 lines (Text.splitAt newline text) ∧
      Unfolds files dirs path [] ms lines chunks ms' ∧
      Text.splitAt newline out =
        (.marker 1 path :: chunks.flatMap Chunk.rows).map Row.content ++ [[]] ∧
      ∀ before f n content height rest, chunks = before ++ .line f n content height :: rest →
        ∀ start : Position, start.after (.marker 1 path :: before.flatMap Chunk.rows) = ⟨f, n⟩ := by
  have run : source files dirs text path ms = .ok out ms' := by
    rcases run with run | ⟨read, run⟩
    · exact run
    · obtain ⟨content, read', run⟩ := file_eq_ok run
      cases read.symm.trans read'
      exact run
  simp only [source, chunks, bind_eq_ok, pure_eq_ok] at run
  obtain ⟨written, ms₁, ⟨chunks, ms₂, run, rfl, rfl⟩, rfl, rfl⟩ := run
  have tiles := LogicalLine.tiles_ofSource text
  have unfolds := unfolds_lines run
  have ruled := (unfolds.ruled (tiles.notMem fun t mem => Text.notMem_of_mem_splitAt mem) bodies).1
  refine ⟨_, chunks, tiles, unfolds, ?_, ?_⟩
  · exact Chunk.splitAt_render (List.forall_mem_cons.mpr ⟨Chunk.ruled_marker 1 path, ruled⟩)
  · rintro before f n content height rest rfl start
    exact (unfolds.located tiles).position

/-- A file with a macro on a line in two parts and a conditional that is skipped. -/
def sampleFiles : Files :=
  Files.ofList .memory [(ofString "h.h", ofString "#define N \\\n 4\n#ifdef M\nx\n#endif\nint a;")]

def sampleText : Text := ofString "#include \"h.h\"\nint b = N;"

def sampleOutput : Text :=
  ofString "# 1 \"t.c\"\n# 1 \"h.h\"\n\n\n\n\n\nint a;\n# 2 \"t.c\"\nint b = 4;\n"

def sampleMacros : Macros := [(ofString "N", { body := ofString "4" })]

lemma source_sample :
    source sampleFiles [] sampleText (ofString "t.c") [] = .ok sampleOutput sampleMacros := by
  cbv

theorem source_line_map_include :
    source sampleFiles [] sampleText (ofString "t.c") [] = .ok sampleOutput sampleMacros ∧
      ∃ lines chunks, LogicalLine.Tiles 1 lines (Text.splitAt newline sampleText) ∧
        Unfolds sampleFiles [] (ofString "t.c") [] [] lines chunks sampleMacros ∧
        Text.splitAt newline sampleOutput =
          (.marker 1 (ofString "t.c") :: chunks.flatMap Chunk.rows).map Row.content ++ [[]] ∧
        ∀ before f n content height rest, chunks = before ++ .line f n content height :: rest →
          ∀ start : Position,
            start.after (.marker 1 (ofString "t.c") :: before.flatMap Chunk.rows) = ⟨f, n⟩ :=
  ⟨source_sample, source_line_map (.inl source_sample) fun _ mem => absurd mem List.not_mem_nil⟩

end Preprocess
end SmallC
