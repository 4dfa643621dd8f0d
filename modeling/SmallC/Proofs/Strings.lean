import SmallC.Proofs.Grouping
import SmallC.Proofs.Token.Scan

/-!
# Bytes in strings

A byte can be written in a string by its code, in octal or in hexadecimal digits. A code is one of a character,
and the string holds the characters in their encoding. So the data for it lists a byte below 128 as it is, but
any other one as the two bytes of the character with its code.
-/

namespace SmallC

/-- A byte written by its code: by two hexadecimal digits or by three octal ones. -/
def Text.coded (hex : Bool) (b : UInt8) : List Char :=
  if hex then ['\\', 'x', Nat.digitChar (b.toNat / 16), Nat.digitChar (b.toNat % 16)]
  else ['\\', Nat.digitChar (b.toNat / 64), Nat.digitChar (b.toNat / 8 % 8), Nat.digitChar (b.toNat % 8)]

/-- A literal of bytes, each written in one of the two ways. -/
def Text.codedLiteral (bs : List (Bool × UInt8)) : List Char :=
  '"' :: (bs.flatMap fun b => coded b.1 b.2) ++ ['"']

/-- What a string has for a byte that was written by its code. -/
def Text.encoded (b : UInt8) : Text := if b < 128 then [b] else [192 + b / 64, 128 + b % 64]

/-- The token is that of a literal of bytes that are written by their codes. -/
def Parse.Spells (bs : List (Bool × UInt8)) (t : Token) : Prop :=
  t.kind = .string ∧ t.lexeme = bs.flatMap fun b => Text.encoded b.2

namespace Cursor

variable {c : Cursor} {tail : List Char} {a b : Char}

lemma escape_octal {d : Char} (ha : isOctal a = true) (hb : isOctal b = true) (hd : isOctal d = true)
    (rest : c.rest = a :: b :: d :: tail) :
    ∃ c', c.escape = .ok (((hexValue a * 8) + hexValue b) * 8 + hexValue d, c') ∧ c'.rest = tail := by
  refine ⟨c.skip 3, ?_, by rw [skip_rest, rest]; rfl⟩
  unfold escape
  simp only [rest]
  split
  case h_9 a' r _ _ _ _ _ _ _ _ same =>
    cases same
    have plain : (a = '\\' || a = '\x27' || a = '"') = false := by
      simp only [Bool.or_eq_false_iff, decide_eq_false_iff_not]
      refine ⟨⟨?_, ?_⟩, ?_⟩ <;> rintro rfl <;> cases ha
    rw [plain, if_neg Bool.false_ne_true, if_pos ha]
    simp [hb, hd]
  case h_10 same => cases same
  all_goals
    rename_i same
    cases same
    cases ha

lemma escape_hex (ha : isHexChar a = true) (hb : isHexChar b = true)
    (stop : ∀ d ∈ tail.head?, isHexChar d = false) (rest : c.rest = 'x' :: a :: b :: tail) :
    ∃ c', c.escape = .ok (hexValue a * 16 + hexValue b, c') ∧ c'.rest = tail := by
  have none : tail.takeWhile isHexChar = [] ∧ tail.dropWhile isHexChar = tail := by
    cases tail with
    | nil => exact ⟨rfl, rfl⟩
    | cons d tail => simp [stop d rfl]
  refine ⟨c.advance.skipWhile isHexChar, ?_, ?_⟩
  · unfold escape
    simp [rest, ha, hb, none.1]
  · change c.advance.rest.dropWhile isHexChar = tail
    rw [advance_rest, rest]
    simp [ha, hb, none.2]

lemma escape_coded (hex : Bool) (b : UInt8) (stop : ∀ d ∈ tail.head?, isHexChar d = false)
    (rest : c.rest = (Text.coded hex b).tail ++ tail) :
    ∃ code c', c.escape = .ok (code, c') ∧ c'.rest = tail ∧
      String.utf8EncodeChar (charOfCode code) = Text.encoded b := by
  have digits : ∀ n < 16, isHexChar (Nat.digitChar n) = true ∧ (n < 8 → isOctal (Nat.digitChar n) = true) := by
    decide
  have codes : ∀ n < 256,
      String.utf8EncodeChar (charOfCode (hexValue (Nat.digitChar (n / 16)) * 16 + hexValue (Nat.digitChar (n % 16)))) =
        Text.encoded (UInt8.ofNat n) ∧
      String.utf8EncodeChar (charOfCode ((hexValue (Nat.digitChar (n / 64)) * 8 +
        hexValue (Nat.digitChar (n / 8 % 8))) * 8 + hexValue (Nat.digitChar (n % 8)))) =
        Text.encoded (UInt8.ofNat n) := by
    decide +kernel
  have small : b.toNat < 256 := b.toNat_lt
  have codes := codes b.toNat small
  rw [UInt8.ofNat_toNat] at codes
  cases hex with
  | true =>
    obtain ⟨c', ok, rest⟩ := escape_hex (digits _ (by omega)).1 (digits _ (by omega)).1 stop rest
    exact ⟨_, c', ok, rest, codes.1⟩
  | false =>
    obtain ⟨c', ok, rest⟩ := escape_octal ((digits _ (by omega)).2 (by omega)) ((digits _ (by omega)).2 (by omega))
      ((digits _ (by omega)).2 (by omega)) rest
    exact ⟨_, c', ok, rest, codes.2⟩

lemma stringBody_coded (bs : List (Bool × UInt8)) (done : List Char)
    (rest : c.rest = (bs.flatMap fun b => Text.coded b.1 b.2) ++ '"' :: tail) :
    ∃ cs c', c.stringBody done = .ok (done.reverse ++ cs, c') ∧ c'.rest = tail ∧
      Text.ofChars cs = bs.flatMap fun b => Text.encoded b.2 := by
  induction bs generalizing c done with
  | nil =>
    refine ⟨[], ⟨c.place.after '"', tail⟩, ?_, rfl, rfl⟩
    rw [stringBody_cons (by simpa using rest), if_pos rfl, List.append_nil]
  | cons b bs ih =>
    obtain ⟨hex, b⟩ := b
    have split : c.rest = '\\' :: ((Text.coded hex b).tail ++
        ((bs.flatMap fun b => Text.coded b.1 b.2) ++ '"' :: tail)) := by
      rw [rest, List.flatMap_cons, List.append_assoc]
      cases hex <;> rfl
    have stop : ∀ d ∈ ((bs.flatMap fun b => Text.coded b.1 b.2) ++ '"' :: tail).head?, isHexChar d = false := by
      rintro d first
      cases bs with
      | nil =>
        cases first
        decide
      | cons b bs =>
        obtain ⟨hex, b⟩ := b
        cases hex <;> cases first <;> decide
    obtain ⟨code, c1, escaped, rest1, bytes⟩ :=
      escape_coded (c := ⟨c.place.after '\\', _⟩) hex b stop rfl
    obtain ⟨cs, c', read, rest', all⟩ := ih (charOfCode code :: done) rest1
    refine ⟨charOfCode code :: cs, c', ?_, rest', ?_⟩
    · rw [stringBody_cons split, if_neg (by decide), if_neg (by decide), if_pos rfl, escaped]
      simpa using read
    · rw [Text.ofChars, List.flatMap_cons, List.flatMap_cons, bytes]
      exact congrArg _ all

lemma scan_coded (bs : List (Bool × UInt8)) (rest : c.rest = Text.codedLiteral bs ++ tail) :
    ∃ t c', c.scan = .ok (t, c') ∧ c'.rest = tail ∧ Parse.Spells bs t := by
  have begins : c.rest = '"' :: ((bs.flatMap fun b => Text.coded b.1 b.2) ++ '"' :: tail) := by
    rw [rest, Text.codedLiteral]
    simp
  obtain ⟨cs, c', read, rest', bytes⟩ := stringBody_coded (c := c.advance) bs [] (by
    rw [advance_rest, begins]
    rfl)
  refine ⟨c'.token .string (Text.ofChars cs) c.place.line, c', ?_, rest', rfl, bytes⟩
  rw [scan_quote begins, stringLiteral, read]
  rfl

end Cursor

lemma Text.length_encoded (bs : List UInt8) :
    (bs.flatMap encoded).length = bs.length + bs.countP (128 ≤ ·) := by
  induction bs with
  | nil => rfl
  | cons b bs ih =>
    rw [List.flatMap_cons, List.length_append, ih, List.countP_cons, List.length_cons, encoded]
    by_cases small : b < 128
    · have : ¬ 128 ≤ b := by simpa using small
      simp only [small, this, if_true, decide_false, Bool.false_eq_true, if_false, List.length_singleton]
      omega
    · have : 128 ≤ b := by simpa using small
      simp only [small, this, if_false, decide_true, if_true, List.length_cons, List.length_nil]
      omega

lemma Text.encoded_eq_iff (bs : List UInt8) : bs.flatMap encoded = bs ↔ ∀ b ∈ bs, b < 128 := by
  constructor
  · intro same b mem
    have length := length_encoded bs
    rw [same] at length
    have none := List.countP_eq_zero.mp (Nat.left_eq_add.mp length) b mem
    simpa using none
  · intro small
    induction bs with
    | nil => rfl
    | cons b bs ih =>
      rw [List.flatMap_cons, encoded, if_pos (small b (.head _)), ih fun a mem => small a (.tail _ mem)]
      rfl

namespace Parse

variable {g : Grammar} {s : ParseState} {k ts : List Token}

lemma stringOperand_run (first : Token) (rest : s.rest = ts ++ k) (strings : ∀ t ∈ ts, t.kind = .string)
    (stop : (k.headD default).kind ≠ .string) (rounds : ts.length < s.bound) :
    ∃ s', stringOperand first s = .ok (.strLit { type := .charPointer, line := first.line } (s.out.labels + 1)) s' ∧
      s'.rest = k ∧ s'.table = s.table ∧ s'.out.lines.toList =
        s.out.lines.toList ++ [.string (s.out.labels + 1) (first.lexeme ++ ts.flatMap (·.lexeme))] := by
  have loop (ts : List Token) (strings : ∀ t ∈ ts, t.kind = .string) (m : Nat) (rounds : ts.length < m)
      (text : Text) (s : ParseState) (rest : s.rest = ts ++ k) :
      iterateUpTo (fun text => do
        if ← isAt .string then return .inl (text ++ (← advance).lexeme) else return .inr text) m text s =
        .ok (text ++ ts.flatMap (·.lexeme)) { s with rest := k } := by
    induction ts generalizing m text s with
    | nil =>
      obtain ⟨m, rfl⟩ := Nat.exists_eq_succ_of_ne_zero (Nat.ne_of_gt rounds)
      have front : s.front = k.headD default := by rw [ParseState.front, rest, List.nil_append]
      have here : s = { s with rest := k } := by rw [← List.nil_append k, ← rest]
      refine run_iterateUpTo_inr ?_ (Nat.succ_pos m)
      rw [run_isAt, front, decide_eq_false stop, ← here, List.flatMap_nil, List.append_nil]
      rfl
    | cons t ts ih =>
      obtain ⟨m, rfl⟩ := Nat.exists_eq_succ_of_ne_zero (Nat.ne_zero_of_lt rounds)
      have front : s.front = t := by rw [ParseState.front, rest, List.cons_append, List.headD_cons]
      have step : (do
          if ← isAt .string then return .inl (text ++ (← advance).lexeme) else return .inr text :
            Parse (Text ⊕ Text)) s = .ok (.inl (text ++ t.lexeme)) s.advanced := by
        rw [run_isAt, front, decide_eq_true (strings t (.head _)), if_pos rfl, run_advance, front]
        rfl
      rw [run_iterateUpTo_inl step, ih (fun t mem => strings t (.tail _ mem)) m (Nat.lt_of_succ_lt_succ rounds) _ _
        (by rw [ParseState.advanced, rest]; rfl), List.flatMap_cons, List.append_assoc]
      rfl
  have labelled : emit Lower.newLabel s =
      .ok (s.out.labels + 1) { s with out := { s.out with labels := s.out.labels + 1 } } := rfl
  refine ⟨{ s with
    rest := k
    out := { s.out with
      labels := s.out.labels + 1
      lines := s.out.lines.push (.string (s.out.labels + 1) (first.lexeme ++ ts.flatMap (·.lexeme))) } },
    ?_, rfl, rfl, Array.toList_push⟩
  unfold stringOperand
  rw [bind_of_ok labelled, bind_of_ok (run_iterate.trans (loop ts strings s.bound rounds first.lexeme
    { s with out := { s.out with labels := s.out.labels + 1 } } rest))]
  rfl

lemma Spells.all {lits : List (List (Bool × UInt8))} (h : List.Forall₂ Spells lits ts) :
    (∀ t ∈ ts, t.kind = .string) ∧
      ts.flatMap (·.lexeme) = (lits.flatten.map (·.2)).flatMap Text.encoded := by
  induction h with
  | nil => exact ⟨nofun, rfl⟩
  | cons here _ ih =>
    refine ⟨List.forall_mem_cons.mpr ⟨here.1, ih.1⟩, ?_⟩
    simp only [List.flatMap_cons, here.2, ih.2, List.flatten_cons, List.map_append, List.flatMap_append,
      List.flatMap_map]

end Parse

/-- Every literal of bytes that are written by their codes is a token, and where such tokens stand next to each
other they are one operand: a string that is listed as data at once, with what each byte is encoded as and
zero at the end. The list is that of the bytes exactly if all of them are less than 128. -/
theorem literals_list_bytes (g : Grammar) (lits : List (List (Bool × UInt8))) :
    (∀ bs ∈ lits, ∀ (c : Cursor) (tail : List Char), c.rest = Text.codedLiteral bs ++ tail →
      ∃ t c', c.scan = .ok (t, c') ∧ c'.rest = tail ∧ Parse.Spells bs t) ∧
    (∀ (t : Token) (ts k : List Token) (s : ParseState), List.Forall₂ Parse.Spells lits (t :: ts) →
      s.rest = t :: ts ++ k → (k.headD default).kind ≠ .string → s.rest.length < s.bound →
      ∃ s' bytes, Parse.primary g s = .ok (.strLit { type := .charPointer, line := t.line } (s.out.labels + 1)) s' ∧
        s'.rest = k ∧ s'.table = s.table ∧
        s'.out.lines.toList = s.out.lines.toList ++ [.string (s.out.labels + 1) bytes] ∧
        bytes = (lits.flatten.map (·.2)).flatMap Text.encoded ∧
        (bytes = lits.flatten.map (·.2) ↔ ∀ b ∈ lits.flatten, b.2 < 128)) ∧
    ∀ (l : Int) (bytes : Text), (Ir.Line.string l bytes).text = Text.ofString "data $L" ++ Text.ofInt l ++
      Text.ofString " = \x7b " ++ (bytes.flatMap fun b => Text.ofString "b " ++ Text.ofInt64 (Int64.ofNat b.toNat) ++
        Text.ofString ", ") ++ Text.ofString " b 0 \x7d" := by
  refine ⟨fun bs _ c tail rest => Cursor.scan_coded bs rest, fun t ts k s same rest stop rounds => ?_,
    fun l bytes => rfl⟩
  obtain ⟨strings, bytes⟩ := Parse.Spells.all same
  have enough : ts.length < s.advanced.bound := by
    rw [rest] at rounds
    simp only [List.length_append, List.length_cons] at rounds
    exact Nat.lt_of_le_of_lt (by omega) rounds
  obtain ⟨s', read, rest', table, lines⟩ := Parse.stringOperand_run t (s := s.advanced)
    (by rw [ParseState.advanced, rest]; rfl) (fun t mem => strings t (.tail _ mem)) stop enough
  have front : s.front = t := by rw [ParseState.front, rest]; rfl
  refine ⟨s', _, ?_, rest', table, lines, bytes, ?_⟩
  · unfold Parse.primary
    rw [Parse.run_peek, front, strings t (.head _)]
    exact read
  · rw [show t.lexeme ++ ts.flatMap (·.lexeme) = _ from bytes, Text.encoded_eq_iff, List.forall_mem_map]

theorem literals_list_bytes_pair :
    let t : Token := { kind := .string, lexeme := "hi", line := 1 }
    (∃ t c', Cursor.scan ⟨{ file := "t.c" }, "\"\\x68\\151\";".toList⟩ = .ok (t, c') ∧ c'.rest = [';'] ∧
        t.kind = .string ∧ t.lexeme = "hi") ∧
      ∃ s', Parse.primary (grammar 0) (Session.start { file := "t.c" } [t, t]) =
          .ok (.strLit { type := .charPointer, line := 1 } 1) s' ∧
        s'.out.lines.toList = [.string 1 "hihi"] := by
  intro t
  let lits : List (List (Bool × UInt8)) := [[(true, 104), (false, 105)], [(true, 104), (false, 105)]]
  obtain ⟨scanned, read, -⟩ := literals_list_bytes (grammar 0) lits
  obtain ⟨t', c', ok, rest, kind, lexeme⟩ := scanned _ (.head _) ⟨{ file := "t.c" }, "\"\\x68\\151\";".toList⟩ [';']
    (by decide)
  obtain ⟨s', bytes, ok', -, -, lines, all, -⟩ := read t [t] [] (Session.start { file := "t.c" } [t, t])
    (.cons ⟨rfl, by decide⟩ (.cons ⟨rfl, by decide⟩ .nil)) rfl (by decide) (by decide)
  refine ⟨⟨t', c', ok, rest, kind, lexeme.trans (by decide)⟩, s', ok', ?_⟩
  rw [lines, all]
  decide

/-- The byte 255 is listed as two others. -/
theorem compile_lists_encoding :
    let source : Text := "char *s = \"\\377\";"
    (Session.compile { file := "t.c" } source).1.outcome.toOption.isSome = true ∧
      (Session.compile { file := "t.c" } source).2.out.lines.toList.head? = some (.string 1 [195, 191]) := by
  decide +kernel

end SmallC
