import SmallC.Text.Blank

/-!
# Macros

A macro replaces its name by a text, with arguments put in for its parameters if it has any. The
text is searched for macros again, but for the macro itself: the macros available for an expansion
shrink with each level, so expansion ends.

Nothing is replaced in a string or character literal, nor after `//`. What `/*` opens is not
seen. A macro with parameters whose name no argument list of the right length follows stays as it
is; arguments are not expanded by themselves before they are put in.
-/

namespace SmallC

structure Macro where
  /-- The parameters, none for a macro that takes no argument list. -/
  params : Option (List Text) := none
  body : Text
  deriving DecidableEq, Repr

/-- Macros by name, each name once. -/
abbrev Macros := List (Text × Macro)

namespace Macros

def find? (ms : Macros) (name : Text) : Option Macro := ms.lookup name

def erase (ms : Macros) (name : Text) : Macros := ms.filter fun m => m.1 ≠ name

def insert (ms : Macros) (name : Text) (m : Macro) : Macros := (name, m) :: ms.erase name

theorem erase_length_lt {ms : Macros} {name : Text} {m : Macro} (h : ms.find? name = some m) :
    (ms.erase name).length < ms.length := by
  induction ms with
  | nil => simp [find?] at h
  | cons p ms ih =>
    obtain ⟨n, m'⟩ := p
    by_cases hn : n = name
    · subst hn
      have := List.length_filter_le (fun m : Text × Macro => m.1 ≠ n) ms
      simp only [erase, List.filter_cons, List.length_cons]
      simp
      simp at this
      omega
    · have hf : find? ms name = some m := by
        simpa [find?, List.lookup_cons, Ne.symm hn, beq_eq_false_iff_ne.2 (Ne.symm hn)] using h
      have := ih hf
      simp only [erase, List.filter_cons, List.length_cons] at this ⊢
      simp [hn] at this ⊢
      omega

end Macros

/-! ## Pieces of a line -/

/-- A literal, a word, or a byte of neither. -/
inductive Piece where
  | literal (t : Text)
  | word (t : Text)
  | byte (b : UInt8)
  deriving DecidableEq, Repr

def Piece.text : Piece → Text
  | .literal t => t
  | .word t => t
  | .byte b => [b]

def isQuote (b : UInt8) : Bool := b = Byte.doubleQuote || b = Byte.apostrophe

/-- What follows an opening quote up to the closing one, and the rest. A backslash hides the byte
after it; a literal may be cut off by the end of the text. -/
def splitLiteral (quote : UInt8) : Text → Text × Text
  | [] => ([], [])
  | b :: rest =>
    if b = Byte.backslash then
      match rest with
      | [] => ([b], [])
      | c :: rest =>
        let (inside, after) := splitLiteral quote rest
        (b :: c :: inside, after)
    else if b = quote then ([b], rest)
    else
      let (inside, after) := splitLiteral quote rest
      (b :: inside, after)

/-- The first piece of `b :: rest`, and what follows it. -/
def splitPiece (b : UInt8) (rest : Text) : Piece × Text :=
  if isQuote b then
    let (inside, after) := splitLiteral b rest
    (.literal (b :: inside), after)
  else if Text.isWordStart b then
    (.word (b :: rest.takeWhile Text.isWordPart), rest.dropWhile Text.isWordPart)
  else (.byte b, rest)

theorem splitLiteral_append (quote : UInt8) (t : Text) :
    (splitLiteral quote t).1 ++ (splitLiteral quote t).2 = t := by
  fun_induction splitLiteral quote t <;> simp_all

/-- A piece and what follows it make up the text. -/
theorem splitPiece_append (b : UInt8) (rest : Text) :
    (splitPiece b rest).1.text ++ (splitPiece b rest).2 = b :: rest := by
  unfold splitPiece
  split
  · simp [Piece.text, splitLiteral_append]
  · split <;> simp [Piece.text]

theorem splitPiece_length_le (b : UInt8) (rest : Text) :
    (splitPiece b rest).2.length ≤ rest.length := by
  unfold splitPiece
  split
  · have := congrArg List.length (splitLiteral_append b rest)
    simp only [List.length_append] at this
    simp only
    omega
  · split
    · exact (List.dropWhile_suffix _).length_le
    · exact Nat.le_refl _

def pieces : Text → List Piece
  | [] => []
  | b :: rest => (splitPiece b rest).1 :: pieces (splitPiece b rest).2
termination_by t => t.length
decreasing_by
  have := splitPiece_length_le b rest
  simp only [List.length_cons]
  omega

/-! ## Arguments -/

inductive QuoteMode where
  | plain
  | quoted (quote : UInt8)
  | escaped (quote : UInt8)
  deriving DecidableEq, Repr

def QuoteMode.after : QuoteMode → UInt8 → QuoteMode
  | .plain, b => if isQuote b then .quoted b else .plain
  | .quoted q, b => if b = Byte.backslash then .escaped q else if b = q then .plain else .quoted q
  | .escaped q, _ => .quoted q

/-- The arguments up to the closing parenthesis, and the rest. `current` is the argument at hand
in reverse, `depth` the number of parentheses open inside it, `done` the arguments before it in
reverse. -/
def splitArgs : QuoteMode → (depth : Nat) → (current : Text) → (done : List Text) → Text →
    Option (List Text × Text)
  | _, _, _, _, [] => none
  | mode, depth, current, done, b :: rest =>
    if mode ≠ .plain then splitArgs (mode.after b) depth (b :: current) done rest
    else if b = Byte.leftParen then splitArgs .plain (depth + 1) (b :: current) done rest
    else if b = Byte.rightParen then
      match depth with
      | 0 => some ((Text.trim current.reverse :: done).reverse, rest)
      | depth + 1 => splitArgs .plain depth (b :: current) done rest
    else if b = Byte.comma && depth = 0 then
      splitArgs .plain 0 [] (Text.trim current.reverse :: done) rest
    else splitArgs (mode.after b) depth (b :: current) done rest

/-- The argument list that a text begins with after blanks and tabs. -/
def macroArgs (t : Text) : Option (List Text × Text) :=
  match t.dropWhile Text.isBlankOrTab with
  | Byte.leftParen :: rest => splitArgs .plain 0 [] [] rest
  | _ => none

theorem splitArgs_length_lt {mode : QuoteMode} {depth : Nat} {current : Text}
    {done : List Text} {t : Text} {args : List Text} {rest : Text}
    (h : splitArgs mode depth current done t = some (args, rest)) : rest.length < t.length := by
  fun_induction splitArgs mode depth current done t with
  | case1 => cases h
  | case4 => simp only [Option.some.injEq, Prod.mk.injEq] at h; simp [h.2]
  | _ =>
    rename_i ih
    exact Nat.lt_succ_of_lt (ih h)

theorem macroArgs_length_lt {t : Text} {args : List Text} {rest : Text}
    (h : macroArgs t = some (args, rest)) : rest.length < t.length := by
  unfold macroArgs at h
  split at h
  · rename_i after ht
    have h1 := splitArgs_length_lt h
    have h2 := (List.dropWhile_suffix (l := t) Text.isBlankOrTab).length_le
    rw [ht] at h2
    simp only [List.length_cons] at h2
    omega
  · cases h

/-! ## Expansion -/

/-- Puts arguments in for the parameters in a body. Of parameters with one name the last
counts. -/
def substitute (params args : List Text) (body : Text) : Text :=
  (pieces body).flatMap fun
    | .word w => ((params.zip args).reverse.lookup w).getD w
    | p => p.text

/-- Whether an argument list fits: a macro without parameters takes an empty one. -/
def fits (params args : List Text) : Bool :=
  params.length = args.length || (params.isEmpty && args = [[]])

/-- A text with the macros `ms` expanded. -/
def expand (ms : Macros) (t : Text) : Text :=
  match t with
  | [] => []
  | b :: rest =>
    if b = Byte.slash && rest.head? = some Byte.slash then b :: rest
    else
      match _hp : splitPiece b rest with
      | (.word w, after) =>
        match _hm : ms.find? w with
        | none => w ++ expand ms after
        | some m =>
          match m.params with
          | none => expand (ms.erase w) m.body ++ expand ms after
          | some params =>
            match _ha : macroArgs after with
            | none => w ++ expand ms after
            | some (args, next) =>
              if fits params args then
                expand (ms.erase w) (substitute params args m.body) ++ expand ms next
              else w ++ expand ms after
      | (p, after) => p.text ++ expand ms after
termination_by (ms.length, t.length)
decreasing_by
  all_goals
    have hle := splitPiece_length_le b rest
    rw [_hp] at hle
    simp only at hle
  · exact .right _ (by simp only [List.length_cons]; omega)
  · exact .left _ _ (Macros.erase_length_lt _hm)
  · exact .right _ (by simp only [List.length_cons]; omega)
  · exact .right _ (by simp only [List.length_cons]; omega)
  · exact .left _ _ (Macros.erase_length_lt _hm)
  · exact .right _ (by
      have := macroArgs_length_lt _ha
      simp only [List.length_cons]
      omega)
  · exact .right _ (by simp only [List.length_cons]; omega)
  · exact .right _ (by simp only [List.length_cons]; omega)

/-! ## Definitions -/

inductive MacroFault where
  | badName (rest : Text)
  | unterminated (name : Text)

/-- Reads what follows `#define`. A parenthesis right after the name opens the parameters. -/
def readDefinition (t : Text) : Except MacroFault (Text × Macro) :=
  let t := Text.trim t
  let name := t.takeWhile Text.isWordPart
  let rest := t.dropWhile Text.isWordPart
  match name with
  | [] => .error (.badName t)
  | first :: _ =>
    if !Text.isWordStart first then .error (.badName t)
    else match rest with
      | Byte.leftParen :: inside =>
        if inside.contains Byte.rightParen then
          let list := Text.trim (inside.takeWhile (· ≠ Byte.rightParen))
          let params := if list = [] then [] else (Text.splitAt Byte.comma list).map Text.trim
          let body := (inside.dropWhile (· ≠ Byte.rightParen)).tail
          .ok (name, { params := some params, body := Text.trim body })
        else .error (.unterminated name)
      | body => .ok (name, { body := Text.trim body })

end SmallC
