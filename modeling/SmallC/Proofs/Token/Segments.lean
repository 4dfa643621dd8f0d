import SmallC.Proofs.Token.Scan

/-!
# Segments of a source

A source with tokens is a row of segments: white space, comments, lines with a mark, and the tokens. The place of
a token follows from the segments before it: its line is the one that the last marker tells, and one more for
each line break since, and its file is the one named last.
-/

namespace SmallC

variable {file : Text}

/-- A part of a source. A line comment ends before a line break, a line with a mark behind it. -/
inductive Segment where
  | blank (a : Char)
  | note (body : List Char)
  | comment (body : List Char)
  | mark (line : List Char) (closed : Bool)
  | token (text : List Char) (kind : TokenKind) (lexeme : Text) (value : Int64)

namespace Segment

def text : Segment → List Char
  | .blank a => [a]
  | .note body => '/' :: '/' :: body
  | .comment body => '/' :: '*' :: (body ++ ['*', '/'])
  | .mark line closed => '#' :: (line ++ if closed then ['\n'] else [])
  | .token text .. => text

def marker? : Segment → Option LineMarker
  | .mark line _ => LineMarker.read? line
  | _ => none

def token? (line : Int64) (file : Text) : Segment → Option Token
  | .token _ kind lexeme value => some { kind, lexeme, value, line, file }
  | _ => none

/-- The segment may stand at `p` with `rest` behind it. -/
inductive Fits (p : Place) (rest : List Char) : Segment → Prop
  | blank {a : Char} (white : Text.isBlank a = true) : Fits p rest (.blank a)
  | note {body : List Char} (line : '\n' ∉ body) (ends : ∀ a ∈ rest.head?, a = '\n') : Fits p rest (.note body)
  | comment {body : List Char} (first : ¬ ['*', '/'] <:+: body) : Fits p rest (.comment body)
  | mark {line : List Char} {closed : Bool} (fresh : p.fresh = true) (one : '\n' ∉ line)
      (ends : closed = false → rest = []) : Fits p rest (.mark line closed)
  | token {text : List Char} {kind : TokenKind} {lexeme : Text} {value : Int64} (some : text ≠ [])
      (code : ∀ r, text ++ rest ≠ '/' :: '/' :: r ∧ text ++ rest ≠ '/' :: '*' :: r)
      (read : ∀ q : Place, Cursor.scan ⟨q, text ++ rest⟩ =
        .ok (⟨kind, lexeme, value, q.line, q.file⟩, ⟨q.afterAll text, rest⟩)) :
      Fits p rest (.token text kind lexeme value)

def texts (ss : List Segment) : List Char := ss.flatMap text

end Segment

def Place.past (p : Place) (s : Segment) : Place :=
  s.marker?.elim (p.afterAll s.text) (p.afterAll s.text).marked

def Place.pastAll (p : Place) (ss : List Segment) : Place := ss.foldl Place.past p

namespace Segment

/-- The segments may stand in a row from `p` on, with `rest` behind them. -/
def Fit : Place → List Segment → List Char → Prop
  | _, [], _ => True
  | p, s :: ss, rest => s.Fits p (texts ss ++ rest) ∧ Fit (p.past s) ss rest

def tokensAt : Place → List Segment → List Token
  | _, [] => []
  | p, s :: ss => (s.token? p.line p.file).toList ++ tokensAt (p.past s) ss

variable {p q : Place} {s : Segment} {ss : List Segment} {rest : List Char}

lemma Fits.text_ne_nil (h : s.Fits p rest) : s.text ≠ [] := by
  cases h with
  | token some => exact some
  | _ => exact List.cons_ne_nil _ _

end Segment

namespace Cursor

variable {c d next : Cursor} {p : Place} {body rest cs : List Char} {a : Char}

/-! ## One piece of trivia -/

lemma takeWhile_line {l : List Char} (line : '\n' ∉ l) (ends : ∀ a ∈ rest.head?, a = '\n') :
    (l ++ rest).takeWhile notNewline = l ∧ (l ++ rest).dropWhile notNewline = rest := by
  have inside : ∀ a ∈ l, notNewline a = true := fun a mem => by
    rw [notNewline, decide_eq_true_eq]
    rintro rfl
    exact line mem
  rw [List.takeWhile_append_of_pos inside, List.dropWhile_append_of_pos inside]
  cases rest with
  | nil => simp
  | cons a rest =>
    obtain rfl := ends a rfl
    exact ⟨by rw [List.takeWhile_cons_of_neg (by decide), List.append_nil],
      List.dropWhile_cons_of_neg (by decide)⟩

lemma exists_line (cs : List Char) : ∃ line rest, cs = line ++ rest ∧ '\n' ∉ line ∧ ∀ a ∈ rest.head?, a = '\n' := by
  refine ⟨cs.takeWhile notNewline, cs.dropWhile notNewline, List.takeWhile_append_dropWhile.symm, ?_, ?_⟩
  · intro mem
    exact absurd (List.mem_takeWhile_imp mem) (by decide)
  · intro a mem
    have := List.head?_dropWhile_not notNewline cs
    rw [mem] at this
    simpa [notNewline] using this

lemma commentEnd_eq (first : ¬ ['*', '/'] <:+: body) (p : Place) (rest : List Char) :
    commentEnd p (body ++ '*' :: '/' :: rest) = .ok ⟨p.afterAll (body ++ ['*', '/']), rest⟩ := by
  induction body generalizing p with
  | nil => rfl
  | cons a body ih =>
    rw [List.cons_append, commentEnd]
    · exact ih (fun h => first (h.trans (List.suffix_cons a body).isInfix)) (p.after a)
    · rintro rest' rfl second
      cases body with
      | nil => cases second
      | cons b body =>
        obtain ⟨rfl, -⟩ := List.cons.inj second
        exact first ⟨[], body, rfl⟩

lemma exists_comment (h : commentEnd p cs = .ok c) :
    ∃ body, ¬ ['*', '/'] <:+: body ∧ cs = body ++ '*' :: '/' :: c.rest := by
  fun_induction commentEnd p cs with
  | case1 p rest =>
    cases h
    exact ⟨[], by simp, rfl⟩
  | case2 p a rest other ih =>
    obtain ⟨body, first, rfl⟩ := ih h
    refine ⟨a :: body, fun inside => ?_, rfl⟩
    rcases List.infix_cons_iff.mp inside with ⟨more, begins⟩ | inside
    · obtain ⟨rfl, rfl⟩ := List.cons.inj begins
      exact other _ rfl rfl
    · exact first inside
  | case3 => cases h

lemma skipTrivia_line (h : c.rest = '/' :: '/' :: rest) :
    c.skipTrivia = (c.skipWhile notNewline).skipTrivia := by
  rw [skipTrivia]
  split <;> simp_all

lemma skipTrivia_comment (h : c.rest = '/' :: '*' :: rest)
    (closed : commentEnd ((c.place.after '/').after '*') rest = .ok next) :
    c.skipTrivia = next.skipTrivia := by
  rw [skipTrivia]
  split <;> simp_all
  split <;> simp_all

lemma skipTrivia_open (h : c.rest = '/' :: '*' :: rest)
    (failed : commentEnd ((c.place.after '/').after '*') rest = .error p) :
    c.skipTrivia = fail ⟨p, []⟩ (.unterminatedComment ((c.place.after '/').after '*').line) := by
  rw [skipTrivia]
  split <;> simp_all
  split <;> simp_all

lemma skipTrivia_blank (h : c.rest = a :: rest) (blank : Text.isBlank a = true) :
    c.skipTrivia = skipTrivia ⟨c.place.after a, rest⟩ := by
  rw [skipTrivia]
  split
  · rename_i hr
    cases h.symm.trans hr
  · rename_i hr
    obtain ⟨rfl, -⟩ := List.cons.inj (h.symm.trans hr)
    cases blank
  · rename_i hr
    obtain ⟨rfl, -⟩ := List.cons.inj (h.symm.trans hr)
    cases blank
  · rename_i hr
    obtain ⟨rfl, rfl⟩ := List.cons.inj (h.symm.trans hr)
    rw [if_pos blank]

lemma skipTrivia_stop (h : c.rest = a :: rest) (line : ∀ r, c.rest ≠ '/' :: '/' :: r)
    (comment : ∀ r, c.rest ≠ '/' :: '*' :: r) (solid : Text.isBlank a = false)
    (mark : ¬ (a = '#' ∧ c.place.fresh = true)) : c.skipTrivia = .ok c := by
  rw [skipTrivia]
  split
  · rfl
  · rename_i hr
    exact absurd hr (line _)
  · rename_i hr
    exact absurd hr (comment _)
  · rename_i hr
    obtain ⟨rfl, rfl⟩ := List.cons.inj (h.symm.trans hr)
    rw [if_neg (by simp [solid]), dif_neg mark]

lemma lineEnd_mark {line : List Char} {closed : Bool} (one : '\n' ∉ line) (ends : closed = false → rest = []) :
    lineEnd ⟨p, (Segment.mark line closed).text ++ rest⟩ = ⟨p.past (.mark line closed), rest⟩ := by
  have hash : '\n' ∉ '#' :: line := by simp [one]
  have breaks : ∀ a ∈ ((if closed then ['\n'] else []) ++ rest).head?, a = '\n' := by
    cases closed with
    | true => simp
    | false => simp [ends rfl]
  have passed := takeWhile_line hash breaks
  have whole : (Segment.mark line closed).text ++ rest =
      ('#' :: line) ++ ((if closed then ['\n'] else []) ++ rest) := by simp [Segment.text]
  unfold lineEnd
  rw [whole]
  simp only [skipWhile, passed.1, passed.2, List.drop_succ_cons, List.drop_zero]
  have next : (⟨p.afterAll ('#' :: line), (if closed then ['\n'] else []) ++ rest⟩ : Cursor).advance =
      ⟨p.afterAll (Segment.mark line closed).text, rest⟩ := by
    cases closed with
    | true => simp [advance, Segment.text, Place.afterAll]
    | false => simp [advance, Segment.text, ends rfl]
  rw [next, Place.past]
  simp only [Segment.marker?]
  cases LineMarker.read? line <;> rfl

lemma tokens_eq (c : Cursor) : c.tokens = match c.next with
    | .error d => ([], some d)
    | .ok (t, rest) => if t.kind = .eof then ([t], none) else (t :: rest.tokens.1, rest.tokens.2) := by
  rw [tokens]
  split
  · rename_i step
    rw [step]
  · rename_i step
    rw [step]
    rfl

lemma tokens_of_skipTrivia (h : c.skipTrivia = d.skipTrivia) : c.tokens = d.tokens := by
  rw [tokens_eq, tokens_eq, Cursor.next, Cursor.next, h]

lemma tokens_nil (p : Place) : tokens ⟨p, []⟩ = ([⟨.eof, [], 0, p.line, p.file⟩], none) := by
  rw [tokens_eq, Cursor.next, skipTrivia_nil rfl]
  rfl

end Cursor

namespace Segment
open Cursor

variable {p q : Place} {s : Segment} {ss : List Segment} {rest cs : List Char}

/-! ## Reading segments -/

/-- A segment is passed, and what is behind it is read at the place behind it. -/
theorem Fits.tokens (h : s.Fits p rest) : Cursor.tokens ⟨p, s.text ++ rest⟩ =
    ((s.token? p.line p.file).toList ++ (Cursor.tokens ⟨p.past s, rest⟩).1,
      (Cursor.tokens ⟨p.past s, rest⟩).2) := by
  cases h with
  | blank white => exact tokens_of_skipTrivia (skipTrivia_blank rfl white)
  | @note body line ends =>
    refine tokens_of_skipTrivia ((skipTrivia_line rfl).trans ?_)
    have line : '\n' ∉ '/' :: '/' :: body := by simp [line]
    obtain ⟨taken, left⟩ := takeWhile_line line ends
    rw [skipWhile]
    exact congrArg Cursor.skipTrivia (congrArg₂ Cursor.mk (congrArg p.afterAll taken) left)
  | @comment body first =>
    exact tokens_of_skipTrivia (skipTrivia_comment (by simp [text]) (commentEnd_eq first _ rest))
  | mark fresh one ends =>
    refine tokens_of_skipTrivia ((skipTrivia_mark fresh rfl).trans ?_)
    rw [lineEnd_mark one ends]
  | @token text kind lexeme value some code read =>
    obtain ⟨a, more, begins⟩ := List.exists_cons_of_ne_nil (List.append_ne_nil_of_left_ne_nil some rest)
    have here := read p
    have first := scan_first (begins ▸ here)
    have stop := skipTrivia_stop (c := ⟨p, text ++ rest⟩) begins (fun r => (code r).1) (fun r => (code r).2)
      first.1 fun h => first.2 h.1
    have step : Cursor.next ⟨p, text ++ rest⟩ = Cursor.scan ⟨p, text ++ rest⟩ := by rw [Cursor.next, stop]
    have more : kind ≠ .eof := kind_ne_eof (List.append_ne_nil_of_left_ne_nil some rest) here
    show Cursor.tokens ⟨p, text ++ rest⟩ = _
    rw [tokens_eq, step, here]
    exact if_neg more

/-- Where a token can be read, a segment stands. -/
theorem exists_fits {x : Token × Cursor} (some : cs ≠ []) (h : Cursor.next ⟨p, cs⟩ = .ok x) :
    ∃ (s : Segment) (rest : List Char), cs = s.text ++ rest ∧ s.Fits p rest := by
  obtain ⟨start, here, scanned⟩ := next_eq_ok h
  generalize hc : (⟨p, cs⟩ : Cursor) = c at here
  obtain rfl : c.rest = cs := by rw [← hc]
  obtain rfl : c.place = p := by rw [← hc]
  fun_cases skipTrivia c with
  | case1 none => exact absurd none some
  | case2 after hr =>
    obtain ⟨body, rest, rfl, line, ends⟩ := exists_line after
    exact ⟨.note body, rest, hr, .note line ends⟩
  | case3 after hr opened next closed =>
    obtain ⟨body, first, rfl⟩ := exists_comment closed
    exact ⟨.comment body, next.rest, by simp [hr, text], .comment first⟩
  | case4 after hr opened q failed =>
    rw [skipTrivia_open hr failed] at here
    cases here
  | case5 a after _ _ hr white => exact ⟨.blank a, after, hr, .blank white⟩
  | case6 a after _ _ hr _ hm =>
    obtain ⟨rfl, fresh⟩ := hm
    obtain ⟨line, rest, rfl, one, ends⟩ := exists_line after
    cases rest with
    | nil => exact ⟨.mark line false, [], by simp [hr, text], .mark fresh one fun _ => rfl⟩
    | cons b rest =>
      obtain rfl := ends b rfl
      exact ⟨.mark line true, rest, by simp [hr, text], .mark fresh one nofun⟩
  | case7 a after line comment hr solid mark =>
    have code (r : List Char) : c.rest ≠ '/' :: '/' :: r ∧ c.rest ≠ '/' :: '*' :: r := by
      constructor <;> intro whole <;> obtain ⟨rfl, rfl⟩ := List.cons.inj (hr.symm.trans whole)
      · exact line r rfl rfl
      · exact comment r rfl rfl
    have stop := skipTrivia_stop hr (fun r => (code r).1) (fun r => (code r).2) (by simpa using solid) mark
    obtain rfl : c = start := Except.ok.inj (stop.symm.trans here)
    obtain ⟨⟨kind, lexeme, value, _, _⟩, c'⟩ := x
    obtain ⟨text, split, read⟩ := scan_elsewhere some scanned
    rw [split] at code
    refine ⟨.token text kind lexeme value, c'.rest, split, .token ?_ code fun q => ?_⟩
    · rintro rfl
      have shorter := (scan_rest_lt scanned).resolve_right fun h => kind_ne_eof some scanned h.1
      rw [split] at shorter
      exact absurd shorter (lt_irrefl _)
    · have := read q [] nofun
      rwa [List.append_nil, List.append_nil, split] at this

/-- Segments in a row are read one after another. -/
theorem Fit.tokens (h : Fit p ss rest) : Cursor.tokens ⟨p, texts ss ++ rest⟩ =
    (tokensAt p ss ++ (Cursor.tokens ⟨p.pastAll ss, rest⟩).1, (Cursor.tokens ⟨p.pastAll ss, rest⟩).2) := by
  induction ss generalizing p with
  | nil => rfl
  | cons s ss ih =>
    have split : texts (s :: ss) ++ rest = s.text ++ (texts ss ++ rest) := by simp [texts]
    rw [split, h.1.tokens, ih h.2]
    simp [tokensAt, Place.pastAll]

lemma Fit.kind_ne_eof (h : Fit p ss rest) : ∀ t ∈ tokensAt p ss, t.kind ≠ .eof := by
  induction ss generalizing p with
  | nil => exact fun _ mem => absurd mem List.not_mem_nil
  | cons s ss ih =>
    intro t mem
    rcases List.mem_append.mp mem with here | later
    · cases h.1 with
      | token some code read =>
        obtain rfl := Option.mem_some.mp (Option.mem_toList.mp here)
        exact Cursor.kind_ne_eof (List.append_ne_nil_of_left_ne_nil some _) (read p)
      | _ => cases here
    · exact ih h.2 t later

def Stuck (p : Place) (cs : List Char) : Prop := cs ≠ [] ∧ ∀ (s : Segment) rest, cs = s.text ++ rest → ¬ s.Fits p rest

lemma Stuck.tokens (h : Stuck p cs) : ∃ d, Cursor.tokens ⟨p, cs⟩ = ([], some d) := by
  cases step : Cursor.next ⟨p, cs⟩ with
  | error d => exact ⟨d, by rw [tokens_eq, step]⟩
  | ok x =>
    obtain ⟨s, rest, split, fits⟩ := exists_fits h.1 step
    exact absurd fits (h.2 s rest split)

/-- Every source is a row of segments up to its end, or up to where none may stand. -/
theorem exists_fit (p : Place) (cs : List Char) :
    ∃ ss rest, cs = texts ss ++ rest ∧ Fit p ss rest ∧ (rest = [] ∨ Stuck (p.pastAll ss) rest) := by
  by_cases step : ∃ (s : Segment) (rest : List Char), cs = s.text ++ rest ∧ s.Fits p rest
  · obtain ⟨s, rest, rfl, fits⟩ := step
    have := List.length_pos_iff.mpr fits.text_ne_nil
    obtain ⟨ss, rest', rfl, fit, ends⟩ := exists_fit (p.past s) rest
    exact ⟨s :: ss, rest', by simp [texts], ⟨fits, fit⟩, ends⟩
  · refine ⟨[], cs, rfl, trivial, or_iff_not_imp_left.mpr fun some => ⟨some, fun s rest split fits => ?_⟩⟩
    exact step ⟨s, rest, split, fits⟩
termination_by cs.length
decreasing_by
  simp_all

lemma exists_segments {source : Text} (accepted : (lex source file).2 = none) :
    ∃ ss, Text.chars source = texts ss ∧ Fit { file } ss [] ∧
      (lex source file).1 = tokensAt { file } ss ++ (Cursor.tokens ⟨Place.pastAll { file } ss, []⟩).1 := by
  obtain ⟨ss, rest, split, fit, rfl | stuck⟩ := exists_fit { file } (Text.chars source)
  · rw [lex, split, fit.tokens]
    exact ⟨ss, List.append_nil _, fit, rfl⟩
  · obtain ⟨d, none⟩ := stuck.tokens
    rw [lex, split, fit.tokens, none] at accepted
    cases accepted

/-! ## In other places -/

lemma Fits.elsewhere (fresh : q.fresh = p.fresh) (h : s.Fits p rest) : s.Fits q rest := by
  cases h with
  | blank white => exact .blank white
  | note line ends => exact .note line ends
  | comment first => exact .comment first
  | mark fresh' one ends => exact .mark (fresh.trans fresh') one ends
  | token some code read => exact .token some code read

lemma fresh_afterAll (h : q.fresh = p.fresh) (cs : List Char) : (q.afterAll cs).fresh = (p.afterAll cs).fresh := by
  induction cs generalizing p q with
  | nil => exact h
  | cons a cs ih =>
    refine ih ?_
    unfold Place.after
    split
    · rfl
    · exact congrArg (· && _) h

lemma fresh_past (p : Place) (s : Segment) : (p.past s).fresh = (p.afterAll s.text).fresh := by
  unfold Place.past
  cases s.marker? <;> rfl

lemma Fit.elsewhere (fresh : q.fresh = p.fresh) (h : Fit p ss rest) :
    Fit q ss rest ∧ (q.pastAll ss).fresh = (p.pastAll ss).fresh := by
  induction ss generalizing p q with
  | nil => exact ⟨trivial, fresh⟩
  | cons s ss ih =>
    obtain ⟨fit, last⟩ := ih (q := q.past s) (by rw [fresh_past, fresh_past, fresh_afterAll fresh]) h.2
    exact ⟨⟨h.1.elsewhere fresh, fit⟩, last⟩

lemma Stuck.elsewhere (fresh : q.fresh = p.fresh) (h : Stuck p cs) : Stuck q cs :=
  ⟨h.1, fun s rest split fits => h.2 s rest split (fits.elsewhere fresh.symm)⟩

lemma content_tokensAt (p q : Place) (ss : List Segment) :
    (tokensAt q ss).map Token.content = (tokensAt p ss).map Token.content := by
  induction ss generalizing p q with
  | nil => rfl
  | cons s ss ih =>
    rw [tokensAt, tokensAt, List.map_append, List.map_append, ih (p.past s)]
    cases s <;> rfl

/-- The same source in another place has the same tokens but for their places. -/
theorem tokens_elsewhere (fresh : q.fresh = p.fresh) (cs : List Char) :
    (Cursor.tokens ⟨q, cs⟩).1.map Token.content = (Cursor.tokens ⟨p, cs⟩).1.map Token.content ∧
      ((Cursor.tokens ⟨q, cs⟩).2 = none ↔ (Cursor.tokens ⟨p, cs⟩).2 = none) := by
  obtain ⟨ss, rest, rfl, fit, ends⟩ := exists_fit p cs
  obtain ⟨fit', last⟩ := fit.elsewhere fresh
  rw [fit.tokens, fit'.tokens, List.map_append, List.map_append, content_tokensAt p q]
  rcases ends with rfl | stuck
  · rw [tokens_nil, tokens_nil]
    exact ⟨rfl, Iff.rfl⟩
  · obtain ⟨d, none⟩ := stuck.tokens
    obtain ⟨d', none'⟩ := (stuck.elsewhere last).tokens
    rw [none, none']
    exact ⟨rfl, by simp⟩

lemma Fits.before {text tail : List Char} {kind : TokenKind} {lexeme : Text} {value : Int64}
    (h : (Segment.token text kind lexeme value).Fits p rest) (breaks : Text.Breaks tail) :
    (Segment.token text kind lexeme value).Fits p (rest ++ tail) := by
  cases h with
  | token some code read =>
    refine .token some (fun r => ?_) fun q => ?_
    · rw [← List.append_assoc]
      constructor <;> intro begins <;> obtain ⟨_, first, second⟩ := Text.begins_breaks (by decide) breaks begins <;>
        obtain ⟨_, rfl, -⟩ := Text.begins_breaks (by decide) breaks second
      · exact (code _).1 first
      · exact (code _).2 first
    · obtain ⟨text', split, read'⟩ := scan_elsewhere (List.append_ne_nil_of_left_ne_nil some rest) (read p)
      obtain rfl : text = text' := List.append_cancel_right split
      rw [← List.append_assoc, read' q tail breaks]

lemma Fits.followed (h : s.Fits p rest) (closed : ∀ line, s ≠ .mark line false) (more : List Char) :
    s.Fits p (rest ++ '\n' :: more) := by
  cases h with
  | blank white => exact .blank white
  | note line ends =>
    refine .note line ?_
    cases rest with
    | nil => exact fun a mem => (Option.mem_some.mp mem).symm
    | cons b rest => exact ends
  | comment first => exact .comment first
  | @mark line closed' fresh one ends =>
    cases closed' with
    | true => exact .mark fresh one nofun
    | false => exact absurd rfl (closed line)
  | token some code read =>
    exact (Fits.token (p := p) some code read).before fun a mem => by
      obtain rfl := Option.mem_some.mp mem
      rfl

lemma fresh_line (p : Place) (cs : List Char) : (p.afterAll (cs ++ ['\n'])).fresh = true := by
  rw [Place.afterAll_append]
  show (Place.after _ '\n').fresh = true
  rw [Place.after, if_pos rfl]

lemma Fit.closed (h : Fit p ss []) : ∃ ss', texts ss' = texts ss ++ ['\n'] ∧ tokensAt p ss' = tokensAt p ss ∧
    (p.pastAll ss').fresh = true ∧ ∀ more, Fit p ss' more := by
  induction ss generalizing p with
  | nil => exact ⟨[.blank '\n'], rfl, rfl, fresh_line p [], fun _ => ⟨.blank (by decide), trivial⟩⟩
  | cons s ss ih =>
    obtain ⟨fits, fit⟩ := h
    rw [List.append_nil] at fits
    by_cases open_ : ∃ line, s = .mark line false
    · obtain ⟨line, rfl⟩ := open_
      cases fits with
      | mark fresh one ends =>
        -- the source ended in a line with a mark
        obtain rfl : ss = [] := by
          cases ss with
          | nil => rfl
          | cons s' ss => exact absurd (List.append_eq_nil_iff.mp (ends rfl)).1 fit.1.text_ne_nil
        refine ⟨[.mark line true], by simp [texts, text], rfl, ?_, fun _ => ⟨.mark fresh one nofun, trivial⟩⟩
        exact (fresh_past p _).trans (fresh_line p ('#' :: line))
    · obtain ⟨ss', split, same, fresh, fit'⟩ := ih fit
      refine ⟨s :: ss', ?_, congrArg (List.append _) same, fresh, fun more => ⟨?_, fit' more⟩⟩
      · simp only [texts, List.flatMap_cons, List.append_assoc] at split ⊢
        rw [split]
      · rw [split, List.append_assoc]
        exact fits.followed (fun line is => open_ ⟨line, is⟩) more

/-! ## Lines and files -/

/-- The line that the last marker tells, or the first one, and one more for each line break since. -/
def lineAfter (ss : List Segment) : Int64 :=
  (ss.filterMap marker?).getLast?.elim 1 LineMarker.line +
    Int64.ofNat ((texts (ss.rtakeWhile fun s => s.marker?.isNone)).count '\n')

def name? (s : Segment) : Option Text := s.marker?.bind LineMarker.file

def fileAfter (file : Text) (ss : List Segment) : Text := (ss.filterMap name?).getLast?.getD file

/-- The tokens of segments behind others, and the one for the end of the source. -/
def tokensAfter (file : Text) (before : List Segment) : List Segment → List Token
  | [] => [{ kind := .eof, line := lineAfter before, file := fileAfter file before }]
  | s :: ss => (s.token? (lineAfter before) (fileAfter file before)).toList ++ tokensAfter file (before ++ [s]) ss

lemma line_afterAll (p : Place) (cs : List Char) :
    (p.afterAll cs).line = p.line + Int64.ofNat (cs.count '\n') := by
  induction cs generalizing p with
  | nil => exact (Int64.add_zero _).symm
  | cons a cs ih =>
    refine (ih (p.after a)).trans ?_
    by_cases newline : a = '\n'
    · obtain rfl := newline
      rw [Place.after, if_pos rfl, List.count_cons_self, Nat.add_comm, Int64.ofNat_add, ← Int64.add_assoc]
      rfl
    · rw [Place.after, if_neg newline, List.count_cons_of_ne newline]

lemma pastAll_line_file (file : Text) (ss : List Segment) :
    (Place.pastAll { file } ss).line = lineAfter ss ∧ (Place.pastAll { file } ss).file = fileAfter file ss := by
  induction ss using List.reverseRecOn with
  | nil => exact ⟨rfl, rfl⟩
  | append_singleton ss s ih =>
    have step : Place.pastAll { file } (ss ++ [s]) = (Place.pastAll { file } ss).past s := List.foldl_append
    rw [step]
    cases marker : s.marker? with
    | none =>
      have since : (ss ++ [s]).rtakeWhile (fun s => s.marker?.isNone) =
          ss.rtakeWhile (fun s => s.marker?.isNone) ++ [s] := List.rtakeWhile_concat_pos _ _ _ (by simp [marker])
      constructor
      · simp only [Place.past, marker, Option.elim, line_afterAll, ih.1, lineAfter, since, List.filterMap_append,
          List.filterMap_cons, List.filterMap_nil, List.append_nil, texts, List.flatMap_append, List.flatMap_cons,
          List.flatMap_nil, List.count_append, Int64.ofNat_add, Int64.add_assoc]
      · simp only [Place.past, marker, Option.elim, Place.file_afterAll, ih.2, fileAfter, name?, Option.bind,
          List.filterMap_append, List.filterMap_cons, List.filterMap_nil, List.append_nil]
    | some m =>
      have since : (ss ++ [s]).rtakeWhile (fun s => s.marker?.isNone) = [] :=
        List.rtakeWhile_concat_neg _ _ _ (by simp [marker])
      constructor
      · simp [Place.past, marker, Place.marked, lineAfter, since, texts]
      · cases named : m.file with
        | none => simp [Place.past, marker, Place.marked, Place.file_afterAll, ih.2, fileAfter, name?, named]
        | some name => simp [Place.past, marker, Place.marked, fileAfter, name?, named]

lemma tokensAt_append (file : Text) (before ss : List Segment) :
    tokensAt (Place.pastAll { file } before) ss ++
        (Cursor.tokens ⟨Place.pastAll { file } (before ++ ss), []⟩).1 = tokensAfter file before ss := by
  induction ss generalizing before with
  | nil =>
    obtain ⟨line, name⟩ := pastAll_line_file file before
    rw [List.append_nil, tokens_nil, line, name]
    rfl
  | cons s ss ih =>
    obtain ⟨line, name⟩ := pastAll_line_file file before
    have step : Place.pastAll { file } (before ++ [s]) = (Place.pastAll { file } before).past s := List.foldl_append
    have rest := ih (before ++ [s])
    rw [step, List.append_assoc, List.singleton_append] at rest
    rw [tokensAt, tokensAfter, List.append_assoc, rest, line, name]

end Segment

lemma lex_line {a : Text} {ts : List Token} (accepted : lex a file = (ts, none)) (b : Text) :
    ∃ (before : List Token) (last : Token) (after : List Token), ts = before ++ [last] ∧ last.kind = .eof ∧
      (∀ t ∈ before, t.kind ≠ .eof) ∧ (lex (a ++ 10 :: b) file).1 = before ++ after ∧
      after.map Token.content = (lex b file).1.map Token.content ∧
      ((lex (a ++ 10 :: b) file).2 = none ↔ (lex b file).2 = none) := by
  obtain ⟨ss, split, fit, tokens⟩ := Segment.exists_segments (congrArg Prod.snd accepted)
  obtain ⟨ss', split', same, fresh, fit'⟩ := fit.closed
  have chars : Text.chars (a ++ 10 :: b) = Segment.texts ss' ++ Text.chars b := by
    rw [Text.chars_line, split, split', List.append_assoc]
    rfl
  have whole := (fit' (Text.chars b)).tokens
  rw [← chars, same] at whole
  obtain ⟨alike, ends⟩ := Segment.tokens_elsewhere (p := { file }) fresh (Text.chars b)
  rw [accepted, Cursor.tokens_nil] at tokens
  exact ⟨_, _, _, tokens, rfl, fit.kind_ne_eof, congrArg Prod.fst whole, alike,
    (iff_of_eq (congrArg (· = none) (congrArg Prod.snd whole))).trans ends⟩

/-- A source without diagnostic is a row of segments that gives its tokens, the end included, each with the
line that the last marker before it tells, and one more for each line break since, and with the file that was
named last. Of the names in quotes, those without white space are read. -/
theorem lex_places {source file : Text} (accepted : (lex source file).2 = none) :
    ∃ ss, Text.chars source = Segment.texts ss ∧ Segment.Fit { file } ss [] ∧
      (lex source file).1 = Segment.tokensAfter file [] ss ∧
      ∀ line closed file, (Segment.mark line closed).name? = some file ↔
        ∃ name, LineMarker.Names line name ∧ Text.unquoted? name = some file ∧
          ∀ a ∈ name, Text.isBlank a = false := by
  obtain ⟨ss, split, fit, tokens⟩ := Segment.exists_segments accepted
  exact ⟨ss, split, fit, tokens.trans (Segment.tokensAt_append file [] ss), fun _ _ _ => LineMarker.read?_file⟩

theorem lex_places_marked :
    let source : Text := "x /*\n# 9 */ y\n # 5 \"b.c\" 1\n\n'\n' z // 3\n#line 8"
    let a : Text := "a.c"
    let b : Text := "b.c"
    (lex source "a.c").2 = none ∧
      (lex source "a.c").1.map (fun t => (t.line, t.file)) = [(1, a), (2, a), (6, b), (7, b), (8, b)] ∧
      ∃ ss, Text.chars source = Segment.texts ss ∧ (lex source "a.c").1 = Segment.tokensAfter "a.c" [] ss := by
  intro source a b
  have accepted : (lex source "a.c").2 = none := by decide +kernel
  obtain ⟨ss, split, -, tokens, -⟩ := lex_places accepted
  exact ⟨accepted, by decide +kernel, ss, split, tokens⟩

/-- The marker names a file, but a token after it does not stand there. -/
theorem lex_misses_name :
    let line := Text.chars " 5 \"a b.c\""
    let name := Text.chars "\"a b.c\""
    LineMarker.Names line name ∧ Text.unquoted? name = some "a b.c" ∧
      (lex (Text.ofChars ('#' :: line ++ ['\n', 'x'])) "t.c").1.map (·.file) = ["t.c", "t.c"] := by
  refine ⟨⟨[], ['5'], [' '], [], rfl, List.forall_mem_nil _, List.forall_mem_singleton.mpr rfl, ?_, nofun,
    List.forall_mem_singleton.mpr rfl, nofun⟩, ?_⟩
  · decide +kernel
  · decide +kernel

end SmallC
