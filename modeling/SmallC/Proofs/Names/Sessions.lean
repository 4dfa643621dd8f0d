import SmallC.Proofs.Names.Declarations

/-!
# Names over sessions

Statements keep tables orderly as declarations do, so a grammar of any depth does, and so does compiling a
source. A source with a diagnostic leaves tables in the middle of a declaration or of a function, and the
next source goes on from there.
-/

namespace SmallC

namespace Parse

variable {g : Grammar} (hg : g.Orderly)
include hg

lemma keeps_localDeclaration : Keeps .inside (localDeclaration g) :=
  (keeps_declaration hg (.inr (.inl rfl) : StorageClass.local.IsDeclared)).bind fun _ =>
    keeps.pair.expect.bind fun _ => keeps.pure _

end Parse

/-! ## Files -/

open Parse

lemma Grammar.Orderly.empty : (Grammar.empty Parse.resolve).Orderly where
  expression _ := keeps_of_table fun _ => ⟨rfl, rfl⟩
  unaryExpression := keeps_of_table fun _ => ⟨rfl, rfl⟩
  typeSpec _ := keeps_of_table fun _ => ⟨rfl, rfl⟩
  declaration _ _ _ _ := keeps_of_table fun _ => ⟨rfl, rfl⟩
  statement := keeps_of_table fun _ => ⟨rfl, rfl⟩
  block _ := keeps_of_table fun _ => ⟨rfl, rfl⟩
  resolve := keeps.pair.resolve

lemma Grammar.Orderly.deeper {g : Grammar} (hg : g.Orderly) : g.deeper.Orderly where
  expression _ := keeps.pair.expression (hg.has _)
  unaryExpression := keeps.pair.unaryExpression (hg.has _)
  typeSpec _ := keeps_typeSpec hg
  declaration _ _ _ declared := keeps_declaration hg declared
  statement := keeps.pair.statement (hg.has _) hg.statement hg.block (keeps_localDeclaration hg)
  block inSwitch := keeps.pair.block (hg.has _) hg.statement hg.block (keeps_localDeclaration hg) inSwitch
  resolve := hg.resolve

lemma grammar_orderly {depth : Nat} : (grammar depth).Orderly := by
  induction depth with
  | zero => exact .empty
  | succ depth ih => exact ih.deeper

lemma keeps_file : Keeps .quiet Parse.file := by
  refine Keeps.bind (keeps.view _) fun s => .iterate fun _ => ?_
  have global : Keeps .quiet (declaration (grammar s.bound) .global .semicolon .eof) :=
    keeps_declaration grammar_orderly (.inl rfl : StorageClass.global.IsDeclared)
  exact keeps.pair.isAt.bind fun _ => keeps.ite (keeps.pure _)
    (global.bind fun _ => (keeps.pair.skip _).bind fun _ => keeps.pure _)

namespace Session

variable {s : Session}

/-- What a session is after it has compiled sources one after another. -/
def compileAll (s : Session) (sources : List Text) : Session :=
  sources.foldl (fun s source => (s.compile source).2) s

lemma compile_orderly (h : s.table.Orderly) {source : Text} : (s.compile source).2.table.Orderly := by
  unfold compile
  split
  · exact h
  · rename_i tokens _
    have run := keeps_file (s.start tokens) h trivial
    dsimp only
    cases ended : Parse.file (s.start tokens) with
    | ok a s' => exact (run.ends a s' ended).1.purgeStatics
    | error d s' => exact (run.error ended).2

lemma compileAll_orderly (h : s.table.Orderly) (sources : List Text) :
    (s.compileAll sources).table.Orderly := by
  induction sources generalizing s with
  | nil => exact h
  | cons source sources ih => exact ih (compile_orderly h)

/-- Names are distinct in the tables of a session, whatever sources it has compiled and whether or not
they had diagnostics. -/
theorem compileAll_distinct (file : Text) (sources : List Text) :
    (compileAll { file } sources).table.Distinct :=
  (compileAll_orderly .empty sources).distinct

end Session
end SmallC
