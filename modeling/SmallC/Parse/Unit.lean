import SmallC.Parse.Statement

/-!
# Files

The parts of the grammar contain each other. `grammar n` reads whatever nests less than `n` deep;
since each part uses another only after it has consumed a token, a bound larger than the number of
tokens is never reached.
-/

namespace SmallC

/-- The grammar one level deeper than `g`. -/
def Grammar.deeper (g : Grammar) : Grammar where
  expression := Parse.expression g
  unaryExpression := Parse.unaryExpression g
  typeSpec := Parse.typeSpec g
  declaration := Parse.declaration g
  statement := Parse.statement g
  block := Parse.block g
  resolve := g.resolve

def Grammar.empty (rule : Text → Parse Referent) : Grammar where
  expression _ := Parse.fail .exhausted
  unaryExpression := Parse.fail .exhausted
  typeSpec _ := Parse.fail .exhausted
  declaration _ _ _ := Parse.fail .exhausted
  statement := Parse.fail .exhausted
  block _ := Parse.fail .exhausted
  resolve := rule

/-- The grammar where a rule says what names stand for. -/
def grammarBy (rule : Text → Parse Referent) : Nat → Grammar
  | 0 => .empty rule
  | depth + 1 => (grammarBy rule depth).deeper

def grammar : Nat → Grammar := grammarBy Parse.resolve

theorem grammarBy_resolve (rule : Text → Parse Referent) (depth : Nat) :
    (grammarBy rule depth).resolve = rule := by
  induction depth with
  | zero => rfl
  | succ depth ih => exact ih

namespace Parse

/-- One more declaration of a file, or its end. -/
def nextDeclaration (g : Grammar) (_ : Unit) : Parse (Unit ⊕ Unit) := do
  if ← isAt .eof then return .inr ()
  let _ ← declaration g .global .semicolon .eof
  skip .semicolon
  return .inl ()

def declarations (g : Grammar) : Parse Unit := iterate (nextDeclaration g) ()

/-- A whole file, where a rule says what names stand for. -/
def fileBy (rule : Text → Parse Referent) : Parse Unit := do
  declarations (grammarBy rule (← get).bound)

def file : Parse Unit := fileBy resolve

end Parse
end SmallC
