import SmallC.Proofs.Tree.Value

/-!
# Running statements

What a statement does to the variables and how control leaves it, with the values that expressions
have. A loop that goes on has no outcome: `fuel` says how many rounds each loop is given, and one that
needs more comes to nothing. Nothing else depends on it.

Control comes to the arm of a switch that has the value, or else to `default`, and from there runs
through all arms after it.
-/

namespace SmallC

open Ir

inductive Exit where
  | next
  | breakOut
  | continueOn
  | returned (value : Option (BitVec 64))
  deriving DecidableEq, Repr

/-- A loop ends at a `break` in it, and so does a switch. -/
def Exit.caught : Exit → Exit
  | .breakOut => .next
  | exit => exit

namespace Store

variable (S : Store)

def rounds (cond : S.Eval (BitVec 64)) (body : S.Eval Exit) : Nat → S.Eval Exit
  | 0 => failure
  | n + 1 => do
    if (← cond) = 0 then return .next
    match ← body with
    | .next | .continueOn => rounds cond body n
    | exit => return exit.caught

end Store

namespace Tree

mutual

def exec (S : Store) (fuel : Nat) : Tree → S.Eval Exit
  | .empty => return .next
  | .block _ stmts => execAll S fuel stmts
  | .branch _ c yes no => do if (← c.eval S) = 0 then no.exec S fuel else yes.exec S fuel
  | .loop _ c body => S.rounds (c.eval S) (body.exec S fuel) fuel
  | .switch _ scrutinee arms => do
    let v ← scrutinee.eval S
    let c ← S.cls scrutinee.type
    return (← execArms S fuel c v false arms).caught
  | .result _ value =>
    if value.isEmpty then return .returned none else do return .returned (some (← value.eval S))
  | .breakOut _ => return .breakOut
  | .continueOn _ => return .continueOn
  | t => do
    let _ ← t.eval S
    return .next

def execAll (S : Store) (fuel : Nat) : List Tree → S.Eval Exit
  | [] => return .next
  | t :: ts => do
    match ← t.exec S fuel with
    | .next => execAll S fuel ts
    | exit => return exit

/-- The arms of a switch on the value `v` of class `c`, where `inside` says that control has come to
one before. -/
def execArms (S : Store) (fuel : Nat) (c : Cls) (v : BitVec 64) (inside : Bool) :
    List (ArmHead × Tree) → S.Eval Exit
  | [] => return .next
  | (head, body) :: arms =>
    if inside || head.value.all fun w => c.read w.toBitVec = v then do
      match ← body.exec S fuel with
      | .next => execArms S fuel c v true arms
      | exit => return exit
    else execArms S fuel c v false arms

end

end Tree
end SmallC
