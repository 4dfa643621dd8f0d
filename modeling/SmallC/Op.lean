import SmallC.Text

/-!
# Operations

The operations that nodes of a syntax tree stand for. They are numbered, binary operators first
and in the order of their tokens; a number that no operation has is kept as it is.
-/

namespace SmallC

inductive Op where
  | none | assign | asPlus | asMinus | asStar | asSlash | asMod | ternary | logOr | logAnd
  | or | xor | and | eq | ne | lt | gt | le | ge | lshift | rshift
  | add | subtract | multiply | divide | mod
  | intLit | strLit | ident | glue | ifElse | whileLoop | function | widen | result | call
  | deref | addr | scale | preInc | preDec | postInc | postDec
  | negate | invert | logNot | toBool | breakOut | continueOn
  | switchOn | caseArm | defaultArm | cast
  | other (code : Int)
  deriving DecidableEq, Repr

namespace Op

def all : List Op :=
  [.none, .assign, .asPlus, .asMinus, .asStar, .asSlash, .asMod, .ternary, .logOr, .logAnd,
    .or, .xor, .and, .eq, .ne, .lt, .gt, .le, .ge, .lshift, .rshift,
    .add, .subtract, .multiply, .divide, .mod,
    .intLit, .strLit, .ident, .glue, .ifElse, .whileLoop, .function, .widen, .result, .call,
    .deref, .addr, .scale, .preInc, .preDec, .postInc, .postDec,
    .negate, .invert, .logNot, .toBool, .breakOut, .continueOn,
    .switchOn, .caseArm, .defaultArm, .cast]

def code : Op → Int
  | .none => 0 | .assign => 1 | .asPlus => 2 | .asMinus => 3 | .asStar => 4 | .asSlash => 5
  | .asMod => 6 | .ternary => 7 | .logOr => 8 | .logAnd => 9 | .or => 10 | .xor => 11
  | .and => 12 | .eq => 13 | .ne => 14 | .lt => 15 | .gt => 16 | .le => 17 | .ge => 18
  | .lshift => 19 | .rshift => 20 | .add => 21 | .subtract => 22 | .multiply => 23
  | .divide => 24 | .mod => 25 | .intLit => 26 | .strLit => 27 | .ident => 28 | .glue => 29
  | .ifElse => 30 | .whileLoop => 31 | .function => 32 | .widen => 33 | .result => 34
  | .call => 35 | .deref => 36 | .addr => 37 | .scale => 38 | .preInc => 39 | .preDec => 40
  | .postInc => 41 | .postDec => 42 | .negate => 43 | .invert => 44 | .logNot => 45
  | .toBool => 46 | .breakOut => 47 | .continueOn => 48 | .switchOn => 49 | .caseArm => 50
  | .defaultArm => 51 | .cast => 52
  | .other n => n

def ofCode (n : Int) : Op :=
  if 0 ≤ n then (all[n.toNat]?).getD (.other n) else .other n

def name : Op → Text
  | .none => "NONE" | .assign => "ASSIGN" | .asPlus => "ASPLUS" | .asMinus => "ASMINUS"
  | .asStar => "ASSTAR" | .asSlash => "ASSLASH" | .asMod => "ASMOD" | .ternary => "TERNARY"
  | .logOr => "LOGOR" | .logAnd => "LOGAND" | .or => "OR" | .xor => "XOR" | .and => "AND"
  | .eq => "EQ" | .ne => "NE" | .lt => "LT" | .gt => "GT" | .le => "LE" | .ge => "GE"
  | .lshift => "LSHIFT" | .rshift => "RSHIFT" | .add => "ADD" | .subtract => "SUBTRACT"
  | .multiply => "MULTIPLY" | .divide => "DIVIDE" | .mod => "MOD" | .intLit => "INTLIT"
  | .strLit => "STRLIT" | .ident => "IDENT" | .glue => "GLUE" | .ifElse => "IF"
  | .whileLoop => "WHILE" | .function => "FUNCTION" | .widen => "WIDEN" | .result => "RETURN"
  | .call => "FUNCCALL" | .deref => "DEREF" | .addr => "ADDR" | .scale => "SCALE"
  | .preInc => "PREINC" | .preDec => "PREDEC" | .postInc => "POSTINC" | .postDec => "POSTDEC"
  | .negate => "NEGATE" | .invert => "INVERT" | .logNot => "LOGNOT" | .toBool => "TOBOOL"
  | .breakOut => "BREAK" | .continueOn => "CONTINUE" | .switchOn => "SWITCH"
  | .caseArm => "CASE" | .defaultArm => "DEFAULT" | .cast => "CAST"
  | .other n => Text.ofString "Op(" ++ Text.ofInt n ++ Text.ofString ")"

def isComparison : Op → Bool
  | .eq | .ne | .lt | .gt | .le | .ge => true
  | _ => false

def isLogical : Op → Bool
  | .logOr | .logAnd => true
  | _ => false

def isAdditive : Op → Bool
  | .add | .subtract | .asPlus | .asMinus => true
  | _ => false

def underlying (op : Op) : Op :=
  if op = .asMod then .mod else ofCode (op.code + 19)

theorem ofCode_code_of_mem : ∀ op ∈ all, ofCode op.code = op := by decide

example : [asPlus, asMinus, asStar, asSlash, asMod].map underlying
    = [add, subtract, multiply, divide, mod] := by decide

end Op
end SmallC
