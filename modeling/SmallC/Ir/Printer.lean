import SmallC.Ir

/-!
# Text of intermediate code

Each line of code is written on a line of its own; instructions are indented by two columns.
-/

namespace SmallC.Ir

def Cls.letter : Cls → Text
  | .word => "w"
  | .long => "l"
  | .blank => " "

def tempText : Temp → Text
  | some n => Text.ofString "%.t" ++ Text.ofNat n
  | none => "%.t-1"

def labelText (l : Int) : Text := Text.ofString "@L" ++ Text.ofInt l

def Storage.text : Storage → Text
  | .global name => Text.ofString "$" ++ name
  | .frame name => Text.ofString "%" ++ name

def Value.text : Value → Text
  | .temp t => tempText t
  | .named s => s.text
  | .int v => Text.ofInt64 v
  | .string l => Text.ofString "$L" ++ Text.ofInt l
  | .incoming name => Text.ofString "%.p" ++ name

def Dest.text : Dest → Text
  | .temp t => tempText t
  | .named s => s.text
  | .result => "%.ret"

def Arith.name : Arith → Text
  | .add => "add" | .sub => "sub" | .mul => "mul" | .div => "div" | .rem => "rem"
  | .and => "and" | .or => "or" | .xor => "xor" | .shl => "shl" | .shr => "shr"

def Relation.name : Relation → Text
  | .eq => "ceq" | .ne => "cne" | .lt => "cslt" | .gt => "csgt" | .le => "csle" | .ge => "csge"

def Load.name : Load → Text
  | .byte => "loadub"
  | .word => "loadsw"
  | .long => "loadl"

def Width.letter : Width → Text
  | .byte => "b"
  | .cls c => c.letter

def Extend.name : Extend → Text
  | .byte => "extub"
  | .signed c => Text.ofString "exts" ++ c.letter

def argText : Cls × Temp → Text
  | (c, t) => c.letter ++ Text.ofString " " ++ tempText t ++ Text.ofString ", "

def callText (function : Text) (args : List (Cls × Temp)) : Text :=
  Text.ofString "call $" ++ function ++ Text.ofString "(" ++ args.flatMap argText
    ++ Text.ofString ")"

def twoText (name : Text) (a b : Value) : Text :=
  name ++ Text.ofString " " ++ a.text ++ Text.ofString ", " ++ b.text

def Rhs.text : Rhs → Text
  | .copy v => Text.ofString "copy " ++ v.text
  | .load k address => k.name ++ Text.ofString " " ++ address.text
  | .arith op a b => twoText op.name a b
  | .compare r c a b => twoText (r.name ++ c.letter) a b
  | .extend k t => k.name ++ Text.ofString " " ++ tempText t
  | .alloc align count =>
    Text.ofString "alloc" ++ Text.ofNat align ++ Text.ofString " " ++ Text.ofInt64 count
  | .call function args => callText function args

def Instr.text : Instr → Text
  | .set dest c rhs =>
    dest.text ++ Text.ofString " =" ++ c.letter ++ Text.ofString " " ++ rhs.text
  | .call function args => callText function args
  | .store w value address => twoText (Text.ofString "store" ++ w.letter) value address
  | .jump l => Text.ofString "jmp " ++ labelText l
  | .branch t yes no =>
    Text.ofString "jnz " ++ tempText t ++ Text.ofString ", " ++ labelText yes
      ++ Text.ofString ", " ++ labelText no

def Item.text : Item → Text
  | .byte v => Text.ofString "b " ++ Text.ofInt64 v ++ Text.ofString ", "
  | .word v => Text.ofString "w " ++ Text.ofInt64 v ++ Text.ofString ", "
  | .long v => Text.ofString "l " ++ Text.ofInt64 v ++ Text.ofString ", "
  | .string l => Text.ofString "l $L" ++ Text.ofInt64 l ++ Text.ofString ", "
  | .zeros size => Text.ofString "z " ++ Text.ofInt64 size ++ Text.ofString ", "

def Param.text (p : Param) : Text :=
  p.cls.letter ++ (if p.hasAddr then Text.ofString " %.p" else Text.ofString " %") ++ p.name
    ++ Text.ofString ", "

def exportText (exported : Bool) : Text := if exported then "export " else []

/-- A line without its newline. -/
def Line.text : Line → Text
  | .data exported name align items =>
    exportText exported ++ Text.ofString "data $" ++ name ++ Text.ofString " = align "
      ++ Text.ofInt64 align ++ Text.ofString " \x7b " ++ items.flatMap Item.text
      ++ Text.ofString "\x7d"
  | .string l bytes =>
    Text.ofString "data $L" ++ Text.ofInt l ++ Text.ofString " = \x7b "
      ++ bytes.flatMap (fun b => (Item.byte (Int64.ofNat b.toNat)).text)
      ++ Text.ofString " b 0 \x7d"
  | .opening exported c name params =>
    exportText exported ++ Text.ofString "function " ++ c.letter ++ Text.ofString " $" ++ name
      ++ Text.ofString "(" ++ params.flatMap Param.text ++ Text.ofString ") \x7b"
  | .label l => labelText l
  | .instr i => Text.ofString "  " ++ i.text
  | .ret withValue => if withValue then "  ret %.ret" else "  ret"
  | .closing => "\x7d"

def render (lines : List Line) : Text :=
  lines.flatMap fun l => l.text ++ Text.ofString "\n"

end SmallC.Ir
