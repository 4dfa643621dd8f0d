import SmallC.Text.Base64
import SmallC.Yaml.Tag

/-!
# Nodes

A document is a tree of nodes. A reference names a node that is written elsewhere in it, possibly
around the reference; so a document keeps the nodes that have an anchor by number, and a reference
the number of its target. Lines are counted from one.
-/

namespace SmallC.Yaml

inductive Node where
  | scalar (line : Nat) (tag : Tag) (text : Text)
  | sequence (line : Nat) (tag : Tag) (items : List Node)
  | mapping (line : Nat) (tag : Tag) (entries : List (Node × Node))
  /-- The references of a document are numbered, too. -/
  | reference (line : Nat) (name : Text) (number target : Nat)
  deriving Inhabited, Repr

namespace Node

def line : Node → Nat
  | .scalar line _ _ | .sequence line _ _ | .mapping line _ _ | .reference line _ _ _ => line

/-- What tells keys of a mapping apart: their shape, and their text or name. -/
def spelling : Node → Nat × Text
  | .scalar _ _ text => (0, text)
  | .sequence .. => (1, [])
  | .mapping .. => (2, [])
  | .reference _ name _ _ => (3, name)

def isMapping : Node → Bool
  | .mapping .. => true
  | _ => false

/-- Whether a key asks for the entries of another mapping. -/
def isMerge : Node → Bool
  | .scalar _ tag text => tag = Tag.merge && text = Text.ofString "<<"
  | _ => false

end Node

/-- The text of a scalar with a tag; none if it is null. A scalar that does not look like the
tag it is given is refused. -/
def scalarText (tag : Tag) (text : Text) : Except Problem (Option Text) :=
  if tag = Tag.binary then
    match Text.ofBase64? text with
    | some bytes => .ok (some bytes)
    | none => .error .binaryDigits
  else if tag.isChecked then
    let found := Tag.ofText (tag = Tag.timestamp) text
    if found ≠ tag && !(tag = Tag.float && found = Tag.int) then
      .error (.wrongTag found text tag)
    else .ok (if found = Tag.null then none else some text)
  else .ok (some text)

structure Document where
  /-- None if there is nothing in it. -/
  root : Option Node := none
  /-- The nodes that have an anchor. -/
  anchored : Array Node := #[]
  /-- The number of references. -/
  references : Nat := 0
  /-- The number of tokens that it was read from. -/
  size : Nat := 0
  deriving Inhabited, Repr

end SmallC.Yaml
