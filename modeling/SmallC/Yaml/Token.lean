import SmallC.Yaml.Source

/-!
# Tokens

The tokens of a document. Blocks have no brackets of their own: tokens that stand for them are put
where a deeper column begins and where it ends. Likewise a key that is only known by the colon
after it gets a token before it.
-/

namespace SmallC.Yaml

inductive TokenKind where
  | version (major minor : Nat)
  | handle (name stem : Text)
  | documentStart
  | documentEnd
  | blockSequenceStart
  | blockMappingStart
  | blockEnd
  | blockEntry
  | flowSequenceStart
  | flowSequenceEnd
  | flowMappingStart
  | flowMappingEnd
  | flowEntry
  | key
  | value
  | reference (name : Text)
  | anchor (name : Text)
  | tag (handle suffix : Text)
  /-- Only of a plain scalar the tag follows from the text. -/
  | scalar (text : Text) (isPlain : Bool)
  | streamEnd
  deriving DecidableEq, Repr

structure Token where
  kind : TokenKind
  /-- Where it starts, from zero. -/
  line : Nat
  deriving DecidableEq, Repr

/-- The tokens of a document up to its end or to a fault. -/
structure Tokens where
  list : List Token
  fault : Option Fault := none
  /-- The positions of tokens of which the fault leaves open whether they begin a key. -/
  undecided : List Nat := []
  deriving DecidableEq, Repr

end SmallC.Yaml
