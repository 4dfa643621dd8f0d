import SmallC.Proofs.Grouping

/-!
# Redundant parentheses

An operand in parentheses is read as without them, but its value is wanted. What takes values sees no
difference: operators between and before operands, `&`, an index or a member. What takes a location does:
`++` and `--` refuse it, and an assignment to it goes to where its value points.
-/

namespace SmallC

namespace Tree

variable {line : Int64} {kind : TokenKind} (t : Tree)

end Tree

namespace Parse

variable {g : Grammar} {l : Tree} {s s1 : ParseState} {p n : Nat} {opening closing : Token} {ts k : List Token}

end Parse

open Parse

end SmallC
