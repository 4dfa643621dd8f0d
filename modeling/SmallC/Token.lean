import SmallC.Text.Quoted

/-!
# Tokens

A token is a piece of source with its kind and position. The spelling of a kind is also how
messages name it.
-/

namespace SmallC

inductive TokenKind where
  | eof
  | assign | plusAssign | minusAssign | starAssign | slashAssign | percentAssign
  | question | orLogical | andLogical | pipe | caret | amp
  | equals | notEquals | less | greater | lessEq | greaterEq | shiftLeft | shiftRight
  | plus | minus | star | slash | percent
  | plusPlus | minusMinus | tilde | bang
  | voidKw | charKw | intKw | longKw
  | ifKw | elseKw | whileKw | forKw | returnKw | structKw | unionKw | enumKw | typedefKw
  | externKw | breakKw | continueKw | switchKw | caseKw | defaultKw | sizeofKw | staticKw
  | integer | string | semicolon | identifier
  | lbrace | rbrace | lparen | rparen | lbracket | rbracket
  | comma | dot | arrow | colon
  deriving DecidableEq, Repr

namespace TokenKind

def all : List TokenKind :=
  [.eof,
    .assign, .plusAssign, .minusAssign, .starAssign, .slashAssign, .percentAssign,
    .question, .orLogical, .andLogical, .pipe, .caret, .amp,
    .equals, .notEquals, .less, .greater, .lessEq, .greaterEq, .shiftLeft, .shiftRight,
    .plus, .minus, .star, .slash, .percent,
    .plusPlus, .minusMinus, .tilde, .bang,
    .voidKw, .charKw, .intKw, .longKw,
    .ifKw, .elseKw, .whileKw, .forKw, .returnKw, .structKw, .unionKw, .enumKw, .typedefKw,
    .externKw, .breakKw, .continueKw, .switchKw, .caseKw, .defaultKw, .sizeofKw, .staticKw,
    .integer, .string, .semicolon, .identifier,
    .lbrace, .rbrace, .lparen, .rparen, .lbracket, .rbracket,
    .comma, .dot, .arrow, .colon]

def spelling : TokenKind → String
  | .eof => "EOF"
  | .assign => "=" | .plusAssign => "+=" | .minusAssign => "-=" | .starAssign => "*="
  | .slashAssign => "/=" | .percentAssign => "%=" | .question => "?"
  | .orLogical => "||" | .andLogical => "&&" | .pipe => "|" | .caret => "^" | .amp => "&"
  | .equals => "==" | .notEquals => "!=" | .less => "<" | .greater => ">"
  | .lessEq => "<=" | .greaterEq => ">=" | .shiftLeft => "<<" | .shiftRight => ">>"
  | .plus => "+" | .minus => "-" | .star => "*" | .slash => "/" | .percent => "%"
  | .plusPlus => "++" | .minusMinus => "--" | .tilde => "~" | .bang => "!"
  | .voidKw => "void" | .charKw => "char" | .intKw => "int" | .longKw => "long"
  | .ifKw => "if" | .elseKw => "else" | .whileKw => "while" | .forKw => "for"
  | .returnKw => "return" | .structKw => "struct" | .unionKw => "union" | .enumKw => "enum"
  | .typedefKw => "typedef" | .externKw => "extern" | .breakKw => "break"
  | .continueKw => "continue" | .switchKw => "switch" | .caseKw => "case"
  | .defaultKw => "default" | .sizeofKw => "sizeof" | .staticKw => "static"
  | .integer => "intlit" | .string => "strlit" | .semicolon => ";"
  | .identifier => "identifier"
  | .lbrace => "\x7b" | .rbrace => "\x7d" | .lparen => "(" | .rparen => ")"
  | .lbracket => "[" | .rbracket => "]"
  | .comma => "," | .dot => "." | .arrow => "->" | .colon => ":"

def name (k : TokenKind) : Text := k.spelling

def keywords : List TokenKind :=
  [.voidKw, .charKw, .intKw, .longKw,
    .ifKw, .elseKw, .whileKw, .forKw, .returnKw, .structKw, .unionKw, .enumKw, .typedefKw,
    .externKw, .breakKw, .continueKw, .switchKw, .caseKw, .defaultKw, .sizeofKw, .staticKw]

/-- The keyword with the given spelling, or an identifier. -/
def ofWord (word : Text) : TokenKind :=
  (keywords.find? fun k => k.name = word).getD .identifier

/-- The name shown for a number, also for one that no kind has. -/
def nameOfCode (n : Int) : Text :=
  let unknown := Text.ofString "TokenType(" ++ Text.ofInt n ++ Text.ofString ")"
  if 0 ≤ n then ((all[n.toNat]?).map name).getD unknown else unknown

end TokenKind

structure Token where
  kind : TokenKind
  /-- The source text, or what a string literal stands for. -/
  lexeme : Text := []
  /-- The value of an integer or character literal. -/
  value : Int64 := 0
  line : Int64 := 0
  /-- The file named last by a line marker. -/
  file : Text := []
  deriving DecidableEq, Repr

namespace Token

instance : Inhabited Token := ⟨{ kind := .eof }⟩

def padded (width : Nat) (t : Text) : Text :=
  t ++ Text.blanks (width - (Text.glyphs t).length)

/-- A token on one line: kind, quoted lexeme, line number. -/
def describe (t : Token) : Text :=
  padded 10 t.kind.name ++ Text.ofString " " ++ padded 14 (Text.quoted t.lexeme)
    ++ Text.ofString "  line " ++ Text.ofInt64 t.line

end Token
end SmallC
