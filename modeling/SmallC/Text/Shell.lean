import SmallC.Text

/-!
# Shell words

Splitting a command into words, with quotes and backslashes as a shell reads them, and writing
words so that a shell reads them back. Nothing is expanded and there are no comments.
-/

namespace SmallC.Text

inductive ShellFault where
  | singleQuote
  | doubleQuote
  | escape
  deriving DecidableEq, Repr

def ShellFault.message : ShellFault → Text
  | .singleQuote => "Unterminated single-quoted string"
  | .doubleQuote => "Unterminated double-quoted string"
  | .escape => "Unterminated backslash-escape"

inductive ShellMode where
  | gap
  | bare
  | single
  | double
  deriving DecidableEq, Repr

def isShellBlank (b : UInt8) : Bool := isBlankOrTab b || b = '\n'.toUInt8

/-- What a backslash takes its meaning from between double quotes: `$`, a backquote, a double
quote, a backslash and a newline. -/
def isEscapedInDouble (b : UInt8) : Bool :=
  b = Byte.dollar || b = Byte.backquote || b = Byte.doubleQuote || b = Byte.backslash
    || b = Byte.newline

/-- The words of a command from a byte in the given mode on; `word` is the word at hand in
reverse. An escaped newline vanishes. -/
def shellWordsFrom : ShellMode → (word : Text) → Text → Except ShellFault (List Text)
  | .gap, _, [] => .ok []
  | .bare, word, [] => .ok [word.reverse]
  | .single, _, [] => .error .singleQuote
  | .double, _, [] => .error .doubleQuote
  | .gap, word, b :: rest =>
    if isShellBlank b then shellWordsFrom .gap word rest
    else if b = Byte.backslash then
      match rest with
      | [] => .error .escape
      | c :: rest =>
        if c = Byte.newline then shellWordsFrom .gap word rest else shellWordsFrom .bare [c] rest
    else if b = Byte.apostrophe then shellWordsFrom .single [] rest
    else if b = Byte.doubleQuote then shellWordsFrom .double [] rest
    else shellWordsFrom .bare [b] rest
  | .bare, word, b :: rest =>
    if isShellBlank b then return word.reverse :: (← shellWordsFrom .gap [] rest)
    else if b = Byte.backslash then
      match rest with
      | [] => .error .escape
      | c :: rest => shellWordsFrom .bare (if c = Byte.newline then word else c :: word) rest
    else if b = Byte.apostrophe then shellWordsFrom .single word rest
    else if b = Byte.doubleQuote then shellWordsFrom .double word rest
    else shellWordsFrom .bare (b :: word) rest
  | .single, word, b :: rest =>
    if b = Byte.apostrophe then shellWordsFrom .bare word rest
    else shellWordsFrom .single (b :: word) rest
  | .double, word, b :: rest =>
    if b = Byte.doubleQuote then shellWordsFrom .bare word rest
    else if b = Byte.backslash then
      match rest with
      | [] => .error .doubleQuote
      | c :: rest =>
        if c = Byte.newline then shellWordsFrom .double word rest
        else if isEscapedInDouble c then shellWordsFrom .double (c :: word) rest
        else shellWordsFrom .double (c :: b :: word) rest
    else shellWordsFrom .double (b :: word) rest

def shellWords (command : Text) : Except ShellFault (List Text) := shellWordsFrom .gap [] command

def isShellSpecial (b : UInt8) : Bool :=
  (ofString "\\'\"\x60$\x7b[|&;<>()*?!").contains b

/-- A word in single quotes; a single quote in it stands outside of them. -/
def singleQuoted (word : Text) : Text :=
  let part (t : Text) : Text := if t = [] then [] else Byte.apostrophe :: t ++ [Byte.apostrophe]
  joinWith [Byte.backslash, Byte.apostrophe] ((splitAt Byte.apostrophe word).map part)

def shellWord (word : Text) : Text :=
  match word with
  | [] => [Byte.apostrophe, Byte.apostrophe]
  | first :: _ =>
    if word.any isShellBlank then singleQuoted word
    else
      let escaped := word.flatMap fun b => if isShellSpecial b then [Byte.backslash, b] else [b]
      if first = '~'.toUInt8 then Byte.backslash :: escaped else escaped

def shellCommand (words : List Text) : Text := joinWith [Byte.blank] (words.map shellWord)

end SmallC.Text
