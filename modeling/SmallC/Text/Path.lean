import SmallC.Text

/-!
# Paths

Paths are texts with parts between slashes. The clean form of a path has no empty part, no `.`,
and `..` only at the front of a relative path.
-/

namespace SmallC.Path

def slash : UInt8 := '/'.toUInt8

def dot : Text := ['.'.toUInt8]

def dotDot : Text := ['.'.toUInt8, '.'.toUInt8]

def isRooted (path : Text) : Bool := path.head? = some slash

/-- Puts a part on the reversed list of parts before it. -/
def pushPart (rooted : Bool) (parts : List Text) (part : Text) : List Text :=
  if part = [] || part = dot then parts
  else if part = dotDot then
    match parts with
    | [] => if rooted then [] else [dotDot]
    | top :: below => if top = dotDot then dotDot :: parts else below
  else part :: parts

/-- The shortest path with the same meaning; of the empty path, `.`. -/
def clean (path : Text) : Text :=
  let rooted := isRooted path
  let parts := ((Text.splitAt slash path).foldl (pushPart rooted) []).reverse
  let body := Text.joinWith [slash] parts
  if rooted then slash :: body else if body = [] then dot else body

/-- The path of `name` in a directory; the empty directory adds nothing. -/
def join (dir name : Text) : Text :=
  if dir = [] then (if name = [] then [] else clean name) else clean (dir ++ slash :: name)

def dir (path : Text) : Text := clean (path.reverse.dropWhile (· ≠ slash)).reverse

/-- The last part from its last dot on; empty if it has none. -/
def extension (path : Text) : Text :=
  let last := path.reverse.takeWhile (· ≠ slash)
  if last.contains '.'.toUInt8 then
    '.'.toUInt8 :: (last.takeWhile (· ≠ '.'.toUInt8)).reverse
  else []

/-- The path with its extension replaced by a letter; none if there is no extension to replace. -/
def withExtension? (path : Text) (letter : Char) : Option Text :=
  let ext := extension path
  if ext = [] || ext = dot then none
  else some (path.take (path.length - ext.length) ++ Text.ofChars ['.', letter])

end SmallC.Path
