/-!
# Bytes

The bytes that have a meaning of their own in some text, by name.
-/

namespace SmallC.Byte

@[match_pattern] abbrev newline : UInt8 := 10
@[match_pattern] abbrev carriageReturn : UInt8 := 13
@[match_pattern] abbrev blank : UInt8 := 32
@[match_pattern] abbrev doubleQuote : UInt8 := 34
@[match_pattern] abbrev hash : UInt8 := 35
@[match_pattern] abbrev dollar : UInt8 := 36
@[match_pattern] abbrev apostrophe : UInt8 := 39
@[match_pattern] abbrev leftParen : UInt8 := 40
@[match_pattern] abbrev rightParen : UInt8 := 41
@[match_pattern] abbrev comma : UInt8 := 44
@[match_pattern] abbrev dash : UInt8 := 45
@[match_pattern] abbrev slash : UInt8 := 47
@[match_pattern] abbrev colon : UInt8 := 58
@[match_pattern] abbrev equals : UInt8 := 61
@[match_pattern] abbrev greater : UInt8 := 62
@[match_pattern] abbrev leftBracket : UInt8 := 91
@[match_pattern] abbrev backslash : UInt8 := 92
@[match_pattern] abbrev rightBracket : UInt8 := 93
@[match_pattern] abbrev backquote : UInt8 := 96
@[match_pattern] abbrev leftBrace : UInt8 := 123
@[match_pattern] abbrev bar : UInt8 := 124
@[match_pattern] abbrev rightBrace : UInt8 := 125

end SmallC.Byte
