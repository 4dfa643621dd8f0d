import SmallC.Text

/-!
# Faults of a document

What can be wrong with a YAML document: with its bytes, with its tokens, with the order of its
tokens, or with what a node is asked to be. The wording of all of them is here.
-/

namespace SmallC.Yaml

inductive Problem where
  -- bytes
  | leadingOctet
  | incompleteOctets
  | trailingOctet
  | overlongOctets
  | notCharacter
  | incompleteUnit
  | loneLowSurrogate
  | incompletePair
  | missingLowSurrogate
  | controlCharacter
  -- tokens
  | keyWithoutColon
  | misplacedEntry
  | misplacedKey
  | misplacedValue
  | noToken
  | unknownDirective
  | directiveName
  | directiveNameEnd
  | longVersion
  | missingVersion
  | versionDot
  | missingBlank
  | missingBlankOrBreak
  | missingCommentOrBreak
  | anchorName
  | verbatimTagEnd
  | tagHandle
  | tagBody
  | tagEscape
  | tagLeadingOctet
  | tagTrailingOctet
  | zeroIndentation
  | tabInBlockScalar
  | tabInPlainScalar
  | markerInQuotes
  | unclosedQuotes
  | unknownEscape
  | escapeDigits
  | escapeCodePoint
  -- order of tokens
  | missingDocumentStart
  | repeatedVersion
  | incompatibleVersion
  | repeatedHandle
  | undefinedHandle
  | missingContent
  | missingEntry
  | missingKey
  | missingSeparator (close : Char)
  -- nodes
  | unknownAnchor (name : Text)
  | cyclicAnchor (name : Text)
  | mergeOperand
  | wrongTag (found : Text) (text : Text) (asked : Text)
  | binaryDigits
  deriving DecidableEq, Repr

def Problem.message : Problem → Text
  | leadingOctet => "invalid leading UTF-8 octet"
  | incompleteOctets => "incomplete UTF-8 octet sequence"
  | trailingOctet => "invalid trailing UTF-8 octet"
  | overlongOctets => "invalid length of a UTF-8 sequence"
  | notCharacter => "invalid Unicode character"
  | incompleteUnit => "incomplete UTF-16 character"
  | loneLowSurrogate => "unexpected low surrogate area"
  | incompletePair => "incomplete UTF-16 surrogate pair"
  | missingLowSurrogate => "expected low surrogate area"
  | controlCharacter => "control characters are not allowed"
  | keyWithoutColon => "could not find expected ':'"
  | misplacedEntry => "block sequence entries are not allowed in this context"
  | misplacedKey => "mapping keys are not allowed in this context"
  | misplacedValue => "mapping values are not allowed in this context"
  | noToken => "found character that cannot start any token"
  | unknownDirective => "found unknown directive name"
  | directiveName => "could not find expected directive name"
  | directiveNameEnd => "found unexpected non-alphabetical character"
  | longVersion => "found extremely long version number"
  | missingVersion => "did not find expected version number"
  | versionDot => "did not find expected digit or '.' character"
  | missingBlank => "did not find expected whitespace"
  | missingBlankOrBreak => "did not find expected whitespace or line break"
  | missingCommentOrBreak => "did not find expected comment or line break"
  | anchorName => "did not find expected alphabetic or numeric character"
  | verbatimTagEnd => "did not find the expected '>'"
  | tagHandle => "did not find expected '!'"
  | tagBody => "did not find expected tag URI"
  | tagEscape => "did not find URI escaped octet"
  | tagLeadingOctet => "found an incorrect leading UTF-8 octet"
  | tagTrailingOctet => "found an incorrect trailing UTF-8 octet"
  | zeroIndentation => "found an indentation indicator equal to 0"
  | tabInBlockScalar => "found a tab character where an indentation space is expected"
  | tabInPlainScalar => "found a tab character that violates indentation"
  | markerInQuotes => "found unexpected document indicator"
  | unclosedQuotes => "found unexpected end of stream"
  | unknownEscape => "found unknown escape character"
  | escapeDigits => "did not find expected hexdecimal number"
  | escapeCodePoint => "found invalid Unicode character escape code"
  | missingDocumentStart => "did not find expected <document start>"
  | repeatedVersion => "found duplicate %YAML directive"
  | incompatibleVersion => "found incompatible YAML document"
  | repeatedHandle => "found duplicate %TAG directive"
  | undefinedHandle => "found undefined tag handle"
  | missingContent => "did not find expected node content"
  | missingEntry => "did not find expected '-' indicator"
  | missingKey => "did not find expected key"
  | missingSeparator close =>
    Text.ofString "did not find expected ',' or '" ++ Text.ofChars [close, '\'']
  | unknownAnchor name =>
    Text.ofString "unknown anchor '" ++ name ++ Text.ofString "' referenced"
  | cyclicAnchor name => Text.ofString "anchor '" ++ name ++ Text.ofString "' value contains itself"
  | mergeOperand => "map merge requires map or sequence of maps as the value"
  | wrongTag found text asked =>
    Text.ofString "cannot decode " ++ found ++ Text.ofString " \x60" ++ text
      ++ Text.ofString "\x60 as a " ++ asked
  | binaryDigits => "!!binary value contains invalid base64 data"

/-- A problem, and the line that is told with it; no line if it is zero. -/
structure Fault where
  problem : Problem
  line : Nat := 0
  deriving DecidableEq, Repr

def Fault.message (f : Fault) : Text :=
  let place := if f.line = 0 then []
    else Text.ofString "line " ++ Text.ofNat f.line ++ Text.ofString ": "
  Text.ofString "yaml: " ++ place ++ f.problem.message

end SmallC.Yaml
