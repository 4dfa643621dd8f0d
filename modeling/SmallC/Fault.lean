import SmallC.CType
import SmallC.Op
import SmallC.Token

/-!
# Faults and diagnostics

A fault is the cause of a rejection, a diagnostic a fault with its position. The first one ends
the compilation of a file. The wording stands in this file only.
-/

namespace SmallC

inductive LowerFault where
  | type (fault : TypeFault)
  | unknownBinary (op : Op)
  | unknownUnary (op : Op)
  | unknownNode (op : Op)
  | assignTarget (op : Op)
  | assignThrough (op : Op)
  | step (op target : Op)
  | loadType (t : CType)
  | storeType (t : CType)
  deriving DecidableEq, Repr

def LowerFault.message : LowerFault → Text
  | .type fault => fault.message
  | .unknownBinary op => Text.ofString "unknown binary operator " ++ op.name
  | .unknownUnary op => Text.ofString "unknown unary operator " ++ op.name
  | .unknownNode op => Text.ofString "Unknown AST operator:" ++ op.name
  | .assignTarget op => Text.ofString "Can't A_ASSIGN in genAST(), op:" ++ op.name
  | .assignThrough op => Text.ofString "Can't assign through " ++ op.name
  | .step op target =>
    Text.ofString "Can't apply " ++ op.name ++ Text.ofString " to " ++ target.name
  | .loadType t => Text.ofString "Can't cgderef on type:" ++ Text.ofInt t.code
  | .storeType t => Text.ofString "Can't cgstoderef on type:" ++ Text.ofInt t.code

inductive Fault where
  -- tokens
  | unterminatedComment (opened : Int64)
  | badInteger (lexeme : Text)
  | unknownEscape (c : Char)
  | emptyCharacter
  | unterminatedCharacter
  | unterminatedString
  | unrecognised (c : Char)
  -- directives
  | elseWithoutIf
  | elseAfterElse
  | endifWithoutIf
  | unterminatedConditional
  | badInclude
  | badIncludeOperand (operand : Text)
  | includeNotFound (name : Text)
  | badMacroName (rest : Text)
  | unterminatedParameters (name : Text)
  -- expressions
  | expected (what : Text)
  | syntaxToken (kind : TokenKind)
  | assignToRvalue
  | incompatibleAssignment
  | incompatibleBinary
  | addressOfArray
  | addressOfNonIdentifier
  | derefNonPointer
  | stepNonIdentifier (kind : TokenKind)
  | stepRvalue (kind : TokenKind)
  | stepTwice
  | stepNonVariable (kind : TokenKind)
  | notArray
  | indexNotInteger
  | notCompositePointer
  | notComposite
  | noMember (name : Text)
  | incompatibleArgument (parameter : Text)
  | localStorageClass
  | sizeofParenthesis
  | unknownName (name : Text)
  | functionWithoutParentheses (name : Text)
  | noPrimary (kind : TokenKind)
  -- statements
  | voidReturn
  | incompatibleReturn
  | strayBreak
  | strayContinue
  | switchNotInteger
  | switchToken (kind : TokenKind)
  | afterDefault
  | caseNotLiteral
  | duplicateCase
  | noCases
  -- declarations
  | externStatic
  | staticLocal
  | illegalType (kind : TokenKind)
  | badCast
  | generalInitialiser
  | literalMismatch
  | externMismatch (name : Text)
  | duplicateGlobal (name : Text)
  | notInitialisable (name : Text)
  | arraySize (n : Int64)
  | arrayParameter
  | tooManyValues
  | emptyArray (name : Text)
  | parameterType
  | prototypeType (position : Nat)
  | parameterCount (name : Text)
  | alreadyDefined (name : Text)
  | noStatements
  | noReturn
  | unknownComposite (name : Text)
  | compositeDefined (name : Text)
  | memberType
  | noMembers (name : Text)
  | unknownEnum (name : Text)
  | enumDefined (name : Text)
  | enumeratorDefined (name : Text)
  | enumeratorValue
  | typedefStorage
  | typedefDefined (name : Text)
  | unknownType (name : Text)
  | nestedFunction
  | duplicateLocal (name : Text)
  | duplicateMember (name : Text)
  -- code
  | lowering (fault : LowerFault)
  /-- The bound on nesting was reached; it is larger than the nesting of any input. -/
  | exhausted
  deriving DecidableEq, Repr

namespace Fault

def message : Fault → Text
  | .unterminatedComment opened =>
    Text.ofString "unterminated block comment (opened on line " ++ Text.ofInt64 opened
      ++ Text.ofString ")"
  | .badInteger lexeme => Text.ofString "bad integer literal " ++ Text.quoted lexeme
  | .unknownEscape c => Text.ofString "unknown escape sequence \\" ++ Text.ofChars [c]
  | .emptyCharacter => "empty character literal"
  | .unterminatedCharacter => "unterminated character literal"
  | .unterminatedString => "unterminated string literal"
  | .unrecognised c => Text.ofString "unrecognised character " ++ Text.quotedChar c
  | .elseWithoutIf => "#else without #if"
  | .elseAfterElse => "#else after #else"
  | .endifWithoutIf => "#endif without #if"
  | .unterminatedConditional => "Unterminated conditional"
  | .badInclude => "Bad #include"
  | .badIncludeOperand operand => Text.ofString "Bad #include:" ++ operand
  | .includeNotFound name => Text.ofString "Can't find include file:" ++ name
  | .badMacroName _ => "Bad macro name"
  | .unterminatedParameters _ => "Unterminated macro parameter list"
  | .expected _ => "Expected"
  | .syntaxToken _ => "Syntax error, token"
  | .assignToRvalue => "Cannot assign to an rvalue"
  | .incompatibleAssignment => "Incompatible expression in assignment"
  | .incompatibleBinary => "Incompatible types in binary expression"
  | .addressOfArray => "& operator cannot be performed on an array"
  | .addressOfNonIdentifier => "& operator must be followed by an identifier"
  | .derefNonPointer => "* operator must be followed by an expression of pointer type"
  | .stepNonIdentifier _ => "operator must be followed by an identifier"
  | .stepRvalue _ => "Cannot apply operator to an rvalue"
  | .stepTwice => "Cannot ++ and/or -- more than once"
  | .stepNonVariable _ => "operator must follow a variable"
  | .notArray => "Not an array or pointer"
  | .indexNotInteger => "Array index is not of integer type"
  | .notCompositePointer => "Expression is not a pointer to a struct/union"
  | .notComposite => "Expression is not a struct/union"
  | .noMember _ => "No member found in struct/union: "
  | .incompatibleArgument _ => "Incompatible argument type"
  | .localStorageClass => "Compiler doesn't support static or extern local declarations"
  | .sizeofParenthesis => "Left parenthesis expected after sizeof"
  | .unknownName _ => "Unknown variable or function"
  | .functionWithoutParentheses _ => "Function name used without parentheses"
  | .noPrimary _ => "Expecting a primary expression, got token"
  | .voidReturn => "Can't return from a void function"
  | .incompatibleReturn => "Incompatible type to return"
  | .strayBreak => "no loop or switch to break out from"
  | .strayContinue => "no loop to continue to"
  | .switchNotInteger => "Switch expression is not of integer type"
  | .switchToken _ => "Unexpected token in switch"
  | .afterDefault => "case or default after existing default"
  | .caseNotLiteral => "Expecting integer literal for case value"
  | .duplicateCase => "Duplicate case value"
  | .noCases => "No cases in switch"
  | .externStatic => "Illegal to have extern and static at the same time"
  | .staticLocal => "Compiler doesn't support static local declarations"
  | .illegalType _ => "Illegal type, token"
  | .badCast => "Cannot cast to a struct, union or void type"
  | .generalInitialiser => "Cannot initialise globals with a general expression"
  | .literalMismatch => "Type mismatch: literal vs. variable"
  | .externMismatch _ => "Type mismatch between global/extern"
  | .duplicateGlobal _ => "Duplicate global variable declaration"
  | .notInitialisable _ => "Variable can not be initialised"
  | .arraySize _ => "Array size is illegal"
  | .arrayParameter => "Declaration of array parameters is not implemented"
  | .tooManyValues => "Too many values in initialisation list"
  | .emptyArray _ => "Array must have non-zero elements"
  | .parameterType => "Bad type in parameter list"
  | .prototypeType _ => "Type doesn't match prototype for parameter"
  | .parameterCount _ => "Parameter count mismatch for function"
  | .alreadyDefined _ => "Function already defined"
  | .noStatements => "No statements in function with non-void type"
  | .noReturn => "No return for function with non-void type"
  | .unknownComposite _ => "unknown struct/union type"
  | .compositeDefined _ => "previously defined struct/union"
  | .memberType => "Bad type in member list"
  | .noMembers _ => "No members in struct"
  | .unknownEnum _ => "undeclared enum type"
  | .enumDefined _ => "enum type redeclared"
  | .enumeratorDefined _ => "enum value redeclared"
  | .enumeratorValue => "Expected int literal after '='"
  | .typedefStorage => "Can't have static/extern in a typedef declaration"
  | .typedefDefined _ => "redefinition of typedef"
  | .unknownType _ => "unknown type"
  | .nestedFunction => "Function definition not at global level"
  | .duplicateLocal _ => "Duplicate local variable declaration"
  | .duplicateMember _ => "Duplicate struct/union member declaration"
  | .lowering fault => fault.message
  | .exhausted => "Nesting is too deep"

/-- What it concerns; empty where the message says it all. -/
def detail : Fault → Text
  | .badMacroName rest => rest
  | .unterminatedParameters name => name
  | .expected what => what
  | .syntaxToken kind => kind.name
  | .stepNonIdentifier kind => kind.name
  | .stepRvalue kind => kind.name
  | .stepNonVariable kind => kind.name
  | .noMember name => name
  | .incompatibleArgument parameter => parameter
  | .unknownName name => name
  | .functionWithoutParentheses name => name
  | .noPrimary kind => kind.name
  | .switchToken kind => kind.name
  | .illegalType kind => kind.name
  | .externMismatch name => name
  | .duplicateGlobal name => name
  | .notInitialisable name => name
  | .arraySize n => Text.ofInt64 n
  | .emptyArray name => name
  | .prototypeType position => Text.ofNat position
  | .parameterCount name => name
  | .alreadyDefined name => name
  | .unknownComposite name => name
  | .compositeDefined name => name
  | .noMembers name => name
  | .unknownEnum name => name
  | .enumDefined name => name
  | .enumeratorDefined name => name
  | .typedefDefined name => name
  | .unknownType name => name
  | .duplicateLocal name => name
  | .duplicateMember name => name
  | _ => []

end Fault

structure Diagnostic where
  fault : Fault
  line : Int64
  file : Text
  deriving DecidableEq, Repr

/-- Message, detail if there is one, line and file. -/
def Diagnostic.render (d : Diagnostic) : Text :=
  let detail := if d.fault.detail = [] then [] else Text.ofString ":" ++ d.fault.detail
  d.fault.message ++ detail ++ Text.ofString " on line " ++ Text.ofInt64 d.line
    ++ Text.ofString " of " ++ d.file

end SmallC
