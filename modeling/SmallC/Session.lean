import SmallC.Failure
import SmallC.Parse.Unit
import SmallC.Symbol.Listing
import SmallC.Token.Lexer
import SmallC.Tree.Listing

/-!
# Compiling

A session is the state of compiling one file: its symbol tables and the code so far. Sources may
be compiled one after another in a session; tables and code are kept, also after a diagnostic,
only what a file hides from others is dropped after each.
-/

namespace SmallC

structure Session where
  file : Text
  table : SymbolTable := {}
  out : Emitter := {}

structure Compiled where
  /-- The whole code of the session. -/
  outcome : Except Diagnostic Text
  /-- The functions finished, in order. -/
  functions : List Definition
  /-- The listing of functions. -/
  treeListing : Text
  /-- The listing of symbols, of a source without diagnostic. -/
  symbolListing : Text

namespace Session

def symbolsOf (file : Text) (table : SymbolTable) : Text :=
  Text.ofString "Symbols for " ++ file ++ Text.ofString "\n" ++ table.listing
    ++ Text.ofString "\n\n"

def start (s : Session) (tokens : List Token) : ParseState :=
  { rest := tokens, bound := tokens.length + 1, table := s.table, out := s.out, file := s.file }

def compile (s : Session) (source : Text) : Compiled × Session :=
  match lex source s.file with
  | (_, some d) =>
    ({ outcome := .error d, functions := [], treeListing := [], symbolListing := [] }, s)
  | (tokens, none) =>
    let result := Parse.file (s.start tokens)
    let (failure, state) := match result with
      | .ok _ state => (none, state)
      | .error d state => (some d, state)
    let functions := state.functions.toList
    let treeListing := Tree.listFunctions state.table.symbols 1 (functions.map (·.tree))
    match failure with
    | some d =>
      ({ outcome := .error d, functions, treeListing, symbolListing := [] },
        { s with table := state.table, out := state.out })
    | none =>
      ({ outcome := .ok state.out.text, functions, treeListing,
         symbolListing := symbolsOf s.file state.table },
        { s with table := state.table.purgeStatics, out := state.out })

end Session

/-- Compiles a source by itself. -/
def compile (source file : Text) : Compiled := (Session.compile { file } source).1

end SmallC
