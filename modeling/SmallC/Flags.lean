import SmallC.Text.Quoted

/-!
# Flags

The flags of the command, long (`--output x`, `--output=x`) or as a letter (`-o x`, `-ox`,
`-o=x`). Letters of switches can share a dash. Flags and other arguments mix; after `--` there are
no flags, and a lone dash is none.
-/

namespace SmallC

inductive Flag where
  | assembly
  | compile
  | config
  | listTrees
  | listSymbols
  | help
  | output
  | verbose
  deriving DecidableEq, Repr

namespace Flag

def name : Flag → Text
  | .assembly => "assembly"
  | .compile => "compile"
  | .config => "config"
  | .listTrees => "dump-ast"
  | .listSymbols => "dump-symbols"
  | .help => "help"
  | .output => "output"
  | .verbose => "verbose"

def letter? : Flag → Option UInt8
  | .assembly => some 'S'.toUInt8
  | .compile => some 'c'.toUInt8
  | .config => none
  | .listTrees => some 'T'.toUInt8
  | .listSymbols => some 'M'.toUInt8
  | .help => some 'h'.toUInt8
  | .output => some 'o'.toUInt8
  | .verbose => some 'v'.toUInt8

/-- Whether the flag is on or off, and takes no argument of its own. -/
def isSwitch : Flag → Bool
  | .config | .output => false
  | _ => true

def settings : List Flag :=
  [.assembly, .compile, .config, .listTrees, .listSymbols, .output, .verbose]

def all : List Flag := .help :: settings

end Flag

inductive FlagFault where
  | badForm (arg : Text)
  | unknownName (name : Text)
  | unknownLetter (letter : UInt8) (cluster : Text)
  | noArgument (flag : Flag)
  | noLetterArgument (letter : UInt8) (cluster : Text)
  | notBool (flag : Flag) (value : Text)
  /-- Help was asked for where there is no flag for it. -/
  | helpRequested
  deriving DecidableEq, Repr

namespace FlagFault

/-- A letter is a byte, shown as the character with its number. -/
def shownLetter (letter : UInt8) : Text := Text.quotedChar (Char.ofNat letter.toNat)

def message : FlagFault → Text
  | .badForm arg => Text.ofString "bad flag syntax: " ++ arg
  | .unknownName name => Text.ofString "unknown flag: --" ++ name
  | .unknownLetter letter cluster =>
    Text.ofString "unknown shorthand flag: " ++ shownLetter letter ++ Text.ofString " in -"
      ++ cluster
  | .noArgument flag => Text.ofString "flag needs an argument: --" ++ flag.name
  | .noLetterArgument letter cluster =>
    Text.ofString "flag needs an argument: " ++ shownLetter letter ++ Text.ofString " in -"
      ++ cluster
  | .notBool flag value =>
    let short := match flag.letter? with
      | some letter => Text.ofString "-" ++ [letter] ++ Text.ofString ", "
      | none => []
    Text.ofString "invalid argument " ++ Text.quoted value ++ Text.ofString " for "
      ++ Text.quoted (short ++ Text.ofString "--" ++ flag.name)
      ++ Text.ofString " flag: strconv.ParseBool: parsing " ++ Text.quoted value
      ++ Text.ofString ": invalid syntax"
  | .helpRequested => "pflag: help requested"

end FlagFault

/-- The flags as set, and the other arguments in order. -/
structure Flags where
  assembly : Bool := false
  compile : Bool := false
  config : Text := []
  listTrees : Bool := false
  listSymbols : Bool := false
  help : Bool := false
  output : Text := []
  verbose : Bool := false
  args : List Text := []
  deriving DecidableEq, Repr

namespace Flags

def switch (fs : Flags) (flag : Flag) (on : Bool) : Flags :=
  match flag with
  | .assembly => { fs with assembly := on }
  | .compile => { fs with compile := on }
  | .listTrees => { fs with listTrees := on }
  | .listSymbols => { fs with listSymbols := on }
  | .help => { fs with help := on }
  | .verbose => { fs with verbose := on }
  | .config | .output => fs

def boolValue? (t : Text) : Option Bool :=
  if [Text.ofString "1", "t", "T", "TRUE", "true", "True"].contains t then some true
  else if [Text.ofString "0", "f", "F", "FALSE", "false", "False"].contains t then some false
  else none

/-- Sets a flag. A switch given a text that is no truth value is turned off. -/
def set (fs : Flags) (flag : Flag) (value : Text) : Flags × Option FlagFault :=
  match flag with
  | .config => ({ fs with config := value }, none)
  | .output => ({ fs with output := value }, none)
  | flag =>
    match boolValue? value with
    | some on => (fs.switch flag on, none)
    | none => (fs.switch flag false, some (.notBool flag value))

def shown (fs : Flags) : Flag → Text
  | .config => fs.config
  | .output => fs.output
  | .assembly => ofBool fs.assembly
  | .compile => ofBool fs.compile
  | .listTrees => ofBool fs.listTrees
  | .listSymbols => ofBool fs.listSymbols
  | .help => ofBool fs.help
  | .verbose => ofBool fs.verbose
where
  ofBool (b : Bool) : Text := if b then "true" else "false"

/-- Splits at the first `=`. -/
def splitEquals (t : Text) : Text × Option Text :=
  let after := t.dropWhile (· ≠ Byte.equals)
  (t.takeWhile (· ≠ Byte.equals), after.tail?)

/-- How one argument went: the flags after it, whether it took the next argument too, and what is
wrong with it. -/
structure Step where
  flags : Flags
  tookNext : Bool := false
  fault : Option FlagFault := none

def failed (fs : Flags) (fault : FlagFault) : Step := { flags := fs, fault := some fault }

def setStep (fs : Flags) (flag : Flag) (value : Text) (tookNext : Bool) : Step :=
  let (flags, fault) := fs.set flag value
  { flags, tookNext, fault }

/-- An argument with two dashes, of which `rest` follows them. -/
def long (known : List Flag) (fs : Flags) (rest : Text) (next : Option Text) : Step :=
  if rest.head? = some Byte.dash || rest.head? = some Byte.equals then
    fs.failed (.badForm (Text.ofString "--" ++ rest))
  else
    let (name, value) := splitEquals rest
    match known.find? fun flag => flag.name = name with
    | none =>
      if name = Text.ofString "help" then fs.failed .helpRequested
      else fs.failed (.unknownName name)
    | some flag =>
      match value, next with
      | some value, _ => fs.setStep flag value false
      | none, next =>
        if flag.isSwitch then fs.setStep flag "true" false
        else match next with
          | some value => fs.setStep flag value true
          | none => fs.failed (.noArgument flag)

/-- An argument with one dash, of which `cluster` follows it. A cluster that goes on with `test.`
is passed over. -/
def short (known : List Flag) (fs : Flags) (cluster : Text) (next : Option Text) : Step :=
  match cluster with
  | [] => { flags := fs }
  | letter :: rest =>
    if (Text.after? "test." cluster).isSome then { flags := fs }
    else match known.find? fun flag => flag.letter? = some letter with
      | none =>
        if letter = 'h'.toUInt8 then fs.failed .helpRequested
        else fs.failed (.unknownLetter letter cluster)
      | some flag =>
        match rest with
        | Byte.equals :: first :: more => fs.setStep flag (first :: more) false
        | _ =>
          if flag.isSwitch then short known (fs.switch flag true) rest next
          else if rest ≠ [] then fs.setStep flag rest false
          else match next with
            | some value => fs.setStep flag value true
            | none => fs.failed (.noLetterArgument letter cluster)

/-- One argument, with the one after it. -/
def step (known : List Flag) (fs : Flags) (arg : Text) (next : Option Text) : Step :=
  match arg with
  | Byte.dash :: Byte.dash :: rest => fs.long known rest next
  | Byte.dash :: first :: rest => fs.short known (first :: rest) next
  | _ => { flags := { fs with args := fs.args ++ [arg] } }

/-- The flags in some arguments, up to the first fault. `skip` says that the first argument has
been taken. -/
def parseFrom (known : List Flag) (fs : Flags) : (skip : Bool) → List Text →
    Flags × Option FlagFault
  | _, [] => (fs, none)
  | true, _ :: rest => parseFrom known fs false rest
  | false, arg :: rest =>
    if arg = Text.ofString "--" then ({ fs with args := fs.args ++ rest }, none)
    else
      let s := fs.step known arg rest.head?
      match s.fault with
      | some fault => (s.flags, some fault)
      | none => parseFrom known s.flags s.tookNext rest

def parse (known : List Flag) (args : List Text) : Flags × Option FlagFault :=
  parseFrom known {} false args

/-- What is wrong with the number of arguments. -/
def missingArgs? (fs : Flags) : Option Text :=
  if fs.args.isEmpty then some "requires at least 1 arg(s), only received 0" else none

end Flags
end SmallC
