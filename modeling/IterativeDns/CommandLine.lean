import IterativeDns.RecordType
import IterativeDns.Settings

/-!
# The command line

A command line names what to look up and how. Words that start with a dash are options, wherever
they stand; after the word `--` every word is an argument. An option takes its value from the
same word (`--port=5`, `-p5`, `-p=5`) or from the next one, which then must not look like an
option. Each option and each argument may be given once.

Words are read from left to right and the first one that is wrong decides, so a request for help
or for the version is granted only if all words before it make sense.
-/

namespace IterativeDns

/-! ### What can be said -/

inductive ValueOption where
  | config | logLevel | maxIndirection | timeout | port
deriving DecidableEq, Repr

inductive Switch where
  | noTcpFallback | showConfig | help | version
deriving DecidableEq, Repr

/-- What a command line has said so far. -/
structure Arguments where
  name : Option String := none
  recordType : Option RecordType := none
  config : Option String := none
  logLevel : Option String := none
  maxIndirection : Option Int32 := none
  timeout : Option UInt64 := none
  port : Option UInt16 := none
  noTcpFallback : Bool := false
  showConfig : Bool := false
deriving DecidableEq, Repr

/-- What a command line asks for. -/
inductive Command where
  | help
  | version
  /-- Look a name up, or show the settings. -/
  | run (arguments : Arguments)
deriving DecidableEq, Repr

/-! ### Options by name -/

/-- The option with a value that has a long name. -/
def ValueOption.ofName? : String → Option ValueOption
  | "config" => some config
  | "log-level" => some logLevel
  | "max-indirection" => some maxIndirection
  | "timeout-ms" => some timeout
  | "port" => some port
  | _ => none

/-- The option with a value that has a letter. -/
def ValueOption.ofLetter? : Char → Option ValueOption
  | 'c' => some config
  | 'p' => some port
  | _ => none

def Switch.ofName? : String → Option Switch
  | "no-tcp-fallback" => some noTcpFallback
  | "show-config" => some showConfig
  | "help" => some help
  | "version" => some version
  | _ => none

/-- The switch that has a letter. Both of these end the reading. -/
def Switch.ofLetter? : Char → Option Switch
  | 'h' => some help
  | 'V' => some version
  | _ => none

namespace Arguments

/-! ### Taking words in -/

/-- Gives a value to something that has none yet. -/
def once {α : Type} (old new : Option α) : Option α :=
  if old.isSome then none else new

/-- Takes the value of an option in. -/
def set? (a : Arguments) (option : ValueOption) (value : String) : Option Arguments :=
  let digits := value.toList
  match option with
  | .config => (once a.config (some value)).map fun v => { a with config := some v }
  | .logLevel => (once a.logLevel (some value)).map fun v => { a with logLevel := some v }
  | .maxIndirection =>
    (once a.maxIndirection
      ((Text.intWithin? (-2147483648) 2147483647 digits).map Int32.ofInt)).map fun v =>
        { a with maxIndirection := some v }
  | .timeout =>
    (once a.timeout ((Text.natUpTo? 18446744073709551615 digits).map UInt64.ofNat)).map fun v =>
      { a with timeout := some v }
  | .port =>
    (once a.port ((Text.intWithin? 0 65535 digits).map fun n => .ofNat n.toNat)).map fun v =>
      { a with port := some v }

/-- Takes an argument in: first the name, then the record type. -/
def addArgument? (a : Arguments) (word : String) : Option Arguments :=
  match a.name, a.recordType with
  | none, _ => some { a with name := some word }
  | some _, none => (RecordType.parse? word).map fun t => { a with recordType := some t }
  | some _, some _ => none

/-- The command of arguments that say all that is needed: a name, unless settings are to be
shown. -/
def finish? (a : Arguments) : Option Command :=
  if a.name.isSome || a.showConfig then some (.run a) else none

/-- Takes a switch in; `goOn` reads the words after it. -/
def flip? (a : Arguments) (switch : Switch) (goOn : Arguments → Option Command) :
    Option Command :=
  match switch with
  | .help => some .help
  | .version => some .version
  | .noTcpFallback => if a.noTcpFallback then none else goOn { a with noTcpFallback := true }
  | .showConfig => if a.showConfig then none else goOn { a with showConfig := true }

/-! ### Words -/

/-- A word by its form. -/
inductive Word where
  | separator
  /-- Two dashes and a name, perhaps with a value after an equals sign. -/
  | long (name : String) (value : Option String)
  /-- A dash, a letter, and the characters after it. -/
  | short (letter : Char) (rest : List Char)
  /-- Anything else, a dash alone included. -/
  | argument

def Word.ofString (word : String) : Word :=
  match word.toList with
  | ['-', '-'] => .separator
  | '-' :: '-' :: cs =>
    let name := String.ofList (cs.takeWhile (· != '='))
    match cs.dropWhile (· != '=') with
    | [] => .long name none
    | _ :: value => .long name (some (String.ofList value))
  | '-' :: letter :: rest => .short letter rest
  | _ => .argument

/-- A word that can be the value of the option before it. -/
def isValueWord (word : String) : Bool :=
  match Word.ofString word with
  | .argument => true
  | _ => false

/-- The value that stands in the same word as the letter of an option. -/
def attachedValue? : List Char → Option String
  | [] => none
  | '=' :: cs => some (String.ofList cs)
  | cs => some (String.ofList cs)

/-- Reads words after `--`. -/
def readArguments? (a : Arguments) : List String → Option Command
  | [] => a.finish?
  | word :: words =>
    match a.addArgument? word with
    | some a => readArguments? a words
    | none => none

/-- Reads words. -/
def read? (a : Arguments) : List String → Option Command
  | [] => a.finish?
  | word :: words =>
    let option (o : ValueOption) (value? : Option String) : Option Command :=
      match value?, words with
      | some value, words => (a.set? o value).bind fun a => read? a words
      | none, value :: words =>
        if isValueWord value then (a.set? o value).bind fun a => read? a words else none
      | none, [] => none
    match Word.ofString word with
    | .separator => readArguments? a words
    | .argument => (a.addArgument? word).bind fun a => read? a words
    | .long name value? =>
      match ValueOption.ofName? name, Switch.ofName? name, value? with
      | some o, _, value? => option o value?
      | none, some s, none => a.flip? s fun a => read? a words
      | _, _, _ => none
    | .short letter rest =>
      match ValueOption.ofLetter? letter, Switch.ofLetter? letter with
      | some o, _ => option o (attachedValue? rest)
      | none, some s => a.flip? s fun a => read? a words
      | none, none => none

end Arguments

namespace Command

/-- Reads a command line; nothing if it makes no sense. -/
def parse? (words : List String) : Option Command :=
  Arguments.read? {} words

def versionText : String :=
  "ferrous-lookup 0.1.0\n"

def helpText : String :=
  String.join <| List.map (· ++ "\n")
    ["Usage: ferrous-lookup [OPTIONS] [NAME] [RECORD_TYPE]",
     "",
     "Resolves a domain name iteratively, from the root servers down.",
     "",
     "  NAME                   the domain name to resolve",
     "  RECORD_TYPE            a mnemonic or TYPE and a number, A by default",
     "  -c, --config FILE      the file with the settings",
     "  --log-level LEVEL      trace, debug, info, warn or error",
     "  --max-indirection N    how many aliases to follow in a row",
     "  --timeout-ms N         how long an attempt waits for a reply",
     "  -p, --port N           the port nameservers are asked on",
     "  --no-tcp-fallback      keep truncated replies",
     "  --show-config          print the settings and exit",
     "  -h, --help             print this text",
     "  -V, --version          print the version"]

end Command

/-- The settings a command line gives for one run. -/
def Arguments.overrides (a : Arguments) : Overrides where
  port := a.port
  timeout := a.timeout
  maxAliases := a.maxIndirection
  disableTcp := a.noTcpFallback
  logLevel := a.logLevel

end IterativeDns
