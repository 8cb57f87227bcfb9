import IterativeDns.CommandLine
import IterativeDns.Settings.Resolver
import IterativeDns.Settings.Source

/-!
# The program

A run reads the settings and then shows them or looks a name up. Everything a run does to the
world goes through the files and the network it is given, so a run is a function: the same files
and the same network give the same report.
-/

namespace IterativeDns

inductive ProgramFailure where
  | settings (failure : SettingsFailure)
  | lookup (failure : Failure)
  /-- The lookup had more rounds than a run allows. -/
  | tooManyRounds
deriving DecidableEq, Repr

def ProgramFailure.message : ProgramFailure → String
  | settings failure => failure.message
  | lookup failure => failure.message
  | tooManyRounds => "the lookup does not come to an end"

namespace Program

/-! ### What is printed -/

/-- The order of printed records: by name, type code, and line. -/
def precedes (now : Instant) (a b : Record) : Bool :=
  ((compare a.name b.name).then <|
    (compare a.recordType.code.toNat b.recordType.code.toNat).then <|
      compare (a.line now) (b.line now)).isLE

/-- What is printed of the answer to a question. -/
def answerText (now : Instant) (q : Question) (found : RecordSet) : String :=
  if found.isEmpty then ";; no records for " ++ q.text ++ "\n"
  else
    String.join ((found.toList.mergeSort (precedes now)).map fun r => r.line now ++ "\n")

/-! ### A run -/

/-- What is left to do once the settings are known. -/
inductive Job where
  | print (text : String)
  | lookUp (settings : Settings) (question : Question)

/-- The question of a command line; without a type, addresses are asked for. -/
def question (a : Arguments) : Question :=
  .ofText (a.name.getD "") (a.recordType.getD .a)

/-- Reads the settings of a command line. -/
def prepare {φ : Type} (store : FileStore φ) (files : φ) (a : Arguments) :
    Except ProgramFailure Job :=
  match Settings.load store files a.config a.overrides with
  | .error failure => .error (.settings failure)
  | .ok s => if a.showConfig then .ok (.print s.text) else .ok (.lookUp s (question a))

/-- How many rounds a frame of a lookup may have in a run. -/
def maxRounds : Nat := 1000000

/-- Does what is left to do and says what is printed. -/
def perform {σ : Type} (net : Network σ) (time : Timeline) (world : σ) :
    Job → Except ProgramFailure String × σ
  | .print text => (.ok text, world)
  | .lookUp s q =>
    let R := s.toResolver net time maxRounds
    match Alias.chase R.lookup s.aliasLimit q (s.startSession world) with
    | none => (.error .tooManyRounds, world)
    | some (.error failure, session) => (.error (.lookup failure), session.client.world)
    | some (.ok found, session) => (.ok (answerText (R.now session) q found), session.client.world)

/-- Does what a command line asks for and says what is printed. -/
def run {φ σ : Type} (store : FileStore φ) (files : φ) (net : Network σ) (time : Timeline)
    (world : σ) (a : Arguments) : Except ProgramFailure String × σ :=
  match prepare store files a with
  | .error failure => (.error failure, world)
  | .ok job => perform net time world job

end Program

end IterativeDns
