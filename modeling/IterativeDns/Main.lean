import IterativeDns.Program
import IterativeDns.Sockets

/-!
# The command

Reads the command line and the files it speaks of, performs what a run does to the network, and
prints what the run says.
-/

namespace IterativeDns.Program

/-! ### Files -/

/-- Files that have been read, or why they could not be. -/
abbrev FilesRead := List (String × Except String (List UInt8))

/-- Files that have been read as a store. -/
def filesRead : FileStore FilesRead where
  isThere path files := files.any (·.1 == path)
  read path files := (files.lookup path).getD (.error "not read")
  write path octets files := .ok ((path, .ok octets) :: files)

/-- Reads a file; an `optional` one that is not there counts as none. -/
def readFile (optional : Bool) (path : String) :
    IO (Option (String × Except String (List UInt8))) := do
  match ← (IO.FS.readBinFile path).toBaseIO, optional with
  | .ok octets, _ => return some (path, .ok octets.data.toList)
  | .error (.noFileOrDirectory ..), true => return none
  | .error e, _ => return some (path, .error (reasonOf e))

/-- Reads the files that settings may come from. -/
def readFiles (a : Arguments) : IO FilesRead :=
  match a.config with
  | some path => [path].filterMapM (readFile false)
  | none => [Settings.localPath, Settings.systemPath].filterMapM (readFile true)

/-! ### The network -/

/-- Does a job, performing one act after the other. -/
partial def performAll (sockets : Sockets) (settings : Settings) (question : Question)
    (ids : StdGen) (reactions : List Reaction) : IO (Except ProgramFailure String) := do
  let (result, replay) :=
    perform Replay.network (.since 0) { ids, reactions } (.lookUp settings question)
  match replay.missing with
  | none => return result
  | some act =>
    let reaction ← sockets.perform settings.exchangeSettings act
    performAll sockets settings question ids (reactions ++ [reaction])

def performJob : Job → IO (Except ProgramFailure String)
  | .print text => return .ok text
  | .lookUp settings question => do
    match ← attempted Sockets.start with
    | .error reason => return .error (.lookup (.transport anyV4.text reason))
    | .ok sockets =>
      let ids := mkStdGen (← IO.rand 0 4294967295)
      performAll sockets settings question ids []

/-! ### The command line -/

/-- Does what a command line asks for. The exit code is two for a command line that makes no sense
and one for a run that fails. -/
def obey (words : List String) : IO UInt32 := do
  match Command.parse? words with
  | none => do
    IO.eprint Command.helpText
    return 2
  | some .help => do
    IO.print Command.helpText
    return 0
  | some .version => do
    IO.print Command.versionText
    return 0
  | some (.run a) =>
    let result ← match prepare filesRead (← readFiles a) a with
      | .error failure => pure (.error failure)
      | .ok job => performJob job
    match result with
    | .ok output => do
      IO.print output
      return 0
    | .error failure => do
      IO.eprintln ("Error: " ++ failure.message)
      return 1

end IterativeDns.Program

def main (words : List String) : IO UInt32 :=
  IterativeDns.Program.obey words
