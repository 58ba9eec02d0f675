import ArtifactCache.Classpath
import ArtifactCache.Clean
import ArtifactCache.CommandLine.Request
import ArtifactCache.Settings.Load

/-!
Running a command line: the settings are found, the goal is carried out, and what came of it is
told on the two output streams.
-/

namespace ArtifactCache.CommandLine

/-- What a run takes from elsewhere: the reader of settings, and the colours of its messages. -/
structure Supplies where
  reader : Settings.Reader
  green : String → String
  red : String → String

def defaultFile : String := "j2clbuild.toml"

def workingDirectory (fs : FileSystem) : String := (Path.mk .root fs.here).toText

def defaultSource : String := "<defaults>"

def namedFile? (r : Request) : Option String :=
  match r.config with
  | some (.value file) => if file = "" then none else some file
  | _ => none

def currentDirectory (fs : FileSystem) : Except LoadError String :=
  match fs.workingDirectory? with
  | some _ => .ok (workingDirectory fs)
  | none => .error (.fault .noWorkingDirectory)

def fileSettings (reader : Settings.Reader) (fs : FileSystem) (home : String) (r : Request) :
    Except LoadError Settings :=
  match namedFile? r with
  | some file => (Settings.load reader fs home (.ofText file) none).result
  | none => do
      let here ← currentDirectory fs
      if fs.isFile (.ofText defaultFile) then
        (Settings.load reader fs home (.ofText defaultFile) (some here)).result
      else (Settings.ofValues [] here home).mapError (.ofRefusal defaultSource)

inductive SetupError where
  | load (e : LoadError)
  | valueless (s : Switch)

def givenValue {α : Type} (s : Switch) : Option (Given α) → Except SetupError (Option α)
  | none => .ok none
  | some (.value a) => .ok (some a)
  | some .nothing => .error (.valueless s)

def settingsFor (reader : Settings.Reader) (fs : FileSystem) (home : String) (r : Request) :
    Except SetupError Settings := do
  let settings ← (fileSettings reader fs home r).mapError .load
  let cacheDir ← givenValue .cacheDir r.cacheDir
  let level ← givenValue .level r.level
  return settings.override (cacheDir.map .ofText) level

inductive RunError where
  | config (e : ConfigurationError)
  | clean (e : CleaningFailure)
  | coordinate (e : Coordinate.Invalid)

def RunError.message : RunError → String
  | .config e => e.message
  | .clean e => e.message
  | .coordinate e => e.message

inductive Breakdown where
  | file (f : LoadFault)
  | valueless (s : Switch)
  | nameless (root : Path)
  deriving DecidableEq, Repr

def Breakdown.message : Breakdown → String
  | .file f => f.message
  | .valueless s => s.spelling ++ " was given no value"
  | .nameless p => (CacheStore.WipeError.nameless p).message

inductive Outcome where
  | done (output : String)
  | failed (e : RunError)
  | broken (b : Breakdown)

structure Run where
  files : FileSystem
  steps : List Step
  serial : Nat
  log : List Log.Record
  threshold : Option Log.Level
  outcome : Outcome

def logger : String := "j2clbuild.bin.j2clbuild"

/-- The record without the traceback that goes with it. -/
def failedRecord : Log.Record := ⟨.debug, logger, "Goal failed"⟩

def Outcome.log : Outcome → List Log.Record
  | .failed _ => [failedRecord]
  | _ => []

def Run.idle (fs : FileSystem) (serial : Nat) (log : List Log.Record)
    (threshold : Option Log.Level) (outcome : Outcome) : Run :=
  ⟨fs, [], serial, log ++ outcome.log, threshold, outcome⟩

def cleanOutcome (supplies : Supplies) (cacheDir : Path) : Except CleaningError Unit → Outcome
  | .ok () => .done (supplies.green ("Cleaned " ++ cacheDir.toText) ++ "\n")
  | .error (.failure e) => .failed (.clean e)
  | .error (.nameless p) => .broken (.nameless p)

def cleanRun (supplies : Supplies) (faults : Faults) (fs : FileSystem) (serial : Nat)
    (s : Settings) : Run :=
  let c := clean faults fs serial ⟨s.cacheDir⟩
  let outcome := cleanOutcome supplies s.cacheDir c.result
  ⟨c.files, c.steps, c.serial, c.log ++ outcome.log, some s.level, outcome⟩

def printed (entries : List Coordinate) : String :=
  String.join (entries.map fun c => c.render ++ "\n")

def classpathRun (fs : FileSystem) (serial : Nat) (s : Settings) (coordinates : List String)
    (sort : Bool) : Run :=
  match Classpath.assembleTexts coordinates s.excludes sort with
  | .ok c => .idle fs serial c.log (some s.level) (.done (printed c.entries.items))
  | .error e => .idle fs serial e.log (some s.level) (.failed (.coordinate e.defect))

def goalRun (supplies : Supplies) (faults : Faults) (fs : FileSystem) (serial : Nat)
    (s : Settings) : Goal → Run
  | .clean => cleanRun supplies faults fs serial s
  | .classpath coordinates sort => classpathRun fs serial s coordinates sort

def run (supplies : Supplies) (faults : Faults) (fs : FileSystem) (home : String) (serial : Nat)
    (r : Request) : Run :=
  match settingsFor supplies.reader fs home r with
  | .error (.load (.config e)) => .idle fs serial [] none (.failed (.config e))
  | .error (.load (.fault f)) => .idle fs serial [] none (.broken (.file f))
  | .error (.valueless s) => .idle fs serial [] none (.broken (.valueless s))
  | .ok s => goalRun supplies faults fs serial s r.goal

def usageText : String :=
  "usage: j2clbuild [-h] [--config CONFIG] [--cache-dir CACHE_DIR] [--level LEVEL]\n" ++
    "                 \x7bclean,classpath\x7d ...\n"

namespace Outcome

def stdout : Outcome → String
  | .done output => output
  | _ => ""

def complaint (supplies : Supplies) : Outcome → String
  | .failed e => supplies.red e.message ++ "\n"
  | _ => ""

def exitCode : Outcome → Nat
  | .done _ => 0
  | _ => 1

end Outcome

namespace Run

def shownLog (r : Run) : String :=
  match r.threshold with
  | some level => Log.Record.linesFrom level r.log
  | none => ""

def stdout (r : Run) : String := r.outcome.stdout

def stderr (supplies : Supplies) (r : Run) : String :=
  r.shownLog ++ r.outcome.complaint supplies

end Run

end ArtifactCache.CommandLine
