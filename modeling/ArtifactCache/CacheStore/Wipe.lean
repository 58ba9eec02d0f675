import ArtifactCache.CacheStore.Basic
import ArtifactCache.Removal

/-!
Wiping a cache store. Its root is first moved aside, to a trash name beside it, so that nobody ever
sees it partly removed; then the trash goes, together with trash that earlier wipes left behind.
Where the root cannot be moved it is removed in place.
-/

namespace ArtifactCache.CacheStore

def logger : String := "j2clbuild.cache.cache_store"

inductive WipeError where
  | removal (e : RemovalError)
  | nameless (root : Path)
  deriving DecidableEq, Repr

def WipeError.message : WipeError → String
  | .removal e => e.message
  | .nameless p => "PosixPath(" ++ Text.quote p.toText ++ ") has an empty name"

def trashStem (root : Path) : String := "." ++ root.name ++ ".trash-"

def trashName (root : Path) (serial : Nat) : String :=
  trashStem root ++ String.ofList (Text.hexDigits 32 serial)

def isTrashName (root : Path) (name : String) : Bool :=
  (trashStem root).toList.isPrefixOf name.toList

def leftovers (fs : FileSystem) (root : Path) : Except Failure (List Path) :=
  let beside := root.parent.toPathname
  match fs.isDirectory? beside, fs.list beside with
  | .error e, _ => .error ⟨e, [beside]⟩
  | _, .ok entries => .ok (((entries.map (·.1)).filter (isTrashName root)).map root.parent.child)
  | _, .error _ => .ok []

structure Disposal where
  files : FileSystem
  steps : List Step
  log : List Log.Record
  failedPaths : List Pathname
  cause : Option Failure
  aborted : Option CallError

def deletingRecord (target : Path) : Log.Record :=
  ⟨.debug, logger, "Deleting " ++ target.toText⟩

namespace Disposal

def nothing (fs : FileSystem) : Disposal := ⟨fs, [], [], [], none, none⟩

def after (steps : List Step) (log : List Log.Record) (failedPaths : List Pathname)
    (cause : Option Failure) (d : Disposal) : Disposal :=
  { d with
    steps := steps ++ d.steps
    log := log ++ d.log
    failedPaths := failedPaths ++ d.failedPaths
    cause := cause.or d.cause }

end Disposal

def dispose (faults : Faults) (fs : FileSystem) : List Path → Disposal
  | [] => .nothing fs
  | target :: targets =>
      let r := removeAt faults fs target.toPathname
      let log := deletingRecord target :: r.log
      match r.result with
      | .ok () => (dispose faults r.files targets).after r.steps log [] none
      | .error (.incomplete e) =>
          (dispose faults r.files targets).after r.steps log e.failedPaths e.cause
      | .error (.call e) => ⟨r.files, r.steps, log, [], none, some e⟩

/-- How a wipe went. The serial number is that of the last trash name chosen. -/
structure Wipe where
  files : FileSystem
  steps : List Step
  log : List Log.Record
  serial : Nat
  result : Except WipeError Unit

def stayedRecord (root : Path) (f : Failure) : Log.Record :=
  ⟨.debug, logger,
    "Could not move " ++ root.toText ++ " aside (" ++ f.message ++ "), deleting it in place"⟩

def absentRecord (root : Path) : Log.Record :=
  ⟨.debug, logger, "Cache " ++ root.toText ++ " does not exist, nothing to remove"⟩

def disposalResult (root : Path) (d : Disposal) : Except WipeError Unit :=
  match d.aborted with
  | some e => .error (.removal (.call e))
  | none =>
      if d.failedPaths = [] then .ok ()
      else .error (.removal (.incomplete ⟨root.toPathname, d.failedPaths, d.cause⟩))

def wipeTargets (faults : Faults) (fs : FileSystem) (root : Path) (serial : Nat)
    (steps : List Step) (log : List Log.Record) (targets : List Path) : Wipe :=
  let d := dispose faults fs targets
  { files := d.files
    steps := steps ++ d.steps
    log := log ++ d.log
    serial
    result := disposalResult root d }

def wipeWith (faults : Faults) (fs : FileSystem) (serial : Nat) (s : CacheStore) (absolute : Path)
    (old : List Path) : Wipe :=
  if fs.isOccupied absolute.toPathname then
    if absolute.name = "" then ⟨fs, [], [], serial + 1, .error (.nameless absolute)⟩
    else
      let trash := absolute.parent.child (trashName absolute (serial + 1))
      let step := faults.perform fs (.rename absolute.toPathname trash.toPathname)
      match step.failure with
      | none => wipeTargets faults step.files s.root (serial + 1) [step] [] (old ++ [trash])
      | some f =>
          wipeTargets faults step.files s.root (serial + 1) [step] [stayedRecord s.root f]
            (old ++ [absolute])
  else if old = [] then ⟨fs, [], [absentRecord s.root], serial, .ok ()⟩
  else wipeTargets faults fs s.root serial [] [] old

def wipe (faults : Faults) (fs : FileSystem) (serial : Nat) (s : CacheStore) : Wipe :=
  let stopped (f : Failure) : Wipe := ⟨fs, [], [], serial, .error (.removal (.call (.failed f)))⟩
  match fs.absolute? s.root with
  | .error e => stopped ⟨e, []⟩
  | .ok absolute =>
      match leftovers fs absolute with
      | .ok old => wipeWith faults fs serial s absolute old
      | .error f => stopped f

end ArtifactCache.CacheStore
