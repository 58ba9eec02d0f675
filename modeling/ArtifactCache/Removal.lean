import ArtifactCache.FileSystem.Directories
import ArtifactCache.Log.Record

/-!
Removing a file, or a directory with everything beneath it. A removal goes on past single failures,
so that as much as possible goes, and reports all of them at the end. Links are never followed.
-/

namespace ArtifactCache

def deleteFile (faults : Faults) (fs : FileSystem) (p : Pathname) :
    Option Step × Except CallError Unit :=
  if p.hasNul then (none, .error .nulInPath)
  else
    let step := faults.perform fs (.unlink p)
    (some step,
      match step.failure with
      | some f => if f.isNoEntry then .ok () else .error (.failed f)
      | none => .ok ())

structure IncompleteRemoval where
  root : Pathname
  failedPaths : List Pathname
  cause : Option Failure
  deriving DecidableEq, Repr

def IncompleteRemoval.message (e : IncompleteRemoval) : String :=
  let n := e.failedPaths.length
  "Failed to remove " ++ toString n ++ " path" ++ (if n = 1 then "" else "s") ++ " under " ++
    e.root.toText ++ ": " ++ String.intercalate ", " (e.failedPaths.map Pathname.toText)

inductive RemovalError where
  | incomplete (e : IncompleteRemoval)
  | call (e : CallError)
  deriving DecidableEq, Repr

def RemovalError.message : RemovalError → String
  | .incomplete e => e.message
  | .call e => e.message

structure Sweep where
  files : FileSystem
  steps : List Step
  failures : List (Pathname × Failure)

namespace Sweep

def start (fs : FileSystem) : Sweep := ⟨fs, [], []⟩

def record (s : Sweep) (p : Pathname) (f : Failure) : Sweep :=
  if f.isNoEntry then s else { s with failures := s.failures ++ [(p, f)] }

def hasFailedWithin (s : Sweep) (dir : Pathname) : Bool := s.failures.any fun f => dir.covers f.1

def took (s : Sweep) (step : Step) : Sweep :=
  { s with files := step.files, steps := s.steps ++ [step] }

def unlink (faults : Faults) (s : Sweep) (p : Pathname) : Sweep :=
  let step := faults.perform s.files (.unlink p)
  match step.failure with
  | some f => (s.took step).record p f
  | none => s.took step

def rmdir (faults : Faults) (s : Sweep) (p : Pathname) : Sweep :=
  let step := faults.perform s.files (.rmdir p)
  match step.failure with
  | some f => if s.hasFailedWithin p then s.took step else (s.took step).record p f
  | none => s.took step

def leadsToDirectory (fs : FileSystem) (dir : Pathname) : String × Item → Bool
  | (_, .directory) => true
  | (name, .link _) => fs.isDirectory (dir.child name)
  | (_, .file _) => false

def removeDirectory (faults : Faults) (s : Sweep) (p : Pathname) : Sweep :=
  if s.files.isLink p then s.unlink faults p else s.rmdir faults p

/-- Removes everything beneath a directory: first what lies beneath its directories, then its files,
then its directories and the links to directories. Where a link leads is looked up before anything
is removed. -/
def below (faults : Faults) : Nat → Pathname → Sweep → Sweep
  | 0, _, s => s
  | level + 1, dir, s =>
      match faults.listing s.files dir with
      | .error f => s.record dir f
      | .ok entries =>
          let (directories, others) := entries.partition (leadsToDirectory s.files dir)
          let deeper := directories.filter fun e => e.2 == .directory
          let s := deeper.foldl (fun s e => below faults level (dir.child e.1) s) s
          let s := others.foldl (fun s e => s.unlink faults (dir.child e.1)) s
          directories.foldl (fun s e => s.removeDirectory faults (dir.child e.1)) s

def tree (faults : Faults) (fs : FileSystem) (root : Pathname) : Sweep :=
  (below faults (fs.height + 1) root (start fs)).rmdir faults root

end Sweep

structure Removal where
  files : FileSystem
  steps : List Step
  log : List Log.Record
  result : Except RemovalError Unit

namespace Removal

def logger : String := "j2clbuild.util.dirutil"

def failureRecord (f : Pathname × Failure) : Log.Record :=
  ⟨.debug, logger, "Failed to remove " ++ f.1.toText ++ ": " ++ f.2.message⟩

def nothing (fs : FileSystem) : Removal := ⟨fs, [], [], .ok ()⟩

def ofFile (faults : Faults) (fs : FileSystem) (p : Pathname) : Removal :=
  match deleteFile faults fs p with
  | (none, r) => ⟨fs, [], [], r.mapError .call⟩
  | (some step, r) => ⟨step.files, [step], [], r.mapError .call⟩

def ofTree (faults : Faults) (fs : FileSystem) (root : Pathname) : Removal :=
  let s := Sweep.tree faults fs root
  { files := s.files
    steps := s.steps
    log := s.failures.map failureRecord
    result := match s.failures with
      | [] => .ok ()
      | f :: _ => .error (.incomplete ⟨root, s.failures.map (·.1), some f.2⟩) }

end Removal

def removeAt (faults : Faults) (fs : FileSystem) (root : Pathname) : Removal :=
  if fs.isLink root then .ofFile faults fs root
  else if !fs.isOccupied root then .nothing fs
  else if !fs.isDirectory root then .ofFile faults fs root
  else .ofTree faults fs root

end ArtifactCache
