import ArtifactCache.CacheStore.Wipe

namespace ArtifactCache

structure CleaningFailure where
  root : Pathname
  cause : RemovalError
  deriving DecidableEq, Repr

def CleaningFailure.message (e : CleaningFailure) : String :=
  "Failed to clean " ++ e.root.toText ++ ": " ++ e.cause.message

inductive CleaningError where
  | failure (e : CleaningFailure)
  | nameless (root : Path)
  deriving DecidableEq, Repr

def CleaningError.ofWipe (root : Path) : CacheStore.WipeError → CleaningError
  | .removal e => .failure ⟨root.toPathname, e⟩
  | .nameless p => .nameless p

structure Cleaning where
  files : FileSystem
  steps : List Step
  log : List Log.Record
  serial : Nat
  result : Except CleaningError Unit

namespace Cleaning

def logger : String := "j2clbuild.core.clean"

def startRecord (root : Path) : Log.Record := ⟨.info, logger, "Cleaning " ++ root.toText⟩

def endRecord (root : Path) : Log.Record := ⟨.info, logger, "Cleaned " ++ root.toText⟩

def endLog (root : Path) : Except CacheStore.WipeError Unit → List Log.Record
  | .ok () => [endRecord root]
  | .error _ => []

end Cleaning

def clean (faults : Faults) (fs : FileSystem) (serial : Nat) (cache : CacheStore) : Cleaning :=
  let wiped := cache.wipe faults fs serial
  { files := wiped.files
    steps := wiped.steps
    log := Cleaning.startRecord cache.root :: wiped.log ++ Cleaning.endLog cache.root wiped.result
    serial := wiped.serial
    result := wiped.result.mapError (CleaningError.ofWipe cache.root) }

end ArtifactCache
