import ArtifactCache.CommandLine.Run

/-!
The disk. What lies on it is noted down as a file system, a run is worked out on that, and then
the calls of the run are carried out. A call that the disk refuses becomes a fault, and the run is
worked out once more with it: up to that call nothing changes.
-/

namespace ArtifactCache.Disk

abbrev Survey : Type → Type := StateT FileSystem IO

def pathnameOf (loc : Location) : Pathname := (Path.mk .root loc).toPathname

def note (change : FileSystem → Except Errno FileSystem) : Survey Unit :=
  modify fun fs => (change fs).toOption.getD fs

def entryAt (dir : Location) (name : String) : IO.FS.DirEntry :=
  ⟨(pathnameOf dir).toText, name⟩

def typeAt (dir : Location) (name : String) : IO (Option IO.FS.FileType) := do
  try
    return some (← (entryAt dir name).path.symlinkMetadata).type
  catch _ =>
    return none

def targetAt (dir : Location) (name : String) : IO Pathname := do
  try
    return .ofText (← IO.FS.realPath (entryAt dir name).path).toString
  catch _ =>
    return pathnameOf (dir ++ [name])

def contentAt (dir : Location) (name : String) : IO (List UInt8) := do
  try
    return (← IO.FS.readBinFile (entryAt dir name).path).toList
  catch _ =>
    return []

partial def followNames (dir : Location) : List String → Survey Unit
  | [] => return
  | name :: names => do
      let loc := dir ++ [name]
      if name = "" ∨ name = "." then followNames dir names
      else if name = ".." then followNames dir.dropLast names
      else match ← typeAt dir name with
        | none => return
        | some .dir =>
            note (·.mkdir (pathnameOf loc))
            followNames loc names
        | some .symlink =>
            let target ← targetAt dir name
            note (·.symlink (pathnameOf loc) target)
            if target ≠ pathnameOf loc then followNames [] (target.pieces ++ names)
        | some _ =>
            let content ← contentAt dir name
            note (·.write (pathnameOf loc) content)

partial def noteTree (dir : Location) (name : String) : Survey Unit := do
  let loc := dir ++ [name]
  match ← typeAt dir name with
  | none => return
  | some .dir =>
      note (·.mkdir (pathnameOf loc))
      for entry in ← (entryAt dir name).path.readDir do
        noteTree loc entry.fileName
  | some .symlink => followNames dir [name]
  | some _ => note (·.write (pathnameOf loc) [])

def followPath (here : Location) (p : Path) : Survey Unit :=
  followNames [] ((Path.mk .root here) ++ p).parts

def noteCache (here : Location) (cacheDir : Path) : Survey Unit := do
  let root := cacheDir.absolute here
  followPath here root.parent
  match (← get).resolve root.parent.toPathname with
  | .error _ => return
  | .ok dir =>
      for entry in ← (entryAt dir ".").path.readDir do
        if entry.fileName = root.name ∨ CacheStore.isTrashName root entry.fileName then
          noteTree dir entry.fileName

def survey (reader : Settings.Reader) (home : String) (r : CommandLine.Request) : Survey Unit := do
  let here := ((← IO.currentDir).toString.splitOn "/").filter (· ≠ "")
  followNames [] here
  modify fun fs => { fs with here }
  followPath here (.ofText CommandLine.defaultFile)
  if let some file := CommandLine.namedFile? r then followPath here (.ofText file)
  match CommandLine.settingsFor reader (← get) home r, r.goal with
  | .ok s, .clean => noteCache here s.cacheDir
  | _, _ => return

def carryOut : Call → IO Unit
  | .unlink p => IO.FS.removeFile p.toText
  | .rmdir p => IO.FS.removeDir p.toText
  | .mkdir p => IO.FS.createDir p.toText
  | .rename p q => IO.FS.rename p.toText q.toText

def unknownReason : Errno := ⟨5⟩

def errnoOf : IO.Error → Errno
  | .alreadyExists _ n _ | .otherError n _ | .resourceBusy n _ | .resourceVanished n _
  | .unsupportedOperation n _ | .hardwareFault n _ | .unsatisfiedConstraints n _
  | .illegalOperation n _ | .protocolError n _ | .timeExpired n _ | .interrupted _ n _
  | .noFileOrDirectory _ n _ | .invalidArgument _ n _ | .permissionDenied _ n _
  | .resourceExhausted _ n _ | .inappropriateType _ n _ | .noSuchThing _ n _ => ⟨n.toNat⟩
  | _ => unknownReason

def denying (p : Pathname) (e : Errno) (faulty : Pathname → Option Fault) (q : Pathname) :
    Option Fault :=
  if q = p then some (.deny e) else faulty q

def withFault (faults : Faults) (e : Errno) : Call → Faults
  | .unlink p => { faults with unlink := denying p e faults.unlink }
  | .rmdir p => { faults with rmdir := denying p e faults.rmdir }
  | .mkdir p => { faults with mkdir := denying p e faults.mkdir }
  | .rename _ _ => { faults with rename := some e }

def carryOutAll (count : Nat) : List Step → IO (Option (Call × Errno × Nat))
  | [] => return none
  | step :: steps => do
      if step.failure.isSome then carryOutAll (count + 1) steps
      else
        try
          carryOut step.call
        catch e =>
          return some (step.call, errnoOf e, count)
        carryOutAll (count + 1) steps

partial def settle (work : Faults → CommandLine.Run) (faults : Faults) (count : Nat) :
    IO CommandLine.Run := do
  let r := work faults
  match ← carryOutAll count (r.steps.drop count) with
  | none => return r
  | some (call, e, n) => settle work (withFault faults e call) n

end ArtifactCache.Disk
