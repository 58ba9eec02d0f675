import ArtifactCache.FileSystem.Call
import ArtifactCache.Text.Quoted

namespace ArtifactCache

structure Failure where
  errno : Errno
  paths : List Pathname
  deriving DecidableEq, Repr

namespace Failure

def quotePath (p : Pathname) : String := Text.quote p.toText

def message (f : Failure) : String :=
  "[Errno " ++ toString f.errno.number ++ "] " ++ f.errno.text ++
    match f.paths with
    | [] => ""
    | ps => ": " ++ String.intercalate " -> " (ps.map quotePath)

def isNoEntry (f : Failure) : Bool := f.errno == .noEntry

end Failure

inductive Fault where
  | deny (errno : Errno)
  | vanish
  deriving DecidableEq, Repr

/-- Which calls are made to fail, by the pathname they are given; every renaming fails alike. -/
structure Faults where
  unlink : Pathname → Option Fault
  rmdir : Pathname → Option Fault
  mkdir : Pathname → Option Fault
  list : Pathname → Option Fault
  rename : Option Errno

def Faults.never : Faults := ⟨fun _ => none, fun _ => none, fun _ => none, fun _ => none, none⟩

inductive Call where
  | unlink (p : Pathname)
  | rmdir (p : Pathname)
  | mkdir (p : Pathname)
  | rename (p q : Pathname)
  deriving DecidableEq, Repr

namespace Call

def run (fs : FileSystem) : Call → Except Errno FileSystem
  | .unlink p => fs.unlink p
  | .rmdir p => fs.rmdir p
  | .mkdir p => fs.mkdir p
  | .rename p q => fs.rename p q

def paths : Call → List Pathname
  | .unlink p => [p]
  | .rmdir p => [p]
  | .mkdir p => [p]
  | .rename p q => [p, q]

def fault? (faults : Faults) : Call → Option Fault
  | .unlink p => faults.unlink p
  | .rmdir p => faults.rmdir p
  | .mkdir p => faults.mkdir p
  | .rename _ _ => faults.rename.map .deny

def deniedPaths : Call → List Pathname
  | .rename _ _ => []
  | c => c.paths

end Call

structure Step where
  call : Call
  failure : Option Failure
  files : FileSystem

namespace Faults

def perform (faults : Faults) (fs : FileSystem) (call : Call) : Step :=
  match call.fault? faults, call.run fs with
  | some (.deny e), _ => ⟨call, some ⟨e, call.deniedPaths⟩, fs⟩
  | _, .error e => ⟨call, some ⟨e, call.paths⟩, fs⟩
  | some .vanish, .ok after => ⟨call, some ⟨.noEntry, call.paths⟩, after⟩
  | none, .ok after => ⟨call, none, after⟩

def listing (faults : Faults) (fs : FileSystem) (p : Pathname) :
    Except Failure (List (String × Item)) :=
  match faults.list p, fs.list p with
  | some (.deny e), _ => .error ⟨e, [p]⟩
  | _, .error e => .error ⟨e, [p]⟩
  | some .vanish, .ok _ => .error ⟨.noEntry, [p]⟩
  | none, .ok entries => .ok entries

end Faults

end ArtifactCache
