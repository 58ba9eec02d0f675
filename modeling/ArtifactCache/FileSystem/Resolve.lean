import ArtifactCache.FileSystem.Basic
import ArtifactCache.FileSystem.Errno
import ArtifactCache.Path

namespace ArtifactCache.FileSystem

/-- Follows the pieces of a pathname from a directory. `again` follows what remains after a link
has been replaced by its target. A link at the very end is followed only on demand; a name at the
very end need not exist, but it must be one that could. -/
def walk (fs : FileSystem) (again : Location → List String → Except Errno Location)
    (followLast : Bool) (dir : Location) : List String → Except Errno Location
  | [] => .ok dir
  | piece :: rest =>
      if piece = "" ∨ piece = "." then walk fs again followLast dir rest
      else if piece = ".." then walk fs again followLast dir.dropLast rest
      else
        let loc := dir ++ [piece]
        match fs.item? loc with
        | none =>
            if isTooLong piece ∧ fs.item? dir = some .directory then .error .nameTooLong
            else if rest = [] then .ok loc
            else .error .noEntry
        | some .directory => walk fs again followLast loc rest
        | some (.file _) => if rest = [] then .ok loc else .error .notDirectory
        | some (.link target) =>
            if rest = [] ∧ followLast = false then .ok loc
            else again (if target.isAbsolute then [] else dir) (target.pieces ++ rest)

def walkWithin (fs : FileSystem) (followLast : Bool) :
    Nat → Location → List String → Except Errno Location
  | 0 => fs.walk (fun _ _ => .error .tooManyLinks) followLast
  | n + 1 => fs.walk (walkWithin fs followLast n) followLast

def mostLinks : Nat := 40

def follow (fs : FileSystem) (followLast : Bool) (p : Pathname) (pieces : List String) :
    Except Errno Location :=
  if p.isTooLong then .error .nameTooLong
  else if p.isEmpty then .error .noEntry
  else fs.walkWithin followLast mostLinks (if p.isAbsolute then [] else fs.here) pieces

def resolve (fs : FileSystem) (p : Pathname) : Except Errno Location := fs.follow true p p.pieces

def resolveLink (fs : FileSystem) (p : Pathname) : Except Errno Location :=
  fs.follow false p p.pieces

abbrev Holder (fs : FileSystem) : Type := { dir : Location // fs.item? dir = some .directory }

def holder (fs : FileSystem) (dir : Location) : Except Errno fs.Holder :=
  match h : fs.item? dir with
  | some .directory => .ok ⟨dir, h⟩
  | some _ => .error .notDirectory
  | none => .error .noEntry

def resolveEntry (fs : FileSystem) (p : Pathname) : Except Errno (fs.Holder × String) :=
  match fs.follow true p p.entryParts.1 with
  | .error e => .error e
  | .ok dir => (fs.holder dir).map fun d => (d, p.entryParts.2)

def itemAt (fs : FileSystem) : Except Errno Location → Option Item
  | .ok loc => fs.item? loc
  | .error _ => none

def isPresent (fs : FileSystem) (p : Pathname) : Bool := (fs.itemAt (fs.resolve p)).isSome

def isOccupied (fs : FileSystem) (p : Pathname) : Bool := (fs.itemAt (fs.resolveLink p)).isSome

/-- Whether a directory is there. A name that is too long on the way leaves the question open,
unless the pathname could not even be handed over. -/
def isDirectory? (fs : FileSystem) (p : Pathname) : Except Errno Bool :=
  match fs.resolve p with
  | .error .nameTooLong => if p.hasNul then .ok false else .error .nameTooLong
  | r => .ok (fs.itemAt r == some .directory)

def isDirectory (fs : FileSystem) (p : Pathname) : Bool :=
  fs.itemAt (fs.resolve p) == some .directory

def isFile (fs : FileSystem) (p : Pathname) : Bool :=
  match fs.itemAt (fs.resolve p) with
  | some (.file _) => true
  | _ => false

def absolute? (fs : FileSystem) (p : Path) : Except Errno Path :=
  if p.anchor = .relative ∧ fs.workingDirectory? = none then .error .noEntry
  else .ok (p.absolute fs.here)

def isLink (fs : FileSystem) (p : Pathname) : Bool :=
  match fs.itemAt (fs.resolveLink p) with
  | some (.link _) => true
  | _ => false

end ArtifactCache.FileSystem
