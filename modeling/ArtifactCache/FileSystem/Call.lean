import ArtifactCache.FileSystem.Resolve
import ArtifactCache.FileSystem.Update

namespace ArtifactCache.FileSystem

variable (fs : FileSystem)

def entriesOf (dir : Location) : List (String × Item) :=
  (fs.children dir).filterMap fun n => (fs.item? (dir ++ [n])).map fun i => (n, i)

def list (p : Pathname) : Except Errno (List (String × Item)) :=
  match fs.resolve p with
  | .error e => .error e
  | .ok loc => (fs.holder loc).map fun d => fs.entriesOf d.1

def read (p : Pathname) : Except Errno (List UInt8) :=
  match fs.resolve p with
  | .error e => .error e
  | .ok loc =>
      match fs.item? loc with
      | some (.file content) => .ok content
      | some .directory => .error .isDirectory
      | some (.link _) => .error .tooManyLinks
      | none => .error .noEntry

def mkdir (p : Pathname) : Except Errno FileSystem :=
  match fs.resolveEntry p with
  | .error e => .error e
  | .ok (dir, name) =>
      if hname : isName name = true then
        if h : fs.item? (dir.1 ++ [name]) = none then
          .ok (fs.put dir.1 name .directory dir.2 hname (by simp [h]))
        else .error .alreadyExists
      else .error (if isTooLong name then .nameTooLong else .alreadyExists)

def symlink (p target : Pathname) : Except Errno FileSystem :=
  if target.isTooLong then .error .nameTooLong
  else if target.isEmpty then .error .noEntry
  else match fs.resolveEntry p with
  | .error e => .error e
  | .ok (dir, name) =>
      if hname : isName name = true then
        if h : fs.item? (dir.1 ++ [name]) = none then
          if p.lastPiece = "" then .error .noEntry
          else .ok (fs.put dir.1 name (.link target) dir.2 hname (by simp [h]))
        else .error .alreadyExists
      else .error (if isTooLong name then .nameTooLong else .alreadyExists)

def write (p : Pathname) (content : List UInt8) : Except Errno FileSystem :=
  if p.lastPiece = "" then
    match fs.resolveEntry p with
    | .error e => .error e
    | .ok _ => .error .isDirectory
  else match fs.resolve p with
  | .error e => .error e
  | .ok loc =>
      match fs.holder loc.dropLast with
      | .error e => .error e
      | .ok dir =>
          let name := loc.getLast?.getD ""
          if hname : isName name = true then
            if h : fs.item? (dir.1 ++ [name]) = some .directory then .error .isDirectory
            else .ok (fs.put dir.1 name (.file content) dir.2 hname h)
          else .error .isDirectory

def unlink (p : Pathname) : Except Errno FileSystem :=
  match fs.resolveEntry p with
  | .error e => .error e
  | .ok (dir, name) =>
      if isName name = true then
        if fs.item? (dir.1 ++ [name]) = none then .error .noEntry
        else if h : fs.item? (dir.1 ++ [name]) = some .directory then .error .isDirectory
        else if p.lastPiece = "" then .error .notDirectory
        else .ok (fs.erase (dir.1 ++ [name]) (children_eq_nil_of_ne h))
      else .error (if isTooLong name then .nameTooLong else .isDirectory)

def rmdir (p : Pathname) : Except Errno FileSystem :=
  match fs.resolveEntry p with
  | .error e => .error e
  | .ok (dir, name) =>
      if name = "" then .error .busy
      else if name = "." then .error .invalidArgument
      else if name = ".." then .error .notEmpty
      else if isTooLong name then .error .nameTooLong
      else if fs.item? (dir.1 ++ [name]) = none then .error .noEntry
      else if fs.item? (dir.1 ++ [name]) ≠ some .directory then .error .notDirectory
      else if h : fs.children (dir.1 ++ [name]) = [] then .ok (fs.erase (dir.1 ++ [name]) h)
      else .error .notEmpty

def refusal? (item : Item) (loc : Location) : Option Errno :=
  match fs.item? loc with
  | none => none
  | some .directory =>
      if item ≠ .directory then some .isDirectory
      else if fs.children loc ≠ [] then some .notEmpty
      else none
  | some _ => if item = .directory then some .notDirectory else none

def rename (p q : Pathname) : Except Errno FileSystem :=
  match fs.resolveEntry p, fs.resolveEntry q with
  | .error e, _ => .error e
  | _, .error e => .error e
  | .ok (dir, name), .ok (newDir, newName) =>
      let src := dir.1 ++ [name]
      if isStep name || isStep newName then .error .busy
      else if isTooLong name then .error .nameTooLong
      else match fs.item? src with
      | none => .error .noEntry
      | some item =>
          if hname : isName newName = true then
            if item ≠ .directory ∧ (p.lastPiece = "" ∨ q.lastPiece = "") then
              .error .notDirectory
            else if src = newDir.1 ++ [newName] then .ok fs
            else if hsrc : src <+: newDir.1 ++ [newName] then .error .invalidArgument
            else if hdst : newDir.1 ++ [newName] <+: src then .error .notEmpty
            else match fs.refusal? item (newDir.1 ++ [newName]) with
              | some e => .error e
              | none => .ok (fs.move src newDir.1 newName newDir.2 hname hsrc hdst)
          else .error .nameTooLong

end ArtifactCache.FileSystem
