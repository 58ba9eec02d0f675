import ArtifactCache.Pathname

/-!
Paths in normal form: without repeated slashes, without `.` among their parts, and without a slash
at the end. A `..` stays, for what it leads to depends on links.
-/

namespace ArtifactCache

inductive Anchor where
  | relative
  | root
  | doubleRoot
  deriving DecidableEq, Repr

structure Path where
  anchor : Anchor
  parts : List String
  deriving DecidableEq, Repr

namespace Path

def anchorOf : List String → Anchor
  | "" :: "" :: "" :: _ :: _ => .root
  | "" :: "" :: _ :: _ => .doubleRoot
  | "" :: _ :: _ => .root
  | _ => .relative

def isPart (s : String) : Bool := s != "" && s != "."

def ofPathname (p : Pathname) : Path := ⟨anchorOf p.pieces, p.pieces.filter isPart⟩

def ofText (s : String) : Path := ofPathname (.ofText s)

def toPathname (p : Path) : Pathname :=
  match p.anchor, p.parts with
  | .relative, [] => ⟨["."]⟩
  | .relative, ps => ⟨ps⟩
  | .root, [] => ⟨["", ""]⟩
  | .root, ps => ⟨"" :: ps⟩
  | .doubleRoot, [] => ⟨["", "", ""]⟩
  | .doubleRoot, ps => ⟨"" :: "" :: ps⟩

def toText (p : Path) : String := p.toPathname.toText

instance : ToString Path := ⟨toText⟩

def name (p : Path) : String := p.parts.getLast?.getD ""

def parent (p : Path) : Path := { p with parts := p.parts.dropLast }

def child (p : Path) (name : String) : Path := { p with parts := p.parts ++ [name] }

def append (p q : Path) : Path :=
  match q.anchor with
  | .relative => { p with parts := p.parts ++ q.parts }
  | _ => q

instance : Append Path := ⟨append⟩

def collapse (done : List String) : List String → List String
  | [] => done
  | p :: ps => if p = ".." then collapse done.dropLast ps else collapse (done ++ [p]) ps

def absolute (p : Path) (here : List String) : Path :=
  let q := ⟨.root, here⟩ ++ p
  { q with parts := collapse [] q.parts }

end Path

end ArtifactCache
