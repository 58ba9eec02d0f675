import ArtifactCache.Text.Pieces

/-!
Pathnames: paths as they are spelled. A pathname is the list of texts between its slashes, so that
`/a/b` is `["", "a", "b"]` and `a/` is `["a", ""]`.
-/

namespace ArtifactCache

structure Pathname where
  pieces : List String
  deriving DecidableEq, Repr

namespace Pathname

def ofText (s : String) : Pathname := ⟨Text.split '/' s⟩

def toText (p : Pathname) : String := Text.join '/' p.pieces

theorem toText_ofText (s : String) : (ofText s).toText = s := Text.join_split '/' s

instance : ToString Pathname := ⟨toText⟩

def isAbsolute (p : Pathname) : Bool :=
  match p.pieces with
  | "" :: _ :: _ => true
  | _ => false

def isEmpty (p : Pathname) : Bool :=
  match p.pieces with
  | [] => true
  | [s] => s == ""
  | _ => false

def lastPiece (p : Pathname) : String := p.pieces.getLast?.getD ""

/-- The spelling of an entry of the directory `p`; a slash at the end of `p` serves as the one in
between. -/
def child (p : Pathname) (name : String) : Pathname :=
  if p.lastPiece = "" then ⟨p.pieces.dropLast ++ [name]⟩ else ⟨p.pieces ++ [name]⟩

def covers (p q : Pathname) : Bool := p.pieces.isPrefixOf q.pieces

def hasNul (p : Pathname) : Bool := p.pieces.any fun s => '\x00' ∈ s.toList

def byteSize (p : Pathname) : Nat :=
  p.pieces.foldr (fun s n => s.utf8ByteSize + 1 + n) 0 - 1

def byteLimit : Nat := 4096

def isTooLong (p : Pathname) : Bool := byteLimit ≤ p.byteSize

def withoutFinalSlashes (pieces : List String) : List String :=
  (pieces.reverse.dropWhile (· == "")).reverse

def splitLast (p : Pathname) : Pathname × String :=
  let before := p.pieces.dropLast
  let head :=
    if before.isEmpty then [""]
    else if before.all (· == "") then before ++ [""]
    else withoutFinalSlashes before
  (⟨head⟩, p.lastPiece)

def entryParts (p : Pathname) : List String × String :=
  let pieces := withoutFinalSlashes p.pieces
  (pieces.dropLast, pieces.getLast?.getD "")

end Pathname

end ArtifactCache
