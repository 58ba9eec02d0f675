import ArtifactCache.FileSystem.Fault
import ArtifactCache.Path
import ArtifactCache.SourceRoots.Basic
import ArtifactCache.UniqueList.Basic

namespace ArtifactCache.SourceRoots

def locate (base : Path) (root : String) : Path := base ++ Path.ofText root

def candidates (k : Kind) (d : Descriptor) (base : Path) : List Path :=
  (d.sources k ++ d.resources k).map (locate base)

def isThere (fs : FileSystem) (p : Path) : Except Failure Bool :=
  (fs.isDirectory? p.toPathname).mapError fun e => ⟨e, [p.toPathname]⟩

def thoseThere (fs : FileSystem) : List Path → Except Failure (List Path)
  | [] => .ok []
  | p :: ps => do
      let there ← isThere fs p
      let found ← thoseThere fs ps
      return if there then p :: found else found

def present (fs : FileSystem) (k : Kind) (d : Descriptor) (base : Path) :
    Except Failure (UniqueList Path) :=
  (thoseThere fs (candidates k d base)).map UniqueList.ofList

end ArtifactCache.SourceRoots
