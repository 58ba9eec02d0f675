import ArtifactCache.Coordinate.Basic
import ArtifactCache.FileSystem.Directories
import ArtifactCache.Path

namespace ArtifactCache

structure CacheStore where
  root : Path
  deriving DecidableEq, Repr

namespace CacheStore

inductive EntryError where
  | hashMissing (coordinate : Coordinate)
  | call (e : CallError)

def EntryError.message : EntryError → String
  | .hashMissing c => "A hash is required for the cache entry of " ++ c.render
  | .call e => e.message

def entryName (c : Coordinate) (hash : String) : String := c.directoryName ++ "-" ++ hash

def entryPath (s : CacheStore) (c : Coordinate) (hash : String) : Except EntryError Path :=
  if hash = "" then .error (.hashMissing c)
  else .ok (s.root ++ Path.ofText (entryName c hash))

structure Creation where
  files : FileSystem
  steps : List Step
  result : Except EntryError Path

def makeEntry (faults : Faults) (fs : FileSystem) (s : CacheStore) (c : Coordinate)
    (hash : String) : Creation :=
  match s.entryPath c hash with
  | .error e => ⟨fs, [], .error e⟩
  | .ok dir =>
      let made := makeDirectories faults fs dir.toPathname
      ⟨made.files, made.steps,
        match made.result with
        | .error e => .error (.call e)
        | .ok () => .ok dir⟩

def describe (s : CacheStore) : String := "CacheStore(root=" ++ Text.quote s.root.toText ++ ")"

end CacheStore

end ArtifactCache
