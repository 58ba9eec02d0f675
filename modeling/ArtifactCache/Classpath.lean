import ArtifactCache.Coordinate.Order
import ArtifactCache.Coordinate.Parse
import ArtifactCache.Exclusion
import ArtifactCache.Log.Record
import ArtifactCache.UniqueList.Basic

namespace ArtifactCache

structure Classpath where
  entries : UniqueList Coordinate
  log : List Log.Record

namespace Classpath

def logger : String := "j2clbuild.jvm.classpath"

def exclusionRecord (c : Coordinate) (e : Exclusion) : Log.Record :=
  ⟨.debug, logger,
    "Excluding " ++ c.render ++ " from classpath, matched exclusion " ++ e.render⟩

def duplicateRecord (c : Coordinate) : Log.Record :=
  ⟨.trace, logger, "Ignoring duplicate classpath entry " ++ c.render⟩

def firstMatch (es : List Exclusion) (c : Coordinate) : Option Exclusion :=
  es.find? (·.covers (some c))

def survivors (es : List Exclusion) (cs : List Coordinate) : List Coordinate :=
  cs.filter fun c => (firstMatch es c).isNone

def exclusionLog (es : List Exclusion) (cs : List Coordinate) : List Log.Record :=
  cs.filterMap fun c => (firstMatch es c).map (exclusionRecord c)

def place (u : UniqueList Coordinate) : List Coordinate → Classpath
  | [] => ⟨u, []⟩
  | c :: cs =>
      let (w, added) := u.add c
      let rest := place w cs
      if added then rest else { rest with log := duplicateRecord c :: rest.log }

def assemble (cs : List Coordinate) (es : List Exclusion) (sort : Bool) : Classpath :=
  let kept := survivors es cs
  let placed := place .empty (if sort then Coordinate.sort kept else kept)
  { placed with log := exclusionLog es cs ++ placed.log }

structure Unreadable where
  log : List Log.Record
  defect : Coordinate.Invalid

def readAll : List String → List Coordinate × Option Coordinate.Invalid
  | [] => ([], none)
  | t :: ts =>
      match Coordinate.parse t with
      | .error e => ([], some e)
      | .ok c => let (cs, e) := readAll ts; (c :: cs, e)

def assembleTexts (ts : List String) (es : List Exclusion) (sort : Bool) :
    Except Unreadable Classpath :=
  match readAll ts with
  | (cs, some e) => .error ⟨exclusionLog es cs, e⟩
  | (cs, none) => .ok (assemble cs es sort)

end Classpath

end ArtifactCache
