import ArtifactCache.Log.Level

namespace ArtifactCache.Log

structure Record where
  level : Level
  logger : String
  text : String
  deriving DecidableEq, Repr

namespace Record

/-- The line without the time of day that stands before it. -/
def line (r : Record) : String :=
  "[" ++ r.level.title ++ "] " ++ r.logger ++ ": " ++ r.text ++ "\n"

def linesFrom (threshold : Level) (rs : List Record) : String :=
  String.join ((rs.filter fun r => threshold ≤ r.level).map line)

end Record

end ArtifactCache.Log
