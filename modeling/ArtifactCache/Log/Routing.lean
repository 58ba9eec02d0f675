import ArtifactCache.Log.Record

/-!
Where log records go: to the stream that was configured last, as whole lines, and to every stream
that somebody else attached, as bare texts. A warning that finds no handler goes to standard error.
-/

namespace ArtifactCache.Log

inductive Stream where
  | standardError
  | named (name : String)
  deriving DecidableEq, Repr

inductive Handler where
  | formatted (stream : Stream)
  | bare (stream : Stream)
  deriving DecidableEq, Repr

namespace Handler

def isFormatted : Handler → Bool
  | .formatted _ => true
  | .bare _ => false

def write (r : Record) : Handler → Stream × String
  | .formatted stream => (stream, r.line)
  | .bare stream => (stream, r.text ++ "\n")

/-- The handler of the records that no other handler gets. -/
def lastResort : Handler := .bare .standardError

end Handler

structure Routing where
  threshold : Level
  handlers : List Handler
  deriving DecidableEq, Repr

namespace Routing

def fresh : Routing := ⟨.warn, []⟩

def rootLogger : String := "j2clbuild"

def reaches (logger : String) : Bool :=
  logger == rootLogger || (rootLogger ++ ".").toList.isPrefixOf logger.toList

def configure (r : Routing) (level : Level) (stream : Stream) : Routing :=
  ⟨level, r.handlers.filter (!·.isFormatted) ++ [.formatted stream]⟩

def attach (r : Routing) (stream : Stream) : Routing :=
  { r with handlers := r.handlers ++ [.bare stream] }

def unhandled (record : Record) : List (Stream × String) :=
  if .warn ≤ record.level then [Handler.lastResort.write record] else []

def writes (r : Routing) (record : Record) : List (Stream × String) :=
  if reaches record.logger then
    if r.threshold ≤ record.level then
      match r.handlers with
      | [] => unhandled record
      | hs => hs.map (·.write record)
    else []
  else unhandled record

end Routing

end ArtifactCache.Log
