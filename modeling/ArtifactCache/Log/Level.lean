import ArtifactCache.Text.Word

namespace ArtifactCache.Log

inductive Level where
  | trace
  | debug
  | info
  | warn
  | error
  deriving DecidableEq, Repr

namespace Level

def all : List Level := [.trace, .debug, .info, .warn, .error]

def number : Level → Nat
  | .trace => 5
  | .debug => 10
  | .info => 20
  | .warn => 30
  | .error => 40

def option : Level → String
  | .trace => "trace"
  | .debug => "debug"
  | .info => "info"
  | .warn => "warn"
  | .error => "error"

def title : Level → String
  | .trace => "TRACE"
  | .debug => "DEBUG"
  | .info => "INFO"
  | .warn => "WARNING"
  | .error => "ERROR"

instance : LE Level := ⟨fun a b => a.number ≤ b.number⟩

instance : LT Level := ⟨fun a b => a.number < b.number⟩

instance (a b : Level) : Decidable (a ≤ b) := inferInstanceAs (Decidable (a.number ≤ b.number))

instance (a b : Level) : Decidable (a < b) := inferInstanceAs (Decidable (a.number < b.number))

def parse (text : String) : Except Text.UnknownWord Level :=
  match all.find? fun l => Text.sameWord text l.option with
  | some l => .ok l
  | none => .error ⟨"log level", text, all.map option⟩

end Level

end ArtifactCache.Log
