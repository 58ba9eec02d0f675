import ArtifactCache.Text.Digit
import ArtifactCache.Text.Pieces

namespace ArtifactCache.CommandLine

inductive Usage where
  | help
  | wrong
  deriving DecidableEq, Repr

def Usage.exitCode : Usage → Nat
  | .help => 0
  | .wrong => 2

inductive Switch where
  | help
  | config
  | cacheDir
  | level
  | sort
  deriving DecidableEq, Repr

def Switch.spelling : Switch → String
  | .help => "--help"
  | .config => "--config"
  | .cacheDir => "--cache-dir"
  | .level => "--level"
  | .sort => "--sort"

inductive Token where
  | word
  | separator
  | switch (s : Switch) (attached : Option String)
  | unknown
  deriving DecidableEq, Repr

def separatorText : String := "--"

def splitAttached (arg : String) : String × Option String :=
  match Text.split '=' arg with
  | [] => (arg, none)
  | [s] => (s, none)
  | s :: ss => (s, some (Text.join '=' ss))

def startsWith (start s : String) : Bool := start.toList.isPrefixOf s.toList

def asksForHelp : List Char → Bool
  | '=' :: cs => !cs.isEmpty && cs.all (· == 'h')
  | cs => cs.all (· == 'h')

def isNegativeNumber (arg : String) : Bool :=
  match arg.toList with
  | '-' :: cs =>
      let cs := if cs.getLast? = some '\n' then cs.dropLast else cs
      match cs.dropWhile Text.isDecimalDigit with
      | [] => !cs.isEmpty
      | '.' :: places => !places.isEmpty && places.all Text.isDecimalDigit
      | _ => false
  | _ => false

def unresolved (arg : String) : Token :=
  if isNegativeNumber arg ∨ ' ' ∈ arg.toList then .word else .unknown

def classify (known : List Switch) (arg : String) : Except Usage Token :=
  match arg.toList with
  | '-' :: '-' :: _ =>
      let (name, attached) := splitAttached arg
      match known.find? (·.spelling == name) with
      | some s => .ok (.switch s attached)
      | none =>
          match known.filter fun s => startsWith name s.spelling with
          | [] => .ok (unresolved arg)
          | [s] => .ok (.switch s attached)
          | _ => .error .wrong
  | '-' :: 'h' :: cs =>
      .ok (.switch .help (if asksForHelp cs then none else some (String.ofList cs)))
  | '-' :: _ :: _ => .ok (unresolved arg)
  | _ => .ok .word

def classifyAll (known : List Switch) : List String → Except Usage (List (String × Token))
  | [] => .ok []
  | arg :: args =>
      if arg = separatorText then
        .ok ((arg, .separator) :: args.map fun a => (a, .word))
      else
        match classify known arg with
        | .error u => .error u
        | .ok t => (classifyAll known args).map ((arg, t) :: ·)

end ArtifactCache.CommandLine
