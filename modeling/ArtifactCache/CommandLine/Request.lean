import ArtifactCache.CommandLine.Argument
import ArtifactCache.Log.Level

namespace ArtifactCache.CommandLine

inductive Given (α : Type) where
  | value (a : α)
  | nothing
  deriving DecidableEq, Repr

def Given.ofText (text : String) : Given String :=
  if text = separatorText then .nothing else .value text

inductive Goal where
  | clean
  | classpath (coordinates : List String) (sort : Bool)
  deriving DecidableEq, Repr

structure Request where
  config : Option (Given String)
  cacheDir : Option (Given String)
  level : Option (Given Log.Level)
  goal : Goal
  deriving DecidableEq, Repr

namespace Goal

def parseClean : List (String × Token) → Except Usage Goal
  | [] => .ok .clean
  | (_, .switch _ none) :: _ => .error .help
  | (_, .switch _ (some _)) :: _ => .error .wrong
  | _ :: ts =>
      match parseClean ts with
      | .error u => .error u
      | .ok _ => .error .wrong

structure Gathering where
  coordinates : List String
  complete : Bool
  sort : Bool
  stray : Bool

namespace Gathering

def start : Gathering := ⟨[], false, false, false⟩

def interrupted (g : Gathering) : Gathering := { g with complete := !g.coordinates.isEmpty }

def add (g : Gathering) (arg : String) : Token → Except Usage Gathering
  | .word =>
      .ok (if g.complete then { g with stray := true }
        else { g with coordinates := g.coordinates ++ [arg] })
  | .separator => .ok (if g.complete then { g with stray := true } else g)
  | .switch .sort none => .ok { g.interrupted with sort := true }
  | .switch _ none => .error .help
  | .switch _ (some _) => .error .wrong
  | .unknown => .ok { g.interrupted with stray := true }

end Gathering

def parseClasspath (ts : List (String × Token)) : Except Usage Goal := do
  let g ← ts.foldlM (fun g t => g.add t.1 t.2) Gathering.start
  if g.coordinates.isEmpty ∨ g.stray then .error .wrong
  else return .classpath g.coordinates g.sort

def parse (name : String) (args : List String) : Except Usage Goal :=
  match name with
  | "clean" => do parseClean (← classifyAll [.help] args)
  | "classpath" => do parseClasspath (← classifyAll [.help, .sort] args)
  | _ => .error .wrong

end Goal

structure Preamble where
  config : Option (Given String)
  cacheDir : Option (Given String)
  level : Option (Given Log.Level)
  stray : Bool

namespace Preamble

def start : Preamble := ⟨none, none, none, false⟩

def set (p : Preamble) (given : Given String) : Switch → Except Usage Preamble
  | .config => .ok { p with config := some given }
  | .cacheDir => .ok { p with cacheDir := some given }
  | .level =>
      match given with
      | .nothing => .ok { p with level := some .nothing }
      | .value text =>
          match Log.Level.parse text with
          | .ok l => .ok { p with level := some (.value l) }
          | .error _ => .error .wrong
  | _ => .error .wrong

def parse (p : Preamble) : List (String × Token) → Except Usage Request
  | (_, .switch .help none) :: _ => .error .help
  | (_, .switch s (some text)) :: ts => do (← p.set (.ofText text) s).parse ts
  | (_, .switch s none) :: (text, .word) :: ts => do (← p.set (.value text) s).parse ts
  | (_, .unknown) :: ts => { p with stray := true }.parse ts
  | (name, .word) :: ts => do
      let goal ← Goal.parse name (ts.map (·.1))
      if p.stray then .error .wrong else return ⟨p.config, p.cacheDir, p.level, goal⟩
  | _ => .error .wrong

end Preamble

def Request.parse (args : List String) : Except Usage Request := do
  Preamble.start.parse (← classifyAll [.help, .config, .cacheDir, .level] args)

end ArtifactCache.CommandLine
