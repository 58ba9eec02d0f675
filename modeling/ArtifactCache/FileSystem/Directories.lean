import ArtifactCache.FileSystem.Fault

namespace ArtifactCache

inductive CallError where
  | failed (failure : Failure)
  | nulInPath
  deriving DecidableEq, Repr

namespace CallError

def message : CallError → String
  | .failed f => f.message
  | .nulInPath => "embedded null byte"

def isAlreadyExists : CallError → Bool
  | .failed f => f.errno == .alreadyExists
  | .nulInPath => false

end CallError

structure Making where
  files : FileSystem
  steps : List Step
  result : Except CallError Unit

namespace Making

def one (faults : Faults) (fs : FileSystem) (p : Pathname) : Making :=
  if p.hasNul then ⟨fs, [], .error .nulInPath⟩
  else
    let step := faults.perform fs (.mkdir p)
    ⟨step.files, [step],
      match step.failure with
      | some f => .error (.failed f)
      | none => .ok ()⟩

def afterSteps (steps : List Step) (m : Making) : Making := { m with steps := steps ++ m.steps }

/-- Makes the directories above, as far as they are missing, and then the one asked for. A
pathname has no more directories above it than pieces, so many levels are enough. -/
def upTo (faults : Faults) : Nat → FileSystem → Pathname → Making
  | 0, fs, p => one faults fs p
  | level + 1, fs, p =>
      let (head, last) := if p.lastPiece = "" then p.splitLast.1.splitLast else p.splitLast
      if head.isEmpty ∨ last = "" ∨ fs.isPresent head = true then one faults fs p
      else
        let above := upTo faults level fs head
        match above.result with
        | .error e =>
            if !e.isAlreadyExists then above
            else if last = "." then { above with result := .ok () }
            else (one faults above.files p).afterSteps above.steps
        | .ok () =>
            if last = "." then above
            else (one faults above.files p).afterSteps above.steps

end Making

def makeDirectories (faults : Faults) (fs : FileSystem) (p : Pathname) : Making :=
  let made := Making.upTo faults p.pieces.length fs p
  match made.result with
  | .error e => if e.isAlreadyExists then { made with result := .ok () } else made
  | .ok () => made

end ArtifactCache
