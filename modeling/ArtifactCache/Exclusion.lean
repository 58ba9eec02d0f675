import ArtifactCache.Coordinate.Basic

namespace ArtifactCache

inductive Exclusion.Invalid where
  | blankPart (group artifact : Option String)
  | malformed (text : String)
  deriving DecidableEq, Repr

def Exclusion.Invalid.message : Exclusion.Invalid → String
  | .blankPart g a =>
      "An exclusion requires both a group and an artifact, got " ++ Coordinate.showPart g ++
        " and " ++ Coordinate.showPart a
  | .malformed s => "Expected an exclusion of the form group:artifact, got " ++ Text.quote s

structure Exclusion where
  group : String
  artifact : String
  group_visible : Text.isBlankText group = false
  artifact_visible : Text.isBlankText artifact = false

namespace Exclusion

theorem eq_iff {a b : Exclusion} : a = b ↔ a.group = b.group ∧ a.artifact = b.artifact := by
  cases a
  cases b
  simp

instance : DecidableEq Exclusion := fun _ _ => decidable_of_iff _ eq_iff.symm

def ofParts (group artifact : Option String) : Except Invalid Exclusion :=
  if h : Text.isBlankText (group.getD "") = true ∨ Text.isBlankText (artifact.getD "") = true then
    .error (.blankPart group artifact)
  else .ok
    { group := group.getD ""
      artifact := artifact.getD ""
      group_visible := by simp only [not_or, Bool.not_eq_true] at h; exact h.1
      artifact_visible := by simp only [not_or, Bool.not_eq_true] at h; exact h.2 }

def parse (s : String) : Except Invalid Exclusion :=
  match Text.split ':' (Text.trim s) with
  | [g, a] => ofParts (some g) (some a)
  | _ => .error (.malformed s)

def render (e : Exclusion) : String := Text.join ':' [e.group, e.artifact]

instance : ToString Exclusion := ⟨render⟩

def describe (e : Exclusion) : String :=
  "Exclusion(group=" ++ Text.quote e.group ++ ", artifact=" ++ Text.quote e.artifact ++ ")"

def covers (e : Exclusion) : Option Coordinate → Bool
  | none => false
  | some c => e.group == c.group && e.artifact == c.artifact

end Exclusion

def anyCovers (es : List Exclusion) (c : Option Coordinate) : Bool :=
  es.any (·.covers c)

end ArtifactCache
