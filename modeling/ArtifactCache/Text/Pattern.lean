namespace ArtifactCache.Text

universe u

inductive Pattern (σ : Type u) where
  | char (c : Char)
  | run (least : Nat) (excluded : List Char)
  | seq (p q : Pattern σ)
  | optional (p : Pattern σ)
  | keep (slot : σ) (p : Pattern σ)

namespace Pattern

variable {σ : Type u}

instance : Append (Pattern σ) := ⟨seq⟩

structure Reading (σ : Type u) where
  kept : List (σ × List Char)
  taken : List Char
  rest : List Char

def Reading.append (r s : Reading σ) : Reading σ := ⟨r.kept ++ s.kept, r.taken ++ s.taken, s.rest⟩

def Reading.keepAs (slot : σ) (r : Reading σ) : Reading σ :=
  { r with kept := (slot, r.taken) :: r.kept }

def runs (excluded : List Char) : List Char → List (Reading σ)
  | [] => [⟨[], [], []⟩]
  | c :: cs =>
      if c ∈ excluded then [⟨[], [], c :: cs⟩]
      else (runs excluded cs).map (fun r => { r with taken := c :: r.taken }) ++ [⟨[], [], c :: cs⟩]

def readings : Pattern σ → List Char → List (Reading σ)
  | .char _, [] => []
  | .char c, x :: cs => if x = c then [⟨[], [c], cs⟩] else []
  | .run least excluded, cs => (runs excluded cs).filter fun r => least ≤ r.taken.length
  | .seq p q, cs => (readings p cs).flatMap fun r => (readings q r.rest).map r.append
  | .optional p, cs => readings p cs ++ [⟨[], [], cs⟩]
  | .keep slot p, cs => (readings p cs).map (Reading.keepAs slot)

def match? (p : Pattern σ) (cs : List Char) : Option (List (σ × List Char)) :=
  ((p.readings cs).find? fun r => r.rest.isEmpty).map (·.kept)

end Pattern

end ArtifactCache.Text
