namespace ArtifactCache

universe u

structure UniqueList (α : Type u) [BEq α] where
  items : List α
  distinct : items.Pairwise fun a b => (a == b) = false

namespace UniqueList

variable {α : Type u} [BEq α]

def empty : UniqueList α := ⟨[], .nil⟩

def contains (u : UniqueList α) (v : α) : Bool := u.items.any (· == v)

theorem distinct_append {u : UniqueList α} {v : α} (h : ¬ u.contains v = true) :
    (u.items ++ [v]).Pairwise fun a b => (a == b) = false := by
  refine List.pairwise_append.2 ⟨u.distinct, List.pairwise_singleton _ _, ?_⟩
  intro a ha b hb
  rw [List.mem_singleton.1 hb]
  simp only [contains, List.any_eq_true, not_exists, not_and, Bool.not_eq_true] at h
  exact h a ha

def add (u : UniqueList α) (v : α) : UniqueList α × Bool :=
  if h : u.contains v = true then (u, false)
  else (⟨u.items ++ [v], distinct_append h⟩, true)

def extend (u : UniqueList α) : List α → UniqueList α × Nat
  | [] => (u, 0)
  | v :: vs =>
      let (w, added) := u.add v
      let (w, n) := w.extend vs
      (w, if added then n + 1 else n)

def ofList (vs : List α) : UniqueList α := (empty.extend vs).1

def size (u : UniqueList α) : Nat := u.items.length

structure OutOfRange where
  index : Int
  size : Nat
  deriving DecidableEq, Repr

def OutOfRange.message (e : OutOfRange) : String :=
  "Index " ++ toString e.index ++ " out of range for UniqueList of size " ++ toString e.size

def get (u : UniqueList α) (i : Int) : Except OutOfRange α :=
  match i with
  | .ofNat n =>
      match u.items[n]? with
      | some v => .ok v
      | none => .error ⟨i, u.size⟩
  | .negSucc _ => .error ⟨i, u.size⟩

def index? (u : UniqueList α) (v : α) (start : Int) (stop : Option Int) : Option Nat :=
  let fromBack (i : Int) : Int := if i < 0 then u.size + i else i
  let inWindow (i : Int) : Bool :=
    fromBack start ≤ i && stop.all fun s => i < fromBack s
  (u.items.zipIdx.find? fun p => inWindow p.2 && p.1 == v).map (·.2)

def count (u : UniqueList α) (v : α) : Nat := u.items.countP (· == v)

instance : BEq (UniqueList α) := ⟨fun u w => u.items == w.items⟩

def describe (showItem : α → String) (u : UniqueList α) : String :=
  match u.items with
  | [] => "UniqueList()"
  | vs => "UniqueList([" ++ String.intercalate ", " (vs.map showItem) ++ "])"

end UniqueList

end ArtifactCache
