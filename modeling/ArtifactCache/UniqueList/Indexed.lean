import Std.Data.HashSet
import ArtifactCache.UniqueList.Slice

namespace ArtifactCache.UniqueList

universe u

structure Indexed (α : Type u) [BEq α] [Hashable α] where
  keys : Std.HashSet α
  order : List α

namespace Indexed

variable {α : Type u} [BEq α] [Hashable α]

def empty : Indexed α := ⟨∅, []⟩

def contains (x : Indexed α) (v : α) : Bool := x.keys.contains v

def add (x : Indexed α) (v : α) : Indexed α × Bool :=
  if x.contains v then (x, false) else (⟨x.keys.insert v, x.order ++ [v]⟩, true)

def extend (x : Indexed α) : List α → Indexed α × Nat
  | [] => (x, 0)
  | v :: vs =>
      let (y, added) := x.add v
      let (y, n) := y.extend vs
      (y, if added then n + 1 else n)

def size (x : Indexed α) : Nat := x.order.length

def get (x : Indexed α) (i : Int) : Except OutOfRange α :=
  if h : 0 ≤ i ∧ i < x.order.length then .ok (x.order.get ⟨i.toNat, by omega⟩)
  else .error ⟨i, x.size⟩

theorem lt_size_of_get {x : Indexed α} {i : Int} {v : α} (h : x.get i = .ok v) : i < x.size := by
  unfold get at h
  split at h
  · next hi => exact hi.2
  · cases h

def seek (x : Indexed α) (v : α) (stop : Option Int) (i : Int) : Option Int :=
  if stop.any (· ≤ i) then none
  else match h : x.get i with
    | .error _ => none
    | .ok w =>
        have := lt_size_of_get h
        if w == v then some i else x.seek v stop (i + 1)
termination_by (x.size - i).toNat

def index? (x : Indexed α) (v : α) (start : Int) (stop : Option Int) : Option Int :=
  x.seek v (stop.map fun s => if s < 0 then x.size + s else s)
    (if start < 0 then max (x.size + start) 0 else start)

end Indexed

end ArtifactCache.UniqueList
