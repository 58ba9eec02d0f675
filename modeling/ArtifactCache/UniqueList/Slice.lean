import ArtifactCache.UniqueList.Basic

namespace ArtifactCache

universe u

structure Slice where
  start : Option Int
  stop : Option Int
  step : Option Int
  deriving DecidableEq, Repr

namespace Slice

structure ZeroStep where
  deriving DecidableEq, Repr

def ZeroStep.message (_ : ZeroStep) : String := "slice step cannot be zero"

def clamp (length : Nat) (lo hi i : Int) : Int :=
  if i < 0 then max (i + length) lo else min i hi

def count (start stop step : Int) : Nat :=
  if 0 < step then ((stop - start + step - 1) / step).toNat
  else ((start - stop - step - 1) / (-step)).toNat

def positions (s : Slice) (length : Nat) : Except ZeroStep (List Int) :=
  let step := s.step.getD 1
  if step = 0 then .error ⟨⟩
  else
    let lo : Int := if step < 0 then -1 else 0
    let hi : Int := if step < 0 then length - 1 else length
    let start := (s.start.map (clamp length lo hi)).getD (if step < 0 then hi else lo)
    let stop := (s.stop.map (clamp length lo hi)).getD (if step < 0 then lo else hi)
    .ok ((List.range (count start stop step)).map fun i : Nat => start + i * step)

def items {α : Type u} (s : Slice) (xs : List α) : Except ZeroStep (List α) :=
  (s.positions xs.length).map fun ps => ps.filterMap fun i => xs[i.toNat]?

end Slice

namespace UniqueList

variable {α : Type u} [BEq α]

def slice (u : UniqueList α) (s : Slice) : Except Slice.ZeroStep (UniqueList α) :=
  (s.items u.items).map ofList

end UniqueList

end ArtifactCache
