namespace ArtifactCache.Decimal

def twoTo (n : Nat) : Nat := Nat.pow 2 n

def tenTo (n : Nat) : Nat := Nat.pow 10 n

inductive Binary64 where
  | nan
  | infinite (negative : Bool)
  | finite (negative : Bool) (mantissa : Nat) (exponent : Int)
  deriving DecidableEq, Repr

def Binary64.ofBits (bits : Nat) : Binary64 :=
  let negative := bits / twoTo 63 % 2 == 1
  let biased : Nat := bits / twoTo 52 % twoTo 11
  let fraction : Nat := bits % twoTo 52
  if biased = twoTo 11 - 1 then
    if fraction = 0 then .infinite negative else .nan
  else if biased = 0 then .finite negative fraction (-1074)
  else .finite negative (twoTo 52 + fraction) ((biased : Int) - 1075)

/-- A positive number `num / den` with the reals that round to it: those from `below / den` under
it to `above / den` over it, ends included or not. -/
structure Neighbourhood where
  num : Nat
  den : Nat
  below : Nat
  above : Nat
  closed : Bool
  deriving DecidableEq, Repr

/-- The numbers are `4 · mantissa` quarters of a unit in the last place. Half a unit rounds to the
number from either side, but only a quarter from below a power of two, where the units halve. -/
def neighbourhood (mantissa : Nat) (exponent : Int) : Neighbourhood :=
  let unit := twoTo exponent.toNat
  { num := 4 * mantissa * unit
    den := 4 * twoTo (-exponent).toNat
    below := if mantissa = twoTo 52 ∧ exponent ≠ -1074 then unit else 2 * unit
    above := 2 * unit
    closed := mantissa % 2 == 0 }

def Neighbourhood.magnitude (r : Neighbourhood) : Int :=
  if r.den ≤ r.num then ((Nat.toDigits 10 (r.num / r.den)).length : Int) - 1
  else -(((List.range 400).find? fun j => r.den ≤ r.num * tenTo j).getD 0 : Nat)

def within (closed : Bool) (distance bound : Nat) : Bool :=
  if closed then distance ≤ bound else distance < bound

/-- The multiple of `10 ^ k` in the neighbourhood that is nearest to its number, if there is one;
a number half way between two multiples goes to the even one. -/
def Neighbourhood.onGrid (r : Neighbourhood) (k : Int) : Option Nat :=
  let up := tenTo (-k).toNat
  let num := r.num * up
  let den := r.den * tenTo k.toNat
  let d := num / den
  let short := num - d * den
  let beyond := (d + 1) * den - num
  let lowFits := within r.closed short (r.below * up)
  let highFits := within r.closed beyond (r.above * up)
  if lowFits && highFits then
    if short < beyond ∨ (short = beyond ∧ d % 2 = 0) then some d else some (d + 1)
  else if lowFits then some d
  else if highFits then some (d + 1)
  else none

structure Numeral where
  digits : Nat
  exponent : Int
  deriving DecidableEq, Repr

def Numeral.stripZeros (fuel : Nat) (d : Numeral) : Numeral :=
  match fuel with
  | 0 => d
  | fuel + 1 =>
      if d.digits ≠ 0 ∧ d.digits % 10 = 0 then stripZeros fuel ⟨d.digits / 10, d.exponent + 1⟩
      else d

def mostDigits : Nat := 17

def shortest (mantissa : Nat) (exponent : Int) : Numeral :=
  if mantissa = 0 then ⟨0, 0⟩
  else
    let r := neighbourhood mantissa exponent
    let first := (List.range mostDigits).findSome? fun n : Nat =>
      let k := r.magnitude - n
      (r.onGrid k).map fun d => (⟨d, k⟩ : Numeral)
    (first.getD ⟨0, 0⟩).stripZeros (mostDigits + 1)

end ArtifactCache.Decimal
