import ArtifactCache.Decimal.Shortest

namespace ArtifactCache.Decimal

structure Layout where
  leastPositional : Int
  leastScientific : Int
  wholeEnding : String
  exponentWidth : Nat
  nan : String
  infinity : String
  deriving DecidableEq, Repr

namespace Layout

def digitText (n : Nat) : String := String.ofList (Nat.toDigits 10 n)

def zeros (n : Nat) : String := String.ofList (List.replicate n '0')

def padded (width n : Nat) : String :=
  let ds := digitText n
  zeros (width - ds.length) ++ ds

def positional (l : Layout) (d : Numeral) : String :=
  let ds := Nat.toDigits 10 d.digits
  if 0 ≤ d.exponent then String.ofList ds ++ zeros d.exponent.toNat ++ l.wholeEnding
  else
    let places := (-d.exponent).toNat
    if ds.length ≤ places then "0." ++ zeros (places - ds.length) ++ String.ofList ds
    else
      String.ofList (ds.take (ds.length - places)) ++ "." ++
        String.ofList (ds.drop (ds.length - places))

def scientific (l : Layout) (d : Numeral) (power : Int) : String :=
  let sign := if power < 0 then "-" else "+"
  let mantissa := match Nat.toDigits 10 d.digits with
    | [] => ""
    | [c] => String.ofList [c]
    | c :: cs => String.ofList (c :: '.' :: cs)
  mantissa ++ "e" ++ sign ++ padded l.exponentWidth power.natAbs

def finite (l : Layout) (d : Numeral) : String :=
  let power := d.exponent + (Nat.toDigits 10 d.digits).length - 1
  if l.leastPositional ≤ power ∧ power < l.leastScientific then l.positional d
  else l.scientific d power

def write (l : Layout) : Binary64 → String
  | .nan => l.nan
  | .infinite negative => (if negative then "-" else "") ++ l.infinity
  | .finite negative m q => (if negative then "-" else "") ++ l.finite (shortest m q)

end Layout

end ArtifactCache.Decimal
