import ArtifactCache.Toml.Key
import ArtifactCache.Value.Basic

namespace ArtifactCache.Toml

open Scan

def moreDigits (ok : Char → Bool) : List Char → List Char × List Char
  | '_' :: c :: cs =>
      if ok c then
        let (digits, rest) := moreDigits ok cs
        (c :: digits, rest)
      else ([], '_' :: c :: cs)
  | c :: cs =>
      if ok c then
        let (digits, rest) := moreDigits ok cs
        (c :: digits, rest)
      else ([], c :: cs)
  | [] => ([], [])

def digits (ok : Char → Bool) : Scan (List Char) := do
  let first ← satisfying ok
  return first :: (← fun cs => some (moreDigits ok cs))

def decimalDigits : Scan (List Char) := digits Char.isDigit

def sign : Scan Bool :=
  (do char '-'; return true) <|> (do char '+'; return false) <|> pure false

def signed (negative : Bool) (n : Nat) : Int := if negative then -n else n

def basedInteger (mark : String) (base : Nat) (ok : Char → Bool) : Scan Value := do
  word mark
  return .int (numeral base (← digits ok))

/-- The number nearest to `n * 10 ^ power`. One whose leading digit stands far beyond those of all
finite numbers is infinite or zero, whatever its digits are. -/
def nearestFloat (n : Nat) (power : Int) : Float :=
  let magnitude := (Nat.toDigits 10 n).length + power
  if n = 0 ∨ magnitude < -400 then 0
  else if 400 < magnitude then 1 / 0
  else Float.ofScientific n (power < 0) power.natAbs

def fraction : Scan (List Char) := do char '.'; decimalDigits

def exponent : Scan Int := do
  char 'e' <|> char 'E'
  let negative ← sign
  return signed negative (numeral 10 (← decimalDigits))

def decimalNumber : Scan Value := do
  let negative ← sign
  let whole ← decimalDigits
  guard (whole.head? ≠ some '0' ∨ whole.length = 1)
  let fraction? ← optional fraction
  let exponent? ← optional exponent
  if fraction?.isNone ∧ exponent?.isNone then
    guard (whole.length ≤ digitLimit)
    return .int (signed negative (numeral 10 whole))
  let places := fraction?.getD []
  let x := nearestFloat (numeral 10 (whole ++ places)) (exponent?.getD 0 - places.length)
  return .float (if negative then -x else x)

def infinity : Scan Value := do
  let negative ← sign
  word "inf"
  return .float (if negative then -1 / 0 else 1 / 0)

def notANumber : Scan Value := do
  discard sign
  word "nan"
  return .float (0 / 0)

def number : Scan Value :=
  basedInteger "0x" 16 isHexDigit <|> basedInteger "0o" 8 (fun c => '0' ≤ c && c ≤ '7') <|>
    basedInteger "0b" 2 (fun c => c == '0' || c == '1') <|> decimalNumber <|> infinity <|>
    notANumber

end ArtifactCache.Toml
