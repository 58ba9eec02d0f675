import ArtifactCache.Toml.Key
import ArtifactCache.Value.Basic

namespace ArtifactCache.Toml

open Scan

def fixedNumber (width : Nat) : Scan Nat := do
  return numeral 10 (← exactly Char.isDigit width)

def date : Scan Date := do
  let year ← fixedNumber 4
  char '-'
  let month ← fixedNumber 2
  char '-'
  let d : Date := ⟨year, month, ← fixedNumber 2⟩
  guard d.isValid
  return d

def secondFraction : Scan Nat := do
  char '.'
  let first ← satisfying Char.isDigit
  let places := first :: (← takeWhile Char.isDigit)
  return numeral 10 ((places ++ List.replicate 5 '0').take 6)

def time : Scan TimeOfDay := do
  let hour ← fixedNumber 2
  char ':'
  let minute ← fixedNumber 2
  char ':'
  let second ← fixedNumber 2
  let t : TimeOfDay := ⟨hour, minute, second, (← optional secondFraction).getD 0⟩
  guard t.isValid
  return t

def utcMark : Scan UtcOffset := do
  char 'Z' <|> char 'z'
  return ⟨0⟩

def numericOffset : Scan UtcOffset := do
  let negative ← (do char '-'; return true) <|> (do char '+'; return false)
  let hours ← fixedNumber 2
  char ':'
  let minutes ← fixedNumber 2
  guard (hours < 24 ∧ minutes < 60)
  let offset : Int := 60 * hours + minutes
  return ⟨if negative then -offset else offset⟩

def timeOfDate : Scan (TimeOfDay × Option UtcOffset) := do
  discard (satisfying fun c => c == 'T' || c == 't' || c == ' ')
  let t ← time
  return (t, ← optional (utcMark <|> numericOffset))

def dateOrDateTime : Scan Value := do
  let d ← date
  match ← optional timeOfDate with
  | none => return .date d
  | some (t, offset) => return .dateTime d t offset

def moment : Scan Value := dateOrDateTime <|> (do return .time (← time))

end ArtifactCache.Toml
