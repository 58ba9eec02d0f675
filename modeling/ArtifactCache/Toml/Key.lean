import ArtifactCache.Toml.Scan

namespace ArtifactCache.Toml

open Scan

def isSpace (c : Char) : Bool := c == ' ' || c == '\t'

def isControl (c : Char) : Bool := (c.toNat < 0x20 && c != '\t') || c.toNat == 0x7F

def isOrdinary (c : Char) : Bool := !isControl c

def isHexDigit (c : Char) : Bool :=
  c.isDigit || ('a' ≤ c && c ≤ 'f') || ('A' ≤ c && c ≤ 'F')

def digitValue (c : Char) : Nat :=
  if c.isDigit then c.toNat - '0'.toNat else c.toLower.toNat - 'a'.toNat + 10

def numeral (base : Nat) (digits : List Char) : Nat :=
  digits.foldl (fun n c => base * n + digitValue c) 0

def charOfCode (width : Nat) : Scan Char := do
  let code := numeral 16 (← exactly isHexDigit width)
  guard code.isValidChar
  return Char.ofNat code

def escaped : Scan Char := do
  match ← next with
  | 'b' => return '\x08'
  | 't' => return '\t'
  | 'n' => return '\n'
  | 'f' => return '\x0c'
  | 'r' => return '\r'
  | '\x22' => return '\x22'
  | '\\' => return '\\'
  | 'u' => charOfCode 4
  | 'U' => charOfCode 8
  | _ => failure

def charIn (ok : Char → Bool) : Scan Char := do
  match ← next with
  | '\\' => escaped
  | c => do guard (ok c); return c

def basicText : Scan String := do
  char '\x22'
  return String.ofList (← upTo (char '\x22') (charIn isOrdinary))

def literalText : Scan String := do
  char '\x27'
  return String.ofList (← upTo (char '\x27') (satisfying isOrdinary))

def isOrdinaryOrNewline (c : Char) : Bool := isOrdinary c || c == '\n'

def lineJoint : Scan (List Char) := do
  char '\\'
  skipWhile isSpace
  char '\n'
  skipWhile fun c => isSpace c || c == '\n'
  return []

def extraQuotes (quote : Char) : Scan (List Char) := do
  match ← optional (exactly (· == quote) 2) with
  | some cs => return cs
  | none => return (← optional (satisfying (· == quote))).toList

def longText (quote : Char) (piece : Scan (List Char)) : Scan String := do
  let mark := do discard (exactly (· == quote) 3)
  mark
  discard (optional (char '\n'))
  let pieces ← upTo mark piece
  return String.ofList (pieces.flatten ++ (← extraQuotes quote))

def longBasicText : Scan String :=
  longText '\x22' (lineJoint <|> (do return [← charIn isOrdinaryOrNewline]))

def longLiteralText : Scan String :=
  longText '\x27' (do return [← satisfying isOrdinaryOrNewline])

def text : Scan String := longBasicText <|> basicText <|> longLiteralText <|> literalText

def isBareKeyChar (c : Char) : Bool := c.isAlphanum || c == '_' || c == '-'

def bareKey : Scan String := do
  let cs ← takeWhile isBareKeyChar
  guard !cs.isEmpty
  return String.ofList cs

def keyPart : Scan String := do
  let part ← basicText <|> literalText <|> bareKey
  skipWhile isSpace
  return part

def keyUpTo (close : Scan Unit) : Scan (List String) := do
  let first ← keyPart
  let rest ← upTo close (do char '.'; skipWhile isSpace; keyPart)
  return first :: rest

end ArtifactCache.Toml
