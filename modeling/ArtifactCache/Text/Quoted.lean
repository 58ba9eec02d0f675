import ArtifactCache.Text.Printable

namespace ArtifactCache.Text

def apostrophe : Char := '\x27'

def doubleQuote : Char := '\x22'

def delimiter (cs : List Char) : Char :=
  if apostrophe ∈ cs ∧ doubleQuote ∉ cs then doubleQuote else apostrophe

def hexDigits (width : Nat) (n : Nat) : List Char :=
  let ds := Nat.toDigits 16 n
  List.replicate (width - ds.length) '0' ++ ds

def escapeCode (c : Char) : List Char :=
  let n := c.toNat
  if n < 0x100 then '\\' :: 'x' :: hexDigits 2 n
  else if n < 0x10000 then '\\' :: 'u' :: hexDigits 4 n
  else '\\' :: 'U' :: hexDigits 8 n

def escape (delim c : Char) : List Char :=
  if c = '\\' ∨ c = delim then ['\\', c]
  else if c = '\n' then ['\\', 'n']
  else if c = '\r' then ['\\', 'r']
  else if c = '\t' then ['\\', 't']
  else if isPrintable c then [c]
  else escapeCode c

def quote (s : String) : String :=
  let delim := delimiter s.toList
  String.ofList (delim :: s.toList.flatMap (escape delim) ++ [delim])

end ArtifactCache.Text
