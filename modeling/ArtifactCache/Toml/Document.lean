import ArtifactCache.Toml.Moment
import ArtifactCache.Toml.Number
import ArtifactCache.Toml.Table

/-!
TOML documents: lines that open tables or give values to keys.
-/

namespace ArtifactCache.Toml

open Scan

inductive Statement where
  | table (path : List String)
  | item (path : List String)
  | pair (key : List String) (v : Value)

def comment : Scan Unit := do
  char '#'
  skipWhile isOrdinary

def newline : Scan Unit := char '\n'

def gap : Scan Unit := do
  let blanks := skipWhile fun c => isSpace c || c == '\n'
  blanks
  let stop := do guard ((← get).head? ≠ some '#')
  discard (upTo stop (do comment; newline; blanks))

def boolean : Scan Value :=
  (do word "true"; return .bool true) <|> (do word "false"; return .bool false)

def listOf (value : Scan Value) : Scan Value := do
  char '['
  gap
  let item := do
    let v ← value
    gap
    return v
  let close := do
    discard (optional (do char ','; gap))
    char ']'
  (do char ']'; return .list []) <|> (do
    let first ← item
    let rest ← upTo close (do char ','; gap; item)
    return .list (first :: rest))

def pairOf (value : Scan Value) : Scan (List String × Value) := do
  let key ← keyUpTo (char '=')
  skipWhile isSpace
  return (key, ← value)

def tableOf? (pairs : List (List String × Value)) : Option Entries :=
  pairs.foldlM (fun es p => es.assign 0 p.2 p.1) []

def inlineTableOf (value : Scan Value) : Scan Value := do
  char '\x7b'
  skipWhile isSpace
  let pair := do
    let p ← pairOf value
    skipWhile isSpace
    return p
  let pairs ← (do char '\x7d'; return []) <|> (do
    let first ← pair
    let rest ← upTo (char '\x7d') (do char ','; skipWhile isSpace; pair)
    return first :: rest)
  let es ← tableOf? pairs
  return .table (entryValues es)

def valueWithin : Nat → Scan Value
  | 0 => failure
  | depth + 1 =>
      (do return .text (← text)) <|> boolean <|> moment <|> number <|>
        listOf (valueWithin depth) <|> inlineTableOf (valueWithin depth)

def value : Scan Value := do valueWithin ((← get).length + 1)

def header : Scan (List String) := do
  char '['
  skipWhile isSpace
  keyUpTo (char ']')

def itemHeader : Scan (List String) := do
  word "[["
  skipWhile isSpace
  keyUpTo (word "]]")

def statement : Scan Statement :=
  (do return .item (← itemHeader)) <|> (do return .table (← header)) <|> (do
    let (key, v) ← pairOf value
    return .pair key v)

def line : Scan (Option Statement) := do
  skipWhile isSpace
  let s ← optional statement
  skipWhile isSpace
  discard (optional comment)
  newline <|> atEnd
  return s

def lines : Scan (List (Option Statement)) := upTo atEnd line

structure Document where
  entries : Entries
  header : List String
  part : Nat

namespace Document

def empty : Document := ⟨[], [], 0⟩

def openWith (edit : String → Entries → Option Entries) (d : Document) (path : List String) :
    Option Document := do
  let last ← path.getLast?
  let es ← d.entries.within (edit last) path.dropLast
  return ⟨es, path, d.part + 1⟩

def add (d : Document) : Statement → Option Document
  | .table path => d.openWith Entries.openTable path
  | .item path => d.openWith Entries.openItem path
  | .pair key v => do
      let es ← d.entries.within (Entries.assign d.part v key) d.header
      return { d with entries := es }

end Document

def parse (text : String) : Option (List (String × Value)) := do
  let (statements, _) ← lines text.toList
  let d ← (statements.filterMap id).foldlM Document.add .empty
  return entryValues d.entries

end ArtifactCache.Toml
