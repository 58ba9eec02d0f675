import ArtifactCache.Value.Basic

namespace ArtifactCache.Toml

/-- How a table came to be. Sections of a document are counted; a dotted key of one section cannot
add to a table that dotted keys of another one made. -/
inductive Origin where
  | implied
  | headed
  | dotted (part : Nat)
  deriving DecidableEq, Repr

inductive Node where
  | leaf (v : Value)
  | table (origin : Origin) (entries : List (String × Node))
  | items (before : List Value) (last : List (String × Node))

abbrev Entries := List (String × Node)

mutual

def Node.value : Node → Value
  | .leaf v => v
  | .table _ es => .table (entryValues es)
  | .items before last => .list (before ++ [.table (entryValues last)])

def entryValues : List (String × Node) → List (String × Value)
  | [] => []
  | (k, n) :: es => (k, n.value) :: entryValues es

end

namespace Entries

def node? (es : Entries) (k : String) : Option Node := (es.find? fun e => e.1 == k).map (·.2)

def set (es : Entries) (k : String) (n : Node) : Entries :=
  if (es.node? k).isSome then es.map fun e => if e.1 == k then (k, n) else e
  else es ++ [(k, n)]

def within (edit : Entries → Option Entries) : List String → Entries → Option Entries
  | [], es => edit es
  | k :: ks, es =>
      match es.node? k with
      | none => (within edit ks []).map fun sub => es.set k (.table .implied sub)
      | some (.table o sub) => (within edit ks sub).map fun sub => es.set k (.table o sub)
      | some (.items before last) =>
          (within edit ks last).map fun last => es.set k (.items before last)
      | some (.leaf _) => none

def openTable (k : String) (es : Entries) : Option Entries :=
  match es.node? k with
  | none => some (es.set k (.table .headed []))
  | some (.table .implied sub) => some (es.set k (.table .headed sub))
  | some _ => none

def openItem (k : String) (es : Entries) : Option Entries :=
  match es.node? k with
  | none => some (es.set k (.items [] []))
  | some (.items before last) =>
      some (es.set k (.items (before ++ [.table (entryValues last)]) []))
  | some _ => none

def assign (part : Nat) (v : Value) : List String → Entries → Option Entries
  | [], _ => none
  | [k], es => if (es.node? k).isSome then none else some (es.set k (.leaf v))
  | k :: ks, es =>
      let into (sub : Entries) :=
        (assign part v ks sub).map fun sub => es.set k (.table (.dotted part) sub)
      match es.node? k with
      | none => into []
      | some (.table .implied sub) => into sub
      | some (.table (.dotted p) sub) => if p = part then into sub else none
      | some _ => none

end Entries

end ArtifactCache.Toml
