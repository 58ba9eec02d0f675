import ArtifactCache.Coordinate.Basic
import ArtifactCache.Text.Pattern

namespace ArtifactCache.Coordinate

inductive Slot where
  | group
  | artifact
  | packaging
  | classifier
  | version
  deriving DecidableEq, Repr

def colon : Text.Pattern Slot := .char ':'

def field (slot : Slot) : Text.Pattern Slot :=
  .keep slot (.run (if slot = .packaging then 0 else 1) [':', ' '])

def optionalFields : Text.Pattern Slot :=
  .optional (colon ++ field .packaging ++ .optional (colon ++ field .classifier))

def writtenForm : Text.Pattern Slot :=
  field .group ++ colon ++ field .artifact ++ optionalFields ++ colon ++ field .version

def packagingOf (field : String) : String := if field = "" then defaultPackaging else field

def partsOf (kept : List (Slot × List Char)) : Parts :=
  let text? (slot : Slot) : Option String := (kept.lookup slot).map String.ofList
  { group := text? .group
    artifact := text? .artifact
    version := text? .version
    classifier := some ((text? .classifier).getD "")
    packaging := some (packagingOf ((text? .packaging).getD "")) }

def parse (s : String) : Except Invalid Coordinate :=
  match writtenForm.match? (Text.trim s).toList with
  | none => .error (.malformed s)
  | some kept => ofParts (partsOf kept)

end ArtifactCache.Coordinate
