import ArtifactCache.Text.Blank
import ArtifactCache.Text.Pieces
import ArtifactCache.Text.Quoted

namespace ArtifactCache

namespace Coordinate

structure Parts where
  group : Option String
  artifact : Option String
  version : Option String := some ""
  classifier : Option String := some ""
  packaging : Option String := some "jar"
  deriving DecidableEq, Repr

inductive Invalid where
  | noGroup (parts : Parts)
  | noArtifact (parts : Parts)
  | nulCharacter (parts : Parts)
  | noVersion (unversioned : String)
  | malformed (text : String)
  deriving DecidableEq, Repr

def nul : Char := '\x00'

def defaultPackaging : String := "jar"

def Parts.normalize (p : Parts) : Parts :=
  let packaging := p.packaging.getD ""
  { p with
    version := some (p.version.getD "")
    classifier := some (p.classifier.getD "")
    packaging := some (if packaging = "" then defaultPackaging else packaging) }

def showPart : Option String → String
  | none => "None"
  | some s => Text.quote s

def Parts.describe (p : Parts) : String :=
  "Coordinate(group=" ++ showPart p.group ++ ", artifact=" ++ showPart p.artifact ++
    ", version=" ++ showPart p.version ++ ", classifier=" ++ showPart p.classifier ++
    ", packaging=" ++ showPart p.packaging ++ ")"

def Invalid.message : Invalid → String
  | .noGroup p => "Coordinate is missing a group: " ++ p.describe
  | .noArtifact p => "Coordinate is missing an artifact: " ++ p.describe
  | .nulCharacter p => "Coordinate contains a NUL character: " ++ p.describe
  | .noVersion u => "Coordinate " ++ u ++ " has no version to render"
  | .malformed s => "Received invalid artifact coordinates: " ++ s

end Coordinate

structure Coordinate where
  group : String
  artifact : String
  version : String
  classifier : String
  packaging : String
  group_visible : Text.isBlankText group = false
  artifact_visible : Text.isBlankText artifact = false
  version_noNul : Coordinate.nul ∉ version.toList
  classifier_noNul : Coordinate.nul ∉ classifier.toList
  packaging_ne_empty : packaging ≠ ""
  deriving DecidableEq

namespace Coordinate

def ofParts (p : Parts) : Except Invalid Coordinate :=
  if hg : Text.isBlankText (p.group.getD "") = true then .error (.noGroup p)
  else if ha : Text.isBlankText (p.artifact.getD "") = true then .error (.noArtifact p)
  else if hv : nul ∈ (p.version.getD "").toList then .error (.nulCharacter p.normalize)
  else if hc : nul ∈ (p.classifier.getD "").toList then .error (.nulCharacter p.normalize)
  else .ok
    { group := p.group.getD ""
      artifact := p.artifact.getD ""
      version := p.version.getD ""
      classifier := p.classifier.getD ""
      packaging := if p.packaging.getD "" = "" then defaultPackaging else p.packaging.getD ""
      group_visible := by simpa using hg
      artifact_visible := by simpa using ha
      version_noNul := hv
      classifier_noNul := hc
      packaging_ne_empty := by split <;> simp_all [defaultPackaging] }

def parts (c : Coordinate) : Parts :=
  ⟨some c.group, some c.artifact, some c.version, some c.classifier, some c.packaging⟩

theorem ofParts_parts (c : Coordinate) : ofParts c.parts = .ok c := by
  simp [ofParts, parts, c.group_visible, c.artifact_visible, c.version_noNul, c.classifier_noNul,
    c.packaging_ne_empty]

def describe (c : Coordinate) : String := c.parts.describe

def identity (c : Coordinate) : String × String × String × String :=
  (c.group, c.artifact, c.version, c.classifier)

instance : BEq Coordinate := ⟨fun a b => a.identity == b.identity⟩

theorem beq_iff_identity_eq {a b : Coordinate} : (a == b) = true ↔ a.identity = b.identity := by
  change (a.identity == b.identity) = true ↔ a.identity = b.identity
  exact beq_iff_eq

instance : EquivBEq Coordinate where
  rfl := beq_iff_identity_eq.2 rfl
  symm h := beq_iff_identity_eq.2 (beq_iff_identity_eq.1 h).symm
  trans h k := beq_iff_identity_eq.2 ((beq_iff_identity_eq.1 h).trans (beq_iff_identity_eq.1 k))

instance : Hashable Coordinate := ⟨fun c => hash c.identity⟩

instance : LawfulHashable Coordinate where
  hash_eq a b h := by
    change hash a.identity = hash b.identity
    rw [beq_iff_identity_eq.1 h]

def unversionedFields (c : Coordinate) : List String :=
  if c.classifier ≠ "" then [c.group, c.artifact, c.packaging, c.classifier]
  else if c.packaging ≠ defaultPackaging then [c.group, c.artifact, c.packaging]
  else [c.group, c.artifact]

def unversioned (c : Coordinate) : String := Text.join ':' c.unversionedFields

def versioned (c : Coordinate) : Except Invalid String :=
  if c.version = "" then .error (.noVersion c.unversioned)
  else .ok (Text.join ':' (c.unversionedFields ++ [c.version]))

def render (c : Coordinate) : String :=
  if c.version = "" then c.unversioned
  else Text.join ':' (c.unversionedFields ++ [c.version])

instance : ToString Coordinate := ⟨render⟩

def withoutColons (s : String) : String :=
  String.ofList (s.toList.flatMap fun c => if c = ':' then ['-', '-'] else [c])

def nameComponents (c : Coordinate) : List String :=
  [c.group, c.artifact, c.packaging] ++ [c.classifier, c.version].filter (· ≠ "")

def directoryName (c : Coordinate) : String :=
  Text.join '-' (c.nameComponents.map withoutColons)

def sources (c : Coordinate) : Coordinate :=
  { c with classifier := "sources", classifier_noNul := by decide }

end Coordinate

end ArtifactCache
