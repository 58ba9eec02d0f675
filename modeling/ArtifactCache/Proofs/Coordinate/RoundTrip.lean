import ArtifactCache.Proofs.Coordinate.Grammar

namespace ArtifactCache.Coordinate

variable {s : String} {fs : List String} {c : Coordinate}

def partTexts (c : Coordinate) : List String :=
  [c.group, c.artifact, c.version, c.classifier, c.packaging]

structure Legible (c : Coordinate) : Prop where
  noColon : ∀ part ∈ c.partTexts, ':' ∉ part.toList
  noSpace : ∀ part ∈ c.partTexts, ' ' ∉ part.toList
  first : ∀ x, c.group.toList.head? = some x → Text.isBlank x = false
  last : ∀ x, c.version.toList.getLast? = some x → Text.isBlank x = false

def writtenFields (c : Coordinate) : List String := c.unversionedFields ++ [c.version]

theorem versioned_eq_ok (h : c.version ≠ "") :
    c.versioned = .ok (Text.join ':' c.writtenFields) := if_neg h

theorem ne_empty_of_visible {t : String} (h : Text.isBlankText t = false) : t ≠ "" := by
  rintro rfl
  cases h

theorem packagingOf_packaging (c : Coordinate) : packagingOf c.packaging = c.packaging :=
  if_neg c.packaging_ne_empty

theorem spells_writtenFields (c : Coordinate) : Spells c.writtenFields c.parts := by
  have hparts : c.parts = ⟨some c.group, some c.artifact, some c.version, some c.classifier,
    some c.packaging⟩ := rfl
  rw [hparts, writtenFields, unversionedFields]
  split_ifs with hclassifier hpackaging
  · have h := Spells.classified c.group c.artifact c.packaging c.classifier c.version
    rwa [packagingOf_packaging] at h
  · rw [not_not.1 hclassifier]
    have h := Spells.packaged c.group c.artifact c.packaging c.version
    rwa [packagingOf_packaging] at h
  · rw [not_not.1 hclassifier, not_not.1 hpackaging]
    exact .plain c.group c.artifact c.version

theorem head_writtenFields (c : Coordinate) : ∃ rest, c.writtenFields = c.group :: rest := by
  simp only [writtenFields, unversionedFields]
  split_ifs <;> exact ⟨_, rfl⟩

theorem mem_writtenFields {f : String} (h : f ∈ c.writtenFields) :
    f ∈ c.partTexts ∧ (c.version ≠ "" → f ≠ "") := by
  have hgroup := ne_empty_of_visible c.group_visible
  have hartifact := ne_empty_of_visible c.artifact_visible
  have hpackaging := c.packaging_ne_empty
  simp only [writtenFields, unversionedFields] at h
  split_ifs at h with hclassifier hjar
  all_goals
    simp only [List.cons_append, List.nil_append, List.mem_cons, List.not_mem_nil, or_false] at h
    rcases h with rfl | rfl | rfl | rfl | rfl <;> simp_all [partTexts]

theorem tight_join (h : Legible c) (hversion : c.version ≠ "") :
    Text.Tight (Text.join ':' c.writtenFields) := by
  obtain ⟨rest, hfirst⟩ := head_writtenFields c
  have hends : ∀ {t : String}, t ≠ "" → t.toList ≠ [] := fun ht hnil =>
    ht (String.toList_eq_nil_iff.1 hnil)
  constructor
  · intro y hy
    obtain ⟨x, xs, hx⟩ := List.exists_cons_of_ne_nil (hends (ne_empty_of_visible c.group_visible))
    have hhead : c.group.toList.head? = some x := by rw [hx]; rfl
    rw [Text.join, String.toList_ofList, hfirst, List.map_cons, Text.head?_glue hhead] at hy
    exact Option.some.inj hy ▸ h.first x hhead
  · intro y hy
    have hlast := List.getLast?_eq_some_getLast (hends hversion)
    rw [Text.join, String.toList_ofList, writtenFields, List.map_append, List.map_singleton,
      Text.getLast?_glue hlast] at hy
    exact Option.some.inj hy ▸ h.last _ hlast

theorem fieldsOf_join (h : Legible c) (hversion : c.version ≠ "") :
    fieldsOf (Text.join ':' c.writtenFields) = c.writtenFields := by
  rw [fieldsOf, (tight_join h hversion).trim_eq]
  exact Text.split_join_of_free (by simp [writtenFields]) fun f hf =>
    h.noColon f (mem_writtenFields hf).1

theorem wellFormed_writtenFields (h : Legible c) (hversion : c.version ≠ "") :
    WellFormed c.writtenFields := by
  refine ⟨?_, fun f hf => h.noSpace f (mem_writtenFields hf).1, fun i hi => ?_⟩
  · simp only [writtenFields, unversionedFields]
    split_ifs <;> simp
  · exact absurd rfl ((mem_writtenFields (List.mem_of_getElem? hi)).2 hversion)

theorem parse_writtenFields (h : Legible c) (hversion : c.version ≠ "") :
    parse (Text.join ':' c.writtenFields) = .ok c := by
  rw [parse_eq_ok_iff, fieldsOf_join h hversion]
  exact ⟨wellFormed_writtenFields h hversion, spells_writtenFields c⟩

theorem packagingOf_cases (f : String) : packagingOf f = defaultPackaging ∨ packagingOf f = f := by
  unfold packagingOf
  split
  · exact .inl rfl
  · exact .inr rfl

theorem Spells.fields (h : Spells fs c.parts) :
    ∃ middle, fs = c.group :: c.artifact :: middle ++ [c.version] ∧
      (c.classifier = "" ∨ c.classifier ∈ middle) ∧
      (c.packaging = defaultPackaging ∨ c.packaging ∈ middle) := by
  generalize hparts : c.parts = p at h
  cases h <;> simp only [parts, Parts.mk.injEq, Option.some.injEq] at hparts
  case plain g a v =>
    obtain ⟨rfl, rfl, rfl, hclassifier, hpackaging⟩ := hparts
    exact ⟨[], rfl, .inl hclassifier, .inl hpackaging⟩
  case packaged g a f v =>
    obtain ⟨rfl, rfl, rfl, hclassifier, hpackaging⟩ := hparts
    rw [hpackaging]
    exact ⟨[f], rfl, .inl hclassifier, (packagingOf_cases f).imp_right fun heq => by simp [heq]⟩
  case classified g a f k v =>
    obtain ⟨rfl, rfl, rfl, rfl, hpackaging⟩ := hparts
    rw [hpackaging]
    exact ⟨[f, c.classifier], rfl, .inr (by simp),
      (packagingOf_cases f).imp_right fun heq => by simp [heq]⟩

theorem Spells.not_mem_partTexts {x : Char} (h : Spells fs c.parts)
    (hjar : x ∉ defaultPackaging.toList) (hfs : ∀ f ∈ fs, x ∉ f.toList) :
    ∀ part ∈ c.partTexts, x ∉ part.toList := by
  obtain ⟨middle, rfl, hclassifier, hpackaging⟩ := h.fields
  have hmiddle : ∀ f ∈ middle, x ∉ f.toList := fun f hf => hfs f (by simp [hf])
  simp only [partTexts, List.forall_mem_cons, List.not_mem_nil, false_imp_iff, implies_true,
    and_true]
  refine ⟨hfs _ (by simp), hfs _ (by simp), hfs _ (by simp), ?_, ?_⟩
  · rcases hclassifier with hempty | hmem
    · simp [hempty]
    · exact hmiddle _ hmem
  · rcases hpackaging with hdefault | hmem
    · rwa [hdefault]
    · exact hmiddle _ hmem

theorem legible_of_parse (h : parse s = .ok c) : Legible c ∧ c.version ≠ "" := by
  obtain ⟨hwell, hspells⟩ := parse_eq_ok_iff.1 h
  obtain ⟨middle, hfields, -⟩ := hspells.fields
  refine ⟨⟨hspells.not_mem_partTexts (by decide) fun f hf => ?_,
    hspells.not_mem_partTexts (by decide) hwell.noSpace, fun x => first_field hfields,
    fun x => last_field hfields⟩, ?_⟩
  · obtain ⟨p, hp, rfl⟩ := List.mem_map.1 hf
    rw [String.toList_ofList]
    exact Text.not_mem_of_mem_piecesAt hp
  · intro hempty
    -- The version is the last field, and only the third of more than three may be empty.
    have hlast : (fieldsOf s)[middle.length + 2]? = some "" := by
      rw [hfields, hempty, List.getElem?_append_right (by simp)]
      simp
    obtain ⟨htwo, hfour⟩ := hwell.filled _ hlast
    rw [hfields] at hfour
    simp only [List.length_append, List.length_cons, List.length_nil] at hfour
    omega

theorem parse_render (h : parse s = .ok c) : parse c.render = .ok c := by
  obtain ⟨hlegible, hversion⟩ := legible_of_parse h
  rw [render, if_neg hversion]
  exact parse_writtenFields hlegible hversion

theorem versioned_round_trip :
    (∀ c : Coordinate, c.version ≠ "" →
      ((∃ t, c.versioned = .ok t ∧ parse t = .ok c) ↔ Legible c)) ∧
      ∀ s c, parse s = .ok c → ∃ t, c.versioned = .ok t ∧ parse t = .ok c := by
  have hback : ∀ c, Legible c → c.version ≠ "" → ∃ t, c.versioned = .ok t ∧ parse t = .ok c :=
    fun c h hversion => ⟨_, versioned_eq_ok hversion, parse_writtenFields h hversion⟩
  refine ⟨fun c hversion => ⟨?_, fun h => hback c h hversion⟩, fun s c h => ?_⟩
  · rintro ⟨t, -, ht⟩
    exact (legible_of_parse ht).1
  · obtain ⟨hlegible, hversion⟩ := legible_of_parse h
    exact hback c hlegible hversion

def sourceArchive : Coordinate where
  group := "net.example"
  artifact := "ledger"
  version := "1.4"
  classifier := "src"
  packaging := "zip"
  group_visible := by decide
  artifact_visible := by decide
  version_noNul := by decide
  classifier_noNul := by decide
  packaging_ne_empty := by decide

theorem sourceArchive_round_trip :
    sourceArchive.version ≠ "" ∧
      (∃ t, sourceArchive.versioned = .ok t ∧ parse t = .ok sourceArchive) ∧
      parse "\tnet.example:ledger:zip:src:1.4 " = .ok sourceArchive := by
  have hversion : sourceArchive.version ≠ "" := by decide
  have hread : parse "\tnet.example:ledger:zip:src:1.4 " = .ok sourceArchive := by decide +kernel
  obtain ⟨hiff, hback⟩ := versioned_round_trip
  have hlegible : Legible sourceArchive := (hiff sourceArchive hversion).1 (hback _ _ hread)
  exact ⟨hversion, (hiff sourceArchive hversion).2 hlegible, hread⟩

end ArtifactCache.Coordinate
