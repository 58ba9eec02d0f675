import Mathlib.Data.List.Basic
import ArtifactCache.CacheStore.Basic
import ArtifactCache.Proofs.Text.Joined

namespace ArtifactCache.CacheStore

variable {s : CacheStore} {c d : Coordinate} {h k : String}

def nameParts (c : Coordinate) (hash : String) : List String := c.nameComponents ++ [hash]

def cuts (c : Coordinate) (hash : String) : List String :=
  (c.nameComponents.map Coordinate.withoutColons ++ [hash]).flatMap (Text.split '-')

def dashes (s : String) : Nat := s.toList.count '-'

def Without (x : Char) (c : Coordinate) (hash : String) : Prop :=
  ∀ part ∈ nameParts c hash, x ∉ part.toList

instance (x : Char) (c : Coordinate) (hash : String) : Decidable (Without x c hash) :=
  inferInstanceAs (Decidable (∀ part ∈ nameParts c hash, _))

structure Aligned (c : Coordinate) (h : String) (d : Coordinate) (k : String) : Prop where
  classifier : c.classifier = "" ↔ d.classifier = ""
  version : c.version = "" ↔ d.version = ""
  dashes : ∃ i, ((nameParts c h).map dashes).eraseIdx i = ((nameParts d k).map dashes).eraseIdx i

theorem withoutColons_eq {s : String} (h : ':' ∉ s.toList) : Coordinate.withoutColons s = s := by
  have hsame : ∀ cs : List Char, ':' ∉ cs →
      (cs.flatMap fun c => if c = ':' then ['-', '-'] else [c]) = cs := by
    intro cs hcs
    induction cs with
    | nil => rfl
    | cons c cs ih =>
        rw [List.mem_cons, not_or] at hcs
        rw [List.flatMap_cons, if_neg (Ne.symm hcs.1), ih hcs.2]
        rfl
  rw [Coordinate.withoutColons, hsame _ h, String.ofList_toList]

theorem nameComponents_ne_nil (c : Coordinate) : c.nameComponents ≠ [] := by
  simp [Coordinate.nameComponents]

theorem entryName_eq_join (c : Coordinate) (h : String) :
    entryName c h = Text.join '-' (c.nameComponents.map Coordinate.withoutColons ++ [h]) := by
  rw [← String.toList_inj, entryName, Coordinate.directoryName, Text.join, Text.join,
    String.toList_append, String.toList_append, String.toList_ofList, String.toList_ofList,
    List.map_append, List.map_singleton, Text.glue_concat (by simp [nameComponents_ne_nil]),
    List.append_assoc]
  simp

theorem entryName_eq_iff : entryName c h = entryName d k ↔ cuts c h = cuts d k := by
  have hsplit : ∀ (c : Coordinate) (h : String), Text.split '-' (entryName c h) = cuts c h :=
    fun c h => by rw [entryName_eq_join, Text.split_join (by simp), cuts]
  rw [← hsplit, ← hsplit]
  constructor
  · intro heq
    rw [heq]
  · intro heq
    rw [← Text.join_split '-' (entryName c h), heq, Text.join_split]

theorem toList_entryName (hc : Without ':' c h) :
    (entryName c h).toList = Text.glue '-' ((nameParts c h).map String.toList) := by
  have hcomponents : c.nameComponents.map Coordinate.withoutColons = c.nameComponents := by
    conv_rhs => rw [← List.map_id c.nameComponents]
    exact List.map_congr_left fun part hpart =>
      withoutColons_eq (hc part (List.mem_append_left _ hpart))
  rw [entryName_eq_join, hcomponents, Text.join, String.toList_ofList, nameParts]

theorem dash_mem_entryName (c : Coordinate) (h : String) : '-' ∈ (entryName c h).toList := by
  have hdash : '-' ∈ "-".toList := by decide
  simp only [entryName, String.toList_append]
  exact List.mem_append_left _ (List.mem_append_right _ hdash)

theorem isStep_of_dash {t : String} (h : '-' ∈ t.toList) : isStep t = false := by
  rw [← Bool.not_eq_true]
  simp only [isStep, Bool.or_eq_true, beq_iff_eq]
  rintro ((rfl | rfl) | rfl) <;> revert h <;> decide

theorem entryName_isStep (c : Coordinate) (hash : String) :
    isStep (entryName c hash) = false :=
  isStep_of_dash (dash_mem_entryName c hash)

theorem isPart_of_dash {t : String} (h : '-' ∈ t.toList) : Path.isPart t = true := by
  have hstep := isStep_of_dash h
  simp only [isStep, Bool.or_eq_false_iff, beq_eq_false_iff_ne] at hstep
  simp [Path.isPart, hstep]

theorem mem_of_mem_withoutColons {x : Char} {s : String}
    (hx : x ∈ (Coordinate.withoutColons s).toList) : x = '-' ∨ x ∈ s.toList := by
  rw [Coordinate.withoutColons, String.toList_ofList, List.mem_flatMap] at hx
  obtain ⟨y, hy, hxy⟩ := hx
  split_ifs at hxy
  · exact .inl (by simpa using hxy)
  · exact .inr (List.mem_singleton.1 hxy ▸ hy)

theorem mem_of_mem_entryName {x : Char} (hx : x ∈ (entryName c h).toList) :
    x = '-' ∨ ∃ part ∈ nameParts c h, x ∈ part.toList := by
  simp only [entryName, String.toList_append, List.mem_append, Coordinate.directoryName, Text.join,
    String.toList_ofList] at hx
  rcases hx with (hx | hx) | hx
  · rcases Text.mem_glue hx with hsep | ⟨p, hp, hxp⟩
    · exact .inl hsep
    · obtain ⟨_, hq, rfl⟩ := List.mem_map.1 hp
      obtain ⟨part, hpart, rfl⟩ := List.mem_map.1 hq
      refine (mem_of_mem_withoutColons hxp).imp_right fun hmem => ⟨part, ?_, hmem⟩
      exact List.mem_append_left _ hpart
  · exact .inl (by simpa using hx)
  · exact .inr ⟨h, by simp [nameParts], hx⟩

theorem slash_not_mem_entryName (hslash : Without '/' c h) : '/' ∉ (entryName c h).toList := by
  intro hmem
  rcases mem_of_mem_entryName hmem with hdash | ⟨part, hpart, hmem⟩
  · cases hdash
  · exact hslash part hpart hmem

theorem ofText_entryName (hslash : Without '/' c h) :
    Path.ofText (entryName c h) = ⟨.relative, [entryName c h]⟩ := by
  have hnone := slash_not_mem_entryName hslash
  have hpart := isPart_of_dash (dash_mem_entryName c h)
  rw [Path.ofText, Path.ofPathname, Pathname.ofText, Text.split, Text.piecesAt_of_not_mem hnone]
  simp [Path.anchorOf, hpart]

theorem entryPath_eq (s : CacheStore) (hh : h ≠ "")
    (hslash : Without '/' c h) :
    s.entryPath c h = .ok (s.root.child (entryName c h)) := by
  rw [entryPath, if_neg hh, ofText_entryName hslash]
  rfl

theorem length_nameParts (ha : Aligned c h d k) :
    (nameParts c h).length = (nameParts d k).length := by
  by_cases hclassifier : d.classifier = "" <;> by_cases hversion : d.version = "" <;>
    simp [nameParts, Coordinate.nameComponents, ha.classifier, ha.version, hclassifier, hversion]

theorem eq_of_nameParts (ha : Aligned c h d k) (hparts : nameParts c h = nameParts d k) :
    c.identity = d.identity ∧ c.packaging = d.packaging ∧ h = k := by
  have hclassifier := ha.classifier
  have hversion := ha.version
  by_cases hc : d.classifier = "" <;> by_cases hv : d.version = "" <;>
    simp_all [nameParts, Coordinate.nameComponents, Coordinate.identity]

theorem nameParts_of_eq (hid : c.identity = d.identity) (hpackaging : c.packaging = d.packaging) :
    nameParts c h = nameParts d h := by
  simp only [Coordinate.identity, Prod.mk.injEq] at hid
  simp [nameParts, Coordinate.nameComponents, hid, hpackaging]

theorem entryName_inj (hc : Without ':' c h) (hd : Without ':' d k) (ha : Aligned c h d k)
    (heq : entryName c h = entryName d k) : nameParts c h = nameParts d k := by
  obtain ⟨i, hdashes⟩ := ha.dashes
  have hglue : Text.glue '-' ((nameParts c h).map String.toList) =
      Text.glue '-' ((nameParts d k).map String.toList) := by
    rw [← toList_entryName hc, ← toList_entryName hd, heq]
  have hlists := Text.glue_inj_of_counts_but i (by simp [nameParts])
    (by simpa using length_nameParts ha) (by rw [List.map_map, List.map_map]; exact hdashes) hglue
  exact List.map_injective_iff.2 (fun a b => String.toList_inj.1) hlists

theorem entryPath_eq_iff (s : CacheStore) (hh : h ≠ "") (hk : k ≠ "") (hc : Without '/' c h)
    (hd : Without '/' d k) :
    (s.entryPath c h = s.entryPath d k ↔ cuts c h = cuts d k) ∧
      (Without ':' c h → Without ':' d k → Aligned c h d k →
        (s.entryPath c h = s.entryPath d k ↔
          (c == d) = true ∧ c.packaging = d.packaging ∧ h = k)) := by
  have hname : s.entryPath c h = s.entryPath d k ↔ entryName c h = entryName d k := by
    rw [entryPath_eq s hh hc, entryPath_eq s hk hd]
    constructor
    · intro heq
      have hparts : s.root.parts ++ [entryName c h] = s.root.parts ++ [entryName d k] :=
        congrArg Path.parts (Except.ok.inj heq)
      simpa using hparts
    · intro heq
      rw [heq]
  refine ⟨hname.trans entryName_eq_iff, fun hc' hd' ha => ?_⟩
  rw [hname, Coordinate.beq_iff_identity_eq]
  constructor
  · intro heq
    exact eq_of_nameParts ha (entryName_inj hc' hd' ha heq)
  · rintro ⟨hid, hpackaging, rfl⟩
    rw [← String.toList_inj, toList_entryName hc', toList_entryName hd',
      nameParts_of_eq hid hpackaging]

def workStore : CacheStore := ⟨⟨.relative, ["cache"]⟩⟩

def release : Coordinate where
  group := "com.example"
  artifact := "js-lib"
  version := "1.0"
  classifier := ""
  packaging := "jar"
  group_visible := by decide
  artifact_visible := by decide
  version_noNul := by decide
  classifier_noNul := by decide
  packaging_ne_empty := by decide

def snapshot : Coordinate :=
  { release with version := "1.0-SNAPSHOT", version_noNul := by decide }

theorem release_apart_from_snapshot : "af03" ≠ "" ∧ Without '/' release "af03" ∧
    Without '/' snapshot "af03" ∧ Aligned release "af03" snapshot "af03" ∧
    workStore.entryPath release "af03" ≠ workStore.entryPath snapshot "af03" := by
  have hr : Without '/' release "af03" := by decide +kernel
  have hs : Without '/' snapshot "af03" := by decide +kernel
  have ha : Aligned release "af03" snapshot "af03" :=
    ⟨by decide +kernel, by decide +kernel, 3, by decide +kernel⟩
  refine ⟨by decide, hr, hs, ha, fun heq => ?_⟩
  obtain ⟨-, hsame⟩ := entryPath_eq_iff workStore (by decide) (by decide) hr hs
  obtain ⟨hid, -⟩ := (hsame (by decide +kernel) (by decide +kernel) ha).1 heq
  revert hid
  decide +kernel

def webRelease : Coordinate :=
  { release with packaging := "war", packaging_ne_empty := by decide }

def misreadRelease : Coordinate :=
  { release with
    group := "com.example-js"
    artifact := "lib"
    group_visible := by decide
    artifact_visible := by decide }

theorem entryPath_not_of_identity :
    ((release == webRelease) = true ∧
      workStore.entryPath release "af03" ≠ workStore.entryPath webRelease "af03") ∧
    ((release == misreadRelease) = false ∧
      workStore.entryPath release "af03" = workStore.entryPath misreadRelease "af03") := by
  have hpath : ∀ e : Coordinate, e = release ∨ e = webRelease ∨ e = misreadRelease →
      workStore.entryPath e "af03" = .ok (workStore.root.child (entryName e "af03")) := by
    rintro e (rfl | rfl | rfl) <;> exact entryPath_eq workStore (by decide) (by decide +kernel)
  rw [hpath release (by simp), hpath webRelease (by simp), hpath misreadRelease (by simp)]
  refine ⟨⟨by decide +kernel, fun heq => ?_⟩, by decide +kernel, ?_⟩
  · have hname := congrArg Path.parts (Except.ok.inj heq)
    revert hname
    decide +kernel
  · exact congrArg Except.ok (by decide +kernel)

end ArtifactCache.CacheStore
