import Mathlib.Data.List.Forall2
import ArtifactCache.Coordinate.Parse
import ArtifactCache.Proofs.Text.Joined
import ArtifactCache.Proofs.Text.Pattern
import ArtifactCache.Proofs.Text.Trimmed

namespace ArtifactCache.Coordinate

open Text.Pattern

variable {s : String} {fs : List String} {c : Coordinate} {p : Parts} {t : List Char}
  {k : List (Slot × List Char)} {slot : Slot} {q : Text.Pattern Slot}

def fieldsOf (s : String) : List String := Text.split ':' (Text.trim s)

structure WellFormed (fs : List String) : Prop where
  count : 3 ≤ fs.length ∧ fs.length ≤ 5
  noSpace : ∀ f ∈ fs, ' ' ∉ f.toList
  filled : ∀ i, fs[i]? = some "" → i = 2 ∧ 4 ≤ fs.length

structure Admissible (fs : List String) : Prop where
  artifact : ∀ f, fs[1]? = some f → Text.isBlankText f = false
  version : ∀ f, fs.getLast? = some f → nul ∉ f.toList
  classifier : fs.length = 5 → ∀ f, fs[3]? = some f → nul ∉ f.toList

inductive Spells : List String → Parts → Prop
  | plain (g a v : String) :
      Spells [g, a, v] ⟨some g, some a, some v, some "", some defaultPackaging⟩
  | packaged (g a p v : String) :
      Spells [g, a, p, v] ⟨some g, some a, some v, some "", some (packagingOf p)⟩
  | classified (g a p c v : String) :
      Spells [g, a, p, c, v] ⟨some g, some a, some v, some c, some (packagingOf p)⟩

def forms : List (List Slot) :=
  [[.group, .artifact, .version], [.group, .artifact, .packaging, .version],
    [.group, .artifact, .packaging, .classifier, .version]]

structure Fits (slot : Slot) (f : List Char) : Prop where
  noColon : ':' ∉ f
  noSpace : ' ' ∉ f
  filled : slot ≠ .packaging → f ≠ []

theorem reads_colon_append_iff :
    (colon ++ q).Reads t k ↔ ∃ u, q.Reads u k ∧ t = ':' :: u := by
  rw [reads_append_iff]
  constructor
  · rintro ⟨_, _, u, l, hcolon, hq, rfl, rfl⟩
    obtain ⟨rfl, rfl⟩ := reads_char_iff.1 hcolon
    exact ⟨u, hq, rfl⟩
  · rintro ⟨u, hq, rfl⟩
    exact ⟨[':'], [], u, k, reads_char_iff.2 ⟨rfl, rfl⟩, hq, rfl, rfl⟩

theorem reads_field_iff : (field slot).Reads t k ↔ Fits slot t ∧ k = [(slot, t)] := by
  rw [field, reads_keep_iff]
  constructor
  · rintro ⟨l, hrun, rfl⟩
    obtain ⟨hlength, hfree, rfl⟩ := reads_run_iff.1 hrun
    refine ⟨⟨fun h => hfree _ h (by simp), fun h => hfree _ h (by simp), ?_⟩, rfl⟩
    rintro hslot rfl
    simp [hslot] at hlength
  · rintro ⟨hfits, rfl⟩
    refine ⟨[], reads_run_iff.2 ⟨?_, fun x hx hmem => ?_, rfl⟩, rfl⟩
    · split
      · exact Nat.zero_le _
      · next hslot => exact List.length_pos_iff.2 (hfits.filled hslot)
    · rcases List.mem_pair.1 hmem with rfl | rfl
      · exact hfits.noColon hx
      · exact hfits.noSpace hx

theorem reads_field_append_iff :
    (field slot ++ q).Reads t k ↔
      ∃ f u l, Fits slot f ∧ q.Reads u l ∧ t = f ++ u ∧ k = (slot, f) :: l := by
  rw [reads_append_iff]
  constructor
  · rintro ⟨f, _, u, l, hf, hq, rfl, rfl⟩
    obtain ⟨hfits, rfl⟩ := reads_field_iff.1 hf
    exact ⟨f, u, l, hfits, hq, rfl, rfl⟩
  · rintro ⟨f, u, l, hfits, hq, rfl, rfl⟩
    exact ⟨f, _, u, l, reads_field_iff.2 ⟨hfits, rfl⟩, hq, rfl, rfl⟩

theorem reads_optionalFields_iff :
    optionalFields.Reads t k ↔
      (t = [] ∧ k = []) ∨
      (∃ p, Fits .packaging p ∧ t = ':' :: p ∧ k = [(.packaging, p)]) ∨
      ∃ p c, Fits .packaging p ∧ Fits .classifier c ∧ t = ':' :: (p ++ ':' :: c) ∧
        k = [(.packaging, p), (.classifier, c)] := by
  simp only [optionalFields, reads_append_assoc, reads_optional_iff, reads_colon_append_iff,
    reads_field_append_iff, reads_field_iff]
  constructor
  · rintro (hnone | ⟨_, ⟨p, _, _, hp, ⟨rfl, rfl⟩ | ⟨c, ⟨hc, rfl⟩, rfl⟩, rfl, rfl⟩, rfl⟩)
    · exact .inl hnone
    · exact .inr (.inl ⟨p, hp, by simp, rfl⟩)
    · exact .inr (.inr ⟨p, c, hp, hc, rfl, rfl⟩)
  · rintro (hnone | ⟨p, hp, rfl, rfl⟩ | ⟨p, c, hp, hc, rfl, rfl⟩)
    · exact .inl hnone
    · exact .inr ⟨p, ⟨p, [], [], hp, .inl ⟨rfl, rfl⟩, by simp, rfl⟩, rfl⟩
    · exact .inr ⟨_, ⟨p, _, _, hp, .inr ⟨c, ⟨hc, rfl⟩, rfl⟩, rfl, rfl⟩, rfl⟩

theorem reads_writtenForm_iff :
    writtenForm.Reads t k ↔
      ∃ g a v o l, Fits .group g ∧ Fits .artifact a ∧ Fits .version v ∧ optionalFields.Reads o l ∧
        t = g ++ ':' :: (a ++ (o ++ ':' :: v)) ∧
        k = (.group, g) :: (.artifact, a) :: (l ++ [(.version, v)]) := by
  simp only [writtenForm, reads_append_assoc, reads_field_append_iff, reads_colon_append_iff]
  constructor
  · rintro ⟨g, _, _, hg, ⟨_, ⟨a, _, _, ha, hrest, rfl, rfl⟩, rfl⟩, rfl, rfl⟩
    obtain ⟨o, l, _, _, ho, hlast, rfl, rfl⟩ := reads_append_iff.1 hrest
    obtain ⟨v, hversion, rfl⟩ := reads_colon_append_iff.1 hlast
    obtain ⟨hv, rfl⟩ := reads_field_iff.1 hversion
    exact ⟨g, a, v, o, l, hg, ha, hv, ho, rfl, rfl⟩
  · rintro ⟨g, a, v, o, l, hg, ha, hv, ho, rfl, rfl⟩
    have hlast : (colon ++ field .version).Reads (':' :: v) [(.version, v)] :=
      reads_colon_append_iff.2 ⟨v, reads_field_iff.2 ⟨hv, rfl⟩, rfl⟩
    exact ⟨g, _, _, hg, ⟨_, ⟨a, _, _, ha, .seq ho hlast, rfl, rfl⟩, rfl⟩, rfl, rfl⟩

theorem fitting_cases {form : List Slot} {ps : List (List Char)} (hform : form ∈ forms)
    (hps : List.Forall₂ Fits form ps) :
    (∃ g a v, Fits .group g ∧ Fits .artifact a ∧ Fits .version v ∧
      form = [.group, .artifact, .version] ∧ ps = [g, a, v]) ∨
    (∃ g a p v, Fits .group g ∧ Fits .artifact a ∧ Fits .packaging p ∧ Fits .version v ∧
      form = [.group, .artifact, .packaging, .version] ∧ ps = [g, a, p, v]) ∨
    ∃ g a p c v, Fits .group g ∧ Fits .artifact a ∧ Fits .packaging p ∧ Fits .classifier c ∧
      Fits .version v ∧ form = [.group, .artifact, .packaging, .classifier, .version] ∧
      ps = [g, a, p, c, v] := by
  simp only [forms, List.mem_cons, List.not_mem_nil, or_false] at hform
  rcases hform with rfl | rfl | rfl
  all_goals simp only [List.forall₂_cons_left_iff, List.forall₂_nil_left_iff] at hps
  · obtain ⟨g, _, hg, ⟨a, _, ha, ⟨v, _, hv, rfl, rfl⟩, rfl⟩, rfl⟩ := hps
    exact .inl ⟨g, a, v, hg, ha, hv, rfl, rfl⟩
  · obtain ⟨g, _, hg, ⟨a, _, ha, ⟨p, _, hp, ⟨v, _, hv, rfl, rfl⟩, rfl⟩, rfl⟩, rfl⟩ := hps
    exact .inr (.inl ⟨g, a, p, v, hg, ha, hp, hv, rfl, rfl⟩)
  · obtain ⟨g, _, hg, ⟨a, _, ha, ⟨p, _, hp, ⟨c, _, hc, ⟨v, _, hv, rfl, rfl⟩, rfl⟩, rfl⟩, rfl⟩,
      rfl⟩ := hps
    exact .inr (.inr ⟨g, a, p, c, v, hg, ha, hp, hc, hv, rfl, rfl⟩)

theorem reads_iff_form :
    writtenForm.Reads t k ↔
      ∃ form ∈ forms, ∃ ps, List.Forall₂ Fits form ps ∧ t = Text.glue ':' ps ∧
        k = form.zip ps := by
  rw [reads_writtenForm_iff]
  constructor
  · rintro ⟨g, a, v, o, l, hg, ha, hv, ho, rfl, rfl⟩
    rcases reads_optionalFields_iff.1 ho with
      ⟨rfl, rfl⟩ | ⟨p, hp, rfl, rfl⟩ | ⟨p, c, hp, hc, rfl, rfl⟩
    · exact ⟨[.group, .artifact, .version], by simp [forms], [g, a, v], by simp [hg, ha, hv],
        rfl, rfl⟩
    · exact ⟨[.group, .artifact, .packaging, .version], by simp [forms], [g, a, p, v],
        by simp [hg, ha, hp, hv], rfl, rfl⟩
    · exact ⟨[.group, .artifact, .packaging, .classifier, .version], by simp [forms],
        [g, a, p, c, v], by simp [hg, ha, hp, hc, hv], by simp [Text.glue], rfl⟩
  · rintro ⟨form, hform, ps, hps, rfl, rfl⟩
    rcases fitting_cases hform hps with ⟨g, a, v, hg, ha, hv, rfl, rfl⟩ |
      ⟨g, a, p, v, hg, ha, hp, hv, rfl, rfl⟩ | ⟨g, a, p, c, v, hg, ha, hp, hc, hv, rfl, rfl⟩
    · have ho := reads_optionalFields_iff.2 (.inl ⟨rfl, rfl⟩)
      exact ⟨g, a, v, _, _, hg, ha, hv, ho, rfl, rfl⟩
    · have ho := reads_optionalFields_iff.2 (.inr (.inl ⟨p, hp, rfl, rfl⟩))
      exact ⟨g, a, v, _, _, hg, ha, hv, ho, rfl, rfl⟩
    · have ho := reads_optionalFields_iff.2 (.inr (.inr ⟨p, c, hp, hc, rfl, rfl⟩))
      exact ⟨g, a, v, _, _, hg, ha, hv, ho, by simp [Text.glue], rfl⟩

theorem noColon_of_fits {form : List Slot} {ps : List (List Char)}
    (h : List.Forall₂ Fits form ps) : ∀ p ∈ ps, ':' ∉ p := by
  induction h with
  | nil => simp
  | cons hfits _ ih => exact List.forall_mem_cons.2 ⟨hfits.noColon, ih⟩

theorem reads_iff_pieces :
    writtenForm.Reads t k ↔
      ∃ form ∈ forms, List.Forall₂ Fits form (Text.piecesAt ':' t) ∧
        k = form.zip (Text.piecesAt ':' t) := by
  rw [reads_iff_form]
  constructor
  · rintro ⟨form, hform, ps, hps, rfl, rfl⟩
    have hne : ps ≠ [] := by
      rintro rfl
      cases hps
      revert hform
      decide
    have hpieces : Text.piecesAt ':' (Text.glue ':' ps) = ps :=
      Text.piecesAt_glue_of_free hne (noColon_of_fits hps)
    exact ⟨form, hform, hpieces.symm ▸ hps, by rw [hpieces]⟩
  · rintro ⟨form, hform, hps, rfl⟩
    exact ⟨form, hform, _, hps, (Text.glue_piecesAt ':' t).symm, rfl⟩

theorem forms_inj {form form' : List Slot} (h : form ∈ forms) (h' : form' ∈ forms)
    (hlength : form.length = form'.length) : form = form' := by
  have hinj : ∀ x ∈ forms, ∀ y ∈ forms, x.length = y.length → x = y := by decide
  exact hinj form h form' h' hlength

theorem match?_writtenForm {form : List Slot} (hform : form ∈ forms)
    (hfits : List.Forall₂ Fits form (Text.piecesAt ':' t)) :
    writtenForm.match? t = some (form.zip (Text.piecesAt ':' t)) := by
  refine match?_eq_some (reads_iff_pieces.2 ⟨form, hform, hfits, rfl⟩) fun l hl => ?_
  obtain ⟨form', hform', hfits', rfl⟩ := reads_iff_pieces.1 hl
  rw [forms_inj hform' hform (hfits'.length_eq.trans hfits.length_eq.symm)]

theorem parts_injective : Function.Injective parts := by
  intro a b h
  have hab := congrArg ofParts h
  rw [ofParts_parts, ofParts_parts] at hab
  exact Except.ok.inj hab

theorem ofParts_eq_ok_iff : ofParts p = .ok c ↔ c.parts = p.normalize := by
  obtain ⟨group, artifact, version, classifier, packaging⟩ := p
  constructor
  · intro h
    have hgroup : group ≠ none := by
      rintro rfl
      cases h
    have hartifact : artifact ≠ none := by
      rintro rfl
      simp only [ofParts] at h
      split at h <;> cases h
    obtain ⟨g, rfl⟩ := Option.ne_none_iff_exists'.1 hgroup
    obtain ⟨a, rfl⟩ := Option.ne_none_iff_exists'.1 hartifact
    simp only [ofParts] at h
    split_ifs at h with hg ha hv hc hp
    all_goals
      obtain rfl := Except.ok.inj h
      simp [parts, Parts.normalize, hp]
  · intro h
    simp only [parts, Parts.normalize, Parts.mk.injEq, Option.some.injEq] at h
    obtain ⟨rfl, rfl, hv, hc, hp⟩ := h
    have hversion := c.version_noNul
    have hclassifier := c.classifier_noNul
    rw [hv] at hversion
    rw [hc] at hclassifier
    simp only [ofParts, Option.getD_some, c.group_visible, c.artifact_visible, hversion,
      hclassifier, Bool.false_eq_true, dite_false]
    refine congrArg Except.ok (parts_injective ?_)
    simp [parts, hv, hc, hp]

theorem exists_ofParts_eq_ok_iff :
    (∃ c, ofParts p = .ok c) ↔
      Text.isBlankText (p.group.getD "") = false ∧ Text.isBlankText (p.artifact.getD "") = false ∧
        nul ∉ (p.version.getD "").toList ∧ nul ∉ (p.classifier.getD "").toList := by
  unfold ofParts
  split_ifs <;> simp_all

theorem ofParts_ne_malformed : ofParts p ≠ .error (.malformed s) := by
  unfold ofParts
  split_ifs <;> simp

theorem packaging_slot :
    ∀ form ∈ forms, 3 ≤ form.length ∧ form.length ≤ 5 ∧
      ∀ i : Fin form.length, form.get i = .packaging ↔ i.val = 2 ∧ 4 ≤ form.length := by
  decide

theorem exists_form {n : Nat} (hleast : 3 ≤ n) (hmost : n ≤ 5) :
    ∃ form ∈ forms, form.length = n := by
  obtain rfl | rfl | rfl : n = 3 ∨ n = 4 ∨ n = 5 := by omega
  all_goals decide

theorem wellFormed_iff {ps : List (List Char)} (hcolon : ∀ p ∈ ps, ':' ∉ p) :
    WellFormed (ps.map String.ofList) ↔ ∃ form ∈ forms, List.Forall₂ Fits form ps := by
  constructor
  · rintro ⟨⟨hleast, hmost⟩, hspace, hfilled⟩
    rw [List.length_map] at hleast hmost hfilled
    obtain ⟨form, hform, hlength⟩ := exists_form hleast hmost
    refine ⟨form, hform, List.forall₂_iff_get.2 ⟨hlength, fun i hi hi' => ?_⟩⟩
    have hmem : ps.get ⟨i, hi'⟩ ∈ ps := List.get_mem ps _
    refine ⟨hcolon _ hmem, ?_, fun hslot hnil => ?_⟩
    · simpa using hspace _ (List.mem_map_of_mem hmem)
    · have hempty : (ps.map String.ofList)[i]? = some "" := by
        rw [List.getElem?_map, List.getElem?_eq_getElem hi', Option.map_some]
        exact congrArg (fun p => some (String.ofList p)) hnil
      obtain ⟨hi2, hfour⟩ := hfilled i hempty
      exact hslot (((packaging_slot form hform).2.2 ⟨i, hi⟩).2 ⟨hi2, hlength ▸ hfour⟩)
  · rintro ⟨form, hform, hfits⟩
    obtain ⟨hleast, hmost, hpackaging⟩ := packaging_slot form hform
    obtain ⟨hlength, hget⟩ := List.forall₂_iff_get.1 hfits
    refine ⟨by simpa [← hlength] using ⟨hleast, hmost⟩, fun f hf => ?_, fun i hi => ?_⟩
    · obtain ⟨p, hp, rfl⟩ := List.mem_map.1 hf
      obtain ⟨i, hi⟩ := List.get_of_mem hp
      rw [String.toList_ofList, ← hi]
      exact (hget i (hlength.symm ▸ i.2) i.2).noSpace
    · rw [List.getElem?_map, Option.map_eq_some_iff] at hi
      obtain ⟨p, hp, hempty⟩ := hi
      obtain ⟨hi', rfl⟩ := List.getElem?_eq_some_iff.1 hp
      have hslot : form.get ⟨i, hlength.symm ▸ hi'⟩ = .packaging := by
        by_contra hne
        exact (hget i _ hi').filled hne (by simpa using congrArg String.toList hempty)
      simpa [← hlength] using (hpackaging _).1 hslot

theorem fieldsOf_eq (s : String) :
    fieldsOf s = (Text.piecesAt ':' (Text.trim s).toList).map String.ofList := rfl

theorem parse_of_wellFormed (h : WellFormed (fieldsOf s)) :
    ∃ p, Spells (fieldsOf s) p ∧ parse s = ofParts p := by
  rw [fieldsOf_eq, wellFormed_iff fun p => Text.not_mem_of_mem_piecesAt] at h
  obtain ⟨form, hform, hfits⟩ := h
  have hparse : parse s = ofParts (partsOf (form.zip (Text.piecesAt ':' (Text.trim s).toList))) := by
    rw [parse, match?_writtenForm hform hfits]
  rw [fieldsOf_eq, hparse]
  generalize Text.piecesAt ':' (Text.trim s).toList = ps at hfits
  rcases fitting_cases hform hfits with ⟨g, a, v, -, -, -, rfl, rfl⟩ |
    ⟨g, a, p, v, -, -, -, -, rfl, rfl⟩ | ⟨g, a, p, c, v, -, -, -, -, -, rfl, rfl⟩
  · exact ⟨_, .plain .., rfl⟩
  · exact ⟨_, .packaged .., rfl⟩
  · exact ⟨_, .classified .., rfl⟩

theorem parse_of_not_wellFormed (h : ¬ WellFormed (fieldsOf s)) :
    parse s = .error (.malformed s) := by
  rw [fieldsOf_eq, wellFormed_iff fun p => Text.not_mem_of_mem_piecesAt] at h
  have hnone : writtenForm.match? (Text.trim s).toList = none := by
    refine match?_eq_none_iff.2 fun k hk => ?_
    obtain ⟨form, hform, hfits, -⟩ := reads_iff_pieces.1 hk
    exact h ⟨form, hform, hfits⟩
  rw [parse, hnone]

theorem join_fieldsOf (s : String) :
    Text.glue ':' ((fieldsOf s).map String.toList) = (Text.trim s).toList := by
  have hjoin : Text.join ':' (fieldsOf s) = Text.trim s := Text.join_split ':' (Text.trim s)
  rw [← hjoin, Text.join, String.toList_ofList]

theorem first_field {g : String} (h : fieldsOf s = g :: fs) {x : Char}
    (hx : g.toList.head? = some x) : Text.isBlank x = false := by
  refine (Text.tight_trim s).first x ?_
  rw [← join_fieldsOf, h]
  exact Text.head?_glue hx

theorem last_field {v : String} (h : fieldsOf s = fs ++ [v]) {x : Char}
    (hx : v.toList.getLast? = some x) : Text.isBlank x = false := by
  refine (Text.tight_trim s).last x ?_
  rw [← join_fieldsOf, h, List.map_append]
  exact Text.getLast?_glue hx

theorem group_visible_of_wellFormed (h : WellFormed (fieldsOf s)) (hp : Spells (fieldsOf s) p) :
    Text.isBlankText (p.group.getD "") = false := by
  obtain ⟨g, rest, hfields, hgroup⟩ : ∃ g rest, fieldsOf s = g :: rest ∧ p.group = some g := by
    generalize fieldsOf s = fs at hp
    cases hp <;> exact ⟨_, _, rfl, rfl⟩
  have hne : g.toList ≠ [] := by
    intro hnil
    obtain ⟨himpossible, -⟩ := h.filled 0 (by rw [hfields, String.toList_eq_nil_iff.1 hnil]; rfl)
    cases himpossible
  obtain ⟨x, xs, hx⟩ := List.exists_cons_of_ne_nil hne
  have hblank := first_field hfields (x := x) (by rw [hx]; rfl)
  simp [hgroup, Text.isBlankText, hx, hblank]

theorem admissible_iff (hp : Spells fs p) :
    Admissible fs ↔ Text.isBlankText (p.artifact.getD "") = false ∧
      nul ∉ (p.version.getD "").toList ∧ nul ∉ (p.classifier.getD "").toList := by
  constructor
  · rintro ⟨hartifact, hversion, hclassifier⟩
    cases hp with
    | plain g a v => exact ⟨hartifact a rfl, hversion v rfl, by simp⟩
    | packaged g a p v => exact ⟨hartifact a rfl, hversion v rfl, by simp⟩
    | classified g a p c v => exact ⟨hartifact a rfl, hversion v rfl, hclassifier rfl c rfl⟩
  · rintro ⟨hartifact, hversion, hclassifier⟩
    cases hp with
    | plain g a v => exact ⟨by simpa using hartifact, by simpa using hversion, by simp⟩
    | packaged g a p v => exact ⟨by simpa using hartifact, by simpa using hversion, by simp⟩
    | classified g a p c v =>
        exact ⟨by simpa using hartifact, by simpa using hversion, by simpa using hclassifier⟩

theorem Spells.unique {p p' : Parts} (h : Spells fs p) (h' : Spells fs p') : p = p' := by
  cases h <;> cases h' <;> rfl

theorem Spells.normalize_eq (h : Spells fs p) : p.normalize = p := by
  have hpackaging : ∀ field, packagingOf field ≠ "" := by
    intro field
    unfold packagingOf
    split
    · decide
    · assumption
  cases h <;> simp [Parts.normalize, hpackaging, defaultPackaging]

theorem parse_eq_ok_iff :
    parse s = .ok c ↔ WellFormed (fieldsOf s) ∧ Spells (fieldsOf s) c.parts := by
  constructor
  · intro h
    by_cases hwell : WellFormed (fieldsOf s)
    · obtain ⟨p, hp, hparse⟩ := parse_of_wellFormed hwell
      rw [hparse, ofParts_eq_ok_iff, hp.normalize_eq] at h
      exact ⟨hwell, h ▸ hp⟩
    · rw [parse_of_not_wellFormed hwell] at h
      cases h
  · rintro ⟨hwell, hc⟩
    obtain ⟨p, hp, hparse⟩ := parse_of_wellFormed hwell
    rw [hparse, ofParts_eq_ok_iff, hp.normalize_eq, hc.unique hp]

theorem parse_accepts_grammar (s : String) :
    (∀ c, parse s = .ok c ↔ WellFormed (fieldsOf s) ∧ Spells (fieldsOf s) c.parts) ∧
      ((∃ c, parse s = .ok c) ↔ WellFormed (fieldsOf s) ∧ Admissible (fieldsOf s)) ∧
      (parse s = .error (.malformed s) ↔ ¬ WellFormed (fieldsOf s)) ∧
      ((∃ e, parse s = .error e ∧ ∀ t, e ≠ .malformed t) ↔
        WellFormed (fieldsOf s) ∧ ¬ Admissible (fieldsOf s)) := by
  refine ⟨fun c => parse_eq_ok_iff, ?_⟩
  by_cases hwell : WellFormed (fieldsOf s)
  · obtain ⟨p, hp, hparse⟩ := parse_of_wellFormed hwell
    have hok : (∃ c, parse s = .ok c) ↔ Admissible (fieldsOf s) := by
      rw [hparse, exists_ofParts_eq_ok_iff, admissible_iff hp,
        and_iff_right (group_visible_of_wellFormed hwell hp)]
    have hmalformed : ∀ t, parse s ≠ .error (.malformed t) := by
      intro t
      rw [hparse]
      exact ofParts_ne_malformed
    refine ⟨by simpa [hwell] using hok, by simp [hwell, hmalformed], ?_⟩
    rw [and_iff_right hwell, ← hok]
    cases hresult : parse s with
    | ok c => simp
    | error e =>
        have hne : ∀ t, e ≠ .malformed t := fun t ht => hmalformed t (by rw [hresult, ht])
        simp [hne]
  · simp [parse_of_not_wellFormed hwell, hwell]

end ArtifactCache.Coordinate
