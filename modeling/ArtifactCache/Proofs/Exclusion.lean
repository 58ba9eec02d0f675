import ArtifactCache.Exclusion
import ArtifactCache.Proofs.Text.Colons
import ArtifactCache.Proofs.Text.Joined
import ArtifactCache.Proofs.Text.Trimmed

namespace ArtifactCache.Exclusion

open Text (colons)

variable {text group artifact : String} {e : Exclusion} {i : Invalid}

structure IsPair (text : String) : Prop where
  colon : colons text = 1
  parts : ∃ group artifact, text = group ++ ":" ++ artifact ∧
    Text.isBlankText group = false ∧ Text.isBlankText artifact = false

structure ReadFrom (text : String) (e : Exclusion) : Prop where
  colon : colons (Text.trim text) = 1
  text : e.group ++ ":" ++ e.artifact = Text.trim text

inductive Refused (text : String) : Invalid → Prop where
  | malformed : colons (Text.trim text) ≠ 1 → Refused text (.malformed text)
  | blankPart {group artifact : String} : colons (Text.trim text) = 1 →
      Text.trim text = group ++ ":" ++ artifact →
      Text.isBlankText group = true ∨ Text.isBlankText artifact = true →
      Refused text (.blankPart (some group) (some artifact))

structure Legible (e : Exclusion) : Prop where
  group : ':' ∉ e.group.toList
  artifact : ':' ∉ e.artifact.toList
  first : ∀ c, e.group.toList.head? = some c → Text.isBlank c = false
  last : ∀ c, e.artifact.toList.getLast? = some c → Text.isBlank c = false

theorem join_pair (group artifact : String) :
    Text.join ':' [group, artifact] = group ++ ":" ++ artifact := by
  refine String.toList_inj.1 ?_
  simp [Text.join, Text.glue, String.toList_append]

theorem colons_pair (group artifact : String) :
    colons (group ++ ":" ++ artifact) = colons group + colons artifact + 1 := by
  have hcolon : colons ":" = 1 := rfl
  rw [Text.colons_append, Text.colons_append, hcolon]
  omega

theorem split_eq_pair_iff : Text.split ':' text = [group, artifact] ↔
    colons text = 1 ∧ text = group ++ ":" ++ artifact := by
  constructor
  · intro h
    have hmem {t : String} (ht : t ∈ Text.split ':' text) : colons t = 0 :=
      Text.colons_eq_zero_iff.2 (Text.not_mem_of_mem_split ht)
    have hgroup := hmem (t := group) (by simp [h])
    have hartifact := hmem (t := artifact) (by simp [h])
    have htext : text = group ++ ":" ++ artifact := by
      rw [← join_pair, ← h, Text.join_split]
    rw [htext, colons_pair]
    exact ⟨by omega, rfl⟩
  · rintro ⟨hcount, rfl⟩
    rw [colons_pair] at hcount
    rw [← join_pair, Text.split_join_of_free (by simp)]
    simp only [List.mem_cons, List.not_mem_nil, or_false, forall_eq_or_imp, forall_eq,
      ← Text.colons_eq_zero_iff]
    exact ⟨by omega, by omega⟩

theorem exists_pair_of_colon (h : colons text = 1) :
    ∃ group artifact, text = group ++ ":" ++ artifact := by
  have hmem : ':' ∈ text.toList := List.count_pos_iff.1 (by rw [← colons, h]; omega)
  obtain ⟨front, back, hchars, -⟩ := List.eq_append_cons_of_mem hmem
  refine ⟨.ofList front, .ofList back, String.toList_inj.1 ?_⟩
  simp [String.toList_append, hchars]

theorem ofParts_eq_ok_iff :
    ofParts (some group) (some artifact) = .ok e ↔ e.group = group ∧ e.artifact = artifact := by
  simp only [ofParts, Option.getD_some]
  constructor
  · intro h
    split_ifs at h
    cases h
    exact ⟨rfl, rfl⟩
  · rintro ⟨rfl, rfl⟩
    rw [dif_neg (by simp [e.group_visible, e.artifact_visible])]

theorem parse_eq_ok_iff : parse text = .ok e ↔ ReadFrom text e := by
  unfold parse
  split
  · next group artifact hsplit =>
      obtain ⟨hcount, htext⟩ := split_eq_pair_iff.1 hsplit
      rw [ofParts_eq_ok_iff]
      refine ⟨?_, fun h => ?_⟩
      · rintro ⟨rfl, rfl⟩
        exact ⟨hcount, htext.symm⟩
      · have hown := split_eq_pair_iff.2 ⟨h.colon, h.text.symm⟩
        rw [hsplit] at hown
        cases hown
        exact ⟨rfl, rfl⟩
  · next hno =>
      refine ⟨nofun, fun h => ?_⟩
      exact absurd (split_eq_pair_iff.2 ⟨h.colon, h.text.symm⟩) (hno _ _)

theorem exists_parse_iff : (∃ e, parse text = .ok e) ↔ IsPair (Text.trim text) := by
  simp only [parse_eq_ok_iff]
  constructor
  · rintro ⟨e, h⟩
    exact ⟨h.colon, e.group, e.artifact, h.text.symm, e.group_visible, e.artifact_visible⟩
  · rintro ⟨hcolon, group, artifact, htext, hgroup, hartifact⟩
    exact ⟨⟨group, artifact, hgroup, hartifact⟩, hcolon, htext.symm⟩

theorem ofParts_eq_error_iff : ofParts (some group) (some artifact) = .error i ↔
    (Text.isBlankText group = true ∨ Text.isBlankText artifact = true) ∧
      i = .blankPart (some group) (some artifact) := by
  simp only [ofParts, Option.getD_some]
  split_ifs with hblank
  · rw [Except.error.injEq, and_iff_right hblank, eq_comm]
  · exact iff_of_false (fun h => by cases h) fun h => hblank h.1

theorem parse_eq_error_iff : parse text = .error i ↔ Refused text i := by
  unfold parse
  split
  · next group artifact hsplit =>
      obtain ⟨hcount, htext⟩ := split_eq_pair_iff.1 hsplit
      rw [ofParts_eq_error_iff]
      constructor
      · rintro ⟨hblank, rfl⟩
        exact .blankPart hcount htext hblank
      · rintro (hmany | ⟨-, hown, hblank⟩)
        · exact absurd hcount hmany
        · rw [split_eq_pair_iff.2 ⟨hcount, hown⟩] at hsplit
          cases hsplit
          exact ⟨hblank, rfl⟩
  · next hno =>
      constructor
      · rintro ⟨⟩
        refine .malformed fun hcount => ?_
        obtain ⟨group, artifact, htext⟩ := exists_pair_of_colon hcount
        exact hno _ _ (split_eq_pair_iff.2 ⟨hcount, htext⟩)
      · rintro (- | ⟨hcount, htext, -⟩)
        · rfl
        · exact absurd (split_eq_pair_iff.2 ⟨hcount, htext⟩) (hno _ _)

theorem render_eq (e : Exclusion) : e.render = e.group ++ ":" ++ e.artifact :=
  join_pair e.group e.artifact

theorem ReadFrom.render_eq (h : ReadFrom text e) : e.render = Text.trim text :=
  (Exclusion.render_eq e).trans h.text

theorem readFrom_trim_iff : ReadFrom (Text.trim text) e ↔ ReadFrom text e := by
  constructor
  · rintro ⟨hcolon, htext⟩
    rw [Text.trim_trim] at hcolon htext
    exact ⟨hcolon, htext⟩
  · rintro ⟨hcolon, htext⟩
    rw [← Text.trim_trim] at hcolon htext
    exact ⟨hcolon, htext⟩

theorem tight_render_iff : Text.Tight e.render ↔
    (∀ c, e.group.toList.head? = some c → Text.isBlank c = false) ∧
      ∀ c, e.artifact.toList.getLast? = some c → Text.isBlank c = false := by
  obtain ⟨group, artifact, hgroup, hartifact⟩ := e
  have hne {t : String} (ht : Text.isBlankText t = false) : t.toList ≠ [] := by
    intro hnil
    simp [Text.isBlankText, hnil] at ht
  obtain ⟨x, xs, hx⟩ := List.exists_cons_of_ne_nil (hne hgroup)
  have hlast := List.getLast?_eq_some_getLast (hne hartifact)
  have hchars : (render ⟨group, artifact, hgroup, hartifact⟩).toList =
      group.toList ++ ':' :: artifact.toList := by
    rw [Exclusion.render_eq]
    simp [String.toList_append]
  have hfirst : (group.toList ++ ':' :: artifact.toList).head? = group.toList.head? := by
    rw [hx]
    rfl
  have hend : (group.toList ++ ':' :: artifact.toList).getLast? = artifact.toList.getLast? := by
    rw [List.getLast?_append, List.getLast?_cons, hlast]
    rfl
  constructor
  · rintro ⟨hhead, htail⟩
    rw [hchars, hfirst] at hhead
    rw [hchars, hend] at htail
    exact ⟨hhead, htail⟩
  · rintro ⟨hhead, htail⟩
    refine ⟨fun c hc => hhead c ?_, fun c hc => htail c ?_⟩
    · rwa [hchars, hfirst] at hc
    · rwa [hchars, hend] at hc

theorem parse_render_iff : parse e.render = .ok e ↔ Legible e := by
  rw [parse_eq_ok_iff]
  constructor
  · rintro ⟨hcolon, htext⟩
    rw [← Exclusion.render_eq] at htext
    obtain ⟨hfirst, hlast⟩ := tight_render_iff.1 (Text.trim_eq_self_iff.1 htext.symm)
    rw [← htext, Exclusion.render_eq, colons_pair] at hcolon
    exact ⟨Text.colons_eq_zero_iff.1 (by omega), Text.colons_eq_zero_iff.1 (by omega), hfirst,
      hlast⟩
  · intro h
    have htext := (tight_render_iff.2 ⟨h.first, h.last⟩).trim_eq
    have hgroup := Text.colons_eq_zero_iff.2 h.group
    have hartifact := Text.colons_eq_zero_iff.2 h.artifact
    refine ⟨?_, ?_⟩
    · rw [htext, Exclusion.render_eq, colons_pair]
      omega
    · rw [htext, Exclusion.render_eq]

theorem parse_round_trip :
    (∀ text, ((∃ e, parse text = .ok e) ↔ IsPair (Text.trim text)) ∧
      (∀ i, parse text = .error i ↔ Refused text i) ∧
      ∀ e, parse text = .ok e → e.render = Text.trim text ∧ parse (Text.trim text) = .ok e) ∧
    ∀ e : Exclusion, parse e.render = .ok e ↔ Legible e := by
  refine ⟨fun text => ⟨exists_parse_iff, fun i => parse_eq_error_iff, fun e h => ?_⟩,
    fun e => parse_render_iff⟩
  have hread := parse_eq_ok_iff.1 h
  exact ⟨hread.render_eq, parse_eq_ok_iff.2 (readFrom_trim_iff.2 hread)⟩

def spacedExclusion : Exclusion where
  group := "com.example "
  artifact := " js lib"
  group_visible := by decide
  artifact_visible := by decide

theorem spacedExclusion_round_trip :
    parse "\tcom.example : js lib\n" = .ok spacedExclusion ∧
      spacedExclusion.render = Text.trim "\tcom.example : js lib\n" ∧
      parse spacedExclusion.render = .ok spacedExclusion := by
  have hread : parse "\tcom.example : js lib\n" = .ok spacedExclusion := by decide +kernel
  obtain ⟨hrender, hagain⟩ := (parse_round_trip.1 "\tcom.example : js lib\n").2.2 _ hread
  exact ⟨hread, hrender, hrender ▸ hagain⟩

end ArtifactCache.Exclusion
