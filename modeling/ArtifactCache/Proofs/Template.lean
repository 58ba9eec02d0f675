import Mathlib.Data.List.TakeWhile
import ArtifactCache.Template

namespace ArtifactCache.Template

variable {cs rest : List Char} {name other : String} {ps : List Piece} {template text : String}
  {seeds : String → Option String}

def IsName (name : String) : Prop := name ≠ "" ∧ ∀ c ∈ name.toList, isNameChar c = true

def Begins (name : String) (cs : List Char) : Prop :=
  IsName name ∧ (Piece.placeholder name).spell <+: cs

def Occurs (name : String) (cs : List Char) : Prop :=
  IsName name ∧ (Piece.placeholder name).spell <:+: cs

/-- The pieces spell the text, and no character that they leave literal begins a placeholder. -/
inductive Cut : List Char → List Piece → Prop where
  | nil : Cut [] []
  | placeholder {name : String} {rest : List Char} {ps : List Piece} : IsName name → Cut rest ps →
      Cut ((Piece.placeholder name).spell ++ rest) (.placeholder name :: ps)
  | literal {c : Char} {cs : List Char} {ps : List Piece} : (∀ name, ¬ Begins name (c :: cs)) →
      Cut cs ps → Cut (c :: cs) (.literal c :: ps)

def Piece.value (seeds : String → Option String) : Piece → List Char
  | literal c => [c]
  | placeholder name => ((seeds name).getD "").toList

def Filled (seeds : String → Option String) (template text : String) : Prop :=
  ∃ ps, Cut template.toList ps ∧ text.toList = ps.flatMap (Piece.value seeds)

theorem placeholderAt?_spell (h : IsName name) (rest : List Char) :
    placeholderAt? ((Piece.placeholder name).spell ++ rest) = some (name.toList, rest) := by
  obtain ⟨hne, hchars⟩ := h
  obtain ⟨n, ns, hname⟩ := List.exists_cons_of_ne_nil (mt String.toList_eq_nil_iff.1 hne)
  have htake : (name.toList ++ ')' :: 's' :: rest).takeWhile isNameChar = name.toList := by
    rw [List.takeWhile_append_of_pos hchars, List.takeWhile_cons_of_neg (by decide),
      List.append_nil]
  have hdrop : (name.toList ++ ')' :: 's' :: rest).dropWhile isNameChar = ')' :: 's' :: rest := by
    rw [List.dropWhile_append_of_pos hchars, List.dropWhile_cons_of_neg (by decide)]
  have hspell : (Piece.placeholder name).spell ++ rest =
      '%' :: '(' :: (name.toList ++ ')' :: 's' :: rest) := by
    simp [Piece.spell]
  rw [hspell, placeholderAt?, htake, hdrop, hname]
  rfl

theorem isName_of_placeholderAt? {n : List Char} (h : placeholderAt? cs = some (n, rest)) :
    IsName (String.ofList n) := by
  unfold placeholderAt? at h
  split at h
  · next cs =>
      split at h
      · next c ns _ htake _ =>
          cases h
          refine ⟨by simp [← String.toList_eq_nil_iff], fun d hd => ?_⟩
          rw [String.toList_ofList, ← htake] at hd
          exact List.mem_takeWhile_imp hd
      · cases h
  · cases h

theorem eq_spell_of_placeholderAt? {n : List Char} (h : placeholderAt? cs = some (n, rest)) :
    cs = (Piece.placeholder (String.ofList n)).spell ++ rest := by
  rw [eq_of_placeholderAt? h]
  simp [Piece.spell]

theorem begins_iff : Begins name cs ↔ ∃ rest, placeholderAt? cs = some (name.toList, rest) := by
  constructor
  · rintro ⟨hname, rest, rfl⟩
    exact ⟨rest, placeholderAt?_spell hname rest⟩
  · rintro ⟨rest, h⟩
    have hname := isName_of_placeholderAt? h
    have hcs := eq_spell_of_placeholderAt? h
    rw [String.ofList_toList] at hname hcs
    exact ⟨hname, rest, hcs.symm⟩

theorem not_begins_iff : (∀ name, ¬ Begins name cs) ↔ placeholderAt? cs = none := by
  constructor
  · intro h
    rw [Option.eq_none_iff_forall_ne_some]
    rintro ⟨n, rest⟩ hsome
    refine h (String.ofList n) (begins_iff.2 ⟨rest, ?_⟩)
    rw [String.toList_ofList, hsome]
  · intro h name hbegins
    obtain ⟨rest, hsome⟩ := begins_iff.1 hbegins
    rw [h] at hsome
    cases hsome

theorem eq_of_begins (h : Begins name cs) (hother : Begins other cs) : name = other := by
  obtain ⟨rest, hrest⟩ := begins_iff.1 h
  obtain ⟨more, hmore⟩ := begins_iff.1 hother
  rw [hrest] at hmore
  exact String.toList_inj.1 (Prod.mk.inj (Option.some.inj hmore)).1

theorem occurs_cons_iff {c : Char} :
    Occurs name (c :: cs) ↔ Begins name (c :: cs) ∨ Occurs name cs := by
  rw [Occurs, Begins, Occurs, List.infix_cons_iff, and_or_left]

theorem mark_not_mem_tail (h : IsName name) : '%' ∉ '(' :: (name.toList ++ [')', 's']) := by
  have hmark : '%' ∉ name.toList := fun hmem => absurd (h.2 _ hmem) (by decide)
  simp [hmark]

theorem occurs_append_of_not_mem {front : List Char} (h : '%' ∉ front) :
    Occurs name (front ++ cs) ↔ Occurs name cs := by
  induction front with
  | nil => rfl
  | cons c front ih =>
      rw [List.mem_cons, not_or] at h
      have hnot : ¬ Begins name (c :: (front ++ cs)) := by
        rintro ⟨-, rest, hrest⟩
        exact h.1 (List.cons.inj hrest).1
      rw [List.cons_append, occurs_cons_iff, or_iff_right hnot, ih h.2]

theorem occurs_spell_append_iff (h : IsName other) :
    Occurs name ((Piece.placeholder other).spell ++ rest) ↔ name = other ∨ Occurs name rest := by
  have hbegins : Begins other ((Piece.placeholder other).spell ++ rest) := ⟨h, rest, rfl⟩
  have hspell : (Piece.placeholder other).spell ++ rest =
      '%' :: ('(' :: (other.toList ++ [')', 's']) ++ rest) := by
    simp [Piece.spell]
  rw [hspell] at hbegins ⊢
  rw [occurs_cons_iff, occurs_append_of_not_mem (mark_not_mem_tail h)]
  refine or_congr_left ⟨fun hname => eq_of_begins hname hbegins, ?_⟩
  rintro rfl
  exact hbegins

theorem cut_pieces (cs : List Char) : Cut cs (pieces cs) := by
  fun_induction pieces cs with
  | case1 cs n rest h _ ih =>
      rw [eq_spell_of_placeholderAt? h]
      exact .placeholder (isName_of_placeholderAt? h) ih
  | case2 => exact .nil
  | case3 c cs h ih => exact .literal (not_begins_iff.2 h) ih

theorem pieces_spell_append (h : IsName name) (rest : List Char) :
    pieces ((Piece.placeholder name).spell ++ rest) = .placeholder name :: pieces rest := by
  have hsome := placeholderAt?_spell h rest
  rw [pieces]
  split
  · next n more hmore =>
      rw [hsome] at hmore
      cases hmore
      rw [String.ofList_toList]
  · next hnone =>
      rw [hsome] at hnone
      cases hnone

theorem pieces_cons {c : Char} (h : ∀ name, ¬ Begins name (c :: cs)) :
    pieces (c :: cs) = .literal c :: pieces cs := by
  have hnone := not_begins_iff.1 h
  rw [pieces]
  split
  · next n more hmore =>
      rw [hnone] at hmore
      cases hmore
  · rfl

theorem cut_iff : Cut cs ps ↔ ps = pieces cs := by
  constructor
  · intro h
    induction h with
    | nil =>
        rw [pieces]
        rfl
    | placeholder hname _ ih => rw [pieces_spell_append hname, ih]
    | literal hnone _ ih => rw [pieces_cons hnone, ih]
  · rintro rfl
    exact cut_pieces cs

theorem Cut.mem_iff (h : Cut cs ps) : .placeholder name ∈ ps ↔ Occurs name cs := by
  induction h with
  | nil => simp [Occurs, Piece.spell]
  | placeholder hname _ ih =>
      rw [List.mem_cons, Piece.placeholder.injEq, occurs_spell_append_iff hname, ih]
  | @literal c _ _ hnone _ ih =>
      have hne : Piece.placeholder name ≠ .literal c := by simp
      rw [List.mem_cons, or_iff_right hne, occurs_cons_iff, or_iff_right (hnone name), ih]

theorem fill_eq_ok_iff {p : Piece} : p.fill seeds = .ok cs ↔
    (∀ name, p = .placeholder name → (seeds name).isSome = true) ∧ cs = p.value seeds := by
  cases p with
  | literal c =>
      constructor
      · rintro ⟨⟩
        exact ⟨nofun, rfl⟩
      · rintro ⟨-, rfl⟩
        rfl
  | placeholder name =>
      simp only [Piece.fill, Piece.value, Piece.placeholder.injEq, forall_eq']
      cases seeds name with
      | none => simp
      | some value =>
          simp only [Except.ok.injEq, Option.isSome_some, Option.getD_some, true_and, eq_comm]

theorem fillAll_cons_eq_ok_iff {p : Piece} : fillAll seeds (p :: ps) = .ok cs ↔
    ∃ front back, p.fill seeds = .ok front ∧ fillAll seeds ps = .ok back ∧ cs = front ++ back := by
  rw [fillAll]
  cases p.fill seeds with
  | error name => simp
  | ok front =>
      cases fillAll seeds ps with
      | error name => simp [Except.map]
      | ok back =>
          refine ⟨fun h => ⟨front, back, rfl, rfl, (Except.ok.inj h).symm⟩, ?_⟩
          rintro ⟨_, _, ⟨⟩, ⟨⟩, rfl⟩
          rfl

theorem fillAll_eq_ok_iff : fillAll seeds ps = .ok cs ↔
    (∀ name, .placeholder name ∈ ps → (seeds name).isSome = true) ∧
      cs = ps.flatMap (Piece.value seeds) := by
  induction ps generalizing cs with
  | nil =>
      simp only [fillAll, Except.ok.injEq, List.not_mem_nil, List.flatMap_nil, eq_comm,
        false_implies, implies_true, true_and]
  | cons p ps ih =>
      simp only [fillAll_cons_eq_ok_iff, fill_eq_ok_iff, ih, List.mem_cons, or_imp, forall_and,
        List.flatMap_cons]
      constructor
      · rintro ⟨_, _, ⟨hp, rfl⟩, ⟨hps, rfl⟩, rfl⟩
        exact ⟨⟨fun name hname => hp name hname.symm, hps⟩, rfl⟩
      · rintro ⟨⟨hp, hps⟩, rfl⟩
        exact ⟨_, _, ⟨fun name hname => hp name hname.symm, rfl⟩, ⟨hps, rfl⟩, rfl⟩

theorem filled_iff : Filled seeds template text ↔
    text.toList = (pieces template.toList).flatMap (Piece.value seeds) := by
  simp only [Filled, cut_iff, exists_eq_left]

theorem exists_filled (seeds : String → Option String) (template : String) :
    ∃ text, Filled seeds template text :=
  ⟨String.ofList _, filled_iff.2 String.toList_ofList⟩

theorem expand_eq_ok_iff : expand seeds template = .ok text ↔
    (∀ name, Occurs name template.toList → (seeds name).isSome = true) ∧
      Filled seeds template text := by
  have hfill := @fillAll_eq_ok_iff text.toList (pieces template.toList) seeds
  simp only [(cut_pieces template.toList).mem_iff, ← filled_iff] at hfill
  rw [← hfill, expand]
  cases fillAll seeds (pieces template.toList) with
  | error name => simp [Except.map]
  | ok cs =>
      simp only [Except.map, Except.ok.injEq]
      exact ⟨fun h => by rw [← h, String.toList_ofList], fun h => by rw [h, String.ofList_toList]⟩

end ArtifactCache.Template
