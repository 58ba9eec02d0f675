import Mathlib.Tactic.Common
import ArtifactCache.Proofs.Template
import ArtifactCache.Settings.Basic

namespace ArtifactCache.Template

variable {cs rest run : List Char} {name a b : String} {p q : Piece} {ps : List Piece}
  {template text : String} {seeds : String → Option String} {i j : Nat}

def StandsAt (name : String) (i : Nat) (cs : List Char) : Prop := Begins name (cs.drop i)

def LiesAt (p : Piece) (i : Nat) (ps : List Piece) : Prop :=
  ∃ before after, ps = before ++ p :: after ∧ (before.flatMap Piece.spell).length = i

structure CutsAll (cs : List Char) (ps : List Piece) : Prop where
  spelled : ps.flatMap Piece.spell = cs
  placed : ∀ name i, LiesAt (.placeholder name) i ps ↔ StandsAt name i cs

def FirstUnknown (seeds : String → Option String) (cs : List Char) (name : String) : Prop :=
  ∃ i, StandsAt name i cs ∧ seeds name = none ∧
    ∀ j < i, ∀ other, StandsAt other j cs → (seeds other).isSome = true

theorem not_standsAt_nil : ¬ StandsAt name i [] := by
  rintro ⟨-, rest, hrest⟩
  simp [Piece.spell] at hrest

theorem standsAt_cons {c : Char} : StandsAt name i (c :: cs) ↔
    (i = 0 ∧ Begins name (c :: cs)) ∨ ∃ j, i = 1 + j ∧ StandsAt name j cs := by
  cases i with
  | zero =>
      refine ⟨fun h => .inl ⟨rfl, h⟩, ?_⟩
      rintro (⟨-, h⟩ | ⟨j, hj, -⟩)
      · exact h
      · omega
  | succ i => simp [StandsAt, Nat.add_comm 1]

theorem standsAt_append (front : List Char) :
    StandsAt name (front.length + i) (front ++ cs) ↔ StandsAt name i cs := by
  rw [StandsAt, StandsAt, List.drop_length_add_append]

theorem exists_standsAt_iff : (∃ i, StandsAt name i cs) ↔ Occurs name cs := by
  induction cs with
  | nil =>
      refine iff_of_false (fun ⟨i, h⟩ => not_standsAt_nil h) ?_
      simp [Occurs, Piece.spell]
  | cons c cs ih =>
      rw [occurs_cons_iff, ← ih]
      constructor
      · rintro ⟨i, hi⟩
        rcases standsAt_cons.1 hi with ⟨-, h⟩ | ⟨j, -, h⟩
        · exact .inl h
        · exact .inr ⟨j, h⟩
      · rintro (h | ⟨j, h⟩)
        · exact ⟨0, h⟩
        · exact ⟨1 + j, standsAt_cons.2 (.inr ⟨j, rfl, h⟩)⟩

theorem apart_of_lt (ha : StandsAt a i cs) (hb : StandsAt b j cs) (hij : i < j) :
    i + (Piece.placeholder a).spell.length ≤ j := by
  obtain ⟨hname, rest, hrest⟩ := ha
  obtain ⟨-, more, hmore⟩ := hb
  by_contra hlt
  obtain ⟨k, rfl⟩ : ∃ k, j = i + (k + 1) := ⟨j - i - 1, by omega⟩
  have hspell : (Piece.placeholder a).spell = '%' :: '(' :: (a.toList ++ [')', 's']) := rfl
  have hk : k < ('(' :: (a.toList ++ [')', 's'])).length := by
    rw [hspell, List.length_cons] at hlt
    omega
  rw [← List.drop_drop, ← hrest, hspell, List.cons_append, List.drop_succ_cons,
    List.drop_append_of_le_length (Nat.le_of_lt hk), List.drop_eq_getElem_cons hk] at hmore
  have hmark : '%' = ('(' :: (a.toList ++ [')', 's']))[k] := (List.cons.inj hmore).1
  exact mark_not_mem_tail hname (hmark ▸ List.getElem_mem hk)

theorem standsAt_spell (h : IsName a) :
    StandsAt name i ((Piece.placeholder a).spell ++ rest) ↔
      (i = 0 ∧ name = a) ∨
        ∃ j, i = (Piece.placeholder a).spell.length + j ∧ StandsAt name j rest := by
  have hfirst : StandsAt a 0 ((Piece.placeholder a).spell ++ rest) := ⟨h, rest, rfl⟩
  constructor
  · intro hname
    rcases Nat.eq_zero_or_pos i with rfl | hpos
    · exact .inl ⟨rfl, eq_of_begins hname hfirst⟩
    · have hafter := apart_of_lt hfirst hname hpos
      obtain ⟨j, rfl⟩ := Nat.exists_eq_add_of_le hafter
      rw [Nat.zero_add] at hname ⊢
      exact .inr ⟨j, rfl, (standsAt_append _).1 hname⟩
  · rintro (⟨rfl, rfl⟩ | ⟨j, rfl, hj⟩)
    · exact hfirst
    · exact (standsAt_append _).2 hj

theorem spell_length_pos (p : Piece) : 0 < p.spell.length := by
  cases p <;> simp [Piece.spell]

theorem liesAt_cons : LiesAt p i (q :: ps) ↔
    (i = 0 ∧ p = q) ∨ ∃ j, i = q.spell.length + j ∧ LiesAt p j ps := by
  constructor
  · rintro ⟨_ | ⟨x, before⟩, after, hps, rfl⟩
    · exact .inl ⟨rfl, (List.cons.inj hps).1.symm⟩
    · obtain ⟨rfl, rfl⟩ := List.cons.inj hps
      refine .inr ⟨_, ?_, before, after, rfl, rfl⟩
      rw [List.flatMap_cons, List.length_append]
  · rintro (⟨rfl, rfl⟩ | ⟨j, rfl, before, after, rfl, rfl⟩)
    · exact ⟨[], ps, rfl, rfl⟩
    · refine ⟨q :: before, after, rfl, ?_⟩
      rw [List.flatMap_cons, List.length_append]

theorem Cut.cutsAll (h : Cut cs ps) : CutsAll cs ps := by
  induction h with
  | nil =>
      refine ⟨rfl, fun name i => iff_of_false ?_ not_standsAt_nil⟩
      rintro ⟨before, after, hps, -⟩
      simp at hps
  | placeholder hname _ ih =>
      refine ⟨by rw [List.flatMap_cons, ih.spelled], fun name i => ?_⟩
      simp only [liesAt_cons, standsAt_spell hname, ih.placed, Piece.placeholder.injEq]
  | literal hnone _ ih =>
      refine ⟨by rw [List.flatMap_cons, ih.spelled]; rfl, fun name i => ?_⟩
      simp only [liesAt_cons, standsAt_cons, ih.placed, hnone name, reduceCtorEq, and_false,
        false_or]
      rfl

theorem CutsAll.cut (h : CutsAll cs ps) : Cut cs ps := by
  induction ps generalizing cs with
  | nil =>
      rw [← h.spelled]
      exact .nil
  | cons p ps ih =>
      obtain ⟨hspelled, hplaced⟩ := h
      rw [List.flatMap_cons] at hspelled
      subst hspelled
      have hrest : CutsAll (ps.flatMap Piece.spell) ps := by
        refine ⟨rfl, fun name i => ?_⟩
        rw [← standsAt_append p.spell, ← hplaced, liesAt_cons]
        have hpos := spell_length_pos p
        constructor
        · exact fun hi => .inr ⟨i, rfl, hi⟩
        · rintro (⟨hzero, -⟩ | ⟨j, hj, hlies⟩)
          · omega
          · rwa [Nat.add_left_cancel hj]
      cases p with
      | literal c =>
          refine .literal (fun name hbegins => ?_) (ih hrest)
          rcases liesAt_cons.1 ((hplaced name 0).2 hbegins) with ⟨-, hne⟩ | ⟨j, hj, -⟩
          · cases hne
          · have hpos := spell_length_pos (.literal c)
            omega
      | placeholder name =>
          have hstands : Begins name _ := (hplaced name 0).1 (liesAt_cons.2 (.inl ⟨rfl, rfl⟩))
          exact .placeholder hstands.1 (ih hrest)

theorem cutsAll_iff : CutsAll cs ps ↔ ps = pieces cs :=
  ⟨fun h => cut_iff.1 h.cut, fun h => (cut_iff.2 h).cutsAll⟩

theorem forall_before_iff {before after : List Piece} {P : String → Prop} :
    (∀ other, .placeholder other ∈ before → P other) ↔
      ∀ j < (before.flatMap Piece.spell).length, ∀ other,
        LiesAt (.placeholder other) j (before ++ p :: after) → P other := by
  constructor
  · rintro h j hj other ⟨front, back, hps, rfl⟩
    rcases List.append_eq_append_iff.1 hps with ⟨mid, rfl, -⟩ | ⟨mid, rfl, hmid⟩
    · rw [List.flatMap_append, List.length_append] at hj
      omega
    · cases mid with
      | nil =>
          rw [List.append_nil] at hj
          omega
      | cons x mid =>
          obtain ⟨rfl, -⟩ := List.cons.inj hmid
          exact h other (by simp)
  · intro h other hmem
    obtain ⟨front, back, rfl⟩ := List.append_of_mem hmem
    refine h (front.flatMap Piece.spell).length ?_ other ⟨front, back ++ p :: after, by simp, rfl⟩
    have hpos := spell_length_pos (.placeholder other)
    rw [List.flatMap_append, List.flatMap_cons, List.length_append, List.length_append]
    omega

theorem fill_eq_error_iff : p.fill seeds = .error name ↔
    p = .placeholder name ∧ seeds name = none := by
  cases p with
  | literal c => exact iff_of_false (fun h => by cases h) fun h => by cases h.1
  | placeholder other =>
      simp only [Piece.fill, Piece.placeholder.injEq]
      cases hother : seeds other with
      | none =>
          simp only [Except.error.injEq]
          exact ⟨fun h => ⟨h, h ▸ hother⟩, And.left⟩
      | some value =>
          refine iff_of_false (fun h => by cases h) ?_
          rintro ⟨rfl, hnone⟩
          rw [hother] at hnone
          cases hnone

theorem fillAll_eq_error_iff : fillAll seeds ps = .error name ↔
    ∃ before after, ps = before ++ .placeholder name :: after ∧ seeds name = none ∧
      ∀ other, .placeholder other ∈ before → (seeds other).isSome = true := by
  induction ps with
  | nil => simp [fillAll]
  | cons p ps ih =>
      rw [fillAll]
      cases hp : p.fill seeds with
      | error other =>
          obtain ⟨rfl, hnone⟩ := fill_eq_error_iff.1 hp
          simp only [Except.error.injEq]
          constructor
          · rintro rfl
            exact ⟨[], ps, rfl, hnone, by simp⟩
          · rintro ⟨_ | ⟨x, before⟩, after, hps, -, hknown⟩
            · exact Piece.placeholder.inj (List.cons.inj hps).1
            · obtain ⟨rfl, -⟩ := List.cons.inj hps
              have hsome := hknown other (by simp)
              rw [hnone] at hsome
              cases hsome
      | ok front =>
          have hknown := (fill_eq_ok_iff.1 hp).1
          have hrest : (fillAll seeds ps).map (front ++ ·) = .error name ↔
              fillAll seeds ps = .error name := by
            cases fillAll seeds ps <;> simp [Except.map]
          rw [hrest, ih]
          constructor
          · rintro ⟨before, after, rfl, hnone, hbefore⟩
            refine ⟨p :: before, after, rfl, hnone, fun other hmem => ?_⟩
            rcases List.mem_cons.1 hmem with heq | hmem
            · exact hknown other heq.symm
            · exact hbefore other hmem
          · rintro ⟨_ | ⟨x, before⟩, after, hps, hnone, hbefore⟩
            · obtain ⟨rfl, -⟩ := List.cons.inj hps
              have hsome := hknown name rfl
              rw [hnone] at hsome
              cases hsome
            · obtain ⟨rfl, rfl⟩ := List.cons.inj hps
              exact ⟨before, after, rfl, hnone, fun other hmem => hbefore other (by simp [hmem])⟩

theorem expand_eq_error_iff :
    expand seeds template = .error name ↔ FirstUnknown seeds template.toList name := by
  have hcuts := cutsAll_iff.2 (Eq.refl (pieces template.toList))
  have hmap : expand seeds template = .error name ↔
      fillAll seeds (pieces template.toList) = .error name := by
    rw [expand]
    cases fillAll seeds (pieces template.toList) <;> simp [Except.map]
  simp only [hmap, fillAll_eq_error_iff, FirstUnknown, ← hcuts.placed]
  constructor
  · rintro ⟨before, after, hps, hnone, hknown⟩
    refine ⟨_, ⟨before, after, hps, rfl⟩, hnone, ?_⟩
    rw [hps]
    exact forall_before_iff.1 hknown
  · rintro ⟨_, ⟨before, after, hps, rfl⟩, hnone, hknown⟩
    rw [hps] at hknown
    exact ⟨before, after, hps, hnone, forall_before_iff.2 hknown⟩

theorem begins_open_iff (hrun : ∀ c ∈ run, isNameChar c = true)
    (hrest : ∀ c, rest.head? = some c → isNameChar c = false) :
    (∃ name, Begins name ('%' :: '(' :: run ++ rest)) ↔ run ≠ [] ∧ [')', 's'] <+: rest := by
  constructor
  · rintro ⟨name, ⟨hne, hname⟩, more, hmore⟩
    have hcs : run ++ rest = name.toList ++ ')' :: 's' :: more := by
      simpa [Piece.spell] using hmore.symm
    have htake : (run ++ rest).takeWhile isNameChar = run := by
      rw [List.takeWhile_append_of_pos hrun]
      cases rest with
      | nil => simp
      | cons c rest => rw [List.takeWhile_cons_of_neg (by simp [hrest c rfl]), List.append_nil]
    have hrunName : run = name.toList := by
      rw [← htake, hcs, List.takeWhile_append_of_pos hname,
        List.takeWhile_cons_of_neg (by decide), List.append_nil]
    rw [hrunName] at hcs ⊢
    refine ⟨mt String.toList_eq_nil_iff.1 hne, more, (List.append_cancel_left hcs).symm⟩
  · rintro ⟨hne, more, rfl⟩
    refine ⟨.ofList run, ⟨?_, by rwa [String.toList_ofList]⟩, more, by simp [Piece.spell]⟩
    rwa [Ne, ← String.toList_eq_nil_iff, String.toList_ofList]

theorem expand_replaces (seeds : String → Option String) (template : String) :
    (∀ a b i j, StandsAt a i template.toList → StandsAt b j template.toList →
      (i = j ∧ a = b) ∨ i + (Piece.placeholder a).spell.length ≤ j ∨
        j + (Piece.placeholder b).spell.length ≤ i) ∧
    (∃! ps, CutsAll template.toList ps) ∧
    (∀ text, expand seeds template = .ok text ↔
      (∀ name i, StandsAt name i template.toList → (seeds name).isSome = true) ∧
        ∃ ps, CutsAll template.toList ps ∧ text.toList = ps.flatMap (Piece.value seeds)) ∧
    (∀ name, expand seeds template = .error name ↔ FirstUnknown seeds template.toList name) ∧
    (∀ root home source message,
      (Settings.fillTemplate root home template).mapError (·.message source) = .error message ↔
        ∃ name, FirstUnknown (Settings.seeds root home) template.toList name ∧
          message = "Unknown interpolation %(" ++ name ++ ")s in " ++ source) ∧
    ∀ run rest, (∀ c ∈ run, isNameChar c = true) →
      (∀ c, rest.head? = some c → isNameChar c = false) →
        ((∃ name, Begins name ('%' :: '(' :: run ++ rest)) ↔ run ≠ [] ∧ [')', 's'] <+: rest) := by
  refine ⟨fun a b i j ha hb => ?_, ?_, fun text => ?_, fun name => expand_eq_error_iff,
    fun root home source message => ?_, fun run rest => begins_open_iff⟩
  · rcases Nat.lt_trichotomy i j with hij | rfl | hji
    · exact .inr (.inl (apart_of_lt ha hb hij))
    · exact .inl ⟨rfl, eq_of_begins ha hb⟩
    · exact .inr (.inr (apart_of_lt hb ha hji))
  · exact ⟨pieces template.toList, cutsAll_iff.2 rfl, fun ps => cutsAll_iff.1⟩
  · simp only [expand_eq_ok_iff, filled_iff, cutsAll_iff, exists_eq_left, ← exists_standsAt_iff,
      forall_exists_index]
  · simp only [← expand_eq_error_iff, Settings.fillTemplate]
    cases expand (Settings.seeds root home) template with
    | ok text => simp [Except.mapError]
    | error name =>
        simp only [Except.mapError, Except.error.injEq, exists_eq_left']
        exact eq_comm

example : expand (fun _ => none) "%()s%(a-b)s%(buildroot)d%%(x" =
    .ok "%()s%(a-b)s%(buildroot)d%%(x" := by decide +kernel

def nestedTemplate : String := "%(%(buildroot)s%(homedir)s%(a-b)s"

theorem nestedTemplate_replaced :
    StandsAt "buildroot" 2 nestedTemplate.toList ∧ StandsAt "homedir" 15 nestedTemplate.toList ∧
      2 + (Piece.placeholder "buildroot").spell.length ≤ 15 ∧
      (¬ ∃ name, Begins name "%(a-b)s".toList) ∧
      expand (Settings.seeds "%(homedir)s" "/home/user") nestedTemplate =
        .ok "%(%(homedir)s/home/user%(a-b)s" := by
  obtain ⟨hapart, -, -, -, -, hopen⟩ :=
    expand_replaces (Settings.seeds "%(homedir)s" "/home/user") nestedTemplate
  have hroot : StandsAt "buildroot" 2 nestedTemplate.toList :=
    ⟨⟨by decide, List.all_eq_true.1 (by decide)⟩, "%(homedir)s%(a-b)s".toList, by decide⟩
  have hhome : StandsAt "homedir" 15 nestedTemplate.toList :=
    ⟨⟨by decide, List.all_eq_true.1 (by decide)⟩, "%(a-b)s".toList, by decide⟩
  refine ⟨hroot, hhome, ?_, ?_, by decide +kernel⟩
  · rcases hapart _ _ _ _ hroot hhome with ⟨heq, -⟩ | hafter | hbefore
    · omega
    · exact hafter
    · omega
  · have hiff := hopen ['a'] ['-', 'b', ')', 's'] (List.all_eq_true.1 (by decide)) fun c hc => by
      rw [← Option.some.inj hc]
      decide
    exact fun hbegins => absurd (hiff.1 hbegins).2 (by decide)

end ArtifactCache.Template
