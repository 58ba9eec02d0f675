import ArtifactCache.Text.Pattern

namespace ArtifactCache.Text.Pattern

universe u

variable {σ : Type u} {p q q' : Pattern σ} {slot : σ} {c : Char} {least : Nat}
  {excluded cs t : List Char} {k l : List (σ × List Char)} {r : Reading σ}

inductive Reads : Pattern σ → List Char → List (σ × List Char) → Prop
  | char (c : Char) : Reads (.char c) [c] []
  | run {least : Nat} {excluded t : List Char} (hlength : least ≤ t.length)
      (hfree : ∀ x ∈ t, x ∉ excluded) : Reads (.run least excluded) t []
  | seq {p q : Pattern σ} {t u : List Char} {k l : List (σ × List Char)}
      (hp : Reads p t k) (hq : Reads q u l) : Reads (.seq p q) (t ++ u) (k ++ l)
  | absent (p : Pattern σ) : Reads (.optional p) [] []
  | present {p : Pattern σ} {t : List Char} {k : List (σ × List Char)} (hp : Reads p t k) :
      Reads (.optional p) t k
  | keep {p : Pattern σ} {t : List Char} {k : List (σ × List Char)} (slot : σ)
      (hp : Reads p t k) : Reads (.keep slot p) t ((slot, t) :: k)

theorem reads_char_iff : (Pattern.char c).Reads t k ↔ t = [c] ∧ k = [] := by
  constructor
  · intro h
    cases h
    exact ⟨rfl, rfl⟩
  · rintro ⟨rfl, rfl⟩
    exact .char c

theorem reads_run_iff :
    (Pattern.run least excluded).Reads t k ↔
      least ≤ t.length ∧ (∀ x ∈ t, x ∉ excluded) ∧ k = [] := by
  constructor
  · intro h
    cases h with
    | run hlength hfree => exact ⟨hlength, hfree, rfl⟩
  · rintro ⟨hlength, hfree, rfl⟩
    exact .run hlength hfree

theorem reads_append_iff :
    (p ++ q).Reads t k ↔
      ∃ t₁ k₁ t₂ k₂, p.Reads t₁ k₁ ∧ q.Reads t₂ k₂ ∧ t = t₁ ++ t₂ ∧ k = k₁ ++ k₂ := by
  constructor
  · intro h
    cases h with
    | seq hp hq => exact ⟨_, _, _, _, hp, hq, rfl, rfl⟩
  · rintro ⟨t₁, k₁, t₂, k₂, hp, hq, rfl, rfl⟩
    exact .seq hp hq

theorem reads_append_assoc : (p ++ q ++ q').Reads t k ↔ (p ++ (q ++ q')).Reads t k := by
  simp only [reads_append_iff]
  constructor
  · rintro ⟨_, _, v, m, ⟨t, k, u, l, hp, hq, rfl, rfl⟩, hq', rfl, rfl⟩
    exact ⟨t, k, u ++ v, l ++ m, hp, ⟨u, l, v, m, hq, hq', rfl, rfl⟩, by simp, by simp⟩
  · rintro ⟨t, k, _, _, hp, ⟨u, l, v, m, hq, hq', rfl, rfl⟩, rfl, rfl⟩
    exact ⟨t ++ u, k ++ l, v, m, ⟨t, k, u, l, hp, hq, rfl, rfl⟩, hq', by simp, by simp⟩

theorem reads_optional_iff : p.optional.Reads t k ↔ t = [] ∧ k = [] ∨ p.Reads t k := by
  constructor
  · intro h
    cases h with
    | absent => exact .inl ⟨rfl, rfl⟩
    | present hp => exact .inr hp
  · rintro (⟨rfl, rfl⟩ | hp)
    · exact .absent p
    · exact .present hp

theorem reads_keep_iff : (p.keep slot).Reads t k ↔ ∃ l, p.Reads t l ∧ k = (slot, t) :: l := by
  constructor
  · intro h
    cases h with
    | keep _ hp => exact ⟨_, hp, rfl⟩
  · rintro ⟨l, hp, rfl⟩
    exact .keep slot hp

theorem mem_runs_iff :
    r ∈ runs excluded cs ↔
      r.kept = [] ∧ r.taken ++ r.rest = cs ∧ ∀ x ∈ r.taken, x ∉ excluded := by
  induction cs generalizing r with
  | nil =>
      obtain ⟨kept, taken, rest⟩ := r
      simp only [runs, List.mem_singleton, Reading.mk.injEq, List.append_eq_nil_iff]
      constructor
      · rintro ⟨rfl, rfl, rfl⟩
        simp
      · rintro ⟨rfl, ⟨rfl, rfl⟩, -⟩
        simp
  | cons c cs ih =>
      obtain ⟨kept, taken, rest⟩ := r
      simp only [runs]
      split
      · next hc =>
          simp only [List.mem_singleton, Reading.mk.injEq]
          constructor
          · rintro ⟨rfl, rfl, rfl⟩
            simp
          · rintro ⟨rfl, htext, hfree⟩
            cases taken with
            | nil => exact ⟨rfl, rfl, htext⟩
            | cons x taken =>
                obtain ⟨rfl, -⟩ := List.cons.inj htext
                exact absurd hc (hfree x (by simp))
      · next hc =>
          simp only [List.mem_append, List.mem_map, List.mem_singleton, Reading.mk.injEq]
          constructor
          · rintro (⟨⟨_, front, _⟩, hfront, rfl, rfl, rfl⟩ | ⟨rfl, rfl, rfl⟩)
            · obtain ⟨hkept, htext, hfree⟩ := ih.1 hfront
              refine ⟨hkept, congrArg (List.cons c) htext, ?_⟩
              exact List.forall_mem_cons.2 ⟨hc, hfree⟩
            · simp
          · rintro ⟨rfl, htext, hfree⟩
            cases taken with
            | nil => exact .inr ⟨rfl, rfl, htext⟩
            | cons x taken =>
                obtain ⟨rfl, htail⟩ := List.cons.inj htext
                rw [List.forall_mem_cons] at hfree
                exact .inl ⟨⟨[], taken, rest⟩, ih.2 ⟨rfl, htail, hfree.2⟩, rfl, rfl, rfl⟩

theorem mem_readings_char_iff :
    r ∈ (Pattern.char c : Pattern σ).readings cs ↔
      r.kept = [] ∧ r.taken = [c] ∧ cs = c :: r.rest := by
  obtain ⟨kept, taken, rest⟩ := r
  cases cs with
  | nil => simp [readings]
  | cons x cs =>
      simp only [readings]
      split
      · next hx =>
          simp only [List.mem_singleton, Reading.mk.injEq, List.cons.injEq, hx, true_and,
            eq_comm (a := rest)]
      · next hx => simp [hx]

theorem mem_readings_iff :
    r ∈ p.readings cs ↔ r.taken ++ r.rest = cs ∧ p.Reads r.taken r.kept := by
  induction p generalizing cs r with
  | char c =>
      rw [mem_readings_char_iff, reads_char_iff]
      constructor
      · rintro ⟨hkept, htaken, rfl⟩
        exact ⟨by rw [htaken]; rfl, htaken, hkept⟩
      · rintro ⟨rfl, htaken, hkept⟩
        exact ⟨hkept, htaken, by rw [htaken]; rfl⟩
  | run least excluded =>
      simp only [readings, List.mem_filter, mem_runs_iff, decide_eq_true_eq, reads_run_iff]
      constructor
      · rintro ⟨⟨hkept, htext, hfree⟩, hlength⟩
        exact ⟨htext, hlength, hfree, hkept⟩
      · rintro ⟨htext, hlength, hfree, hkept⟩
        exact ⟨⟨hkept, htext, hfree⟩, hlength⟩
  | seq p q ihp ihq =>
      simp only [readings, List.mem_flatMap, List.mem_map]
      constructor
      · rintro ⟨a, ha, b, hb, rfl⟩
        obtain ⟨hfront, hp⟩ := ihp.1 ha
        obtain ⟨hback, hq⟩ := ihq.1 hb
        refine ⟨?_, .seq hp hq⟩
        rw [Reading.append, List.append_assoc, hback, hfront]
      · rintro ⟨htext, hreads⟩
        obtain ⟨t, k, u, l, hp, hq, htaken, hkept⟩ := reads_append_iff.1 hreads
        refine ⟨⟨k, t, u ++ r.rest⟩, ihp.2 ⟨?_, hp⟩, ⟨l, u, r.rest⟩, ihq.2 ⟨rfl, hq⟩, ?_⟩
        · rw [← List.append_assoc, ← htaken, htext]
        · rw [Reading.append, ← htaken, ← hkept]
  | optional p ih =>
      obtain ⟨kept, taken, rest⟩ := r
      simp only [readings, List.mem_append, List.mem_singleton, ih, reads_optional_iff,
        Reading.mk.injEq]
      constructor
      · rintro (⟨htext, hp⟩ | ⟨rfl, rfl, rfl⟩)
        · exact ⟨htext, .inr hp⟩
        · exact ⟨rfl, .inl ⟨rfl, rfl⟩⟩
      · rintro ⟨htext, ⟨rfl, rfl⟩ | hp⟩
        · exact .inr ⟨rfl, rfl, htext⟩
        · exact .inl ⟨htext, hp⟩
  | keep slot p ih =>
      obtain ⟨kept, taken, rest⟩ := r
      simp only [readings, List.mem_map, reads_keep_iff]
      constructor
      · rintro ⟨a, ha, heq⟩
        obtain ⟨htext, hp⟩ := ih.1 ha
        obtain ⟨rfl, rfl, rfl⟩ := Reading.mk.inj heq
        exact ⟨htext, _, hp, rfl⟩
      · rintro ⟨htext, l, hp, rfl⟩
        exact ⟨⟨l, taken, rest⟩, ih.2 ⟨htext, hp⟩, rfl⟩

theorem reads_of_match? (h : p.match? cs = some k) : p.Reads cs k := by
  obtain ⟨r, hfind, rfl⟩ := Option.map_eq_some_iff.1 h
  obtain ⟨htext, hreads⟩ := mem_readings_iff.1 (List.mem_of_find?_eq_some hfind)
  have hrest : r.rest = [] := by simpa using List.find?_some hfind
  rw [hrest, List.append_nil] at htext
  exact htext ▸ hreads

theorem match?_eq_none_iff : p.match? cs = none ↔ ∀ k, ¬ p.Reads cs k := by
  constructor
  · intro h k hreads
    have hnone := List.find?_eq_none.1 (Option.map_eq_none_iff.1 h) ⟨k, cs, []⟩
    exact hnone (mem_readings_iff.2 ⟨List.append_nil cs, hreads⟩) rfl
  · intro h
    cases hmatch : p.match? cs with
    | none => rfl
    | some k => exact absurd (reads_of_match? hmatch) (h k)

theorem match?_eq_some (h : p.Reads cs k) (honly : ∀ l, p.Reads cs l → l = k) :
    p.match? cs = some k := by
  cases hmatch : p.match? cs with
  | none => exact absurd h (match?_eq_none_iff.1 hmatch k)
  | some l => rw [honly l (reads_of_match? hmatch)]

end ArtifactCache.Text.Pattern
