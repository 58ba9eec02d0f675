import Mathlib.Algebra.GroupWithZero.Nat
import Mathlib.Data.List.Basic
import Mathlib.Tactic.SplitIfs
import ArtifactCache.Text.Pieces

namespace ArtifactCache.Text

variable {sep : Char} {p q xs ys : List Char} {ps qs : List (List Char)} {i : Nat}

theorem glue_cons_cons (sep : Char) (p q : List Char) (ps : List (List Char)) :
    glue sep (p :: q :: ps) = p ++ sep :: glue sep (q :: ps) := rfl

theorem glue_cons (sep : Char) (p : List Char) (ps : List (List Char)) :
    glue sep (p :: ps) = p ++ ps.flatMap (sep :: ·) := by
  induction ps generalizing p with
  | nil => simp [glue]
  | cons q ps ih => rw [glue_cons_cons, ih, List.flatMap_cons, List.cons_append]

theorem glue_concat (hps : ps ≠ []) : glue sep (ps ++ [q]) = glue sep ps ++ sep :: q := by
  induction ps with
  | nil => exact absurd rfl hps
  | cons p ps ih =>
      cases ps with
      | nil => rfl
      | cons r ps =>
          rw [List.cons_append, List.cons_append, glue_cons_cons, glue_cons_cons,
            ← List.cons_append, ih (List.cons_ne_nil r ps), List.append_assoc, List.cons_append]

theorem head?_glue {c : Char} (h : p.head? = some c) : (glue sep (p :: ps)).head? = some c := by
  cases ps with
  | nil => exact h
  | cons q ps => rw [glue_cons_cons, List.head?_append, h, Option.some_or]

theorem getLast?_glue {c : Char} (h : q.getLast? = some c) :
    (glue sep (ps ++ [q])).getLast? = some c := by
  cases ps with
  | nil => exact h
  | cons p ps =>
      rw [glue_concat (List.cons_ne_nil p ps), List.getLast?_append, List.getLast?_cons, h]
      rfl

theorem mem_glue {c : Char} (h : c ∈ glue sep ps) : c = sep ∨ ∃ p ∈ ps, c ∈ p := by
  induction ps with
  | nil => cases h
  | cons p ps ih =>
      cases ps with
      | nil => exact .inr ⟨p, by simp, h⟩
      | cons q ps =>
          rw [glue_cons_cons] at h
          rcases List.mem_append.1 h with hp | hrest
          · exact .inr ⟨p, by simp, hp⟩
          · rcases List.mem_cons.1 hrest with hsep | hrest
            · exact .inl hsep
            · exact (ih hrest).imp_right fun ⟨r, hr, hmem⟩ => ⟨r, List.mem_cons_of_mem p hr, hmem⟩

theorem mem_glue_of_mem {c : Char} (hp : p ∈ ps) (hc : c ∈ p) : c ∈ glue sep ps := by
  induction ps with
  | nil => cases hp
  | cons q ps ih =>
      cases ps with
      | nil =>
          rw [← List.mem_singleton.1 hp]
          exact hc
      | cons r ps =>
          rw [glue_cons_cons]
          rcases List.mem_cons.1 hp with rfl | hp
          · exact List.mem_append_left _ hc
          · exact List.mem_append_right _ (List.mem_cons_of_mem sep (ih hp))

theorem not_mem_of_mem_split {s t : String} (h : t ∈ split sep s) : sep ∉ t.toList := by
  obtain ⟨cs, hcs, rfl⟩ := List.mem_map.1 h
  rw [String.toList_ofList]
  exact not_mem_of_mem_piecesAt hcs

theorem piecesAt_of_not_mem {cs : List Char} (h : sep ∉ cs) : piecesAt sep cs = [cs] := by
  induction cs with
  | nil => rfl
  | cons c cs ih =>
      rw [List.mem_cons, not_or] at h
      rw [piecesAt, if_neg (Ne.symm h.1), ih h.2]

theorem piecesAt_append (sep : Char) (p xs : List Char) :
    piecesAt sep (p ++ sep :: xs) = piecesAt sep p ++ piecesAt sep xs := by
  induction p with
  | nil => simp [piecesAt]
  | cons c p ih =>
      obtain ⟨q, qs, hp⟩ := List.exists_cons_of_ne_nil (piecesAt_ne_nil sep p)
      rw [List.cons_append, piecesAt, piecesAt, ih, hp]
      split_ifs <;> rfl

theorem piecesAt_glue (hps : ps ≠ []) :
    piecesAt sep (glue sep ps) = ps.flatMap (piecesAt sep) := by
  induction ps with
  | nil => exact absurd rfl hps
  | cons p ps ih =>
      cases ps with
      | nil => simp [glue]
      | cons q ps =>
          rw [glue_cons_cons, piecesAt_append, ih (List.cons_ne_nil q ps)]
          simp

theorem piecesAt_glue_of_free (hps : ps ≠ []) (hfree : ∀ p ∈ ps, sep ∉ p) :
    piecesAt sep (glue sep ps) = ps := by
  have hself : ps.flatMap (piecesAt sep) = ps.flatMap fun p => [p] :=
    List.flatMap_congr fun p hp => piecesAt_of_not_mem (hfree p hp)
  rw [piecesAt_glue hps, hself, List.flatMap_singleton']

theorem split_join {ts : List String} (hts : ts ≠ []) :
    split sep (join sep ts) = ts.flatMap (split sep) := by
  rw [split, join, String.toList_ofList, piecesAt_glue (by simpa using hts), List.flatMap_map,
    List.map_flatMap]
  rfl

theorem split_join_of_free {ts : List String} (hts : ts ≠ []) (hfree : ∀ t ∈ ts, sep ∉ t.toList) :
    split sep (join sep ts) = ts := by
  have hself : ts.flatMap (split sep) = ts.flatMap fun t => [t] := by
    refine List.flatMap_congr fun t ht => ?_
    rw [split, piecesAt_of_not_mem (hfree t ht), List.map_singleton, String.ofList_toList]
  rw [split_join hts, hself, List.flatMap_singleton']

theorem count_glue (hps : ps ≠ []) :
    (glue sep ps).count sep + 1 = (ps.map (·.count sep)).sum + ps.length := by
  induction ps with
  | nil => exact absurd rfl hps
  | cons p ps ih =>
      cases ps with
      | nil => simp [glue]
      | cons q ps =>
          have hrest := ih (List.cons_ne_nil q ps)
          rw [glue_cons_cons, List.count_append, List.count_cons_self, List.map_cons,
            List.sum_cons, List.length_cons]
          omega

theorem append_inj_of_count (hcount : p.count sep = q.count sep)
    (h : p ++ sep :: xs = q ++ sep :: ys) : p = q ∧ xs = ys := by
  rcases List.append_eq_append_iff.1 h with ⟨more, rfl, hrest⟩ | ⟨more, rfl, hrest⟩
  all_goals
    cases more with
    | nil => simpa [eq_comm] using hrest
    | cons c more =>
        obtain ⟨rfl, -⟩ := List.cons.inj hrest
        rw [List.count_append, List.count_cons_self] at hcount
        omega

theorem glue_inj_of_counts (hps : ps ≠ [])
    (hcounts : ps.map (·.count sep) = qs.map (·.count sep)) (h : glue sep ps = glue sep qs) :
    ps = qs := by
  induction ps generalizing qs with
  | nil => exact absurd rfl hps
  | cons p ps ih =>
      cases qs with
      | nil => cases hcounts
      | cons q qs =>
          obtain ⟨hfirst, hrest⟩ := List.cons.inj hcounts
          rcases ps with _ | ⟨r, ps⟩ <;> rcases qs with _ | ⟨t, qs⟩
          · rw [show p = q from h]
          · cases hrest
          · cases hrest
          · obtain ⟨rfl, hglue⟩ := append_inj_of_count hfirst h
            rw [ih (List.cons_ne_nil r ps) hrest hglue]

theorem eq_of_eraseIdx {ns ms : List Nat} (hlength : ns.length = ms.length)
    (hsum : ns.sum = ms.sum) (h : ns.eraseIdx i = ms.eraseIdx i) : ns = ms := by
  induction i generalizing ns ms with
  | zero =>
      rcases ns with _ | ⟨n, ns⟩ <;> rcases ms with _ | ⟨m, ms⟩
      · rfl
      · cases hlength
      · cases hlength
      · obtain rfl : ns = ms := h
        rw [List.sum_cons, List.sum_cons] at hsum
        rw [Nat.add_right_cancel hsum]
  | succ i ih =>
      rcases ns with _ | ⟨n, ns⟩ <;> rcases ms with _ | ⟨m, ms⟩
      · rfl
      · cases hlength
      · cases hlength
      · obtain ⟨rfl, hrest⟩ := List.cons.inj h
        rw [List.sum_cons, List.sum_cons] at hsum
        rw [ih (Nat.succ.inj hlength) (Nat.add_left_cancel hsum) hrest]

theorem glue_inj_of_counts_but (i : Nat) (hps : ps ≠ []) (hlength : ps.length = qs.length)
    (hcounts : (ps.map (·.count sep)).eraseIdx i = (qs.map (·.count sep)).eraseIdx i)
    (h : glue sep ps = glue sep qs) : ps = qs := by
  have hqs : qs ≠ [] := by
    rintro rfl
    exact hps (List.length_eq_zero_iff.1 hlength)
  refine glue_inj_of_counts hps (eq_of_eraseIdx (by simpa using hlength) ?_ hcounts) h
  have hp : (glue sep ps).count sep + 1 = _ := count_glue hps
  have hq : (glue sep qs).count sep + 1 = _ := count_glue hqs
  rw [h] at hp
  omega

end ArtifactCache.Text
