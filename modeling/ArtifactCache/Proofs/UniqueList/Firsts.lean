import Mathlib.Data.List.Basic
import Mathlib.Data.List.Induction
import Mathlib.Data.List.Pairwise
import ArtifactCache.UniqueList.Basic

namespace ArtifactCache.UniqueList

universe u

variable {α : Type u} [BEq α] {u w : UniqueList α} {v x : α} {vs xs ys : List α}

def IsFirst (p : α → Prop) (xs : List α) (x : α × Nat) : Prop :=
  p x.1 ∧ ∀ y ∈ xs.take x.2, p y → (y == x.1) = false

instance {p : α → Prop} [DecidablePred p] {x : α × Nat} : Decidable (IsFirst p xs x) :=
  inferInstanceAs (Decidable (_ ∧ _))

def firsts (p : α → Prop) [DecidablePred p] (xs : List α) : List α :=
  (xs.zipIdx.filter (IsFirst p xs ·)).map Prod.fst

def IsRepeat (xs : List α) (x : α × Nat) : Prop := ∃ y ∈ xs.take x.2, (y == x.1) = true

instance {x : α × Nat} : Decidable (IsRepeat xs x) :=
  inferInstanceAs (Decidable (∃ y ∈ xs.take x.2, _))

def repeats (xs : List α) : List α := (xs.zipIdx.filter (IsRepeat xs ·)).map Prod.fst

theorem eq_of_items (h : u.items = w.items) : u = w := by
  cases u
  cases w
  simpa using h

theorem add_of_contains (h : u.contains v = true) : u.add v = (u, false) := dif_pos h

theorem items_add (h : u.contains v = false) : (u.add v).1.items = u.items ++ [v] := by
  have hnot : ¬ u.contains v = true := by simp [h]
  rw [add, dif_neg hnot]

theorem extend_append (u : UniqueList α) (xs ys : List α) :
    (u.extend (xs ++ ys)).1 = ((u.extend xs).1.extend ys).1 := by
  induction xs generalizing u with
  | nil => rfl
  | cons x xs ih => exact ih (u.add x).1

theorem extend_concat (u : UniqueList α) (xs : List α) (x : α) :
    (u.extend (xs ++ [x])).1 = ((u.extend xs).1.add x).1 := extend_append u xs [x]

theorem ofList_concat (xs : List α) (x : α) : ofList (xs ++ [x]) = ((ofList xs).add x).1 :=
  extend_concat empty xs x

theorem items_prefix_add (u : UniqueList α) (v : α) : u.items <+: (u.add v).1.items := by
  unfold add
  split
  · exact List.prefix_rfl
  · exact List.prefix_append ..

theorem items_prefix_extend (u : UniqueList α) (vs : List α) :
    u.items <+: (u.extend vs).1.items := by
  induction vs generalizing u with
  | nil => exact List.prefix_rfl
  | cons v vs ih => exact (items_prefix_add u v).trans (ih (u.add v).1)

omit [BEq α] in
theorem filter_positions_concat (q : List α → α → Prop) [∀ before, DecidablePred (q before)]
    (xs : List α) (x : α) :
    ((xs ++ [x]).zipIdx.filter fun z => q ((xs ++ [x]).take z.2) z.1).map Prod.fst =
      (xs.zipIdx.filter fun z => q (xs.take z.2) z.1).map Prod.fst ++
        if q xs x then [x] else [] := by
  have hfront : ∀ z ∈ xs.zipIdx,
      decide (q ((xs ++ [x]).take z.2) z.1) = decide (q (xs.take z.2) z.1) := by
    intro z hz
    have hlt : z.2 < xs.length := by simpa using List.snd_lt_add_of_mem_zipIdx hz
    rw [decide_eq_decide, List.take_append_of_le_length (Nat.le_of_lt hlt)]
  have hlast : q ((xs ++ [x]).take xs.length) x ↔ q xs x := by rw [List.take_left]
  rw [List.zipIdx_append, List.filter_append, List.map_append, List.filter_congr hfront,
    List.zipIdx_singleton, Nat.zero_add]
  split_ifs with hx
  · rw [List.filter_cons_of_pos (by simpa using hlast.2 hx), List.filter_nil, List.map_singleton]
  · rw [List.filter_cons_of_neg (by simpa using fun h => hx (hlast.1 h)), List.filter_nil,
      List.map_nil]

theorem firsts_concat (p : α → Prop) [DecidablePred p] (xs : List α) (x : α) :
    firsts p (xs ++ [x]) =
      firsts p xs ++ if p x ∧ ∀ y ∈ xs, p y → (y == x) = false then [x] else [] :=
  filter_positions_concat (fun before x => p x ∧ ∀ y ∈ before, p y → (y == x) = false) xs x

theorem repeats_concat (xs : List α) (x : α) :
    repeats (xs ++ [x]) = repeats xs ++ if ∃ y ∈ xs, (y == x) = true then [x] else [] :=
  filter_positions_concat (fun before x => ∃ y ∈ before, (y == x) = true) xs x

theorem firsts_sublist (p : α → Prop) [DecidablePred p] (xs : List α) :
    (firsts p xs).Sublist xs := by
  have hsublist : (firsts p xs).Sublist (xs.zipIdx.map Prod.fst) := List.filter_sublist.map _
  rwa [List.zipIdx_map_fst] at hsublist

theorem length_firsts_add_length_repeats (xs : List α) :
    (firsts (fun _ => True) xs).length + (repeats xs).length = xs.length := by
  have hnot : ∀ z, decide (IsRepeat xs z) = !decide (IsFirst (fun _ => True) xs z) := by
    intro z
    rw [← decide_not, decide_eq_decide, IsFirst, IsRepeat]
    simp
  rw [firsts, repeats, List.length_map, List.length_map, List.filter_congr fun z _ => hnot z,
    ← List.length_eq_length_filter_add, List.length_zipIdx]

section Equivalence

variable [EquivBEq α]

@[simp] theorem contains_add (u : UniqueList α) (x v : α) :
    (u.add x).1.contains v = (u.contains v || x == v) := by
  cases hx : u.contains x with
  | false => simp [contains, items_add hx]
  | true =>
      obtain ⟨y, hy, hyx⟩ := List.any_eq_true.1 hx
      have hin : (x == v) = true → u.contains v = true := fun hxv =>
        List.any_eq_true.2 ⟨y, hy, BEq.trans hyx hxv⟩
      rw [add_of_contains hx, Bool.eq_iff_iff, Bool.or_eq_true, or_iff_left_of_imp hin]

@[simp] theorem contains_extend (u : UniqueList α) (vs : List α) (v : α) :
    (u.extend vs).1.contains v = (u.contains v || vs.any (· == v)) := by
  induction vs generalizing u with
  | nil => simp [extend]
  | cons x vs ih =>
      change ((u.add x).1.extend vs).1.contains v = _
      rw [ih, contains_add, List.any_cons, Bool.or_assoc]

@[simp] theorem contains_ofList (vs : List α) (v : α) : (ofList vs).contains v = vs.any (· == v) := by
  rw [ofList, contains_extend]
  rfl

theorem items_ofList_concat (xs : List α) (x : α) :
    (ofList (xs ++ [x])).items =
      (ofList xs).items ++ if ∀ y ∈ xs, (y == x) = false then [x] else [] := by
  rw [ofList_concat]
  split_ifs with hx
  · rw [items_add (by simpa using hx)]
  · rw [add_of_contains (by simpa using hx), List.append_nil]

theorem items_ofList_filter (p : α → Prop) [DecidablePred p] (xs : List α) :
    (ofList (xs.filter (p ·))).items = firsts p xs := by
  induction xs using List.reverseRecOn with
  | nil => rfl
  | append_singleton xs x ih =>
      rw [firsts_concat, List.filter_append, ← ih]
      by_cases hx : p x
      · rw [List.filter_cons_of_pos (by simpa using hx), List.filter_nil, items_ofList_concat]
        simp [hx]
      · rw [List.filter_cons_of_neg (by simpa using hx), List.filter_nil, List.append_nil,
          if_neg fun h => hx h.1, List.append_nil]

theorem items_ofList (xs : List α) : (ofList xs).items = firsts (fun _ => True) xs := by
  rw [← items_ofList_filter, List.filter_eq_self.2 (by simp)]

theorem items_ofList_sublist (xs : List α) : (ofList xs).items.Sublist xs :=
  items_ofList xs ▸ firsts_sublist _ xs

@[simp] theorem find?_ofList (xs : List α) (v : α) :
    (ofList xs).items.find? (· == v) = xs.find? (· == v) := by
  induction xs using List.reverseRecOn with
  | nil => rfl
  | append_singleton xs x ih =>
      rw [items_ofList_concat, List.find?_append, List.find?_append, ih]
      split_ifs with hx
      · rfl
      · cases hfind : xs.find? (· == v) with
        | some y => rfl
        | none =>
            obtain ⟨y, hy, hyx⟩ : ∃ y ∈ xs, (y == x) = true := by simpa using hx
            have hxv : ¬ (x == v) = true := fun hxv =>
              List.find?_eq_none.1 hfind y hy (BEq.trans hyx hxv)
            rw [List.find?_cons_of_neg (p := (· == v)) hxv]

theorem eq_of_mem (hv : v ∈ u.items) (hx : x ∈ u.items) (h : (v == x) = true) : v = x := by
  have _ : Std.Symm fun a b : α => (a == b) = false := ⟨fun a b hab => BEq.comm.trans hab⟩
  by_contra hne
  rw [u.distinct.forall hv hx hne] at h
  cases h

theorem mem_items_iff : v ∈ u.items ↔ u.items.find? (· == v) = some v := by
  constructor
  · intro hv
    have hsome : (u.items.find? (· == v)).isSome = true := List.find?_isSome.2 ⟨v, hv, BEq.rfl⟩
    obtain ⟨x, hx⟩ := Option.isSome_iff_exists.1 hsome
    have hxv : (x == v) = true := List.find?_some (p := (· == v)) hx
    rw [hx, eq_of_mem (List.mem_of_find?_eq_some hx) hv hxv]
  · exact List.mem_of_find?_eq_some

theorem ofList_of_distinct (h : xs.Pairwise fun a b => (a == b) = false) :
    (ofList xs).items = xs := by
  induction xs using List.reverseRecOn with
  | nil => rfl
  | append_singleton xs x ih =>
      obtain ⟨hxs, -, hlast⟩ := List.pairwise_append.1 h
      have hnew : ∀ y ∈ xs, (y == x) = false := fun y hy => hlast y hy x (by simp)
      rw [items_ofList_concat, ih hxs, if_pos hnew]

@[simp] theorem ofList_items (u : UniqueList α) : ofList u.items = u :=
  eq_of_items (ofList_of_distinct u.distinct)

theorem filter_ofList {p : α → Bool} (hp : ∀ a b, (a == b) = true → p a = p b) (xs : List α) :
    (ofList (xs.filter p)).items = (ofList xs).items.filter p := by
  have hfirst : ∀ z, IsFirst (p · = true) xs z ↔ p z.1 = true ∧ IsFirst (fun _ => True) xs z := by
    intro z
    refine and_congr_right fun hz => ⟨fun h => ⟨trivial, fun y hy _ => ?_⟩, fun h y hy _ => ?_⟩
    · by_contra hyz
      rw [Bool.not_eq_false] at hyz
      cases hyz.symm.trans (h y hy ((hp y z.1 hyz).trans hz))
    · exact h.2 y hy trivial
  have hkept := items_ofList_filter (p · = true) xs
  simp only [Bool.decide_eq_true] at hkept
  rw [hkept, items_ofList, firsts, firsts, List.filter_map, List.filter_filter]
  simp [hfirst]

theorem extend_ofList (u : UniqueList α) (vs : List α) :
    (u.extend (ofList vs).items).1 = (u.extend vs).1 := by
  induction vs using List.reverseRecOn with
  | nil => rfl
  | append_singleton xs x ih =>
      rw [items_ofList_concat, extend_append, ih, extend_concat]
      split_ifs with hx
      · rfl
      · have hin : (u.extend xs).1.contains x = true := by
          rw [contains_extend, Bool.or_eq_true]
          exact .inr (by simpa using hx)
        rw [add_of_contains hin]
        rfl

end Equivalence

section Lawful

variable [LawfulBEq α]

@[simp] theorem mem_ofList : v ∈ (ofList xs).items ↔ v ∈ xs := by
  have h := Bool.eq_iff_iff.1 (contains_ofList xs v)
  simpa only [contains, List.any_eq_true, beq_iff_eq, exists_eq_right] using h

theorem pairwise_ofList_filter (p : α → Bool) (xs : List α) :
    (ofList (xs.filter p)).items.Pairwise fun a b => xs.idxOf a < xs.idxOf b := by
  induction xs using List.reverseRecOn with
  | nil => exact .nil
  | append_singleton xs x ih =>
      have hmem : ∀ a ∈ (ofList (xs.filter p)).items, a ∈ xs := fun a ha =>
        List.mem_of_mem_filter (mem_ofList.1 ha)
      have hfront : (ofList (xs.filter p)).items.Pairwise fun a b =>
          (xs ++ [x]).idxOf a < (xs ++ [x]).idxOf b := by
        refine ih.imp_of_mem fun ha hb hab => ?_
        rwa [List.idxOf_append_of_mem (hmem _ ha), List.idxOf_append_of_mem (hmem _ hb)]
      by_cases hx : p x = true
      · rw [List.filter_append, List.filter_cons_of_pos hx, List.filter_nil, items_ofList_concat]
        split_ifs with hnew
        · refine List.pairwise_append.2 ⟨hfront, List.pairwise_singleton _ _, fun a ha b hb => ?_⟩
          obtain rfl := List.mem_singleton.1 hb
          have hnot : b ∉ xs := fun hb => by
            simpa using hnew b (List.mem_filter.2 ⟨hb, hx⟩)
          rw [List.idxOf_append_of_mem (hmem a ha), List.idxOf_append_of_notMem hnot]
          exact Nat.lt_add_right _ (List.idxOf_lt_length_of_mem (hmem a ha))
        · rwa [List.append_nil]
      · rwa [List.filter_append, List.filter_cons_of_neg hx, List.filter_nil, List.append_nil]

end Lawful

end ArtifactCache.UniqueList
