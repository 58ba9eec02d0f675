import ArtifactCache.Proofs.UniqueList.Firsts
import ArtifactCache.UniqueList.Slice

namespace ArtifactCache.UniqueList

universe u

variable {α : Type u} [BEq α] {u : UniqueList α} {v w : α} {vs xs : List α} {i j : Int} {n : Nat}

theorem get_ofNat_iff : u.get (.ofNat n) = .ok w ↔ u.items[n]? = some w := by
  simp only [get]
  cases u.items[n]? <;> simp

theorem get_eq_ok_iff : u.get i = .ok w ↔ ∃ n : Nat, i = n ∧ u.items[n]? = some w := by
  cases i with
  | ofNat n =>
      rw [get_ofNat_iff]
      refine ⟨fun h => ⟨n, rfl, h⟩, ?_⟩
      rintro ⟨m, hm, hw⟩
      rwa [Int.ofNat.inj hm]
  | negSucc n => simp [get]

theorem exists_get_iff : (∃ w, u.get i = .ok w) ↔ 0 ≤ i ∧ i < u.size := by
  simp only [get_eq_ok_iff, size]
  constructor
  · rintro ⟨w, n, rfl, hw⟩
    have := (List.getElem?_eq_some_iff.1 hw).1
    omega
  · rintro ⟨hi, hlt⟩
    have hn : i.toNat < u.items.length := by omega
    exact ⟨u.items[i.toNat], i.toNat, by omega, List.getElem?_eq_getElem hn⟩

def Holds (u : UniqueList α) (i : Int) (v : α) : Prop := ∃ w, u.get i = .ok w ∧ (w == v) = true

theorem holds_ofNat_iff : u.Holds n v ↔ ∃ w, u.items[n]? = some w ∧ (w == v) = true :=
  exists_congr fun _ => and_congr_left fun _ => get_ofNat_iff

theorem Holds.bounds (h : u.Holds i v) : 0 ≤ i ∧ i < u.size :=
  exists_get_iff.1 (h.imp fun _ hw => hw.1)

theorem exists_holds_iff : (∃ i, u.Holds i v) ↔ u.contains v = true := by
  simp only [Holds, get_eq_ok_iff, contains, List.any_eq_true, List.mem_iff_getElem?]
  constructor
  · rintro ⟨i, w, ⟨n, -, hn⟩, hw⟩
    exact ⟨w, ⟨n, hn⟩, hw⟩
  · rintro ⟨w, ⟨n, hn⟩, hw⟩
    exact ⟨n, w, ⟨n, rfl, hn⟩, hw⟩

theorem added_iff : (u.add v).2 = true ↔ ∀ w ∈ u.items, (w == v) = false := by
  cases hv : u.contains v with
  | true =>
      rw [add_of_contains hv]
      simpa [contains] using hv
  | false =>
      have hnot : ¬ u.contains v = true := by simp [hv]
      rw [add, dif_neg hnot]
      simpa [contains] using hv

theorem add_idle (h : (u.add v).2 = false) : (u.add v).1 = u := by
  unfold add at h ⊢
  split at h
  · next hv => rw [dif_pos hv]
  · cases h

theorem size_add (u : UniqueList α) (v : α) :
    (u.add v).1.size = u.size + if (u.add v).2 then 1 else 0 := by
  unfold add
  split <;> simp [size]

theorem size_extend (u : UniqueList α) (vs : List α) :
    (u.extend vs).1.size = u.size + (u.extend vs).2 := by
  induction vs generalizing u with
  | nil => rfl
  | cons v vs ih =>
      simp only [extend, ih, size_add]
      split <;> omega

section Equivalence

variable [EquivBEq α]

theorem Holds.unique (hi : u.Holds i v) (hj : u.Holds j v) : i = j := by
  obtain ⟨a, ha, hav⟩ := hi
  obtain ⟨b, hb, hbv⟩ := hj
  obtain ⟨m, rfl, hm⟩ := get_eq_ok_iff.1 ha
  obtain ⟨n, rfl, hn⟩ := get_eq_ok_iff.1 hb
  obtain ⟨hmlt, rfl⟩ := List.getElem?_eq_some_iff.1 hm
  obtain ⟨hnlt, rfl⟩ := List.getElem?_eq_some_iff.1 hn
  have hpairwise := List.pairwise_iff_getElem.1 u.distinct
  have hequal : (u.items[m] == u.items[n]) = true := BEq.trans hav (BEq.symm hbv)
  rcases Nat.lt_trichotomy m n with hlt | rfl | hlt
  · rw [hpairwise m n hmlt hnlt hlt] at hequal
    cases hequal
  · rfl
  · rw [BEq.comm, hpairwise n m hnlt hmlt hlt] at hequal
    cases hequal

theorem existsUnique_holds_iff : (∃! i, u.Holds i v) ↔ u.contains v = true := by
  rw [← exists_holds_iff]
  exact ⟨ExistsUnique.exists, fun ⟨i, hi⟩ => ⟨i, hi, fun j hj => hj.unique hi⟩⟩

theorem countP_of_distinct (h : xs.Pairwise fun a b => (a == b) = false) :
    xs.countP (· == v) = if xs.any (· == v) then 1 else 0 := by
  induction xs with
  | nil => rfl
  | cons x xs ih =>
      obtain ⟨hx, hxs⟩ := List.pairwise_cons.1 h
      rw [List.countP_cons, List.any_cons, ih hxs]
      cases hxv : x == v with
      | false => simp
      | true =>
          have hrest : xs.any (· == v) = false := by
            rw [List.any_eq_false]
            intro y hy hyv
            cases (hx y hy).symm.trans (BEq.trans hxv (BEq.symm hyv))
          simp [hrest]

theorem count_eq (u : UniqueList α) (v : α) : u.count v = if u.contains v then 1 else 0 :=
  countP_of_distinct u.distinct

end Equivalence

def InWindow (size : Nat) (start : Int) (stop : Option Int) (i : Int) : Prop :=
  Slice.clamp size 0 size start ≤ i ∧ ∀ s, stop = some s → i < Slice.clamp size 0 size s

def fromBack (size : Nat) (i : Int) : Int := if i < 0 then size + i else i

theorem clamp_le_iff {size : Nat} (h0 : 0 ≤ i) (h : i < size) :
    Slice.clamp size 0 size j ≤ i ↔ fromBack size j ≤ i := by
  unfold Slice.clamp fromBack
  split <;> omega

theorem inWindow_iff {size : Nat} {start : Int} {stop : Option Int} (h0 : 0 ≤ i) (h : i < size) :
    InWindow size start stop i ↔
      fromBack size start ≤ i ∧ ∀ s, stop = some s → i < fromBack size s := by
  rw [InWindow, clamp_le_iff h0 h]
  refine and_congr_right fun _ => forall₂_congr fun s _ => ?_
  rw [← Int.not_le, clamp_le_iff h0 h, Int.not_le]

def meets (size : Nat) (v : α) (start : Int) (stop : Option Int) (p : α × Nat) : Bool :=
  (fromBack size start ≤ p.2 && stop.all fun s => p.2 < fromBack size s) && p.1 == v

theorem index?_eq_find? (u : UniqueList α) (v : α) (start : Int) (stop : Option Int) :
    u.index? v start stop = (u.items.zipIdx.find? (meets u.size v start stop)).map (·.2) := rfl

theorem meets_iff {start : Int} {stop : Option Int} (hw : u.items[n]? = some w) :
    meets u.size v start stop (w, n) = true ↔
      InWindow u.size start stop n ∧ (w == v) = true := by
  have hn : n < u.size := (List.getElem?_eq_some_iff.1 hw).1
  rw [inWindow_iff (by omega) (by omega)]
  cases stop <;> simp [meets, and_assoc]

theorem holds_of_find? {start : Int} {stop : Option Int}
    (h : u.items.zipIdx.find? (meets u.size v start stop) = some (w, n)) :
    u.Holds n v ∧ InWindow u.size start stop n := by
  have hw := List.mem_zipIdx_iff_getElem?.1 (List.mem_of_find?_eq_some h)
  obtain ⟨hin, hwv⟩ := (meets_iff hw).1 (List.find?_some h)
  exact ⟨holds_ofNat_iff.2 ⟨w, hw, hwv⟩, hin⟩

theorem index?_eq_some_iff [EquivBEq α] {start : Int} {stop : Option Int} :
    u.index? v start stop = some n ↔ u.Holds n v ∧ InWindow u.size start stop n := by
  rw [index?_eq_find?, Option.map_eq_some_iff]
  constructor
  · rintro ⟨⟨w, m⟩, hfind, rfl⟩
    exact holds_of_find? hfind
  · rintro ⟨hholds, hin⟩
    obtain ⟨w, hw, hwv⟩ := holds_ofNat_iff.1 hholds
    have hsome : (u.items.zipIdx.find? (meets u.size v start stop)).isSome = true :=
      List.find?_isSome.2 ⟨(w, n), List.mem_zipIdx_iff_getElem?.2 hw, (meets_iff hw).2 ⟨hin, hwv⟩⟩
    obtain ⟨⟨x, m⟩, hfind⟩ := Option.isSome_iff_exists.1 hsome
    have hm : (m : Int) = n := (holds_of_find? hfind).1.unique hholds
    exact ⟨(x, m), hfind, Int.ofNat.inj hm⟩

structure Orderly (u : UniqueList α) : Prop where
  added : ∀ v, (u.add v).2 = true ↔ ∀ w ∈ u.items, (w == v) = false
  idle : ∀ v, (u.add v).2 = false → (u.add v).1 = u
  growth : ∀ vs, (u.extend vs).1.size = u.size + (u.extend vs).2
  accepted : ∀ i, (∃ w, u.get i = .ok w) ↔ 0 ≤ i ∧ i < u.size
  item : ∀ i w, u.get i = .ok w ↔ ∃ n : Nat, i = n ∧ u.items[n]? = some w
  single : ∀ v, u.contains v = true ↔ ∃! i, u.Holds i v
  count : ∀ v, u.count v = if u.contains v then 1 else 0
  found : ∀ v start stop n,
    u.index? v start stop = some n ↔ u.Holds n v ∧ InWindow u.size start stop n

theorem orderly [EquivBEq α] (u : UniqueList α) : u.Orderly where
  added _ := added_iff
  idle _ := add_idle
  growth := size_extend u
  accepted _ := exists_get_iff
  item _ _ := get_eq_ok_iff
  single _ := existsUnique_holds_iff.symm
  count := count_eq u
  found _ _ _ _ := index?_eq_some_iff

end ArtifactCache.UniqueList
