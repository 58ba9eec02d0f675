import Mathlib.Data.Option.Basic
import ArtifactCache.Proofs.Coordinate.Order
import ArtifactCache.Proofs.UniqueList.Positions

namespace ArtifactCache

universe u

namespace Slice

variable {α : Type u} {s : Slice} {xs ys : List α} {d i : Int} {length k l : Nat}

def stride (s : Slice) : Int := s.step.getD 1

def drawnIn (length : Nat) (stride i : Int) : Int :=
  let j := if i < 0 then i + length else i
  if 0 < stride then max 0 (min j length) else max (-1) (min j (length - 1))

def first (s : Slice) (length : Nat) : Int :=
  (s.start.map (drawnIn length s.stride)).getD (if 0 < s.stride then 0 else length - 1)

def limit (s : Slice) (length : Nat) : Int :=
  (s.stop.map (drawnIn length s.stride)).getD (if 0 < s.stride then length else -1)

def place (s : Slice) (length k : Nat) : Int := s.first length + k * s.stride

def Reaches (s : Slice) (length : Nat) (i : Int) : Prop :=
  if 0 < s.stride then i < s.limit length else s.limit length < i

theorem reaches_forwards (h : 0 < s.stride) : s.Reaches length i ↔ i < s.limit length := by
  rw [Reaches, if_pos h]

theorem reaches_backwards (h : s.stride < 0) : s.Reaches length i ↔ s.limit length < i := by
  rw [Reaches, if_neg (by omega)]

theorem drawnIn_forwards (h : 0 < d) : 0 ≤ drawnIn length d i ∧ drawnIn length d i ≤ length := by
  simp only [drawnIn, if_pos h]
  omega

theorem drawnIn_backwards (h : d < 0) : -1 ≤ drawnIn length d i ∧ drawnIn length d i < length := by
  simp only [drawnIn, if_neg (show ¬ 0 < d by omega)]
  omega

theorem ends_forwards (h : 0 < s.stride) (length : Nat) :
    0 ≤ s.first length ∧ s.limit length ≤ length := by
  unfold first limit
  constructor
  · cases s.start with
    | none => simp [h]
    | some i => exact (drawnIn_forwards h).1
  · cases s.stop with
    | none => simp [h]
    | some i => exact (drawnIn_forwards h).2

theorem ends_backwards (h : s.stride < 0) (length : Nat) :
    s.first length < length ∧ -1 ≤ s.limit length := by
  have hnot : ¬ 0 < s.stride := by omega
  unfold first limit
  constructor
  · cases s.start with
    | none =>
        simp only [Option.map_none, Option.getD_none, if_neg hnot]
        omega
    | some i => exact (drawnIn_backwards h).2
  · cases s.stop with
    | none => simp [hnot]
    | some i => exact (drawnIn_backwards h).1

theorem place_inside (h : s.stride ≠ 0) (hreach : s.Reaches length (s.place length k)) :
    0 ≤ s.place length k ∧ s.place length k < length := by
  rcases Int.lt_or_gt_of_ne h with hneg | hpos
  · have hends := ends_backwards hneg length
    have hpast : k * s.stride ≤ 0 := Int.mul_nonpos_of_nonneg_of_nonpos (by omega) (by omega)
    rw [reaches_backwards hneg] at hreach
    unfold place at hreach ⊢
    omega
  · have hends := ends_forwards hpos length
    have hpast : 0 ≤ k * s.stride := Int.mul_nonneg (by omega) (by omega)
    rw [reaches_forwards hpos] at hreach
    unfold place at hreach ⊢
    omega

theorem place_injective (h : s.stride ≠ 0) (heq : s.place length k = s.place length l) : k = l := by
  have hmul : (k : Int) * s.stride = l * s.stride := Int.add_left_cancel heq
  exact Int.ofNat.inj (Int.eq_of_mul_eq_mul_right h hmul)

theorem lt_count_iff (h : s.stride ≠ 0) :
    k < count (s.first length) (s.limit length) s.stride ↔
      s.Reaches length (s.place length k) := by
  have hnext : ((k : Int) + 1) * s.stride = k * s.stride + s.stride := by
    rw [Int.add_mul, Int.one_mul]
  have hback : ((k : Int) + 1) * -s.stride = -(k * s.stride) - s.stride := by
    rw [Int.mul_neg, hnext]
    omega
  rcases Int.lt_or_gt_of_ne h with hneg | hpos
  · rw [count, if_neg (by omega), Int.lt_toNat, Int.lt_iff_add_one_le,
      Int.le_ediv_iff_mul_le (by omega), hback, reaches_backwards hneg, place]
    omega
  · rw [count, if_pos hpos, Int.lt_toNat, Int.lt_iff_add_one_le,
      Int.le_ediv_iff_mul_le hpos, hnext, reaches_forwards hpos, place]
    omega

theorem clamp_eq (h : d ≠ 0) (length : Nat) :
    clamp length (if d < 0 then -1 else 0) (if d < 0 then length - 1 else length) =
      drawnIn length d := by
  funext i
  simp only [clamp, drawnIn]
  split_ifs <;> omega

theorem positions_eq (h : s.stride ≠ 0) (length : Nat) :
    s.positions length =
      .ok ((List.range (count (s.first length) (s.limit length) s.stride)).map
        (s.place length)) := by
  have hfirst : (if s.stride < 0 then if s.stride < 0 then (length : Int) - 1 else length
      else if s.stride < 0 then -1 else 0) = if 0 < s.stride then 0 else (length : Int) - 1 := by
    split_ifs <;> omega
  have hlimit : (if s.stride < 0 then if s.stride < 0 then -1 else 0
      else if s.stride < 0 then (length : Int) - 1 else length) =
        if 0 < s.stride then (length : Int) else -1 := by
    split_ifs <;> omega
  have hstride : s.step.getD 1 = s.stride := rfl
  simp only [positions, hstride, if_neg h, clamp_eq h, hfirst, hlimit]
  rfl

structure Picks (s : Slice) (xs ys : List α) : Prop where
  inside : ∀ k, s.Reaches xs.length (s.place xs.length k) →
    0 ≤ s.place xs.length k ∧ s.place xs.length k < xs.length
  apart : ∀ k l, s.place xs.length k = s.place xs.length l → k = l
  item : ∀ k x, ys[k]? = some x ↔ s.Reaches xs.length (s.place xs.length k) ∧
    ∃ n : Nat, s.place xs.length k = n ∧ xs[n]? = some x

theorem items_eq (h : s.stride ≠ 0) (xs : List α) :
    s.items xs =
      .ok ((List.range (count (s.first xs.length) (s.limit xs.length) s.stride)).filterMap
        fun k => xs[(s.place xs.length k).toNat]?) := by
  rw [items, positions_eq h, Except.map, List.filterMap_map]
  rfl

theorem map_some_filterMap {β : Type*} {f : β → Option α} {bs : List β}
    (h : ∀ b ∈ bs, (f b).isSome = true) : (bs.filterMap f).map some = bs.map f := by
  induction bs with
  | nil => rfl
  | cons b bs ih =>
      obtain ⟨x, hx⟩ := Option.isSome_iff_exists.1 (h b List.mem_cons_self)
      have hrest := ih fun c hc => h c (List.mem_cons_of_mem b hc)
      rw [List.filterMap_cons_some hx, List.map_cons, List.map_cons, hx, hrest]

theorem exists_picks (h : s.stride ≠ 0) (xs : List α) :
    ∃ ys, s.items xs = .ok ys ∧ s.Picks xs ys := by
  refine ⟨_, items_eq h xs, fun k => place_inside h, fun k l => place_injective h, fun k x => ?_⟩
  have hall : ∀ k ∈ List.range (count (s.first xs.length) (s.limit xs.length) s.stride),
      (xs[(s.place xs.length k).toNat]?).isSome = true := by
    intro k hk
    have hin := place_inside h ((lt_count_iff h).1 (List.mem_range.1 hk))
    rw [List.getElem?_eq_getElem (by omega)]
    rfl
  have hsome := congrArg (·[k]?) (map_some_filterMap hall)
  simp only [List.getElem?_map] at hsome
  rw [← (Option.map_injective (Option.some_injective α)).eq_iff, hsome, ← lt_count_iff h]
  by_cases hk : k < count (s.first xs.length) (s.limit xs.length) s.stride
  · have hin := place_inside h ((lt_count_iff h).1 hk)
    have hplace : s.place xs.length k = (s.place xs.length k).toNat := by omega
    simp only [List.getElem?_range hk, Option.map_some, Option.some.injEq, hk, true_and]
    refine ⟨fun hx => ⟨_, hplace, hx⟩, ?_⟩
    rintro ⟨n, hn, hx⟩
    rw [hn]
    exact hx
  · simp [hk]

theorem Picks.eq (h : s.Picks xs ys) {zs : List α} (hzs : s.Picks xs zs) : ys = zs := by
  refine List.ext_getElem?' fun k _ => Option.ext fun x => ?_
  rw [h.item, hzs.item]

end Slice

namespace UniqueList

variable {α : Type u} [BEq α] [EquivBEq α] {u : UniqueList α} {s : Slice} {ys : List α}

theorem distinct_of_picks (h : s.Picks u.items ys) :
    ys.Pairwise fun a b => (a == b) = false := by
  refine List.pairwise_iff_getElem.2 fun k l hk hl hlt => ?_
  obtain ⟨-, m, hm, hmx⟩ := (h.item k ys[k]).1 (List.getElem?_eq_getElem hk)
  obtain ⟨-, n, hn, hny⟩ := (h.item l ys[l]).1 (List.getElem?_eq_getElem hl)
  by_contra hequal
  rw [Bool.not_eq_false] at hequal
  have hplaces : (m : Int) = n :=
    Holds.unique ⟨_, get_ofNat_iff.2 hmx, hequal⟩ ⟨_, get_ofNat_iff.2 hny, BEq.rfl⟩
  rw [← hm, ← hn] at hplaces
  exact absurd (h.apart k l hplaces) (Nat.ne_of_lt hlt)

theorem exists_slice (hstride : s.stride ≠ 0) (u : UniqueList α) :
    ∃ w, u.slice s = .ok w ∧ s.items u.items = .ok w.items ∧ s.Picks u.items w.items := by
  obtain ⟨ys, hys, hpicks⟩ := Slice.exists_picks hstride u.items
  have hkept : (ofList ys).items = ys := ofList_of_distinct (distinct_of_picks hpicks)
  refine ⟨ofList ys, ?_, ?_, ?_⟩
  · rw [slice, hys]
    rfl
  · rw [hkept, hys]
  · rwa [hkept]

def backwards : Slice := ⟨none, none, some (-1)⟩

theorem place_backwards (length k : Nat) : backwards.place length k = length - 1 - k := by
  have hplace : backwards.place length k = (length - 1) + k * -1 := rfl
  omega

theorem reaches_backwards_iff {length : Nat} {i : Int} : backwards.Reaches length i ↔ 0 ≤ i := by
  rw [Slice.reaches_backwards (by decide)]
  change (-1 : Int) < i ↔ 0 ≤ i
  omega

theorem picks_reverse {α : Type u} (xs : List α) : backwards.Picks xs xs.reverse where
  inside k := Slice.place_inside (by decide)
  apart k l := Slice.place_injective (by decide)
  item k x := by
    rw [reaches_backwards_iff, place_backwards]
    by_cases hk : k < xs.length
    · rw [List.getElem?_reverse hk]
      refine ⟨fun hx => ⟨by omega, _, by omega, hx⟩, ?_⟩
      rintro ⟨-, n, hn, hx⟩
      rwa [show xs.length - 1 - k = n by omega]
    · rw [List.getElem?_eq_none (by simpa using hk)]
      simp only [reduceCtorEq, false_iff, not_and]
      omega

theorem slice_backwards (u : UniqueList α) :
    ∃ w, u.slice backwards = .ok w ∧ w.items = u.items.reverse := by
  obtain ⟨w, hslice, -, hpicks⟩ := exists_slice (s := backwards) (by decide) u
  exact ⟨w, hslice, hpicks.eq (picks_reverse u.items)⟩

theorem slices_pick (u : UniqueList α) :
    (∀ s : Slice, s.step ≠ some 0 →
      ∃ w, u.slice s = .ok w ∧ s.items u.items = .ok w.items ∧ s.Picks u.items w.items) ∧
    (∀ i < 0, u.get i = .error ⟨i, u.size⟩) ∧
    ∃ w, u.slice backwards = .ok w ∧ w.items = u.items.reverse ∧ w.slice backwards = .ok u := by
  refine ⟨fun s hstep => exists_slice ?_ u, ?_, ?_⟩
  · intro hstride
    cases hs : s.step with
    | none => simp [Slice.stride, hs] at hstride
    | some n => simp_all [Slice.stride]
  · intro i hi
    cases i with
    | ofNat n => exact absurd hi (Int.not_lt.2 (Int.natCast_nonneg n))
    | negSucc n => rfl
  · obtain ⟨w, hw, hitems⟩ := slice_backwards u
    obtain ⟨v, hv, hback⟩ := slice_backwards w
    have hsame : v = u := eq_of_items (by rw [hback, hitems, List.reverse_reverse])
    exact ⟨w, hw, hitems, hsame ▸ hv⟩

def shelved : UniqueList Coordinate :=
  ofList [Coordinate.packedEdition, .minorEdition, .tenthEdition]

theorem shelved_sliced :
    ∃ w, shelved.slice ⟨some (-1), none, some (-2)⟩ = .ok w ∧
      w.items = [Coordinate.tenthEdition, .packedEdition] ∧
      ∀ v, shelved.get (-1) ≠ .ok v := by
  obtain ⟨hslices, hrefused, -⟩ := slices_pick shelved
  obtain ⟨w, hw, hitems, -⟩ := hslices ⟨some (-1), none, some (-2)⟩ (by decide)
  have hsecond : Slice.items ⟨some (-1), none, some (-2)⟩ shelved.items =
      .ok [Coordinate.tenthEdition, .packedEdition] := by rfl
  rw [hsecond] at hitems
  refine ⟨w, hw, (Except.ok.inj hitems).symm, fun v hv => ?_⟩
  rw [hrefused (-1) (by decide)] at hv
  cases hv

end UniqueList

end ArtifactCache
