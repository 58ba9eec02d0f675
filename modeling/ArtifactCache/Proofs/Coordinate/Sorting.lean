import Mathlib.Data.List.Sort
import ArtifactCache.Proofs.Coordinate.Order
import ArtifactCache.Proofs.UniqueList.Firsts

namespace ArtifactCache.Coordinate

variable {c : Coordinate} {as bs cs : List Coordinate}

def Ascending (cs : List Coordinate) : Prop := cs.Pairwise fun a b => order a b = .lt

theorem eq_of_ascending {α : Type} {cmp : α → α → Ordering} [Std.OrientedCmp cmp] {xs ys : List α}
    (hxs : xs.Pairwise fun x y => cmp x y = .lt) (hys : ys.Pairwise fun x y => cmp x y = .lt)
    (h : ∀ x, x ∈ xs ↔ x ∈ ys) : xs = ys := by
  have _ : Std.Antisymm fun x y => cmp x y = .lt :=
    ⟨fun x y hxy hyx => absurd hyx (Std.OrientedCmp.not_lt_of_lt hxy)⟩
  have _ : Std.Irrefl fun x y => cmp x y = .lt :=
    ⟨fun x hxx => absurd hxx (Std.OrientedCmp.not_lt_of_lt hxx)⟩
  exact hxs.eq_of_mem_iff hys h

theorem sort_perm (cs : List Coordinate) : (sort cs).Perm cs := List.mergeSort_perm cs _

theorem isLE_total (a b : Coordinate) : ((order a b).isLE || (order b a).isLE) = true := by
  have hswap : order b a = (order a b).swap := Std.OrientedCmp.eq_swap
  rw [hswap]
  cases order a b <;> rfl

theorem pairwise_sort (cs : List Coordinate) :
    (sort cs).Pairwise fun a b => (order a b).isLE = true :=
  List.pairwise_mergeSort (fun _ _ _ => Std.TransCmp.isLE_trans) isLE_total cs

theorem filter_sort (cs : List Coordinate) (c : Coordinate) :
    (sort cs).filter (· == c) = cs.filter (· == c) := by
  have hlevel : (cs.filter (· == c)).Pairwise fun a b => (order a b).isLE = true := by
    refine List.pairwise_of_forall_mem_list fun a ha b hb => ?_
    have hac := List.of_mem_filter ha
    have hbc := List.of_mem_filter hb
    rw [order_eq_eq_iff.2 (BEq.trans hac (BEq.symm hbc))]
    rfl
  have hsorted : (cs.filter (· == c)).Sublist (sort cs) :=
    List.sublist_mergeSort (fun _ _ _ => Std.TransCmp.isLE_trans) isLE_total hlevel
      List.filter_sublist
  have hsub := hsorted.filter (· == c)
  rw [List.filter_filter] at hsub
  simp only [Bool.and_self] at hsub
  exact (hsub.eq_of_length ((sort_perm cs).filter _).length_eq.symm).symm

theorem find?_sort (cs : List Coordinate) (c : Coordinate) :
    (sort cs).find? (· == c) = cs.find? (· == c) := by
  rw [← List.head?_filter, filter_sort, List.head?_filter]

theorem ascending_of_distinct (hle : cs.Pairwise fun a b => (order a b).isLE = true)
    (hdistinct : cs.Pairwise fun a b => (a == b) = false) : Ascending cs := by
  refine hle.imp₂ (fun a b hab hne => ?_) hdistinct
  cases horder : order a b with
  | lt => rfl
  | eq => simp [order_eq_eq_iff.1 horder] at hne
  | gt => simp [horder] at hab

theorem ascending_sort (h : cs.Pairwise fun a b => (a == b) = false) : Ascending (sort cs) := by
  refine ascending_of_distinct (pairwise_sort cs) ?_
  refine ((sort_perm cs).pairwise_iff fun hab => ?_).2 h
  rwa [BEq.comm]

theorem sort_eq_self (h : Ascending cs) : sort cs = cs :=
  List.mergeSort_of_pairwise (h.imp fun hab => by rw [hab]; rfl)

theorem sort_filter (p : Coordinate → Bool) (h : cs.Pairwise fun a b => (a == b) = false) :
    sort (cs.filter p) = (sort cs).filter p := by
  refine eq_of_ascending (ascending_sort (h.filter p)) ((ascending_sort h).filter p) fun c => ?_
  simp [sort]

theorem sort_ofList (cs : List Coordinate) :
    sort (UniqueList.ofList cs).items = (UniqueList.ofList (sort cs)).items := by
  have hsorted : Ascending (UniqueList.ofList (sort cs)).items :=
    ascending_of_distinct ((pairwise_sort cs).sublist (UniqueList.items_ofList_sublist _))
      (UniqueList.ofList (sort cs)).distinct
  refine eq_of_ascending (ascending_sort (UniqueList.ofList cs).distinct) hsorted fun c => ?_
  rw [(sort_perm _).mem_iff, UniqueList.mem_items_iff, UniqueList.mem_items_iff,
    UniqueList.find?_ofList, UniqueList.find?_ofList, find?_sort]

theorem beq_iff_map_rank : (as == bs) = true ↔ as.map rank = bs.map rank := by
  induction as generalizing bs with
  | nil => cases bs <;> simp
  | cons a as ih =>
      cases bs with
      | nil => simp
      | cons b bs => simp [List.cons_beq_cons, rank_eq_iff, ih]

theorem ascending_rank (h : Ascending cs) :
    (cs.map rank).Pairwise fun k l => compare k l = .lt :=
  List.pairwise_map.2 (h.imp fun hab => by rw [← order_eq_compare_rank, hab])

theorem mem_map_rank (c : Coordinate) : rank c ∈ cs.map rank ↔ cs.any (· == c) = true := by
  simp only [List.mem_map, List.any_eq_true, rank_eq_iff]

theorem beq_of_ascending (has : Ascending as) (hbs : Ascending bs)
    (h : ∀ c, as.any (· == c) = bs.any (· == c)) : (as == bs) = true := by
  refine beq_iff_map_rank.2 (eq_of_ascending (ascending_rank has) (ascending_rank hbs) fun k => ?_)
  have hmem : ∀ c, rank c ∈ as.map rank ↔ rank c ∈ bs.map rank := fun c => by
    rw [mem_map_rank, mem_map_rank, h c]
  constructor
  all_goals
    intro hk
    obtain ⟨c, -, rfl⟩ := List.mem_map.1 hk
  · exact (hmem c).1 hk
  · exact (hmem c).2 hk

end ArtifactCache.Coordinate
