import ArtifactCache.Proofs.Coordinate.Order
import ArtifactCache.Proofs.UniqueList.Positions
import ArtifactCache.UniqueList.Indexed

namespace ArtifactCache.UniqueList

universe u

variable {α : Type u} [BEq α] {u : UniqueList α} {v w : α} {i j : Int}

inductive Change (α : Type u) where
  | add (v : α)
  | extend (vs : List α)

def Change.offered {α : Type u} : Change α → List α
  | .add v => [v]
  | .extend vs => vs

def change (u : UniqueList α) : Change α → UniqueList α
  | .add v => (u.add v).1
  | .extend vs => (u.extend vs).1

def built (start : Option (List α)) (changes : List (Change α)) : UniqueList α :=
  changes.foldl change (start.elim empty ofList)

theorem change_eq_extend (u : UniqueList α) (c : Change α) :
    u.change c = (u.extend c.offered).1 := by
  cases c <;> rfl

theorem foldl_change (u : UniqueList α) (changes : List (Change α)) :
    changes.foldl change u = (u.extend (changes.flatMap Change.offered)).1 := by
  induction changes generalizing u with
  | nil => rfl
  | cons c cs ih => rw [List.foldl_cons, ih, change_eq_extend, List.flatMap_cons, extend_append]

theorem built_eq_ofList (start : Option (List α)) (changes : List (Change α)) :
    built start changes = ofList (start.getD [] ++ changes.flatMap Change.offered) := by
  rw [built, foldl_change, ofList, extend_append]
  cases start <;> rfl

variable [Hashable α] {x : Indexed α}

namespace Indexed

def change (x : Indexed α) : Change α → Indexed α
  | .add v => (x.add v).1
  | .extend vs => (x.extend vs).1

def ofList (vs : List α) : Indexed α := (empty.extend vs).1

def built (start : Option (List α)) (changes : List (Change α)) : Indexed α :=
  changes.foldl change (start.elim empty ofList)

end Indexed

structure InStep (x : Indexed α) (u : UniqueList α) : Prop where
  order : x.order = u.items
  key : ∀ v, x.keys.get? v = u.items.find? (· == v)
  size : x.keys.size = u.size

theorem get?_insert_of_absent [EquivBEq α] [LawfulHashable α] {keys : Std.HashSet α} {xs : List α}
    (hkeys : ∀ v, keys.get? v = xs.find? (· == v)) (hw : keys.contains w = false) (v : α) :
    (keys.insert w).get? v = (xs ++ [w]).find? (· == v) := by
  have habsent : ¬ w ∈ keys := by rwa [← Std.HashSet.contains_iff_mem, Bool.not_eq_true]
  rw [Std.HashSet.get?_insert, List.find?_append, ← hkeys v]
  cases hwv : w == v with
  | false => simp [hwv]
  | true =>
      have hnone : keys.get? v = none := by
        rw [← Std.HashSet.get?_congr hwv]
        exact Std.HashSet.get?_eq_none habsent
      simp [hnone, habsent, hwv]

namespace InStep

theorem size_eq (h : InStep x u) : x.size = u.size := congrArg List.length h.order

theorem get_eq (h : InStep x u) (i : Int) : x.get i = u.get i := by
  cases i with
  | ofNat n =>
      have hlength : x.order.length = u.items.length := h.size_eq
      unfold Indexed.get
      split_ifs with hi
      · have hn : n < u.items.length := by
          rw [← hlength]
          exact Int.ofNat_lt.1 hi.2
        simp [get, List.getElem?_eq_getElem hn, h.order]
      · have hn : u.items.length ≤ n := by
          simp only [Int.ofNat_eq_natCast] at hi
          omega
        simp [get, List.getElem?_eq_none hn, h.size_eq]
  | negSucc n => simp [Indexed.get, get, h.size_eq]

theorem empty : InStep (.empty : Indexed α) .empty :=
  ⟨rfl, fun _ => Std.HashSet.get?_empty, Std.HashSet.size_empty⟩

variable [EquivBEq α]

theorem seek_eq_some_iff (h : InStep x u) {stop : Option Int} (hi : 0 ≤ i) :
    x.seek v stop i = some j ↔ i ≤ j ∧ (∀ s, stop = some s → j < s) ∧ u.Holds j v := by
  fun_induction x.seek v stop i with
  | case1 i hstop =>
      obtain ⟨s, hs, hle⟩ : ∃ s, stop = some s ∧ s ≤ i := by simpa [Option.any_eq_true] using hstop
      simp only [reduceCtorEq, false_iff]
      rintro ⟨hij, hbefore, -⟩
      have := hbefore s hs
      omega
  | case2 i hstop e hget =>
      simp only [reduceCtorEq, false_iff]
      rintro ⟨hij, -, hj⟩
      have hlt := hj.bounds.2
      obtain ⟨w, hw⟩ := exists_get_iff.2 ⟨hi, Int.lt_of_le_of_lt hij hlt⟩
      rw [h.get_eq, hw] at hget
      cases hget
  | case3 i hstop w hget _ hw =>
      have hhere : u.Holds i v := ⟨w, h.get_eq i ▸ hget, hw⟩
      rw [Option.some_inj]
      constructor
      · rintro rfl
        refine ⟨Int.le_refl i, ?_, hhere⟩
        rintro s rfl
        simpa using hstop
      · rintro ⟨-, -, hj⟩
        exact hhere.unique hj
  | case4 i hstop w hget _ hw ih =>
      have hnot : ¬ u.Holds i v := by
        rintro ⟨w', hw', hwv⟩
        rw [← h.get_eq, hget] at hw'
        cases hw'
        exact hw hwv
      rw [ih (by omega)]
      refine and_congr_left fun hj => ?_
      have hne : i ≠ j := fun hij => hnot (hij ▸ hj.2)
      omega

theorem index?_eq (h : InStep x u) (v : α) (start : Int) (stop : Option Int) :
    x.index? v start stop = (u.index? v start stop).map Int.ofNat := by
  have hstart : 0 ≤ if start < 0 then max (u.size + start) 0 else start := by split <;> omega
  have hwindow : ∀ i : Int, 0 ≤ i → i < u.size → (InWindow u.size start stop i ↔
      (if start < 0 then max (u.size + start) 0 else start) ≤ i ∧
        ∀ s, stop.map (fromBack u.size) = some s → i < s) := by
    intro i h0 hi
    rw [inWindow_iff h0 hi]
    refine and_congr ?_ (by cases stop <;> simp)
    unfold fromBack
    split <;> omega
  refine Option.ext fun j => ?_
  rw [Indexed.index?, h.size_eq, h.seek_eq_some_iff hstart, Option.map_eq_some_iff]
  constructor
  · rintro ⟨hle, hlt, hj⟩
    obtain ⟨n, rfl⟩ := Int.eq_ofNat_of_zero_le hj.bounds.1
    exact ⟨n, index?_eq_some_iff.2 ⟨hj, (hwindow n hj.bounds.1 hj.bounds.2).2 ⟨hle, hlt⟩⟩, rfl⟩
  · rintro ⟨n, hn, rfl⟩
    obtain ⟨hj, hin⟩ := index?_eq_some_iff.1 hn
    obtain ⟨hle, hlt⟩ := (hwindow n hj.bounds.1 hj.bounds.2).1 hin
    exact ⟨hle, hlt, hj⟩

variable [LawfulHashable α]

theorem contains_eq (h : InStep x u) (v : α) : x.contains v = u.contains v := by
  rw [Indexed.contains, Std.HashSet.contains_eq_isSome_get?, h.key, Bool.eq_iff_iff,
    List.find?_isSome, UniqueList.contains, List.any_eq_true]

theorem add (h : InStep x u) (v : α) :
    InStep (x.add v).1 (u.add v).1 ∧ (x.add v).2 = (u.add v).2 := by
  have hcontains := h.contains_eq v
  cases hv : u.contains v with
  | true =>
      have hx : x.add v = (x, false) := if_pos (hcontains.trans hv)
      rw [hx, add_of_contains hv]
      exact ⟨h, rfl⟩
  | false =>
      rw [hv] at hcontains
      have hnot : ¬ u.contains v = true := by simp [hv]
      have habsent : ¬ v ∈ x.keys := by
        rwa [← Std.HashSet.contains_iff_mem, Bool.not_eq_true]
      have hx : x.add v = (⟨x.keys.insert v, x.order ++ [v]⟩, true) := if_neg (by simp [hcontains])
      rw [hx, UniqueList.add, dif_neg hnot]
      refine ⟨⟨by rw [h.order], get?_insert_of_absent h.key hcontains, ?_⟩, rfl⟩
      rw [Std.HashSet.size_insert, if_neg habsent, h.size]
      simp [UniqueList.size]

theorem extend (h : InStep x u) (vs : List α) :
    InStep (x.extend vs).1 (u.extend vs).1 ∧ (x.extend vs).2 = (u.extend vs).2 := by
  induction vs generalizing x u with
  | nil => exact ⟨h, rfl⟩
  | cons v vs ih =>
      obtain ⟨hadd, hadded⟩ := h.add v
      obtain ⟨hextend, hcount⟩ := ih hadd
      exact ⟨hextend, by simp only [Indexed.extend, UniqueList.extend, hadded, hcount]⟩

theorem change (h : InStep x u) (c : Change α) : InStep (x.change c) (u.change c) := by
  cases c with
  | add v => exact (h.add v).1
  | extend vs => exact (h.extend vs).1

theorem built (start : Option (List α)) (changes : List (Change α)) :
    InStep (Indexed.built start changes) (UniqueList.built start changes) := by
  have hfold : ∀ {x : Indexed α} {u : UniqueList α}, InStep x u →
      InStep (changes.foldl Indexed.change x) (changes.foldl UniqueList.change u) := by
    induction changes with
    | nil => exact id
    | cons c cs ih => exact fun h => ih (h.change c)
  apply hfold
  cases start with
  | none => exact .empty
  | some vs => exact (InStep.empty.extend vs).1

end InStep

structure Alike (x : Indexed α) (u : UniqueList α) : Prop where
  contains : ∀ v, x.contains v = u.contains v
  added : ∀ v, (x.add v).2 = (u.add v).2
  idle : ∀ v, (x.add v).2 = false → (x.add v).1 = x
  extended : ∀ vs, (x.extend vs).2 = (u.extend vs).2
  size : x.size = u.size
  get : ∀ i, x.get i = u.get i
  found : ∀ v start stop, x.index? v start stop = (u.index? v start stop).map Int.ofNat

variable [EquivBEq α] [LawfulHashable α]

theorem InStep.alike (h : InStep x u) : Alike x u where
  contains := h.contains_eq
  added v := (h.add v).2
  idle v hv := by
    unfold Indexed.add at hv ⊢
    split at hv
    · next hin => rw [if_pos hin]
    · cases hv
  extended vs := (h.extend vs).2
  size := h.size_eq
  get := h.get_eq
  found := h.index?_eq

theorem built_in_step (start : Option (List α)) (changes : List (Change α)) :
    InStep (Indexed.built start changes) (built start changes) ∧
      Alike (Indexed.built start changes) (built start changes) ∧
      (built start changes).items =
        firsts (fun _ => True) (start.getD [] ++ changes.flatMap Change.offered) ∧
      ((built start changes).items.Pairwise fun v w => (v == w) = false) ∧
      Orderly (built start changes) := by
  have hstep := InStep.built start changes
  refine ⟨hstep, hstep.alike, ?_, (built start changes).distinct, orderly _⟩
  rw [built_eq_ofList, items_ofList]

def editionChanges : List (Change Coordinate) :=
  [.add Coordinate.edition.sources, .extend [.minorEdition, .packedEdition]]

theorem editions_in_step :
    InStep (Indexed.built (some [Coordinate.packedEdition]) editionChanges)
        (built (some [Coordinate.packedEdition]) editionChanges) ∧
      (built (some [Coordinate.packedEdition]) editionChanges).items =
        [.packedEdition, .minorEdition] ∧
      (Indexed.built (some [Coordinate.packedEdition]) editionChanges).contains
        Coordinate.edition.sources = true ∧
      (Indexed.built (some [Coordinate.packedEdition]) editionChanges).index?
        Coordinate.edition.sources (-7) (some (-1)) = some 0 := by
  obtain ⟨hstep, halike, hfirsts, -⟩ :=
    built_in_step (some [Coordinate.packedEdition]) editionChanges
  refine ⟨hstep, hfirsts.trans (by decide +kernel), ?_, ?_⟩
  · rw [halike.contains]
    decide +kernel
  · rw [halike.found]
    decide +kernel

end ArtifactCache.UniqueList
