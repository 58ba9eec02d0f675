import Mathlib.Data.List.Basic
import Mathlib.Data.Prod.Lex
import ArtifactCache.Coordinate.Order

namespace ArtifactCache.Coordinate

variable {a b c : Coordinate} {s t : String} {k l : String × String × String}
  {xs ys us vs : List Nat}

def codePoints (s : String) : List Nat := s.toList.map Char.toNat

def rank (c : Coordinate) : List (List Nat) :=
  [codePoints c.group, codePoints c.artifact, codePoints c.version, codePoints c.classifier]

def Precedes (k l : String × String × String) : Prop :=
  Prod.Lex (· < ·) (Prod.Lex (· < ·) (· < ·)) k l

theorem codePoints_injective : Function.Injective codePoints := by
  intro s t h
  have hmap : Function.Injective (List.map Char.toNat) :=
    List.map_injective_iff.2 fun x y => Char.toNat_inj.1
  exact String.toList_inj.1 (hmap h)

theorem compare_chars (cs ds : List Char) :
    compareOfLessAndEq cs ds = compare (cs.map Char.toNat) (ds.map Char.toNat) := by
  induction cs generalizing ds with
  | nil => cases ds <;> rfl
  | cons x cs ih =>
      cases ds with
      | nil => rfl
      | cons y ds =>
          rw [List.map_cons, List.map_cons, List.compare_cons_cons, ← ih, compareOfLessAndEq,
            compareOfLessAndEq]
          have hlt : x < y ↔ x.toNat < y.toNat := Iff.rfl
          rcases Nat.lt_trichotomy x.toNat y.toNat with hxy | hxy | hxy
          · have hcons : x :: cs < y :: ds := List.cons_lt_cons_iff.2 (.inl (hlt.2 hxy))
            rw [if_pos hcons, Nat.compare_eq_lt.2 hxy, Ordering.lt_then]
          · obtain rfl := Char.toNat_inj.1 hxy
            simp
          · have hne : x ≠ y := by
              rintro rfl
              exact Nat.lt_irrefl _ hxy
            have hnot : ¬ x :: cs < y :: ds := by
              rw [List.cons_lt_cons_iff, hlt]
              rintro (hless | ⟨heq, -⟩)
              · exact Nat.lt_asymm hxy hless
              · exact hne heq
            rw [if_neg hnot, if_neg (by simp [hne]), Nat.compare_eq_gt.2 hxy, Ordering.gt_then]

theorem compare_texts (s t : String) : compare s t = compare (codePoints s) (codePoints t) := by
  rw [codePoints, codePoints, ← compare_chars]
  change compareOfLessAndEq s t = compareOfLessAndEq s.toList t.toList
  simp only [compareOfLessAndEq, String.toList_inj]
  rfl

theorem codePoints_variantKey (c : Coordinate) :
    codePoints c.variantKey = codePoints c.version ++ 0 :: codePoints c.classifier := by
  simp [codePoints, variantKey, nul]

theorem compare_separated (hx : 0 ∉ xs) (hy : 0 ∉ ys) :
    compare (xs ++ 0 :: us) (ys ++ 0 :: vs) = (compare xs ys).then (compare us vs) := by
  induction xs generalizing ys with
  | nil =>
      cases ys with
      | nil => simp [List.compare_cons_cons]
      | cons y ys =>
          have hpos : compare 0 y = .lt := by
            rw [Nat.compare_eq_lt]
            exact Nat.pos_of_ne_zero fun hzero => hy (by simp [hzero])
          rw [List.nil_append, List.cons_append, List.compare_cons_cons, hpos,
            List.compare_nil_cons, Ordering.lt_then, Ordering.lt_then]
  | cons x xs ih =>
      cases ys with
      | nil =>
          have hpos : compare x 0 = .gt := by
            rw [Nat.compare_eq_gt]
            exact Nat.pos_of_ne_zero fun hzero => hx (by simp [hzero])
          rw [List.nil_append, List.cons_append, List.compare_cons_cons, hpos,
            List.compare_cons_nil, Ordering.gt_then, Ordering.gt_then]
      | cons y ys =>
          rw [List.mem_cons, not_or] at hx hy
          rw [List.cons_append, List.cons_append, List.compare_cons_cons, List.compare_cons_cons,
            ih hx.2 hy.2, Ordering.then_assoc]

theorem zero_not_mem_codePoints (h : nul ∉ s.toList) : 0 ∉ codePoints s := by
  intro hmem
  obtain ⟨x, hx, hzero⟩ := List.mem_map.1 hmem
  have hnul : x = nul := Char.toNat_inj.1 hzero
  exact h (hnul ▸ hx)

theorem order_eq_compare_rank (a b : Coordinate) : order a b = compare (rank a) (rank b) := by
  have hvariant : compare a.variantKey b.variantKey =
      (compare (codePoints a.version) (codePoints b.version)).then
        (compare (codePoints a.classifier) (codePoints b.classifier)) := by
    rw [compare_texts, codePoints_variantKey, codePoints_variantKey,
      compare_separated (zero_not_mem_codePoints a.version_noNul)
        (zero_not_mem_codePoints b.version_noNul)]
  rw [order, compareKeys, orderKey, orderKey, hvariant, compare_texts a.group,
    compare_texts a.artifact, rank, rank]
  simp [List.compare_cons_cons]

theorem rank_eq_iff : rank a = rank b ↔ (a == b) = true := by
  rw [beq_iff_identity_eq]
  simp [rank, identity, codePoints_injective.eq_iff]

instance : Std.OrientedCmp order where
  eq_swap := by
    intro a b
    rw [order_eq_compare_rank, order_eq_compare_rank b]
    exact Std.OrientedOrd.eq_swap

instance : Std.TransCmp order where
  isLE_trans := by
    intro a b c
    rw [order_eq_compare_rank, order_eq_compare_rank, order_eq_compare_rank]
    exact Std.TransOrd.isLE_trans

theorem order_eq_eq_iff : order a b = .eq ↔ (a == b) = true := by
  rw [order_eq_compare_rank, Std.compare_eq_iff_eq, rank_eq_iff]

theorem compareKeys_eq_lt_iff : compareKeys k l = .lt ↔ Precedes k l := by
  have htexts : ∀ s t : String, compare s t = .lt ↔ s < t := fun s t =>
    compareOfLessAndEq_eq_lt
  rw [compareKeys, Precedes, Prod.lex_def, Prod.lex_def]
  simp only [Ordering.then_eq_lt, htexts, Std.compare_eq_iff_eq]

theorem compareKeys_swap (k l : String × String × String) :
    (compareKeys k l).swap = compareKeys l k := by
  simp only [compareKeys, Ordering.swap_then, ← Std.OrientedOrd.eq_swap]

theorem order_lexicographic (a b c : Coordinate) :
    order a b =
        (compare (codePoints a.group) (codePoints b.group)).then
          ((compare (codePoints a.artifact) (codePoints b.artifact)).then
            ((compare (codePoints a.version) (codePoints b.version)).then
              (compare (codePoints a.classifier) (codePoints b.classifier)))) ∧
      order b a = (order a b).swap ∧
      ((order a b).isLE → (order b c).isLE → (order a c).isLE) ∧
      ((order a b).isLE ∨ (order b a).isLE) ∧
      (order a b = .eq ↔ (a == b) = true) ∧
      ((a == b) = true → hash a = hash b) ∧
      (order a b = .lt ↔ Precedes a.orderKey b.orderKey) ∧
      (order a b = .gt ↔ Precedes b.orderKey a.orderKey) := by
  have hswap : order b a = (order a b).swap := Std.OrientedCmp.eq_swap
  refine ⟨?_, hswap, Std.TransCmp.isLE_trans, ?_, order_eq_eq_iff, hash_eq, compareKeys_eq_lt_iff,
    ?_⟩
  · rw [order_eq_compare_rank, rank, rank]
    simp [List.compare_cons_cons]
  · rw [hswap]
    cases order a b <;> simp
  · rw [← compareKeys_eq_lt_iff, ← compareKeys_swap, Ordering.swap_eq_lt]
    rfl

def edition : Coordinate where
  group := "org.example"
  artifact := "atlas"
  version := "2"
  classifier := "maps"
  packaging := defaultPackaging
  group_visible := by decide
  artifact_visible := by decide
  version_noNul := by decide
  classifier_noNul := by decide
  packaging_ne_empty := by decide

def packedEdition : Coordinate :=
  { edition.sources with packaging := "tar", packaging_ne_empty := by decide }

def minorEdition : Coordinate := { edition with version := "2.0", version_noNul := by decide }

def tenthEdition : Coordinate := { edition with version := "20", version_noNul := by decide }

theorem editions_ordered :
    ((order edition.sources minorEdition).isLE = true ∧
      (order minorEdition tenthEdition).isLE = true ∧
      (order edition.sources tenthEdition).isLE = true) ∧
      (edition.sources == packedEdition) = true ∧ hash edition.sources = hash packedEdition := by
  have hminor : (order edition.sources minorEdition).isLE = true := by decide +kernel
  have htenth : (order minorEdition tenthEdition).isLE = true := by decide +kernel
  have hsame : (edition.sources == packedEdition) = true := by decide +kernel
  obtain ⟨-, -, htrans, -⟩ := order_lexicographic edition.sources minorEdition tenthEdition
  obtain ⟨-, -, -, -, -, hhash, -⟩ := order_lexicographic edition.sources packedEdition edition
  exact ⟨⟨hminor, htenth, htrans hminor htenth⟩, hsame, hhash hsame⟩

end ArtifactCache.Coordinate
