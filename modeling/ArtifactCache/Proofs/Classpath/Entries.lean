import Mathlib.Data.List.Nodup
import ArtifactCache.Classpath
import ArtifactCache.Proofs.Coordinate.RoundTrip
import ArtifactCache.Proofs.Coordinate.Sorting

namespace ArtifactCache.Classpath

variable {c : Coordinate} {cs ds : List Coordinate} {es fs : List Exclusion} {sort : Bool}

def Spared (es : List Exclusion) (c : Coordinate) : Prop :=
  ∀ e ∈ es, ¬ (e.group = c.group ∧ e.artifact = c.artifact)

instance (es : List Exclusion) : DecidablePred (Spared es) := fun _ =>
  inferInstanceAs (Decidable (∀ _ ∈ es, _))

theorem isNone_firstMatch_iff : (firstMatch es c).isNone = true ↔ Spared es c := by
  simp [firstMatch, Exclusion.covers, Spared]

theorem survivors_eq_filter (es : List Exclusion) (cs : List Coordinate) :
    survivors es cs = cs.filter (Spared es ·) :=
  List.filter_congr fun c _ => by rw [Bool.eq_iff_iff, isNone_firstMatch_iff, decide_eq_true_eq]

theorem mem_survivors_iff : c ∈ survivors es cs ↔ c ∈ cs ∧ Spared es c := by
  rw [survivors_eq_filter, List.mem_filter, decide_eq_true_eq]

theorem entries_place (u : UniqueList Coordinate) (cs : List Coordinate) :
    (place u cs).entries = (u.extend cs).1 := by
  induction cs generalizing u with
  | nil => rfl
  | cons c cs ih =>
      simp only [place, UniqueList.extend]
      split <;> exact ih (u.add c).1

theorem entries_unsorted (cs : List Coordinate) (es : List Exclusion) :
    (assemble cs es false).entries = UniqueList.ofList (survivors es cs) :=
  entries_place .empty (survivors es cs)

theorem items_sorted (cs : List Coordinate) (es : List Exclusion) :
    (assemble cs es true).entries.items = Coordinate.sort (assemble cs es false).entries.items := by
  have hplaced : (assemble cs es true).entries =
      UniqueList.ofList (Coordinate.sort (survivors es cs)) := entries_place .empty _
  rw [hplaced, entries_unsorted, Coordinate.sort_ofList]

theorem entries_perm (cs : List Coordinate) (es : List Exclusion) (sort : Bool) :
    (assemble cs es sort).entries.items.Perm (assemble cs es false).entries.items := by
  cases sort with
  | false => rfl
  | true =>
      rw [items_sorted]
      exact Coordinate.sort_perm _

theorem mem_survivors_of_mem_entries (h : c ∈ (assemble cs es sort).entries.items) :
    c ∈ survivors es cs := by
  rw [(entries_perm cs es sort).mem_iff, entries_unsorted] at h
  exact (UniqueList.items_ofList_sublist _).mem h

theorem mem_of_mem_entries (h : c ∈ (assemble cs es sort).entries.items) : c ∈ cs :=
  (mem_survivors_iff.1 (mem_survivors_of_mem_entries h)).1

theorem spared_of_mem_entries (h : c ∈ (assemble cs es sort).entries.items) : Spared es c :=
  (mem_survivors_iff.1 (mem_survivors_of_mem_entries h)).2

theorem distinct_entries (u : UniqueList Coordinate) :
    (u.items.map Coordinate.identity).Nodup := by
  refine List.pairwise_map.2 (u.distinct.imp fun hne heq => ?_)
  rw [Coordinate.beq_iff_identity_eq.2 heq] at hne
  cases hne

theorem assemble_keeps_firsts (cs : List Coordinate) (es : List Exclusion) :
    (assemble cs es false).entries.items = UniqueList.firsts (Spared es) cs ∧
      (assemble cs es false).entries.items.Sublist cs ∧
      (∀ c ∈ (assemble cs es false).entries.items, Spared es c) ∧
      ((assemble cs es false).entries.items.map Coordinate.identity).Nodup ∧
      ∀ c ∈ cs, Spared es c →
        ∃! d, d ∈ (assemble cs es false).entries.items ∧ d.identity = c.identity := by
  have hfirsts : (assemble cs es false).entries.items = UniqueList.firsts (Spared es) cs := by
    rw [entries_unsorted, survivors_eq_filter, UniqueList.items_ofList_filter]
  have hdistinct := distinct_entries (assemble cs es false).entries
  refine ⟨hfirsts, hfirsts ▸ UniqueList.firsts_sublist _ cs, fun c => spared_of_mem_entries,
    hdistinct, fun c hc hspared => ?_⟩
  have hkept : (assemble cs es false).entries.contains c = true := by
    rw [entries_unsorted, UniqueList.contains_ofList]
    exact List.any_eq_true.2 ⟨c, mem_survivors_iff.2 ⟨hc, hspared⟩, BEq.rfl⟩
  obtain ⟨d, hd, hdc⟩ := List.any_eq_true.1 hkept
  have hidentity := Coordinate.beq_iff_identity_eq.1 hdc
  refine ⟨d, ⟨hd, hidentity⟩, fun x hx => ?_⟩
  exact List.inj_on_of_nodup_map hdistinct hx.1 hd (hx.2.trans hidentity.symm)

def shelf : List Coordinate :=
  [.packedEdition, .sourceArchive, Coordinate.edition.sources, .minorEdition]

def ledgerExclusion : Exclusion where
  group := Coordinate.sourceArchive.group
  artifact := Coordinate.sourceArchive.artifact
  group_visible := Coordinate.sourceArchive.group_visible
  artifact_visible := Coordinate.sourceArchive.artifact_visible

theorem shelf_keeps_firsts :
    Coordinate.edition.sources ∈ shelf ∧
      Spared [ledgerExclusion] Coordinate.edition.sources ∧
      (∃! d, d ∈ (assemble shelf [ledgerExclusion] false).entries.items ∧
        d.identity = Coordinate.edition.sources.identity) ∧
      (assemble shelf [ledgerExclusion] false).entries.items = [.packedEdition, .minorEdition] := by
  have hmem : Coordinate.edition.sources ∈ shelf := by simp [shelf]
  have hspared : Spared [ledgerExclusion] Coordinate.edition.sources := by decide
  obtain ⟨hfirsts, -, -, -, hkept⟩ := assemble_keeps_firsts shelf [ledgerExclusion]
  exact ⟨hmem, hspared, hkept _ hmem hspared, hfirsts.trans (by decide +kernel)⟩

theorem survivors_congr (h : ∀ e, e ∈ es ↔ e ∈ fs) (cs : List Coordinate) :
    survivors es cs = survivors fs cs := by
  have hspared : ∀ c, Spared es c ↔ Spared fs c := fun c => by simp only [Spared, h]
  rw [survivors_eq_filter, survivors_eq_filter]
  exact List.filter_congr fun c _ => by rw [decide_eq_decide, hspared]

theorem ascending_sorted (cs : List Coordinate) (es : List Exclusion) :
    Coordinate.Ascending (assemble cs es true).entries.items := by
  rw [items_sorted]
  exact Coordinate.ascending_sort (assemble cs es false).entries.distinct

theorem any_sorted (cs : List Coordinate) (es : List Exclusion) (c : Coordinate) :
    (assemble cs es true).entries.items.any (· == c) = (survivors es cs).any (· == c) := by
  rw [items_sorted, (Coordinate.sort_perm _).any_eq, entries_unsorted]
  exact UniqueList.contains_ofList (survivors es cs) c

theorem assemble_sorts (cs : List Coordinate) (es : List Exclusion) :
    ((assemble cs es true).entries.items.Pairwise fun a b => Coordinate.order a b = .lt) ∧
      (assemble cs es true).entries.items.Perm (assemble cs es false).entries.items ∧
      (assemble cs es true).entries.items =
        Coordinate.sort (assemble cs es false).entries.items ∧
      ∀ ds fs, ds.Perm cs → fs.Perm es →
        ((assemble ds fs true).entries == (assemble cs es true).entries) = true := by
  refine ⟨ascending_sorted cs es, entries_perm cs es true, items_sorted cs es,
    fun ds fs hds hfs => ?_⟩
  have hsurvivors : (survivors fs ds).Perm (survivors es cs) := by
    rw [survivors_congr (fun e => hfs.mem_iff) ds]
    exact hds.filter _
  refine Coordinate.beq_of_ascending (ascending_sorted ds fs) (ascending_sorted cs es) fun c => ?_
  rw [any_sorted, any_sorted, hsurvivors.any_eq]

theorem shelf_sorts :
    (shelf.reverse.Perm shelf ∧ [ledgerExclusion].reverse.Perm [ledgerExclusion]) ∧
      ((assemble shelf.reverse [ledgerExclusion].reverse true).entries ==
        (assemble shelf [ledgerExclusion] true).entries) = true ∧
      (assemble shelf [ledgerExclusion] true).entries.items = [.packedEdition, .minorEdition] := by
  have hshelf : shelf.reverse.Perm shelf := List.reverse_perm shelf
  have hexclusions := List.reverse_perm [ledgerExclusion]
  have hunsorted : (assemble shelf [ledgerExclusion] false).entries.items =
      [.packedEdition, .minorEdition] := by decide +kernel
  have hascending : Coordinate.Ascending [.packedEdition, .minorEdition] := by
    simp only [Coordinate.Ascending, List.pairwise_pair]
    decide +kernel
  obtain ⟨-, -, hsorted, hequal⟩ := assemble_sorts shelf [ledgerExclusion]
  refine ⟨⟨hshelf, hexclusions⟩, hequal _ _ hshelf hexclusions, ?_⟩
  rw [hsorted, hunsorted, Coordinate.sort_eq_self hascending]

end ArtifactCache.Classpath
