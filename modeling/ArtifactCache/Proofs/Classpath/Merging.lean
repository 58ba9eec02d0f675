import ArtifactCache.Proofs.Classpath.Entries

namespace ArtifactCache.Classpath

variable {cs ds xs ys : List Coordinate} {es fs : List Exclusion} {sort : Bool}

theorem spared_append_iff {c : Coordinate} : Spared (es ++ fs) c ↔ Spared es c ∧ Spared fs c :=
  List.forall_mem_append

theorem spared_of_beq {c d : Coordinate} (h : (c == d) = true) : Spared es c ↔ Spared es d := by
  obtain ⟨hgroup, hartifact, -⟩ := by
    simpa [Coordinate.identity] using Coordinate.beq_iff_identity_eq.1 h
  rw [Spared, Spared, hgroup, hartifact]

theorem survivors_append (es fs : List Exclusion) (cs : List Coordinate) :
    survivors (es ++ fs) cs = survivors fs (survivors es cs) := by
  rw [survivors_eq_filter, survivors_eq_filter, survivors_eq_filter, List.filter_filter]
  refine List.filter_congr fun c _ => ?_
  rw [← Bool.decide_and, decide_eq_decide, spared_append_iff, and_comm]

theorem survivors_eq_self (h : ∀ c ∈ cs, Spared es c) : survivors es cs = cs := by
  rw [survivors_eq_filter]
  exact List.filter_eq_self.2 fun c hc => decide_eq_true (h c hc)

theorem ofList_survivors (es : List Exclusion) (cs : List Coordinate) :
    (UniqueList.ofList (survivors es cs)).items = survivors es (UniqueList.ofList cs).items := by
  rw [survivors_eq_filter, survivors_eq_filter]
  exact UniqueList.filter_ofList (fun c d h => by rw [decide_eq_decide, spared_of_beq h]) cs

theorem items_append (cs : List Coordinate) (es fs : List Exclusion) (sort : Bool) :
    (assemble cs (es ++ fs) sort).entries.items =
      survivors fs (assemble cs es sort).entries.items := by
  have hunsorted : (assemble cs (es ++ fs) false).entries.items =
      survivors fs (assemble cs es false).entries.items := by
    rw [entries_unsorted, entries_unsorted, survivors_append, ofList_survivors]
  cases sort with
  | false => exact hunsorted
  | true =>
      rw [items_sorted, items_sorted, hunsorted, survivors_eq_filter, survivors_eq_filter,
        Coordinate.sort_filter _ (assemble cs es false).entries.distinct]

theorem items_again (cs : List Coordinate) (es fs : List Exclusion) (sort : Bool) :
    (assemble (assemble cs es sort).entries.items fs sort).entries.items =
      survivors fs (assemble cs es sort).entries.items := by
  have hunsorted : (assemble (assemble cs es sort).entries.items fs false).entries.items =
      survivors fs (assemble cs es sort).entries.items := by
    rw [entries_unsorted, ofList_survivors, UniqueList.ofList_items]
  cases sort with
  | false => exact hunsorted
  | true =>
      rw [items_sorted, hunsorted, survivors_eq_filter]
      exact Coordinate.sort_eq_self ((ascending_sorted cs es).filter _)

theorem entries_congr (h : survivors es xs = survivors fs ys) (sort : Bool) :
    (assemble xs es sort).entries = (assemble ys fs sort).entries := by
  simp only [assemble, h]

theorem entries_again (cs : List Coordinate) (es : List Exclusion) (sort : Bool) :
    (assemble (assemble cs es sort).entries.items es sort).entries =
      (assemble cs es sort).entries := by
  refine UniqueList.eq_of_items ?_
  rw [items_again, survivors_eq_self fun c => spared_of_mem_entries]

theorem find?_entries (cs : List Coordinate) (es : List Exclusion) (sort : Bool) (c : Coordinate) :
    (assemble cs es sort).entries.items.find? (· == c) = (survivors es cs).find? (· == c) := by
  have hunsorted : (assemble cs es false).entries.items.find? (· == c) =
      (survivors es cs).find? (· == c) := by
    rw [entries_unsorted, UniqueList.find?_ofList]
  cases sort with
  | false => exact hunsorted
  | true => rw [items_sorted, Coordinate.find?_sort, hunsorted]

theorem sorted_congr
    (h : ∀ c, (survivors es xs).find? (· == c) = (survivors fs ys).find? (· == c)) :
    (assemble xs es true).entries = (assemble ys fs true).entries := by
  refine UniqueList.eq_of_items ?_
  refine Coordinate.eq_of_ascending (ascending_sorted xs es) (ascending_sorted ys fs) fun c => ?_
  rw [UniqueList.mem_items_iff, UniqueList.mem_items_iff, find?_entries, find?_entries, h]

theorem unsorted_merge (xs ys : List Coordinate) (es : List Exclusion) :
    (assemble (xs ++ ys) es false).entries =
      ((assemble xs es false).entries.extend (assemble ys es false).entries.items).1 := by
  rw [entries_unsorted, entries_unsorted, entries_unsorted, UniqueList.extend_ofList, survivors,
    List.filter_append]
  exact UniqueList.extend_append .empty (survivors es xs) (survivors es ys)

theorem merge_again (xs ys : List Coordinate) (es : List Exclusion) (sort : Bool) :
    (assemble (xs ++ ys) es sort).entries =
      (assemble ((assemble xs es sort).entries.items ++ (assemble ys es sort).entries.items) es
        sort).entries := by
  cases sort with
  | false => rw [unsorted_merge, unsorted_merge, entries_again, entries_again]
  | true =>
      refine sorted_congr fun c => ?_
      have hspared : ∀ d ∈ (assemble xs es true).entries.items ++
          (assemble ys es true).entries.items, Spared es d := fun d hd =>
        (List.mem_append.1 hd).elim spared_of_mem_entries spared_of_mem_entries
      rw [survivors_eq_self hspared, survivors, List.filter_append, List.find?_append,
        List.find?_append, find?_entries, find?_entries]
      rfl

theorem assemble_composes :
    (∀ xs ys es,
      (assemble (xs ++ ys) es false).entries =
        ((assemble xs es false).entries.extend (assemble ys es false).entries.items).1) ∧
      (∀ xs ys es sort,
        (assemble (xs ++ ys) es sort).entries =
          (assemble ((assemble xs es sort).entries.items ++ (assemble ys es sort).entries.items) es
            sort).entries) ∧
      (∀ xs es fs sort,
        (assemble xs (es ++ fs) sort).entries =
          (assemble (assemble xs es sort).entries.items fs sort).entries) ∧
      ∀ xs es fs sort, (∀ e, e ∈ es ↔ e ∈ fs) →
        (assemble xs es sort).entries = (assemble xs fs sort).entries := by
  refine ⟨unsorted_merge, merge_again, fun xs es fs sort => ?_, fun xs es fs sort h => ?_⟩
  · exact UniqueList.eq_of_items (by rw [items_append, items_again])
  · exact entries_congr (survivors_congr h xs) sort

def namesakeExclusion : Exclusion :=
  { ledgerExclusion with
    group := Coordinate.edition.group
    group_visible := Coordinate.edition.group_visible }

theorem shelf_excludes_again :
    (∀ e, e ∈ [ledgerExclusion, namesakeExclusion, ledgerExclusion] ↔
      e ∈ [namesakeExclusion, ledgerExclusion]) ∧
      (assemble shelf [ledgerExclusion, namesakeExclusion, ledgerExclusion] true).entries =
        (assemble shelf [namesakeExclusion, ledgerExclusion] true).entries := by
  have hsame : ∀ e, e ∈ [ledgerExclusion, namesakeExclusion, ledgerExclusion] ↔
      e ∈ [namesakeExclusion, ledgerExclusion] := by
    intro e
    simp only [List.mem_cons, List.not_mem_nil, or_false]
    tauto
  obtain ⟨-, -, -, hexclusions⟩ := assemble_composes
  exact ⟨hsame, hexclusions shelf _ _ true hsame⟩

end ArtifactCache.Classpath
