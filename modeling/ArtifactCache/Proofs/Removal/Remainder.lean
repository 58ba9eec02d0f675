import ArtifactCache.Proofs.Removal.Report
import ArtifactCache.Proofs.Removal.Target

namespace ArtifactCache

variable {faults : Faults} {fs gs hs : FileSystem} {p q : Pathname} {d l r : Location}
  {dir : Path} {name n : String} {names : List String} {step : Step}
  {steps later : List Step} {ps qs : List Pathname} {c c' : Option Failure}

theorem Outcome.exists_errno {fault : Option Fault} {hindrance : Option Errno}
    (h : (Outcome.of fault hindrance).takes = false) :
    ∃ e, (Outcome.of fault hindrance).errno = some e := by
  rcases fault with _ | ⟨e⟩ | _ <;> cases hindrance <;> simp_all [Outcome.of]

theorem Faults.exists_reach (faults : Faults) (p : Pathname) (r : Location) :
    ∃ q, q <+: r ∧ faults.Reach p q ∧ (q = r ∨ faults.refusedListing (p.under q) ≠ none) := by
  induction r using List.reverseRecOn with
  | nil => exact ⟨[], List.prefix_rfl, fun q hq hne => absurd (List.prefix_nil.1 hq) hne, .inl rfl⟩
  | append_singleton r n ih =>
      obtain ⟨q, hq, hreach, hlast⟩ := ih
      have habove : q <+: r ++ [n] := hq.trans (List.prefix_append ..)
      by_cases hrefused : faults.refusedListing (p.under q) = none
      · obtain rfl := hlast.resolve_right (not_not.2 hrefused)
        exact ⟨q ++ [n], List.prefix_rfl, Faults.reach_concat.2 ⟨hreach, hrefused⟩, .inl rfl⟩
      · exact ⟨q, habove, hreach, .inr hrefused⟩

namespace Sweep

theorem step_of_mem (hv : .deletion r gs step ∈ treeVisits faults fs p) :
    step ∈ (tree faults fs p).steps ∧ step.call.Deletes (p.under r) := by
  have hwalks := tree_walks faults fs p
  obtain ⟨call, hdel, hstep⟩ : ∃ call : Call, _ ∧ step = _ := hwalks.isMade _ hv
  rw [hwalks.steps, hstep, Faults.perform_call, ← hstep]
  exact ⟨List.mem_append_right _ (List.mem_filterMap.2 ⟨_, hv, rfl⟩), hdel⟩

theorem tree_remainder (hm : p.Marks fs.here d name) (h : fs.LeadsTo p (d ++ [name]))
    (hleft : ((tree faults fs p).files.item? (d ++ [name] ++ r)).isSome) :
    (∃ v ∈ Visit.reported [] (treeVisits faults fs p), v.place <+: r ∨ r <+: v.place) ∨
    ∃ q gs step f, q <+: r ∧ .deletion q gs step ∈ treeVisits faults fs p ∧
      step.failure = some f ∧ f.isNoEntry = true ∧
      (step.files.item? (d ++ [name] ++ q)).isSome := by
  obtain ⟨q, hq, hreach, hlast⟩ := faults.exists_reach p r
  have hstill : ((tree faults fs p).files.item? (d ++ [name] ++ q)).isSome :=
    FileSystem.isSome_of_above hleft ((List.prefix_append_right_inj _).2 hq)
  obtain ⟨item, hitem⟩ := Option.isSome_iff_exists.1 hstill
  have hstart := (tree_thinned h).eq_some hitem
  obtain ⟨gs, step, hv⟩ := exists_deletion_of_reach hm h hstart hreach
  obtain ⟨hfailure, hresult⟩ := deletion_outcome hm h hv hstart
  rw [hitem] at hresult
  have hstays : (faults.outcome (tree faults fs p).files item (p.under q)
      (d ++ [name] ++ q)).takes = false := by
    by_contra htakes
    rw [if_pos (Bool.not_eq_false _ ▸ htakes)] at hresult
    cases hresult
  obtain ⟨e, he⟩ : ∃ e, (faults.outcome (tree faults fs p).files item (p.under q)
      (d ++ [name] ++ q)).errno = some e := Outcome.exists_errno hstays
  rw [he, Option.map_some] at hfailure
  cases hreal : Failure.isNoEntry ⟨e, [p.under q]⟩ with
  | true =>
      have hsame : _ = step.files.item? (d ++ [name] ++ q) := item?_left h hv rfl
      exact .inr ⟨q, gs, step, _, hq, hv, hfailure, hreal, by rw [← hsame]; exact hstill⟩
  | false =>
      left
      have hfails : (Visit.deletion q gs step).fails = true := by
        simp [Visit.fails, Visit.failure, hfailure, hreal]
      by_cases hreported : .deletion q gs step ∈ Visit.reported [] (treeVisits faults fs p)
      · exact ⟨_, hreported, .inl hq⟩
      · obtain ⟨w, hw, hwithin⟩ : ∃ w ∈ Visit.reported [] (treeVisits faults fs p),
            q <+: w.place := by
          by_contra hnone
          refine hreported (mem_reported_tree.2 ⟨hv, hfails, fun _ w hw _ hwithin => ?_⟩)
          exact hnone ⟨w, hw, hwithin⟩
        refine ⟨w, hw, ?_⟩
        rcases hlast with rfl | hrefused
        · exact .inr hwithin
        · -- Nothing beneath the directory is visited, so what excuses it is its own listing.
          have hwreach := reach_of_mem hm h ((Visit.reported_sublist [] _).subset hw)
          have hsame : q = w.place := by
            by_contra hne
            exact hrefused (hwreach q hwithin hne)
          exact .inl (hsame ▸ hq)

end Sweep

theorem FileSystem.isOccupied_under (ha : dir.anchor ≠ .relative) (hne : r ≠ [])
    (hi : (fs.item? (dir.parts ++ r)).isSome)
    (hshort : (dir.toPathname.under r).isTooLong = false) :
    fs.isOccupied (dir.toPathname.under r) = true := by
  have hroot : dir.toPathname.isTooLong = false := by
    by_contra hlong
    rw [Pathname.under, Pathname.isTooLong_foldl_child (Bool.not_eq_false _ ▸ hlong)] at hshort
    cases hshort
  exact (leadsTo_of_item? ha (isSome_item?_append hi hne) hroot).isOccupied_under hi hne hshort

theorem Step.isTooLong_of_noEntry {f : Failure} (ha : dir.anchor ≠ .relative) (hne : r ≠ [])
    (htrue : step.isTruthful = true) (hdel : step.call.Deletes (dir.toPathname.under r))
    (hf : step.failure = some f) (hgone : f.isNoEntry = true)
    (hi : (step.files.item? (dir.parts ++ r)).isSome) :
    (dir.toPathname.under r).isTooLong = true := by
  by_contra hshort
  have hocc := FileSystem.isOccupied_under ha hne hi (Bool.not_eq_true _ ▸ hshort)
  rw [unoccupied_of_noEntry htrue hdel hf hgone] at hocc
  cases hocc

def Unseen (dir : Path) (steps : List Step) (n : String) (r : Location) : Prop :=
  ∃ q, q <+: r ∧ (dir.toPathname.under (n :: q)).isTooLong = true ∧
    (q = [] ∨ ∃ step ∈ steps, step.call.Deletes (dir.toPathname.under (n :: q)) ∧
      ∃ f, step.failure = some f ∧ f.isNoEntry = true)

theorem Unseen.mono (h : Unseen dir steps n r) (hsub : steps ⊆ later) : Unseen dir later n r := by
  obtain ⟨q, hq, hlong, hdenied⟩ := h
  refine ⟨q, hq, hlong, hdenied.imp_right ?_⟩
  rintro ⟨step, hstep, hfailed⟩
  exact ⟨step, hsub hstep, hfailed⟩

structure Accounts (dir : Path) (names : List String) (steps : List Step) (gs : FileSystem)
    (failedPaths : List Pathname) (cause : Option Failure) : Prop where
  nodup : failedPaths.Nodup
  spelled : ∀ q ∈ failedPaths, ∃ n ∈ names, ∃ r, (∀ m ∈ n :: r, isStep m = false) ∧
    q = dir.toPathname.under (n :: r)
  cause : cause.map Failure.paths = failedPaths.head?.map fun q => [q]
  left : ∀ n ∈ names, ∀ r, (gs.item? (dir.parts ++ n :: r)).isSome →
    (∃ q ∈ failedPaths, q.covers (dir.toPathname.under (n :: r)) = true ∨
      (dir.toPathname.under (n :: r)).covers q = true) ∨ Unseen dir steps n r

namespace Accounts

theorem append (h : Accounts dir [n] steps gs ps c)
    (hrest : Accounts dir names later hs qs c') (hn : n ∉ names)
    (hthin : FileSystem.Thinned (fun _ => True) gs hs) :
    Accounts dir (n :: names) (steps ++ later) hs (ps ++ qs) (c.or c') where
  nodup := by
    refine List.nodup_append.2 ⟨h.nodup, hrest.nodup, ?_⟩
    rintro x hx y hy rfl
    obtain ⟨m, hm, r, hr, heq⟩ := h.spelled x hx
    obtain ⟨m', hm', r', hr', heq'⟩ := hrest.spelled x hy
    have hsame := Pathname.under_injective hr hr' (heq.symm.trans heq')
    rw [List.mem_singleton.1 hm] at hsame
    exact hn ((List.cons.inj hsame).1 ▸ hm')
  spelled q hq := by
    rcases List.mem_append.1 hq with hq | hq
    · obtain ⟨m, hm, hspelled⟩ := h.spelled q hq
      exact ⟨m, by simp [List.mem_singleton.1 hm], hspelled⟩
    · obtain ⟨m, hm, hspelled⟩ := hrest.spelled q hq
      exact ⟨m, by simp [hm], hspelled⟩
  cause := by rw [Option.map_or, h.cause, hrest.cause, List.head?_append, Option.map_or]
  left m hm r hr := by
    rcases List.mem_cons.1 hm with rfl | hm
    · obtain ⟨item, hitem⟩ := Option.isSome_iff_exists.1 hr
      refine (h.left m (by simp) r (by rw [hthin.eq_some hitem]; rfl)).imp ?_ fun hunseen => ?_
      · rintro ⟨q, hq, hcovers⟩
        exact ⟨q, List.mem_append_left _ hq, hcovers⟩
      · exact hunseen.mono (List.subset_append_left ..)
    · refine (hrest.left m hm r hr).imp ?_ fun hunseen => ?_
      · rintro ⟨q, hq, hcovers⟩
        exact ⟨q, List.mem_append_right _ hq, hcovers⟩
      · exact hunseen.mono (List.subset_append_right ..)

theorem not_covers (h : Accounts dir names steps gs ps c) (hn : isStep n = false)
    (hnot : n ∉ names) (hq : q ∈ ps) : (dir.toPathname.child n).covers q = false := by
  obtain ⟨m, hm, r, hspelled, rfl⟩ := h.spelled q hq
  have hname : ∀ k ∈ [n], isStep k = false := by simp [hn]
  rw [← Bool.not_eq_true]
  intro hcovers
  have hfirst := (Pathname.covers_under hname hspelled (.inl (by simp))).1 hcovers
  rw [List.cons_prefix_cons] at hfirst
  exact hnot (hfirst.1 ▸ hm)

theorem exists_cause (h : Accounts dir names steps gs ps c) (hne : ps ≠ []) :
    ∃ q qs errno, ps = q :: qs ∧ c = some ⟨errno, [q]⟩ := by
  obtain ⟨q, qs, rfl⟩ := List.exists_cons_of_ne_nil hne
  obtain ⟨⟨errno, paths⟩, hc, hpaths⟩ : ∃ f, c = some f ∧ f.paths = [q] :=
    Option.map_eq_some_iff.1 h.cause
  exact ⟨q, qs, errno, rfl, by rw [hc, ← hpaths]⟩

end Accounts

namespace Removal

def failedPaths (r : Removal) : List Pathname :=
  match r.result with
  | .error (.incomplete e) => e.failedPaths
  | _ => []

def cause (r : Removal) : Option Failure :=
  match r.result with
  | .error (.incomplete e) => e.cause
  | _ => none

end Removal

theorem FileSystem.marks_entry (ha : dir.anchor ≠ .relative)
    (hi : fs.item? (dir.parts ++ [n]) = some .directory) :
    (dir.toPathname.child n).Marks fs.here dir.parts n := by
  have hdir := item?_dir_of_isSome (by rw [hi]; rfl)
  have hparts := ne_empty_of_isSome (l := dir.parts) (by rw [hdir]; rfl)
  rw [← Path.toPathname_child ha hparts]
  exact marks_of_absolute ha hparts (isStep_of_mem (by rw [hi]; rfl) (by simp))

theorem Removal.ofTree_left (ha : dir.anchor ≠ .relative)
    (hi : fs.item? (dir.parts ++ [n]) = some .directory)
    (hlong : (dir.toPathname.child n).isTooLong = false)
    (htrue : ∀ step ∈ (ofTree faults fs (dir.toPathname.child n)).steps, step.isTruthful = true)
    (hr : ((ofTree faults fs (dir.toPathname.child n)).files.item? (dir.parts ++ n :: r)).isSome) :
    (∃ v ∈ Visit.reported [] (Sweep.treeVisits faults fs (dir.toPathname.child n)),
      (dir.toPathname.under (n :: v.place)).covers (dir.toPathname.under (n :: r)) = true ∨
        (dir.toPathname.under (n :: r)).covers (dir.toPathname.under (n :: v.place)) = true) ∨
    Unseen dir (ofTree faults fs (dir.toPathname.child n)).steps n r := by
  have hm := FileSystem.marks_entry ha hi
  have hlead := hm.leadsTo rfl hi hlong
  rw [List.append_cons] at hr
  have hr' : ∀ k ∈ r, isStep k = false := fun k hk =>
    FileSystem.isStep_of_mem hr (List.mem_append_right _ hk)
  rcases Sweep.tree_remainder hm hlead hr with
    ⟨v, hv, hcomparable⟩ | ⟨q, gs, step, f, hq, hv, hf, hgone, hstill⟩
  · have hspelled : v.IsSpelled :=
      Sweep.isSpelled_of_mem hlead ((Visit.reported_sublist [] _).subset hv)
    refine .inl ⟨v, hv, hcomparable.imp ?_ ?_⟩
    · exact (Pathname.covers_under hspelled hr' (.inr hm.lastPiece_ne)).2
    · exact (Pathname.covers_under hr' hspelled (.inr hm.lastPiece_ne)).2
  · obtain ⟨hmem, hdeletes⟩ := Sweep.step_of_mem hv
    have hdel : step.call.Deletes (dir.toPathname.under (n :: q)) := hdeletes
    rw [← List.append_cons] at hstill
    refine .inr ⟨q, hq, ?_, .inr ⟨step, hmem, hdel, f, hf, hgone⟩⟩
    exact Step.isTooLong_of_noEntry ha (by simp) (htrue step hmem) hdel hf hgone hstill

theorem Removal.ofTree_accounts {e : IncompleteRemoval} (ha : dir.anchor ≠ .relative)
    (hi : fs.item? (dir.parts ++ [n]) = some .directory)
    (hlong : (dir.toPathname.child n).isTooLong = false)
    (htrue : ∀ step ∈ (ofTree faults fs (dir.toPathname.child n)).steps, step.isTruthful = true)
    (he : (ofTree faults fs (dir.toPathname.child n)).result = .error (.incomplete e)) :
    Accounts dir [n] (ofTree faults fs (dir.toPathname.child n)).steps
      (ofTree faults fs (dir.toPathname.child n)).files e.failedPaths e.cause := by
  have hm := FileSystem.marks_entry ha hi
  have hlead := hm.leadsTo rfl hi hlong
  have hreports : Removal.Reports _ _ _ (ofTree faults fs (dir.toPathname.child n)).result :=
    Removal.tree_reports hm hlead hm.lastPiece_ne
  have hresult := hreports.result
  rw [he] at hresult
  cases hlisted : Visit.reported [] (Sweep.treeVisits faults fs (dir.toPathname.child n)) with
  | nil => rw [hlisted] at hresult; cases hresult
  | cons v vs =>
      rw [hlisted] at hreports hresult
      obtain rfl : e = _ := RemovalError.incomplete.inj (Except.error.inj hresult)
      have hvisit : ∀ w ∈ v :: vs, w ∈ Sweep.treeVisits faults fs (dir.toPathname.child n) :=
        fun w hw => hreports.order.subset hw
      refine ⟨hreports.nodup, fun q hq => ?_, ?_, fun m hmem r hr => ?_⟩
      · obtain ⟨w, hw, rfl⟩ := List.mem_map.1 hq
        have hnames : ∀ k ∈ n :: w.place, isStep k = false :=
          List.forall_mem_cons.2 ⟨hm.isStep, Sweep.isSpelled_of_mem hlead (hvisit w hw)⟩
        exact ⟨n, by simp, w.place, hnames, rfl⟩
      · obtain ⟨f, hf, -⟩ := Visit.exists_failure ((hreports.mem_iff v).1 (by simp)).2.1
        have hpaths := Sweep.paths_of_failure hm hlead (hvisit v (by simp)) hf
        simp [hf, hpaths]
      · obtain rfl := List.mem_singleton.1 hmem
        refine (ofTree_left ha hi hlong htrue hr).imp_left ?_
        rintro ⟨w, hw, hcovers⟩
        rw [hlisted] at hw
        exact ⟨_, List.mem_map.2 ⟨w, hw, rfl⟩, hcovers⟩

section

variable (ha : dir.anchor ≠ .relative) (hn : isStep n = false)

include ha hn

theorem removeAt_ok_accounts
    (htrue : ∀ step ∈ (removeAt faults fs (dir.toPathname.child n)).steps, step.isTruthful = true)
    (hok : (removeAt faults fs (dir.toPathname.child n)).result = .ok ()) :
    Accounts dir [n] (removeAt faults fs (dir.toPathname.child n)).steps
      (removeAt faults fs (dir.toPathname.child n)).files [] none := by
  refine ⟨.nil, by simp, rfl, fun m hm r hr => .inr ⟨[], List.nil_prefix, ?_, .inl rfl⟩⟩
  obtain rfl := List.mem_singleton.1 hm
  have hi := FileSystem.isSome_of_above (d := dir.parts ++ [m]) hr ⟨r, by simp⟩
  by_contra hshort
  have hocc := FileSystem.isOccupied_under ha (by simp) hi (Bool.not_eq_true _ ▸ hshort)
  rw [Pathname.under, List.foldl_cons, List.foldl_nil,
    removeAt_ok (Path.isEmpty_toPathname ha) hn hok htrue] at hocc
  cases hocc

variable (hdir : fs.item? dir.parts = some .directory)

include hdir

theorem removeAt_of_incomplete {e : IncompleteRemoval}
    (he : (removeAt faults fs (dir.toPathname.child n)).result = .error (.incomplete e)) :
    fs.item? (dir.parts ++ [n]) = some .directory ∧
      (dir.toPathname.child n).isTooLong = false ∧
      removeAt faults fs (dir.toPathname.child n) = .ofTree faults fs (dir.toPathname.child n) := by
  have hparts := FileSystem.ne_empty_of_isSome (l := dir.parts) (by rw [hdir]; rfl)
  rw [← Path.toPathname_child ha hparts] at he ⊢
  cases hi : fs.item? (dir.parts ++ [n]) with
  | none =>
      rw [removeAt_missing ha faults hdir hn hi] at he
      cases he
  | some item =>
      rw [removeAt_entry ha faults hi] at he ⊢
      split_ifs at he ⊢ with hlong hitem
      · cases he
      · rw [hitem]
        exact ⟨rfl, Bool.not_eq_true _ ▸ hlong, rfl⟩
      · rw [(Removal.ofFile_entry ha (Bool.not_eq_true _ ▸ hlong) faults hi hitem).2] at he
        unfold Removal.fileResult at he
        split at he
        · cases he
        · split_ifs at he
          cases he

theorem removeAt_accounts
    (htrue : ∀ step ∈ (removeAt faults fs (dir.toPathname.child n)).steps, step.isTruthful = true)
    (hwhole : ¬ ∃ e, (removeAt faults fs (dir.toPathname.child n)).result = .error (.call e)) :
    Accounts dir [n] (removeAt faults fs (dir.toPathname.child n)).steps
      (removeAt faults fs (dir.toPathname.child n)).files
      (removeAt faults fs (dir.toPathname.child n)).failedPaths
      (removeAt faults fs (dir.toPathname.child n)).cause := by
  unfold Removal.failedPaths Removal.cause
  cases hresult : (removeAt faults fs (dir.toPathname.child n)).result with
  | ok u => exact removeAt_ok_accounts ha hn htrue hresult
  | error e =>
      cases e with
      | call e => exact absurd ⟨e, hresult⟩ hwhole
      | incomplete e =>
          obtain ⟨hi, hlong, heq⟩ := removeAt_of_incomplete ha hn hdir hresult
          rw [heq] at htrue hresult ⊢
          exact Removal.ofTree_accounts ha hi hlong htrue hresult

end

end ArtifactCache
