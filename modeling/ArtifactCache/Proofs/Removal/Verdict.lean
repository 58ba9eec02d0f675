import ArtifactCache.Proofs.FileSystem.Moving
import ArtifactCache.Proofs.Removal.Found

namespace ArtifactCache

variable {faults : Faults} {fs gs : FileSystem} {p q : Pathname} {loc l r : Location} {v : Visit}
  {f : Failure}

namespace FileSystem

theorem LeadsTo.isOccupied (h : fs.LeadsTo p loc) (hlink : fs.isLink p = false) :
    fs.isOccupied p = true :=
  isOccupied_iff.2 ⟨loc, h.resolveLink hlink, by rw [h.2]; rfl⟩

theorem Thinned.isLink {region : Location → Prop} (h : Thinned region fs gs)
    (hlink : fs.isLink p = false) : gs.isLink p = false := by
  by_contra hne
  obtain ⟨l, t, hl, ht⟩ := isLink_iff.1 (Bool.not_eq_false _ ▸ hne)
  rw [isLink_iff.2 ⟨l, t, h.follow hl (by rw [ht]; rfl), h.eq_some ht⟩] at hlink
  cases hlink

end FileSystem

theorem removeAt_of_leadsTo (faults : Faults) (h : fs.LeadsTo p loc)
    (hlink : fs.isLink p = false) : removeAt faults fs p = .ofTree faults fs p := by
  have hdir : fs.isDirectory p = true := FileSystem.isDirectory_iff.2 ⟨loc, h⟩
  simp [removeAt, hlink, h.isOccupied hlink, hdir]

namespace Sweep

section

variable (h : fs.LeadsTo p loc)

include h

theorem item?_of_failed (hv : v ∈ treeVisits faults fs p) (hdeletion : v.isListing = false)
    (hf : v.failure = some f) (hreal : f.isNoEntry = false) :
    (tree faults fs p).files.item? (loc ++ v.place) = fs.item? (loc ++ v.place) := by
  rw [item?_left h hv hdeletion, ← item?_found h hv]
  have hmade := (tree_walks faults fs p).isMade v hv
  cases v with
  | listing => cases hdeletion
  | deletion r gs step =>
      obtain ⟨call, -, rfl⟩ := hmade
      rw [Visit.left, Faults.perform_failed hf hreal]
      rfl

theorem gone_of_quiet (hquiet : (tree faults fs p).failures = [])
    (htrue : ∀ step ∈ (tree faults fs p).steps, step.isTruthful = true) :
    (tree faults fs p).files.item? loc = none ∨
      (tree faults fs p).files.isOccupied p = false := by
  have hlast := files_rmdir faults (below faults (fs.height + 1) p (start fs)) p
  have hthin := (below_advances faults (fs.height + 1) (s := start fs) h.leadsOnlyTo).thinned
  rw [tree, hlast.1]
  cases hf : (faults.perform (below faults (fs.height + 1) p (start fs)).files
      (.rmdir p)).failure with
  | none =>
      have hlost := ((hthin.leadsOnlyTo h.leadsOnlyTo).lost_of_rmdir (Faults.perform_ok hf)).2.2
      exact .inl (by rw [hlost.items, if_pos rfl])
  | some f =>
      have hgone := isNoEntry_of_rmdir hquiet hf
      have hstep := htrue (faults.perform (below faults (fs.height + 1) p (start fs)).files
        (.rmdir p)) (by rw [tree, hlast.2]; simp)
      exact .inr (Step.unoccupied_of_noEntry hstep (.inr (Faults.perform_call ..)) hf hgone)

end

end Sweep

/-- An error is raised if and only if something of the tree is left, and everything that the error
lists is there. -/
structure Removal.IsTrue (fs : FileSystem) (loc : Location) (r : Removal) : Prop where
  raised_iff : (∃ e, r.result = .error (.incomplete e)) ↔
    ∃ l, loc <+: l ∧ (fs.item? l).isSome ∧ (r.files.item? l).isSome
  listed : ∀ e, r.result = .error (.incomplete e) →
    ∀ q ∈ e.failedPaths, r.files.isOccupied q = true

theorem Removal.ofTree_raised_iff :
    (∃ e, (ofTree faults fs p).result = .error (.incomplete e)) ↔
      (Sweep.tree faults fs p).failures ≠ [] := by
  simp only [ofTree]
  cases (Sweep.tree faults fs p).failures <;> simp

theorem Removal.mem_failedPaths {e : IncompleteRemoval}
    (he : (ofTree faults fs p).result = .error (.incomplete e)) :
    q ∈ e.failedPaths ↔ ∃ f, (q, f) ∈ (Sweep.tree faults fs p).failures := by
  simp only [ofTree] at he
  cases hfailures : (Sweep.tree faults fs p).failures with
  | nil => rw [hfailures] at he; cases he
  | cons x xs =>
      rw [hfailures] at he
      cases he
      rw [List.mem_map]
      constructor
      · rintro ⟨y, hy, rfl⟩
        exact ⟨y.2, hy⟩
      · rintro ⟨f, hf⟩
        exact ⟨(q, f), hf, rfl⟩

theorem Removal.exists_failedPath {e : IncompleteRemoval}
    (he : (ofTree faults fs p).result = .error (.incomplete e)) : ∃ q, q ∈ e.failedPaths := by
  obtain ⟨x, hx⟩ := List.exists_mem_of_ne_nil _ (ofTree_raised_iff.1 ⟨e, he⟩)
  exact ⟨x.1, (mem_failedPaths he).2 ⟨x.2, hx⟩⟩

theorem Removal.listed_visit {e : IncompleteRemoval}
    (he : (ofTree faults fs p).result = .error (.incomplete e)) (hq : q ∈ e.failedPaths) :
    ∃ v ∈ Sweep.treeVisits faults fs p, q = p.under v.place ∧
      ∃ f, v.failure = some f ∧ f.isNoEntry = false := by
  obtain ⟨f, hf⟩ := (mem_failedPaths he).1 hq
  rcases (Sweep.tree_walks faults fs p).exists_visit hf with hx | ⟨v, hv, hfailure, hreal, hpath⟩
  · cases hx
  · exact ⟨v, hv, hpath, f, hfailure, hreal⟩

section

variable (h : fs.LeadsTo p loc)

include h

theorem Sweep.item?_of_isOccupied (hlink : fs.isLink p = false)
    (hv : v ∈ treeVisits faults fs p)
    (hocc : (tree faults fs p).files.isOccupied (p.under v.place) = true) :
    ((tree faults fs p).files.item? (loc ++ v.place)).isSome ∧
      (tree faults fs p).files.LeadsTo p loc := by
  have hthin : FileSystem.Thinned _ fs (tree faults fs p).files := tree_thinned h
  have hspelled := isSpelled_of_mem h hv
  obtain ⟨item, hitem, -⟩ := exists_item_of_mem h hv
  rw [Visit.IsSpelled] at hspelled
  generalize v.place = r at hocc hspelled hitem ⊢
  cases r using List.reverseRecOn with
  | nil =>
      rw [List.append_nil]
      obtain ⟨l, hl, hi⟩ := FileSystem.isOccupied_iff.1 hocc
      have hsame := (hthin.follow hl hi).symm.trans (h.resolveLink hlink)
      obtain rfl := Except.ok.inj hsame
      obtain ⟨item, hfinal⟩ := Option.isSome_iff_exists.1 hi
      have hdir := h.2
      rw [hthin.eq_some hfinal] at hdir
      rw [Option.some.inj hdir] at hfinal
      exact ⟨hi, FileSystem.leadsTo_of_resolveLink hl hfinal⟩
  | append_singleton q n =>
      have habove : ∀ m ∈ q, isStep m = false := fun m hm => hspelled m (by simp [hm])
      rw [← List.append_assoc] at hitem ⊢
      rw [← Pathname.child_under] at hocc
      have hholder := FileSystem.item?_dir_of_isSome (by rw [hitem]; rfl)
      obtain ⟨d, hd, hi⟩ := FileSystem.leadsTo_of_isOccupied
        (Pathname.isEmpty_under h.notEmpty habove) (hspelled n (by simp)) hocc
      obtain rfl := hthin.leadsOnlyTo (h.leadsOnlyTo.under h.notEmpty hholder) d hd
      obtain ⟨c, hc⟩ := FileSystem.exists_leadsTo_of_under h.notEmpty habove hd
      obtain rfl := hthin.leadsOnlyTo h.leadsOnlyTo c hc
      exact ⟨hi, hc⟩

theorem Sweep.isOccupied_of_item? (hlink : fs.isLink p = false)
    (hi : ((tree faults fs p).files.item? (loc ++ r)).isSome)
    (hlead : (tree faults fs p).files.LeadsTo p loc) (hshort : (p.under r).isTooLong = false) :
    (tree faults fs p).files.isOccupied (p.under r) = true := by
  rcases eq_or_ne r [] with rfl | hne
  · exact hlead.isOccupied ((tree_thinned h).isLink hlink)
  · exact hlead.isOccupied_under hi hne hshort

theorem Removal.exists_left {e : IncompleteRemoval}
    (hlistings : ∀ r gs f, .listing r gs (.error f) ∈ Sweep.treeVisits faults fs p →
      f.isNoEntry = false → ((Sweep.tree faults fs p).files.item? (loc ++ r)).isSome)
    (he : (ofTree faults fs p).result = .error (.incomplete e)) (hq : q ∈ e.failedPaths) :
    ∃ r, q = p.under r ∧ (fs.item? (loc ++ r)).isSome ∧
      ((Sweep.tree faults fs p).files.item? (loc ++ r)).isSome := by
  obtain ⟨v, hv, rfl, f, hf, hreal⟩ := listed_visit he hq
  obtain ⟨item, hitem, -⟩ := Sweep.exists_item_of_mem h hv
  refine ⟨v.place, rfl, by rw [hitem]; rfl, ?_⟩
  cases v with
  | listing r gs result =>
      cases result with
      | ok entries => cases hf
      | error g =>
          obtain rfl : g = f := Option.some.inj hf
          exact hlistings r gs g hv hreal
  | deletion r gs step =>
      rw [Sweep.item?_of_failed h hv rfl hf hreal, hitem]
      rfl

theorem Removal.raised_of_left (hlink : fs.isLink p = false)
    (htrue : ∀ step ∈ (ofTree faults fs p).steps, step.isTruthful = true)
    (hi : ((Sweep.tree faults fs p).files.item? loc).isSome)
    (hlead : (Sweep.tree faults fs p).files.LeadsTo p loc) :
    ∃ e, (ofTree faults fs p).result = .error (.incomplete e) := by
  refine ofTree_raised_iff.2 fun hquiet => ?_
  rcases Sweep.gone_of_quiet h hquiet htrue with hgone | hunoccupied
  · rw [hgone] at hi
    cases hi
  · rw [hlead.isOccupied ((Sweep.tree_thinned h).isLink hlink)] at hunoccupied
    cases hunoccupied

end

theorem removeAt_isTrue_iff (h : fs.LeadsTo p loc) (hlink : fs.isLink p = false)
    (htrue : ∀ step ∈ (removeAt faults fs p).steps, step.isTruthful = true) :
    (removeAt faults fs p).IsTrue fs loc ↔
      (((removeAt faults fs p).files.item? loc).isSome →
        (removeAt faults fs p).files.LeadsTo p loc) ∧
      (∀ r gs f, .listing r gs (.error f) ∈ Sweep.treeVisits faults fs p → f.isNoEntry = false →
        ((removeAt faults fs p).files.item? (loc ++ r)).isSome) ∧
      ∀ e, (removeAt faults fs p).result = .error (.incomplete e) →
        ∀ q ∈ e.failedPaths, q.isTooLong = false := by
  rw [removeAt_of_leadsTo faults h hlink] at htrue ⊢
  constructor
  · intro htruth
    refine ⟨fun hi => ?_, fun r gs f hv hreal => ?_, fun e he q hq => ?_⟩
    · obtain ⟨e, he⟩ := htruth.raised_iff.2 ⟨loc, List.prefix_rfl, by rw [h.2]; rfl, hi⟩
      obtain ⟨q, hq⟩ := Removal.exists_failedPath he
      obtain ⟨v, hv, rfl, -⟩ := Removal.listed_visit he hq
      exact (Sweep.item?_of_isOccupied h hlink hv (htruth.listed e he _ hq)).2
    · have hfailure := (Sweep.tree_walks faults fs p).listing_reported hv hreal
      obtain ⟨e, he⟩ := Removal.ofTree_raised_iff.2 (List.ne_nil_of_mem hfailure)
      have hq := (Removal.mem_failedPaths he).2 ⟨f, hfailure⟩
      exact (Sweep.item?_of_isOccupied h hlink hv (htruth.listed e he _ hq)).1
    · exact FileSystem.notTooLong_of_isOccupied (htruth.listed e he q hq)
  · rintro ⟨hlead, hlistings, hshort⟩
    refine ⟨⟨?_, ?_⟩, fun e he q hq => ?_⟩
    · rintro ⟨e, he⟩
      obtain ⟨q, hq⟩ := Removal.exists_failedPath he
      obtain ⟨r, -, hstart, hend⟩ := Removal.exists_left h hlistings he hq
      exact ⟨loc ++ r, List.prefix_append .., hstart, hend⟩
    · rintro ⟨l, hl, -, hend⟩
      have hroot := FileSystem.isSome_of_above hend hl
      exact Removal.raised_of_left h hlink htrue hroot (hlead hroot)
    · obtain ⟨r, rfl, -, hend⟩ := Removal.exists_left h hlistings he hq
      have hroot := FileSystem.isSome_of_above hend (List.prefix_append loc r)
      exact Sweep.isOccupied_of_item? h hlink hend (hlead hroot) (hshort e he _ hq)

def bareFiles : FileSystem :=
  (FileSystem.empty.including ⟨["", "d"]⟩ .directory).including ⟨["", "d", "sub"]⟩ .directory

def unreadable : Faults := { Faults.never with list := fun _ => some (.deny ⟨13⟩) }

theorem bareFiles_mistaken :
    ¬ (removeAt unreadable bareFiles ⟨["d", "sub"]⟩).IsTrue bareFiles ["d", "sub"] ∧
      ¬ (removeAt .never bareFiles ⟨["d", "sub", ".."]⟩).IsTrue bareFiles ["d"] := by
  have hsub : bareFiles.LeadsTo ⟨["d", "sub"]⟩ ["d", "sub"] :=
    ⟨by decide +kernel, by decide +kernel⟩
  have hd : bareFiles.LeadsTo ⟨["d", "sub", ".."]⟩ ["d"] := ⟨by decide +kernel, by decide +kernel⟩
  constructor
  · rw [removeAt_isTrue_iff hsub (by decide +kernel) (by decide +kernel)]
    rintro ⟨-, hlistings, -⟩
    have hleft := hlistings [] bareFiles ⟨⟨13⟩, [⟨["d", "sub"]⟩]⟩
      (List.mem_append_left _ (Sweep.listing_mem_visits ..)) rfl
    exact absurd hleft (by decide +kernel)
  · rw [removeAt_isTrue_iff hd (by decide +kernel) (by decide +kernel)]
    rintro ⟨hlead, -, -⟩
    exact absurd (hlead (by decide +kernel)).1 (by decide +kernel)

end ArtifactCache
