import ArtifactCache.Proofs.FileSystem.Above
import ArtifactCache.Proofs.Removal.Verdict

namespace ArtifactCache

variable {faults : Faults} {fs : FileSystem} {p : Pathname} {loc r : Location}
  {entries : List (String × Item)}

namespace Pathname

def withSlash (p : Pathname) : Pathname := ⟨p.pieces ++ [""]⟩

theorem begins_withSlash (p : Pathname) : p.pieces <+: p.withSlash.pieces := List.prefix_append ..

theorem front_withSlash (p : Pathname) : p.withSlash.front = p.pieces := by
  simp [front, withSlash, lastPiece]

theorem child_withSlash (hlast : p.lastPiece ≠ "") (name : String) :
    p.withSlash.child name = p.child name := by
  have hpieces : (p.withSlash.child name).pieces = (p.child name).pieces := by
    rw [pieces_child, pieces_child, front_withSlash, front_eq_pieces hlast]
  exact congrArg Pathname.mk hpieces

theorem entryParts_withSlash (p : Pathname) : p.withSlash.entryParts = p.entryParts := by
  have hsame : withoutFinalSlashes (p.pieces ++ [""]) = withoutFinalSlashes p.pieces :=
    List.rdropWhile_concat_pos _ _ _ (by simp)
  rw [entryParts, entryParts, withSlash, hsame]

theorem withSlash_covers_under (hlast : p.lastPiece ≠ "") (hr : ∀ n ∈ r, isStep n = false)
    (hne : r ≠ []) : p.withSlash.covers (p.under r) = false := by
  rw [← Bool.not_eq_true, covers, List.isPrefixOf_iff_prefix, pieces_under hr hne,
    front_eq_pieces hlast, withSlash, List.prefix_append_right_inj]
  intro hbegins
  cases hr "" (hbegins.subset (by simp))

end Pathname

namespace FileSystem

section

variable (h : fs.LeadsTo p loc)

include h

theorem LeadsTo.withSlash (hlong : p.withSlash.isTooLong = false) : fs.LeadsTo p.withSlash loc :=
  (leadsTo_iff_of_tail rfl (idle_slashes 1) h.notEmpty).2 ⟨hlong, h⟩

theorem LeadsTo.isLink_withSlash : fs.isLink p.withSlash = false := by
  rw [← Bool.not_eq_true, isLink_iff]
  rintro ⟨l, t, hl, ht⟩
  obtain ⟨-, -, hwalk⟩ := follow_eq_ok_iff.1 h.1
  obtain ⟨-, -, hwalk'⟩ := follow_eq_ok_iff.1 hl
  obtain ⟨m, -, hm⟩ := walkWithin_append_directory false (List.cons_ne_nil "" []) h.2 hwalk
  rw [← startOf_of_begins fs p.begins_withSlash h.notEmpty, Pathname.withSlash, hm, walkWithin_eq,
    walk_skip (.inl rfl)] at hwalk'
  obtain rfl := Except.ok.inj hwalk'
  rw [h.2] at ht
  cases ht

theorem LeadsTo.rmdir_withSlash {gs : FileSystem} (hlong : p.withSlash.isTooLong = false) :
    gs.rmdir p.withSlash = gs.rmdir p := by
  have hshort := Pathname.notTooLong_of_begins p.begins_withSlash hlong
  have hempty := Pathname.isEmpty_of_begins p.begins_withSlash h.notEmpty
  have hentry : gs.resolveEntry p.withSlash = gs.resolveEntry p := by
    rw [resolveEntry, resolveEntry, Pathname.entryParts_withSlash, follow, follow, hshort, hlong,
      hempty, h.notEmpty, Pathname.isAbsolute_of_begins p.begins_withSlash h.notEmpty]
  rw [rmdir, rmdir, hentry]

end

end FileSystem

structure Faults.Passes (faults : Faults) (p : Pathname) : Prop where
  rmdir : faults.rmdir p = none
  list : faults.list p = none

theorem Faults.Passes.listing (hp : faults.Passes p) (h : fs.LeadsTo p loc) :
    faults.listing fs p = .ok (fs.entriesOf loc) := by
  rw [Faults.listing, hp.list, h.list]

def Step.isRefused (step : Step) : Bool := step.failure.any fun f => !f.isNoEntry

theorem Faults.Passes.perform_rmdir {q : Pathname} (hp : faults.Passes p) (hq : faults.Passes q)
    (hrun : fs.rmdir q = fs.rmdir p) :
    (faults.perform fs (.rmdir q)).files = (faults.perform fs (.rmdir p)).files ∧
      (faults.perform fs (.rmdir q)).isRefused = (faults.perform fs (.rmdir p)).isRefused := by
  simp only [Faults.perform, Call.fault?, Call.run, hp.rmdir, hq.rmdir, hrun]
  cases fs.rmdir p <;> exact ⟨rfl, rfl⟩

namespace Sweep

variable {s : Sweep} {level : Nat}

theorem paths_noted (p : Pathname) (step : Step) :
    (noted p step.failure).map (·.1) = if step.isRefused then [p] else [] := by
  rw [Step.isRefused]
  cases step.failure with
  | none => rfl
  | some f => cases hgone : f.isNoEntry <;> simp [noted, hgone]

def lower (faults : Faults) (fs : FileSystem) (p : Pathname) : Sweep :=
  below faults (fs.height + 1) p (start fs)

def last (faults : Faults) (fs : FileSystem) (p : Pathname) : Step :=
  faults.perform (lower faults fs p).files (.rmdir p)

theorem below_of_child {q : Pathname} (hchild : ∀ n, q.child n = p.child n)
    (hlisting : faults.listing s.files p = .ok entries)
    (hlisting' : faults.listing s.files q = .ok entries) :
    below faults (level + 1) q s = below faults (level + 1) p s := by
  have hleads : leadsToDirectory s.files q = leadsToDirectory s.files p := by
    funext ⟨n, item⟩
    cases item <;> simp only [leadsToDirectory, hchild]
  have hdescend : descend faults level q = descend faults level p := by
    funext t e
    rw [descend, descend, hchild]
  have htake : take faults (leadsToDirectory s.files p) q =
      take faults (leadsToDirectory s.files p) p := by
    funext t e
    rw [take, take, hchild]
  rw [below_succ, below_succ, hlisting, hlisting', hleads, hdescend, htake]

section

variable (h : fs.LeadsTo p loc) (hp : faults.Passes p) (hlast : p.lastPiece ≠ "")

include h

theorem item?_of_isRefused (hrefused : (last faults fs p).isRefused = true) :
    (tree faults fs p).files.item? loc = some .directory := by
  obtain ⟨f, hf, hreal⟩ := (Option.any_eq_true _ _).1 hrefused
  have hv : .deletion [] (lower faults fs p).files (last faults fs p) ∈ treeVisits faults fs p :=
    List.mem_append_right _ (List.mem_singleton_self _)
  have hleft := item?_of_failed h hv rfl hf (by simpa using hreal)
  rwa [Visit.place, List.append_nil, h.2] at hleft

include hp

theorem under_of_mem_lower {x : Pathname × Failure} (hx : x ∈ (lower faults fs p).failures) :
    ∃ r ≠ [], (∀ n ∈ r, isStep n = false) ∧ x.1 = p.under r := by
  rcases (below_walks faults p (fs.height + 1) [] (start fs)).exists_visit hx with
    hnone | ⟨v, hv, hfailure, -, hpath⟩
  · cases hnone
  refine ⟨v.place, ?_, isSpelled_of_mem h (List.mem_append_left _ hv), hpath⟩
  rcases mem_visits_cases hv with rfl | ⟨entries, -, ⟨e, -, -, u, hv, -⟩ | ⟨e, -, found, rfl⟩⟩
  · have hlisted : faults.listing (start fs).files p = .ok (fs.entriesOf loc) := hp.listing h
    rw [Pathname.under_nil, hlisted] at hfailure
    cases hfailure
  · exact List.ne_nil_of_length_pos
      (Nat.lt_of_lt_of_le (by simp) (place_of_mem_visits hv).1.length_le)
  · simp [Visit.place]

include hlast

theorem hasFailedWithin_lower :
    (lower faults fs p).hasFailedWithin p = !(lower faults fs p).failures.isEmpty := by
  have hcovers : ∀ x ∈ (lower faults fs p).failures, p.covers x.1 = true := by
    intro x hx
    obtain ⟨r, -, hr, hpath⟩ := under_of_mem_lower h hp hx
    rw [hpath]
    exact (Pathname.covers_under (r := []) (by simp) hr (.inr hlast)).2 List.nil_prefix
  rw [hasFailedWithin]
  cases hfailures : (lower faults fs p).failures with
  | nil => rfl
  | cons x xs => simp [hcovers x (by simp [hfailures])]

theorem hasFailedWithin_withSlash :
    (lower faults fs p).hasFailedWithin p.withSlash = false := by
  rw [hasFailedWithin, List.any_eq_false]
  intro x hx
  obtain ⟨r, hne, hr, hpath⟩ := under_of_mem_lower h hp hx
  rw [hpath, Pathname.withSlash_covers_under hlast hr hne]
  exact Bool.false_ne_true

theorem paths_tree (hnone : (lower faults fs p).failures = []) :
    (tree faults fs p).failures.map (·.1) = if (last faults fs p).isRefused then [p] else [] := by
  have htree : (tree faults fs p).failures = _ := failures_rmdir faults (lower faults fs p) p
  rw [htree, hasFailedWithin_lower h hp hlast, hnone, ← paths_noted]
  rfl

theorem failures_tree_of_failed (hsome : (lower faults fs p).failures ≠ []) :
    (tree faults fs p).failures = (lower faults fs p).failures := by
  have htree : (tree faults fs p).failures = _ := failures_rmdir faults (lower faults fs p) p
  have hfailed : (!(lower faults fs p).failures.isEmpty) = true := by simpa using hsome
  rw [htree, hasFailedWithin_lower h hp hlast, if_pos hfailed, List.append_nil]

variable (hp' : faults.Passes p.withSlash) (hlong : p.withSlash.isTooLong = false)

include hp' hlong

theorem lower_withSlash : lower faults fs p.withSlash = lower faults fs p :=
  below_of_child (Pathname.child_withSlash hlast) (hp.listing h) (hp'.listing (h.withSlash hlong))

theorem last_withSlash : (last faults fs p.withSlash).files = (last faults fs p).files ∧
    (last faults fs p.withSlash).isRefused = (last faults fs p).isRefused := by
  rw [last, lower_withSlash h hp hlast hp' hlong]
  exact hp.perform_rmdir hp' (h.rmdir_withSlash hlong)

theorem files_withSlash : (tree faults fs p.withSlash).files = (tree faults fs p).files := by
  have hfiles (q : Pathname) : (tree faults fs q).files = (last faults fs q).files :=
    (files_rmdir faults (lower faults fs q) q).1
  rw [hfiles, hfiles, (last_withSlash h hp hlast hp' hlong).1]

theorem paths_withSlash : (tree faults fs p.withSlash).failures.map (·.1) =
    (lower faults fs p).failures.map (·.1) ++
      if (last faults fs p).isRefused then [p.withSlash] else [] := by
  have htree : (tree faults fs p.withSlash).failures = _ :=
    failures_rmdir faults (lower faults fs p.withSlash) p.withSlash
  rw [htree, lower_withSlash h hp hlast hp' hlong, hasFailedWithin_withSlash h hp hlast,
    ← (last_withSlash h hp hlast hp' hlong).2, ← paths_noted, List.map_append, last,
    lower_withSlash h hp hlast hp' hlong]
  rfl

end

end Sweep

namespace Removal

def isRefused (r : Removal) : Bool := r.steps.getLast?.any Step.isRefused

theorem isRefused_ofTree (faults : Faults) (fs : FileSystem) (p : Pathname) :
    (ofTree faults fs p).isRefused = (Sweep.last faults fs p).isRefused := by
  have hsteps : (ofTree faults fs p).steps = _ :=
    (Sweep.files_rmdir faults (Sweep.lower faults fs p) p).2
  rw [isRefused, hsteps, List.getLast?_concat]
  rfl

theorem result_of_nil (h : (Sweep.tree faults fs p).failures.map (·.1) = []) :
    (ofTree faults fs p).result = .ok () := by
  simp [ofTree, List.map_eq_nil_iff.1 h]

theorem exists_result {ps : List Pathname} (hne : ps ≠ [])
    (h : (Sweep.tree faults fs p).failures.map (·.1) = ps) :
    ∃ e, (ofTree faults fs p).result = .error (.incomplete e) ∧ e.failedPaths = ps := by
  simp only [ofTree]
  cases hfailures : (Sweep.tree faults fs p).failures with
  | nil => exact absurd (by rw [← h, hfailures]; rfl) hne
  | cons f fails => exact ⟨_, rfl, by rw [← h, hfailures]⟩

inductive Matches (p : Pathname) (refused : Bool) :
    Except RemovalError Unit → Except RemovalError Unit → Prop
  | done : Matches p refused (.ok ()) (.ok ())
  | own {e e' : IncompleteRemoval} (h : e.failedPaths = [p])
      (h' : e'.failedPaths = [p.withSlash]) :
      Matches p refused (.error (.incomplete e)) (.error (.incomplete e'))
  | beneath {e e' : IncompleteRemoval} (hne : e.failedPaths ≠ [])
      (h : ∀ q ∈ e.failedPaths, p.Beneath q)
      (h' : e'.failedPaths = e.failedPaths ++ if refused then [p.withSlash] else []) :
      Matches p refused (.error (.incomplete e)) (.error (.incomplete e'))

end Removal

theorem Removal.ofTree_matches (h : fs.LeadsTo p loc) (hp : faults.Passes p)
    (hlast : p.lastPiece ≠ "") (hp' : faults.Passes p.withSlash)
    (hlong : p.withSlash.isTooLong = false) :
    Matches p (ofTree faults fs p).isRefused (ofTree faults fs p).result
      (ofTree faults fs p.withSlash).result := by
  have hpaths' := Sweep.paths_withSlash h hp hlast hp' hlong
  rw [isRefused_ofTree]
  by_cases hnone : (Sweep.lower faults fs p).failures = []
  -- With nothing failed beneath it, the directory itself is all that there may be to report.
  · have hpaths := Sweep.paths_tree h hp hlast hnone
    rw [hnone, List.map_nil, List.nil_append] at hpaths'
    cases hrefused : (Sweep.last faults fs p).isRefused with
    | false =>
        rw [hrefused] at hpaths hpaths'
        rw [result_of_nil hpaths, result_of_nil hpaths']
        exact .done
    | true =>
        rw [hrefused] at hpaths hpaths'
        obtain ⟨e, herror, he⟩ := exists_result (List.cons_ne_nil _ _) hpaths
        obtain ⟨e', herror', he'⟩ := exists_result (List.cons_ne_nil _ _) hpaths'
        rw [herror, herror']
        exact .own he he'
  · have hsome : (Sweep.lower faults fs p).failures.map (·.1) ≠ [] :=
      fun hnil => hnone (List.map_eq_nil_iff.1 hnil)
    have hpaths := congrArg (List.map (·.1)) (Sweep.failures_tree_of_failed h hp hlast hnone)
    obtain ⟨e, herror, he⟩ := exists_result hsome hpaths
    obtain ⟨e', herror', he'⟩ := exists_result (by simp [hsome]) hpaths'
    rw [herror, herror']
    refine .beneath (he ▸ hsome) (fun q hq => ?_) (by rw [he', he])
    obtain ⟨x, hx, rfl⟩ := List.mem_map.1 (he ▸ hq)
    obtain ⟨r, hne, hr, hpath⟩ := Sweep.under_of_mem_lower h hp hx
    exact ⟨r, hne, hr, hpath ▸ Pathname.pieces_under hr hne⟩

theorem removeAt_withSlash (h : fs.LeadsTo p loc) (hlink : fs.isLink p = false)
    (hlast : p.lastPiece ≠ "") (hp : faults.Passes p) (hp' : faults.Passes p.withSlash) :
    (p.withSlash.isTooLong = true → removeAt faults fs p.withSlash = .nothing fs) ∧
    (p.withSlash.isTooLong = false →
      (removeAt faults fs p.withSlash).files = (removeAt faults fs p).files ∧
      Removal.Matches p (removeAt faults fs p).isRefused (removeAt faults fs p).result
        (removeAt faults fs p.withSlash).result) ∧
    ((removeAt faults fs p).isRefused = true →
      (removeAt faults fs p).files.item? loc = some .directory) := by
  rw [removeAt_of_leadsTo faults h hlink]
  refine ⟨fun hlong => removeAt_unoccupied faults (FileSystem.unoccupied_of_isTooLong hlong),
    fun hlong => ?_, fun hrefused => ?_⟩
  · rw [removeAt_of_leadsTo faults (h.withSlash hlong) h.isLink_withSlash]
    exact ⟨Sweep.files_withSlash h hp hlast hp' hlong, Removal.ofTree_matches h hp hlast hp' hlong⟩
  · rw [Removal.isRefused_ofTree] at hrefused
    exact Sweep.item?_of_isRefused h hrefused

def lockedFiles : FileSystem :=
  ((FileSystem.empty.including ⟨["", "d"]⟩ .directory).including ⟨["", "d", "x"]⟩
    (.file [])).including ⟨["", "d", "y"]⟩ (.file [])

def locking : Faults :=
  { Faults.never with unlink := fun p => if p.lastPiece = "x" then some (.deny ⟨13⟩) else none }

theorem lockedFiles_told_twice :
    ∃ e e', (removeAt locking lockedFiles ⟨["d"]⟩).result = .error (.incomplete e) ∧
      e.failedPaths = [⟨["d", "x"]⟩] ∧
      (removeAt locking lockedFiles ⟨["d", ""]⟩).result = .error (.incomplete e') ∧
      e'.failedPaths = [⟨["d", "x"]⟩, ⟨["d", ""]⟩] := by
  have hd : lockedFiles.LeadsTo ⟨["d"]⟩ ["d"] := ⟨by decide +kernel, by decide +kernel⟩
  obtain ⟨-, hshort, -⟩ := @removeAt_withSlash locking lockedFiles _ _ hd (by decide +kernel)
    (by decide) ⟨rfl, rfl⟩ ⟨rfl, rfl⟩
  obtain ⟨-, hmatches⟩ := hshort (by decide)
  have hresult : (removeAt locking lockedFiles ⟨["d"]⟩).result = .error (.incomplete
      ⟨⟨["d"]⟩, [⟨["d", "x"]⟩], some ⟨⟨13⟩, [⟨["d", "x"]⟩]⟩⟩) := by
    decide +kernel
  have hrefused : (removeAt locking lockedFiles ⟨["d"]⟩).isRefused = true := by decide +kernel
  rw [hresult, hrefused] at hmatches
  change Removal.Matches _ _ _ (removeAt locking lockedFiles ⟨["d", ""]⟩).result at hmatches
  generalize (removeAt locking lockedFiles ⟨["d", ""]⟩).result = result at hmatches ⊢
  cases hmatches with
  | own h h' => cases h
  | beneath hne h h' => exact ⟨_, _, hresult, rfl, rfl, h'⟩

end ArtifactCache
