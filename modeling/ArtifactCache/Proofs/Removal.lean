import ArtifactCache.Proofs.FileSystem.Trace
import ArtifactCache.Removal

namespace ArtifactCache

variable {faults : Faults} {fs : FileSystem} {p q dir : Pathname} {name : String} {loc : Location}
  {named : Pathname → Prop} {region : Location → Prop}

namespace Sweep

variable {s t u : Sweep}

structure Advances (faults : Faults) (named : Pathname → Prop) (region : Location → Prop)
    (s t : Sweep) : Prop where
  run : ∃ steps, t.steps = s.steps ++ steps ∧ Clearing faults named region s.files steps t.files
  failures : s.failures <+: t.failures

namespace Advances

theorem refl (faults : Faults) (named : Pathname → Prop) (region : Location → Prop) (s : Sweep) :
    Advances faults named region s s :=
  ⟨⟨[], by simp, .nil faults named region s.files⟩, List.prefix_rfl⟩

theorem trans (h : Advances faults named region s t) (h' : Advances faults named region t u) :
    Advances faults named region s u := by
  obtain ⟨xs, hxs, hx⟩ := h.run
  obtain ⟨ys, hys, hy⟩ := h'.run
  exact ⟨⟨xs ++ ys, by rw [hys, hxs, List.append_assoc], hx.append hy⟩,
    h.failures.trans h'.failures⟩

theorem mono {within : Pathname → Prop} {inner : Location → Prop}
    (h : Advances faults within inner s t) (hnamed : ∀ p, within p → named p)
    (hregion : ∀ l, inner l → region l) : Advances faults named region s t := by
  obtain ⟨xs, hxs, hx⟩ := h.run
  exact ⟨⟨xs, hxs, hx.mono hnamed hregion⟩, h.failures⟩

theorem thinned (h : Advances faults named region s t) :
    FileSystem.Thinned region s.files t.files := by
  obtain ⟨xs, -, hx⟩ := h.run
  exact hx.thinned

theorem foldl {α : Type} {f : Sweep → α → Sweep} {es : List α}
    (hf : ∀ u, Advances faults named region s u → ∀ e ∈ es, Advances faults named region u (f u e))
    (ht : Advances faults named region s t) : Advances faults named region s (es.foldl f t) := by
  induction es generalizing t with
  | nil => exact ht
  | cons e es ih =>
      exact ih (fun u hu e' he' => hf u hu e' (List.mem_cons_of_mem e he'))
        (ht.trans (hf t ht e (by simp)))

end Advances

theorem record_advances (s : Sweep) (p : Pathname) (f : Failure) :
    Advances faults named region s (s.record p f) := by
  unfold record
  split_ifs
  · exact .refl ..
  · exact ⟨⟨[], by simp, .nil ..⟩, List.prefix_append ..⟩

theorem took_advances (faults : Faults) {call : Call} (hc : call.Deletes p) (hp : named p)
    (hregion : ∀ (dir : s.files.Holder) (name : String),
      s.files.resolveEntry p = .ok (dir, name) → region (dir.1 ++ [name])) :
    Advances faults named region s (s.took (faults.perform s.files call)) :=
  ⟨⟨_, rfl, .perform hc hp hregion⟩, List.prefix_rfl⟩

theorem unlink_advances (hp : named p)
    (hregion : ∀ (dir : s.files.Holder) (name : String),
      s.files.resolveEntry p = .ok (dir, name) → region (dir.1 ++ [name])) :
    Advances faults named region s (s.unlink faults p) := by
  have htook := took_advances faults (Or.inl (rfl : Call.unlink p = .unlink p)) hp hregion
  simp only [unlink]
  split
  · exact htook.trans (record_advances ..)
  · exact htook

theorem rmdir_advances (hp : named p)
    (hregion : ∀ (dir : s.files.Holder) (name : String),
      s.files.resolveEntry p = .ok (dir, name) → region (dir.1 ++ [name])) :
    Advances faults named region s (s.rmdir faults p) := by
  have htook := took_advances faults (Or.inr (rfl : Call.rmdir p = .rmdir p)) hp hregion
  simp only [rmdir]
  split
  · split_ifs
    · exact htook
    · exact htook.trans (record_advances ..)
  · exact htook

theorem list_of_listing {entries : List (String × Item)}
    (h : faults.listing fs p = .ok entries) : fs.list p = .ok entries := by
  unfold Faults.listing at h
  split at h <;> simp_all

theorem isStep_of_mem_entriesOf {d : Location} {e : String × Item} (he : e ∈ fs.entriesOf d) :
    isStep e.1 = false :=
  FileSystem.isStep_eq_false_of_isName
    (FileSystem.isName_of_isSome (by rw [FileSystem.mem_entriesOf.1 he]; rfl))

section

variable (h : s.files.LeadsOnlyTo dir loc) (hdir : dir.isEmpty = false) (hn : isStep name = false)

include h hdir hn

theorem finds_of_resolveEntry (c : s.files.Holder) (n : String)
    (hc : s.files.resolveEntry (dir.child name) = .ok (c, n)) : dir.Finds loc (c.1 ++ [n]) := by
  rw [h.resolveEntry_child hdir hn hc]
  exact ⟨[name], by simp, rfl, FileSystem.notTooLong_of_resolveEntry hc⟩

theorem unlink_child_advances :
    Advances faults dir.Beneath (dir.Finds loc) s (s.unlink faults (dir.child name)) :=
  unlink_advances (dir.beneath_child hn) (finds_of_resolveEntry h hdir hn)

theorem removeDirectory_child_advances :
    Advances faults dir.Beneath (dir.Finds loc) s (s.removeDirectory faults (dir.child name)) := by
  unfold removeDirectory
  split_ifs
  · exact unlink_child_advances h hdir hn
  · exact rmdir_advances (dir.beneath_child hn) (finds_of_resolveEntry h hdir hn)

end

-- The induction is on the levels that may still be opened. A directory's pathname leads to the
-- directory or nowhere, and that stays so whatever has been deleted in the meantime.
theorem below_advances (faults : Faults) (level : Nat) (h : s.files.LeadsOnlyTo dir loc) :
    Advances faults dir.Beneath (dir.Finds loc) s (below faults level dir s) := by
  induction level generalizing dir loc s with
  | zero => exact .refl ..
  | succ level ih =>
      simp only [below]
      cases hl : faults.listing s.files dir with
      | error f => exact record_advances ..
      | ok entries =>
          obtain ⟨d, hd, rfl⟩ := FileSystem.leadsTo_of_list (list_of_listing hl)
          obtain rfl := h d hd
          have hempty := hd.notEmpty
          simp only [List.partition_eq_filter_filter]
          refine .foldl ?_ (.foldl ?_ (.foldl ?_ (.refl ..)))
          · intro u hu e he
            have hname := isStep_of_mem_entriesOf (List.mem_filter.1 he).1
            exact removeDirectory_child_advances (hu.thinned.leadsOnlyTo h) hempty hname
          · intro u hu e he
            have hname := isStep_of_mem_entriesOf (List.mem_filter.1 he).1
            exact unlink_child_advances (hu.thinned.leadsOnlyTo h) hempty hname
          · intro u hu e he
            obtain ⟨hdirs, hkind⟩ := List.mem_filter.1 he
            have hmem := (List.mem_filter.1 hdirs).1
            have hname := isStep_of_mem_entriesOf hmem
            have honly : u.files.LeadsOnlyTo (dir.child e.1) (d ++ [e.1]) := by
              refine (hu.thinned.leadsOnlyTo h).child hempty hname fun t ht => ?_
              have hitem := FileSystem.mem_entriesOf.1 hmem
              rw [hu.thinned.eq_some ht, beq_iff_eq.1 hkind] at hitem
              cases hitem
            refine (ih honly).mono (fun q hq => ?_) fun l hl => ?_
            · exact Pathname.Within.beneath (.inr hq) hname
            · exact hl.of_child

theorem files_unlink (faults : Faults) (s : Sweep) (p : Pathname) :
    (s.unlink faults p).files = (faults.perform s.files (.unlink p)).files ∧
      (s.unlink faults p).steps = s.steps ++ [faults.perform s.files (.unlink p)] := by
  simp only [unlink]
  split
  · unfold record; split_ifs <;> exact ⟨rfl, rfl⟩
  · exact ⟨rfl, rfl⟩

theorem files_rmdir (faults : Faults) (s : Sweep) (p : Pathname) :
    (s.rmdir faults p).files = (faults.perform s.files (.rmdir p)).files ∧
      (s.rmdir faults p).steps = s.steps ++ [faults.perform s.files (.rmdir p)] := by
  simp only [rmdir]
  split
  · split_ifs
    · exact ⟨rfl, rfl⟩
    · unfold record; split_ifs <;> exact ⟨rfl, rfl⟩
  · exact ⟨rfl, rfl⟩

theorem isNoEntry_of_rmdir {f : Failure} (h : (s.rmdir faults p).failures = [])
    (hf : (faults.perform s.files (.rmdir p)).failure = some f) : f.isNoEntry = true := by
  simp only [rmdir, hf] at h
  split_ifs at h with hfailed
  · have hnil : s.failures = [] := h
    simp [hasFailedWithin, hnil] at hfailed
  · by_contra hreal
    simp [record, hreal] at h

end Sweep

def Step.Refuses (step : Step) (p : Pathname) : Prop :=
  step.call = .unlink p ∧ ∃ f, step.failure = some f ∧ f.isNoEntry = false

namespace Removal

structure EndsWith (faults : Faults) (p : Pathname) (r : Removal) (before : List Step)
    (mid : FileSystem) (call : Call) : Prop where
  deletes : call.Deletes p
  steps : r.steps = before ++ [faults.perform mid call]
  files : r.files = (faults.perform mid call).files
  beneath : ∀ step ∈ before, ∃ q, step.call.Deletes q ∧ p.Beneath q
  quiet : r.result = .ok () →
    ∀ f, (faults.perform mid call).failure = some f → f.isNoEntry = true
  refused : (∃ e, r.result = .error (.call e)) ↔ (faults.perform mid call).Refuses p

theorem ofFile_calls (faults : Faults) (fs : FileSystem) (hnul : p.hasNul = false) :
    (ofFile faults fs p).steps = [faults.perform fs (.unlink p)] ∧
      (ofFile faults fs p).files = (faults.perform fs (.unlink p)).files := by
  simp [ofFile, deleteFile, hnul]

theorem ofFile_ok (hnul : p.hasNul = false)
    (h : ∀ f, (faults.perform fs (.unlink p)).failure = some f → f.isNoEntry = true) :
    (ofFile faults fs p).result = .ok () := by
  cases hf : (faults.perform fs (.unlink p)).failure with
  | none => simp [ofFile, deleteFile, hnul, hf, Except.mapError]
  | some f => simp [ofFile, deleteFile, hnul, hf, h f hf, Except.mapError]

theorem ofFile_error {f : Failure} (hnul : p.hasNul = false)
    (hf : (faults.perform fs (.unlink p)).failure = some f) (h : f.isNoEntry = false) :
    (ofFile faults fs p).result = .error (.call (.failed f)) := by
  simp [ofFile, deleteFile, hnul, hf, h, Except.mapError]

theorem ofFile_endsWith (h : fs.isOccupied p = true) :
    (ofFile faults fs p).EndsWith faults p [] fs (.unlink p) := by
  have hnul := FileSystem.hasNul_of_isOccupied h
  obtain ⟨hsteps, hfiles⟩ := ofFile_calls faults fs hnul
  refine ⟨.inl rfl, hsteps, hfiles, by simp, ?_, ?_⟩
  · intro hok f hf
    by_contra hreal
    rw [ofFile_error hnul hf (Bool.not_eq_true _ ▸ hreal)] at hok
    cases hok
  · constructor
    · rintro ⟨e, he⟩
      by_contra hclean
      rw [ofFile_ok hnul] at he
      · cases he
      · intro f hf
        by_contra hreal
        exact hclean ⟨Faults.perform_call .., f, hf, Bool.not_eq_true _ ▸ hreal⟩
    · rintro ⟨-, f, hf, hreal⟩
      exact ⟨_, ofFile_error hnul hf hreal⟩

theorem ofTree_result (faults : Faults) (fs : FileSystem) (p : Pathname) :
    ((ofTree faults fs p).result = .ok () ∧ (Sweep.tree faults fs p).failures = []) ∨
    ∃ e, (ofTree faults fs p).result = .error (.incomplete e) ∧ e.failedPaths ≠ [] := by
  simp only [ofTree]
  cases hfail : (Sweep.tree faults fs p).failures with
  | nil => exact .inl ⟨rfl, rfl⟩
  | cons f fails =>
      exact .inr ⟨⟨p, (f :: fails).map (·.1), some f.2⟩, rfl, by simp⟩

theorem ofTree_endsWith (faults : Faults) (h : fs.LeadsOnlyTo p loc) :
    ∃ before mid, (ofTree faults fs p).EndsWith faults p before mid (.rmdir p) := by
  obtain ⟨steps, hsteps, hrun⟩ :=
    (Sweep.below_advances faults (fs.height + 1) (s := .start fs) h).run
  have hlast := Sweep.files_rmdir faults (Sweep.below faults (fs.height + 1) p (.start fs)) p
  refine ⟨steps, (Sweep.below faults (fs.height + 1) p (.start fs)).files, .inr rfl, ?_, hlast.1,
    hrun.deletes, ?_, ?_⟩
  · exact hlast.2.trans (by rw [hsteps]; rfl)
  · intro hok f hf
    rcases ofTree_result faults fs p with ⟨-, hnil⟩ | ⟨e, he, -⟩
    · exact Sweep.isNoEntry_of_rmdir hnil hf
    · rw [hok] at he; cases he
  · rcases ofTree_result faults fs p with ⟨hres, -⟩ | ⟨e, hres, -⟩ <;> simp [Step.Refuses, hres]

theorem ofFile_clearing (hnamed : named p)
    (hregion : ∀ (dir : fs.Holder) (name : String), fs.resolveEntry p = .ok (dir, name) →
      region (dir.1 ++ [name])) :
    Clearing faults named region fs (ofFile faults fs p).steps (ofFile faults fs p).files := by
  unfold ofFile deleteFile
  cases hnul : p.hasNul with
  | true => exact .nil ..
  | false => exact .perform (.inl rfl) hnamed hregion

theorem ofTree_clearing (h : fs.LeadsOnlyTo p loc) (hbeneath : ∀ l, p.Finds loc l → region l)
    (hentry : ∀ gs, FileSystem.Thinned (loc <+: ·) fs gs →
      ∀ (dir : gs.Holder) (name : String), gs.resolveEntry p = .ok (dir, name) →
        region (dir.1 ++ [name])) :
    Clearing faults p.Within region fs (ofTree faults fs p).steps (ofTree faults fs p).files := by
  have hbelow := Sweep.below_advances faults (fs.height + 1) (s := .start fs) h
  have hlast : Sweep.Advances faults p.Within region
      (Sweep.below faults (fs.height + 1) p (.start fs)) (Sweep.tree faults fs p) :=
    Sweep.rmdir_advances (.inl rfl) (hentry _ (hbelow.thinned.mono fun _ hl => hl.beneath))
  obtain ⟨steps, hsteps, hrun⟩ := ((hbelow.mono (fun _ => .inr) hbeneath).trans hlast).run
  have htree : (ofTree faults fs p).steps = steps := hsteps
  rw [htree]
  exact hrun

end Removal

theorem removeAt_unoccupied (faults : Faults) (h : fs.isOccupied p = false) :
    removeAt faults fs p = .nothing fs := by
  have hlink : fs.isLink p = false := by
    rw [← Bool.not_eq_true, FileSystem.isLink_iff]
    rintro ⟨l, t, hl, ht⟩
    rw [FileSystem.isOccupied_iff.2 ⟨l, hl, by rw [ht]; rfl⟩] at h
    cases h
  simp [removeAt, hlink, h]

theorem removeAt_incomplete {e : IncompleteRemoval}
    (h : (removeAt faults fs p).result = .error (.incomplete e)) : e.failedPaths ≠ [] := by
  unfold removeAt at h
  have hfile : (Removal.ofFile faults fs p).result ≠ .error (.incomplete e) := by
    unfold Removal.ofFile
    split <;> (next r _ => cases r <;> simp [Except.mapError])
  split_ifs at h
  · exact absurd h hfile
  · simp [Removal.nothing] at h
  · exact absurd h hfile
  · rcases Removal.ofTree_result faults fs p with ⟨hok, -⟩ | ⟨e', he', hne⟩
    · rw [hok] at h; cases h
    · rw [he'] at h; cases h; exact hne

section

variable (hp : p.isEmpty = false) (hn : isStep name = false)

include hp hn

theorem removeAt_cases (faults : Faults) (h : fs.LeadsOnlyTo p loc) :
    (fs.isOccupied (p.child name) = false ∧
      removeAt faults fs (p.child name) = .nothing fs) ∨
    (fs.isOccupied (p.child name) = true ∧
      removeAt faults fs (p.child name) = .ofFile faults fs (p.child name)) ∨
    (fs.isOccupied (p.child name) = true ∧ fs.LeadsOnlyTo (p.child name) (loc ++ [name]) ∧
      removeAt faults fs (p.child name) = .ofTree faults fs (p.child name)) := by
  cases hocc : fs.isOccupied (p.child name) with
  | false => exact .inl ⟨rfl, removeAt_unoccupied faults hocc⟩
  | true =>
      right
      unfold removeAt
      cases hlink : fs.isLink (p.child name) with
      | true => exact .inl ⟨rfl, by simp⟩
      | false =>
          cases hdir : fs.isDirectory (p.child name) with
          | false => exact .inl ⟨rfl, by simp [hocc]⟩
          | true =>
              refine .inr ⟨rfl, h.child hp hn fun t ht => ?_, by simp [hocc]⟩
              obtain ⟨l, hl, hi⟩ := FileSystem.isOccupied_iff.1 hocc
              obtain rfl := h.resolveLink_child hp hn hl hi
              rw [FileSystem.isLink_iff.2 ⟨_, t, hl, ht⟩] at hlink
              cases hlink

theorem removeAt_clearing (faults : Faults) (h : fs.LeadsOnlyTo p loc) :
    Clearing faults (p.child name).Within (fun l => p.Finds loc l ∧ loc ++ [name] <+: l) fs
      (removeAt faults fs (p.child name)).steps (removeAt faults fs (p.child name)).files := by
  have hitself : ∀ gs : FileSystem, gs.LeadsOnlyTo p loc →
      ∀ (dir : gs.Holder) (name' : String), gs.resolveEntry (p.child name) = .ok (dir, name') →
        p.Finds loc (dir.1 ++ [name']) ∧ loc ++ [name] <+: dir.1 ++ [name'] := by
    intro gs hgs dir name' he
    rw [hgs.resolveEntry_child hp hn he]
    exact ⟨⟨[name], by simp, rfl, FileSystem.notTooLong_of_resolveEntry he⟩, List.prefix_rfl⟩
  rcases removeAt_cases hp hn faults h with ⟨-, heq⟩ | ⟨-, heq⟩ | ⟨-, honly, heq⟩ <;> rw [heq]
  · exact .nil ..
  · exact Removal.ofFile_clearing (.inl rfl) (hitself fs h)
  · refine Removal.ofTree_clearing honly (fun l hl => ⟨hl.of_child, hl.beneath⟩) ?_
    intro gs hgs
    exact hitself gs (hgs.leadsOnlyTo h)

theorem removeAt_endsWith (faults : Faults) (h : fs.isOccupied (p.child name) = true) :
    ∃ before mid call,
      (removeAt faults fs (p.child name)).EndsWith faults (p.child name) before mid call := by
  obtain ⟨loc, honly⟩ := fs.exists_leadsOnlyTo p
  rcases removeAt_cases hp hn faults honly with ⟨hocc, -⟩ | ⟨hocc, heq⟩ | ⟨hocc, honly, heq⟩
  · rw [h] at hocc; cases hocc
  · rw [heq]; exact ⟨_, _, _, Removal.ofFile_endsWith hocc⟩
  · rw [heq]
    obtain ⟨before, mid, hend⟩ := Removal.ofTree_endsWith faults honly
    exact ⟨before, mid, _, hend⟩

theorem removeAt_ok (hok : (removeAt faults fs (p.child name)).result = .ok ())
    (htrue : ∀ step ∈ (removeAt faults fs (p.child name)).steps, step.isTruthful = true) :
    (removeAt faults fs (p.child name)).files.isOccupied (p.child name) = false := by
  cases hocc : fs.isOccupied (p.child name) with
  | false => rw [removeAt_unoccupied faults hocc]; exact hocc
  | true =>
      obtain ⟨before, mid, call, hend⟩ := removeAt_endsWith hp hn faults hocc
      rw [hend.files]
      refine Step.unoccupied hp hn rfl hend.deletes (htrue _ ?_) (hend.quiet hok)
      rw [hend.steps]
      simp

theorem removeAt_unhindered
    (hclean : ∀ step ∈ (removeAt faults fs (p.child name)).steps,
      step.call.Deletes (p.child name) → step.failure = none) :
    (removeAt faults fs (p.child name)).files.isOccupied (p.child name) = false := by
  cases hocc : fs.isOccupied (p.child name) with
  | false => rw [removeAt_unoccupied faults hocc]; exact hocc
  | true =>
      obtain ⟨before, mid, call, hend⟩ := removeAt_endsWith hp hn faults hocc
      have hnone : (faults.perform mid call).failure = none := by
        refine hclean _ ?_ (by rw [Faults.perform_call]; exact hend.deletes)
        rw [hend.steps]
        simp
      rw [hend.files]
      exact (Faults.removes_of_run hend.deletes (Faults.perform_ok hnone)).unoccupied hp hn

theorem removeAt_refused_iff (faults : Faults) (fs : FileSystem) :
    (∃ e, (removeAt faults fs (p.child name)).result = .error (.call e)) ↔
      ∃ step ∈ (removeAt faults fs (p.child name)).steps, step.Refuses (p.child name) := by
  cases hocc : fs.isOccupied (p.child name) with
  | false => simp [removeAt_unoccupied faults hocc, Removal.nothing]
  | true =>
      obtain ⟨before, mid, call, hend⟩ := removeAt_endsWith hp hn faults hocc
      rw [hend.refused, hend.steps]
      constructor
      · exact fun h => ⟨_, by simp, h⟩
      · rintro ⟨step, hstep, hrefuses⟩
        rcases List.mem_append.1 hstep with hbefore | hlast
        · obtain ⟨q, hq, hbeneath⟩ := hend.beneath step hbefore
          exact absurd (Call.Deletes.unique hq (.inl hrefuses.1)) (hbeneath.ne_child hn rfl)
        · rwa [List.mem_singleton.1 hlast] at hrefuses

end

end ArtifactCache
