import ArtifactCache.Log.Routing
import ArtifactCache.Proofs.CacheStore.Plan

namespace ArtifactCache

open Log.Routing (reaches)

variable {faults : Faults} {fs : FileSystem} {serial : Nat} {p : Pathname} {s : CacheStore}
  {record : Log.Record}

theorem Removal.ofFile_ne_nulInPath (faults : Faults) (fs : FileSystem) (hnul : p.hasNul = false) :
    (Removal.ofFile faults fs p).result ≠ .error (.call .nulInPath) := by
  intro h
  cases hf : (faults.perform fs (.unlink p)).failure with
  | none =>
      rw [ofFile_ok hnul (by simp [hf])] at h
      cases h
  | some f =>
      cases hreal : f.isNoEntry with
      | true =>
          rw [ofFile_ok hnul (by simp [hf, hreal])] at h
          cases h
      | false =>
          rw [ofFile_error hnul hf hreal] at h
          cases h

-- A NUL is never complained about: where a pathname has one in it, nothing is there to be removed.
theorem removeAt_ne_nulInPath (faults : Faults) (fs : FileSystem) (p : Pathname) :
    (removeAt faults fs p).result ≠ .error (.call .nulInPath) := by
  cases hocc : fs.isOccupied p with
  | false => simp [removeAt_unoccupied faults hocc, Removal.nothing]
  | true =>
      have hfile := Removal.ofFile_ne_nulInPath faults fs (FileSystem.hasNul_of_isOccupied hocc)
      unfold removeAt
      split_ifs
      · exact hfile
      · simp [Removal.nothing]
      · exact hfile
      · rcases Removal.ofTree_result faults fs p with ⟨hok, -⟩ | ⟨e, he, -⟩ <;> simp [*]

theorem reaches_of_mem_removeAt (h : record ∈ (removeAt faults fs p).log) :
    reaches record.logger = true := by
  have hlogger : reaches Removal.logger = true := by decide +kernel
  have hfile : (Removal.ofFile faults fs p).log = [] := by
    unfold Removal.ofFile
    split <;> rfl
  unfold removeAt at h
  split_ifs at h
  · rw [hfile] at h; cases h
  · cases h
  · rw [hfile] at h; cases h
  · obtain ⟨f, -, rfl⟩ := List.mem_map.1 h
    exact hlogger

namespace CacheStore

variable {targets : List Path}

theorem reaches_logger : reaches logger = true := by decide +kernel

theorem dispose_goes_on (faults : Faults) (fs : FileSystem) (target : Path) (targets : List Path) :
    let r := removeAt faults fs target.toPathname
    let rest := dispose faults r.files targets
    let d := dispose faults fs (target :: targets)
    (∃ e, r.result = .error (.call e) ∧ d.aborted = some e ∧
      d.log = deletingRecord target :: r.log) ∨
    (d.aborted = rest.aborted ∧ d.log = deletingRecord target :: r.log ++ rest.log) := by
  simp only [dispose]
  cases (removeAt faults fs target.toPathname).result with
  | ok u => exact .inr ⟨rfl, rfl⟩
  | error e =>
      cases e with
      | call e => exact .inl ⟨e, rfl, rfl, rfl⟩
      | incomplete e => exact .inr ⟨rfl, rfl⟩

theorem dispose_ne_nulInPath (faults : Faults) (fs : FileSystem) (targets : List Path) :
    (dispose faults fs targets).aborted ≠ some .nulInPath := by
  induction targets generalizing fs with
  | nil => nofun
  | cons target targets ih =>
      rcases dispose_goes_on faults fs target targets with ⟨e, he, hab, -⟩ | ⟨hab, -⟩
      · rw [hab]
        rintro ⟨⟩
        exact removeAt_ne_nulInPath faults fs target.toPathname he
      · rw [hab]
        exact ih _

theorem reaches_of_mem_dispose (h : record ∈ (dispose faults fs targets).log) :
    reaches record.logger = true := by
  induction targets generalizing fs with
  | nil => cases h
  | cons target targets ih =>
      have hfirst (hmem : record ∈ deletingRecord target ::
          (removeAt faults fs target.toPathname).log) : reaches record.logger = true := by
        rcases List.mem_cons.1 hmem with rfl | hmem
        · exact reaches_logger
        · exact reaches_of_mem_removeAt hmem
      rcases dispose_goes_on faults fs target targets with ⟨e, -, -, hlog⟩ | ⟨-, hlog⟩
      · rw [hlog] at h
        exact hfirst h
      · rw [hlog] at h
        exact (List.mem_append.1 h).elim hfirst ih

theorem disposalResult_ne_nulInPath (faults : Faults) (fs : FileSystem) (root : Path)
    (targets : List Path) :
    disposalResult root (dispose faults fs targets) ≠ .error (.removal (.call .nulInPath)) := by
  have hne := dispose_ne_nulInPath faults fs targets
  unfold disposalResult
  cases hab : (dispose faults fs targets).aborted with
  | some e =>
      rintro ⟨⟩
      exact hne hab
  | none =>
      simp only
      split_ifs <;> nofun

theorem disposalResult_ne_nameless (root p : Path) (d : Disposal) :
    disposalResult root d ≠ .error (.nameless p) := by
  unfold disposalResult
  cases d.aborted with
  | some e => nofun
  | none =>
      simp only
      split_ifs <;> nofun

theorem wipe_ends (faults : Faults) (fs : FileSystem) (serial : Nat) (s : CacheStore) :
    let w := s.wipe faults fs serial
    (∃ f, w.result = .error (.removal (.call (.failed f))) ∧ w.log = []) ∨
    ((s.place fs).name = "" ∧ w.result = .error (.nameless (s.place fs)) ∧ w.log = []) ∨
    (w.result = .ok () ∧ w.log = [absentRecord s.root]) ∨
    ∃ gs targets log, w.result = disposalResult s.root (dispose faults gs targets) ∧
      w.log = log ++ (dispose faults gs targets).log ∧
      ∀ record ∈ log, ∃ f, record = stayedRecord s.root f := by
  by_cases hanchored : s.Anchored fs
  case neg =>
    rw [wipe_of_not_anchored hanchored]
    exact .inl ⟨_, rfl, rfl⟩
  rw [wipe_of_anchored hanchored]
  cases leftovers fs (s.place fs) with
  | error f => exact .inl ⟨f, rfl, rfl⟩
  | ok old =>
      simp only [wipeWith]
      split_ifs with hocc hname hold
      · exact .inr (.inl ⟨hname, rfl, rfl⟩)
      · refine .inr (.inr (.inr ?_))
        generalize hstep : faults.perform fs (aside (s.place fs) serial) = step
        obtain ⟨call, failure, files⟩ := step
        unfold aside at hstep
        rw [hstep]
        cases failure with
        | none => exact ⟨_, _, [], rfl, rfl, by simp⟩
        | some f => exact ⟨_, _, [stayedRecord s.root f], rfl, rfl, by simp⟩
      · exact .inr (.inr (.inl ⟨rfl, rfl⟩))
      · exact .inr (.inr (.inr ⟨_, _, [], rfl, rfl, by simp⟩))

theorem wipe_ne_nulInPath (faults : Faults) (fs : FileSystem) (serial : Nat) (s : CacheStore) :
    (s.wipe faults fs serial).result ≠ .error (.removal (.call .nulInPath)) := by
  rcases wipe_ends faults fs serial s with ⟨f, h, -⟩ | ⟨-, h, -⟩ | ⟨h, -⟩ |
    ⟨gs, targets, log, h, -⟩
  · simp [h]
  · simp [h]
  · simp [h]
  · rw [h]
    exact disposalResult_ne_nulInPath _ _ _ _

theorem wipe_nameless {p : Path} (h : (s.wipe faults fs serial).result = .error (.nameless p)) :
    (s.place fs).name = "" := by
  rcases wipe_ends faults fs serial s with ⟨f, hend, -⟩ | ⟨hname, -⟩ | ⟨hend, -⟩ |
    ⟨gs, targets, log, hend, -⟩
  · rw [h] at hend; cases hend
  · exact hname
  · rw [h] at hend; cases hend
  · rw [h] at hend
    exact absurd hend.symm (disposalResult_ne_nameless _ _ _)

theorem reaches_of_mem_wipe (h : record ∈ (s.wipe faults fs serial).log) :
    reaches record.logger = true := by
  rcases wipe_ends faults fs serial s with ⟨f, -, hlog⟩ | ⟨-, -, hlog⟩ | ⟨-, hlog⟩ |
    ⟨gs, targets, log, -, hlog, hstayed⟩
  · rw [hlog] at h; cases h
  · rw [hlog] at h; cases h
  · rw [hlog, List.mem_singleton] at h
    rw [h]
    exact reaches_logger
  · rw [hlog] at h
    rcases List.mem_append.1 h with h | h
    · obtain ⟨f, rfl⟩ := hstayed record h
      exact reaches_logger
    · exact reaches_of_mem_dispose h

end CacheStore

end ArtifactCache
