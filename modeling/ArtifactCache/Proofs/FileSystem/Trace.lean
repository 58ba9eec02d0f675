import ArtifactCache.FileSystem.Fault
import ArtifactCache.Proofs.FileSystem.Thinning

namespace ArtifactCache

variable {faults : Faults} {fs gs hs : FileSystem} {call : Call} {step : Step}
  {steps xs ys : List Step} {p q : Pathname} {name : String}
  {named within : Pathname → Prop} {region inner : Location → Prop}

def Call.Deletes (c : Call) (p : Pathname) : Prop := c = .unlink p ∨ c = .rmdir p

instance (c : Call) (p : Pathname) : Decidable (c.Deletes p) :=
  inferInstanceAs (Decidable (_ ∨ _))

theorem Call.Deletes.unique (h : call.Deletes p) (h' : call.Deletes q) : p = q := by
  rcases h with rfl | rfl <;> rcases h' with h' | h' <;> cases h' <;> rfl

namespace Faults

@[simp] theorem perform_call (faults : Faults) (fs : FileSystem) (call : Call) :
    (faults.perform fs call).call = call := by
  unfold perform
  split <;> rfl

theorem perform_ok (h : (faults.perform fs call).failure = none) :
    call.run fs = .ok (faults.perform fs call).files := by
  unfold perform at h ⊢
  split at h <;> simp_all

theorem perform_cases (faults : Faults) (fs : FileSystem) (call : Call) :
    (faults.perform fs call).files = fs ∨ call.run fs = .ok (faults.perform fs call).files := by
  unfold perform
  split <;> simp_all

theorem perform_failed {f : Failure} (h : (faults.perform fs call).failure = some f)
    (hreal : f.isNoEntry = false) : (faults.perform fs call).files = fs := by
  unfold perform at h ⊢
  split at h
  · rfl
  · rfl
  · obtain rfl := Option.some.inj h
    cases hreal
  · cases h

theorem perform_rename {f : Failure} (h : (faults.perform fs (.rename p q)).failure = some f) :
    (faults.perform fs (.rename p q)).files = fs := by
  unfold perform at h ⊢
  cases hr : faults.rename <;> simp only [Call.fault?, hr, Option.map_none, Option.map_some] at h ⊢
  split at h <;> simp_all

theorem removes_of_run (hc : call.Deletes p) (h : call.run fs = .ok gs) :
    FileSystem.Removes p fs gs := by
  rcases hc with rfl | rfl
  · exact FileSystem.removes_of_unlink h
  · exact FileSystem.removes_of_rmdir h

end Faults

def Traced (faults : Faults) : FileSystem → List Step → FileSystem → Prop
  | fs, [], gs => gs = fs
  | fs, step :: steps, gs =>
      step = faults.perform fs step.call ∧ Traced faults step.files steps gs

theorem traced_append :
    Traced faults fs (xs ++ ys) gs ↔ ∃ hs, Traced faults fs xs hs ∧ Traced faults hs ys gs := by
  induction xs generalizing fs with
  | nil => simp [Traced]
  | cons x xs ih => simp only [List.cons_append, Traced, ih]; tauto

theorem Traced.perform (faults : Faults) (fs : FileSystem) (call : Call) :
    Traced faults fs [faults.perform fs call] (faults.perform fs call).files :=
  ⟨by rw [Faults.perform_call], rfl⟩

structure Clearing (faults : Faults) (named : Pathname → Prop) (region : Location → Prop)
    (fs : FileSystem) (steps : List Step) (gs : FileSystem) : Prop where
  traced : Traced faults fs steps gs
  deletes : ∀ step ∈ steps, ∃ p, step.call.Deletes p ∧ named p
  thinned : FileSystem.Thinned region fs gs

namespace Clearing

theorem nil (faults : Faults) (named : Pathname → Prop) (region : Location → Prop)
    (fs : FileSystem) : Clearing faults named region fs [] fs :=
  ⟨rfl, by simp, .refl region fs⟩

theorem append (h : Clearing faults named region fs xs gs)
    (h' : Clearing faults named region gs ys hs) :
    Clearing faults named region fs (xs ++ ys) hs where
  traced := traced_append.2 ⟨gs, h.traced, h'.traced⟩
  deletes step hstep := (List.mem_append.1 hstep).elim (h.deletes step) (h'.deletes step)
  thinned := h.thinned.trans h'.thinned

theorem mono (h : Clearing faults within inner fs steps gs) (hnamed : ∀ p, within p → named p)
    (hregion : ∀ l, inner l → region l) : Clearing faults named region fs steps gs where
  traced := h.traced
  deletes step hstep := (h.deletes step hstep).imp fun p hp => ⟨hp.1, hnamed p hp.2⟩
  thinned := h.thinned.mono hregion

theorem perform (hc : call.Deletes p) (hp : named p)
    (hregion : ∀ (dir : fs.Holder) (name : String), fs.resolveEntry p = .ok (dir, name) →
      region (dir.1 ++ [name])) :
    Clearing faults named region fs [faults.perform fs call] (faults.perform fs call).files where
  traced := .perform faults fs call
  deletes step hstep := by
    obtain rfl := List.mem_singleton.1 hstep
    exact ⟨p, by rwa [Faults.perform_call], hp⟩
  thinned := by
    rcases faults.perform_cases fs call with heq | hrun
    · rw [heq]; exact .refl region fs
    · exact (Faults.removes_of_run hc hrun).thinned hregion

theorem thinned_before (h : Clearing faults named region fs (xs ++ ys) gs) :
    ∃ hs, Traced faults fs xs hs ∧ Traced faults hs ys gs ∧
      FileSystem.Thinned (fun _ => True) fs hs := by
  obtain ⟨hs, hxs, hys⟩ := traced_append.1 h.traced
  refine ⟨hs, hxs, hys, ?_⟩
  have hdel : ∀ step ∈ xs, ∃ p, step.call.Deletes p ∧ named p :=
    fun step hstep => h.deletes step (List.mem_append_left ys hstep)
  clear h hys
  induction xs generalizing fs with
  | nil => rw [hxs]; exact .refl _ fs
  | cons step xs ih =>
      obtain ⟨p, hc, hp⟩ := hdel step (by simp)
      have hfirst : FileSystem.Thinned (fun _ => True) fs step.files := by
        rw [hxs.1]
        exact (perform hc hp fun _ _ _ => trivial).thinned
      exact hfirst.trans (ih hxs.2 fun step hstep => hdel step (by simp [hstep]))

end Clearing

def Step.isTruthful (step : Step) : Bool :=
  match step.call, step.failure with
  | .unlink p, some f | .rmdir p, some f => !(f.isNoEntry && step.files.isOccupied p)
  | _, _ => true

theorem Step.isTruthful_of_done {step : Step} (h : step.failure = none) :
    step.isTruthful = true := by
  rw [isTruthful, h]
  cases step.call <;> rfl

theorem Step.unoccupied_of_noEntry {f : Failure} (htrue : step.isTruthful = true)
    (hc : step.call.Deletes p) (hf : step.failure = some f) (hgone : f.isNoEntry = true) :
    step.files.isOccupied p = false := by
  rcases hc with hcall | hcall <;> simpa [isTruthful, hcall, hf, hgone] using htrue

theorem Step.unoccupied (hp : p.isEmpty = false) (hn : isStep name = false)
    (hstep : step = faults.perform fs call) (hc : call.Deletes (p.child name))
    (htrue : step.isTruthful = true) (hdone : ∀ f, step.failure = some f → f.isNoEntry = true) :
    step.files.isOccupied (p.child name) = false := by
  cases hf : step.failure with
  | none =>
      subst hstep
      exact (Faults.removes_of_run hc (Faults.perform_ok hf)).unoccupied hp hn
  | some f =>
      have hcall : step.call = call := by rw [hstep, Faults.perform_call]
      exact unoccupied_of_noEntry htrue (hcall ▸ hc) hf (hdone f hf)

end ArtifactCache
