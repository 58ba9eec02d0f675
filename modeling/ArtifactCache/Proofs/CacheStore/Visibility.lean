import ArtifactCache.Proofs.CacheStore.Course

namespace ArtifactCache

variable {faults : Faults} {fs gs : FileSystem} {serial : Nat} {s : CacheStore} {p : Pathname}
  {below : Location} {steps : List Step}

def FileSystem.foundAt (fs : FileSystem) (p : Pathname) (below : Location) : Option Item :=
  match fs.resolveLink p with
  | .ok loc => fs.item? (loc ++ below)
  | .error _ => none

theorem FileSystem.foundAt_eq_none (h : fs.isOccupied p = false) : fs.foundAt p below = none := by
  unfold foundAt
  cases hl : fs.resolveLink p with
  | error e => rfl
  | ok loc =>
      rw [← Option.not_isSome_iff_eq_none]
      intro hi
      rw [isOccupied_iff.2 ⟨loc, hl, isSome_of_above hi (List.prefix_append ..)⟩] at h
      cases h

def Call.isRename : Call → Bool
  | .rename _ _ => true
  | _ => false

theorem Call.Deletes.isRename {call : Call} (h : call.Deletes p) : call.isRename = false := by
  rcases h with rfl | rfl <;> rfl

namespace CacheStore

theorem disposal_before (h : s.Placed fs) {done rest : List Step}
    (hsteps : (disposal faults fs serial s).steps = done ++ rest) :
    ∃ now, Traced faults (plan faults fs serial s).start done now ∧
      Traced faults now rest (disposal faults fs serial s).files ∧
      FileSystem.Thinned (fun _ => True) (plan faults fs serial s).start now ∧
      done.any (·.call.isRename) = false := by
  obtain ⟨loc, honly⟩ := (plan faults fs serial s).start.exists_leadsOnlyTo (s.beside fs)
  have hclear := disposal_clearing h faults serial honly
  rw [hsteps] at hclear
  obtain ⟨now, hdone, hrest, hthin⟩ := hclear.thinned_before
  refine ⟨now, hdone, hrest, hthin, ?_⟩
  rw [List.any_eq_false]
  intro step hstep
  obtain ⟨p, hp, -⟩ := hclear.deletes step (List.mem_append_left _ hstep)
  rw [hp.isRename]
  exact Bool.false_ne_true

theorem unmoved_foundAt (h : s.Placed fs) (hocc : fs.isOccupied (s.place fs).toPathname = false)
    (hstart : (plan faults fs serial s).start = fs) {done rest : List Step}
    (hsteps : (disposal faults fs serial s).steps = done ++ rest) :
    ∃ now, Traced faults fs done now ∧ Traced faults now rest (disposal faults fs serial s).files ∧
      ∀ below, now.foundAt (s.place fs).toPathname below =
        if done.any (·.call.isRename) then none else fs.foundAt (s.place fs).toPathname below := by
  obtain ⟨now, hdone, hrest, hthin, hnone⟩ := disposal_before h hsteps
  rw [hstart] at hdone hthin
  refine ⟨now, hdone, hrest, fun below => ?_⟩
  rw [hnone, FileSystem.foundAt_eq_none (hthin.unoccupied hocc), FileSystem.foundAt_eq_none hocc]
  rfl

theorem moved_foundAt (h : s.Placed fs) (hlinks : fs.NoLinkOn (s.place fs).parent.parts)
    {P : Location} (hP : fs.LeadsTo (s.beside fs) P)
    (hgone : (plan faults fs serial s).start.item? (P ++ [(s.place fs).name]) = none)
    {done rest : List Step} (hsteps : (disposal faults fs serial s).steps = done ++ rest) :
    ∃ now, Traced faults (plan faults fs serial s).start done now ∧
      Traced faults now rest (disposal faults fs serial s).files ∧
      ∀ below, now.foundAt (s.place fs).toPathname below = none := by
  obtain ⟨now, hdone, hrest, hthin, -⟩ := disposal_before h hsteps
  have hlead := leadsTo_beside h hlinks hP (start_dir h hP faults serial)
  have hmissing := hthin.unoccupied (unoccupied_of_gone h hlead hgone)
  exact ⟨now, hdone, hrest, fun below => FileSystem.foundAt_eq_none hmissing⟩

theorem wipe_whole_or_gone (h : s.Placed fs) (hlinks : fs.NoLinkOn (s.place fs).parent.parts)
    (hrename : ∀ step ∈ (s.wipe faults fs serial).steps,
      step.call.isRename = true → step.failure = none)
    {done rest : List Step} (hsteps : (s.wipe faults fs serial).steps = done ++ rest) :
    ∃ now, Traced faults fs done now ∧ Traced faults now rest (s.wipe faults fs serial).files ∧
      ∀ below, now.foundAt (s.place fs).toPathname below =
        if done.any (·.call.isRename) then none else fs.foundAt (s.place fs).toPathname below := by
  have htraced := wipe_traced h faults serial
  rw [hsteps] at htraced
  cases done with
  | nil => exact ⟨fs, rfl, htraced, fun below => rfl⟩
  | cons step done =>
      rcases wipe_cases h faults serial with ⟨e, -, heq⟩ | ⟨-, hfiles, hwipe, -⟩
      · rw [heq] at hsteps; cases hsteps
      · rw [hfiles]
        rw [hwipe] at hsteps hrename
        rcases plan_cases h faults serial with
          ⟨hocc, heq⟩ | ⟨-, hf, heq⟩ | ⟨-, ⟨P, item, hP, hmoved⟩, -, heq⟩
        · have hplan := congrArg Plan.steps heq
          rw [hplan, List.nil_append] at hsteps
          exact unmoved_foundAt h hocc (congrArg Plan.start heq) hsteps
        · refine absurd (hrename (faults.perform fs (aside (s.place fs) serial)) ?_ ?_) hf
          · rw [heq]; simp
          · rw [Faults.perform_call]; rfl
        · have hplan := congrArg Plan.steps heq
          rw [hplan, List.singleton_append] at hsteps
          obtain ⟨rfl, hlater⟩ := List.cons.inj hsteps
          have hgone : (plan faults fs serial s).start.item? (P ++ [(s.place fs).name]) = none := by
            rw [heq]
            have hne := ne_name_of_isTrashName (isTrashName_trashName (s.place fs) (serial + 1))
            exact hmoved.gone hne.symm List.prefix_rfl
          obtain ⟨now, hdone, hrest, hfound⟩ := moved_foundAt h hlinks hP hgone hlater
          rw [heq] at hdone
          refine ⟨now, ⟨by rw [Faults.perform_call], hdone⟩, hrest, fun below => ?_⟩
          rw [hfound, List.any_cons, Faults.perform_call]
          rfl

def filledFiles : FileSystem :=
  ((FileSystem.empty.including ⟨["", "cache"]⟩ .directory).including ⟨["", "cache", "entry"]⟩
    (.file [])).including ⟨["", ".cache.trash-old"]⟩ (.file [])

def trashKept : Faults :=
  { Faults.never with
    unlink := fun p => if p.lastPiece = ".cache.trash-old" then some (.deny ⟨13⟩) else none }

theorem filledFiles_whole_or_gone : topStore.Placed filledFiles ∧
    filledFiles.NoLinkOn (topStore.place filledFiles).parent.parts ∧
    (∀ step ∈ (topStore.wipe trashKept filledFiles 0).steps,
      step.call.isRename = true → step.failure = none) ∧
    ∃ now, Traced trashKept filledFiles ((topStore.wipe trashKept filledFiles 0).steps.take 1) now ∧
      now.foundAt (topStore.place filledFiles).toPathname ["entry"] = none := by
  have hplaced : topStore.Placed filledFiles :=
    ⟨by decide +kernel, by decide +kernel, by decide +kernel⟩
  have hlinks : filledFiles.NoLinkOn (topStore.place filledFiles).parent.parts := by
    decide +kernel
  have hrename : ∀ step ∈ (topStore.wipe trashKept filledFiles 0).steps,
      step.call.isRename = true → step.failure = none := by decide +kernel
  obtain ⟨now, hdone, -, hfound⟩ :=
    wipe_whole_or_gone hplaced hlinks hrename (List.take_append_drop 1 _).symm
  refine ⟨hplaced, hlinks, hrename, now, hdone, ?_⟩
  rw [hfound]
  decide +kernel

end CacheStore

end ArtifactCache
