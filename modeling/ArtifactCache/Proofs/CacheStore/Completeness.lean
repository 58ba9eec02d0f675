import ArtifactCache.Proofs.CacheStore.Course

namespace ArtifactCache.CacheStore

variable {faults : Faults} {fs gs : FileSystem} {serial : Nat} {s : CacheStore} {P : Location}
  {name : String}

theorem ok_of_disposalResult {root : Path} {d : Disposal} (h : disposalResult root d = .ok ()) :
    d.aborted = none ∧ d.failedPaths = [] := by
  unfold disposalResult at h
  cases hab : d.aborted with
  | some e => rw [hab] at h; cases h
  | none =>
      rw [hab] at h
      simp only at h
      split_ifs at h with hfailed
      exact ⟨rfl, hfailed⟩

theorem disposalResult_ok {root : Path} {d : Disposal} (hab : d.aborted = none)
    (hfailed : d.failedPaths = []) : disposalResult root d = .ok () := by
  rw [disposalResult, hab]
  exact if_pos hfailed

theorem place_congr (hhere : s.root.anchor = .relative → gs.here = fs.here) :
    s.place gs = s.place fs := by
  by_cases hrelative : s.root.anchor = .relative
  · rw [place, place, hhere hrelative]
  · rw [place, place, Path.absolute_absolute hrelative, Path.absolute_absolute hrelative]

theorem Placed.congr (h : s.Placed fs) (hanchored : s.Anchored gs)
    (hhere : s.root.anchor = .relative → gs.here = fs.here) : s.Placed gs where
  anchored := hanchored
  normal := h.normal
  below := by rw [place_congr hhere]; exact h.below

theorem wipe_idle (h : s.Placed fs) {b : Bool} (hb : fs.isDirectory? (s.beside fs) = .ok b)
    (hroot : fs.isOccupied (s.place fs).toPathname = false)
    (hold : ∀ n ∈ trashNames fs (s.place fs), fs.isOccupied ((s.beside fs).child n) = false)
    (faults : Faults) (serial : Nat) :
    (s.wipe faults fs serial).result = .ok () ∧ (s.wipe faults fs serial).files = fs := by
  rcases wipe_cases h faults serial with ⟨e, he, -⟩ | ⟨-, hfiles, -, hresult⟩
  · rw [hb] at he; cases he
  · have hplan : plan faults fs serial s = _ := plan_unoccupied hroot
    have hsteps := isStep_of_mem_names h faults serial
    rw [hplan] at hsteps
    obtain ⟨hsame, hab, hfailed⟩ := dispose_unoccupied (Placed.anchor s fs)
      h.isStep_parent hsteps faults hold
    rw [hfiles, hresult, disposal, hplan]
    exact ⟨disposalResult_ok hab hfailed, hsame⟩

theorem item?_of_nowhere {b : Bool} {n : String} (hb : fs.isDirectory? (s.beside fs) = .ok b)
    (hP : ∀ P, ¬ fs.LeadsTo (s.beside fs) P) :
    fs.item? ((s.place fs).parent.parts ++ [n]) = none := by
  rw [← Option.not_isSome_iff_eq_none]
  intro hi
  exact hP _ (FileSystem.leadsTo_of_isDirectory? (Placed.anchor s fs)
    (FileSystem.item?_dir_of_isSome hi) hb)

section

variable (h : s.Placed fs) (hok : (s.wipe faults fs serial).result = .ok ())

include h hok

theorem wipe_ok : (∃ b, fs.isDirectory? (s.beside fs) = .ok b) ∧
    (s.wipe faults fs serial).files = (disposal faults fs serial s).files ∧
    (s.wipe faults fs serial).steps =
      (plan faults fs serial s).steps ++ (disposal faults fs serial s).steps ∧
    (disposal faults fs serial s).aborted = none ∧
    (disposal faults fs serial s).failedPaths = [] := by
  rcases wipe_cases h faults serial with ⟨e, -, heq⟩ | ⟨hb, hfiles, hsteps, hresult⟩
  · rw [heq] at hok; cases hok
  · rw [hresult] at hok
    exact ⟨hb, hfiles, hsteps, ok_of_disposalResult hok⟩

variable (htrue : ∀ step ∈ (s.wipe faults fs serial).steps, step.isTruthful = true)

include htrue

theorem wipe_ok_unoccupied : ∀ n ∈ (plan faults fs serial s).names,
    (s.wipe faults fs serial).files.isOccupied ((s.beside fs).child n) = false := by
  obtain ⟨-, hfiles, hsteps, hab, hfailed⟩ := wipe_ok h hok
  rw [hfiles]
  refine dispose_ok (Placed.anchor s fs) h.isStep_parent (isStep_of_mem_names h faults serial) hab
    hfailed ?_
  intro step hstep
  exact htrue step (by rw [hsteps]; exact List.mem_append_right _ hstep)

variable (hlinks : fs.NoLinkOn (s.place fs).parent.parts) (hP : fs.LeadsTo (s.beside fs) P)

include hlinks hP

theorem wipe_ok_root :
    (s.wipe faults fs serial).files.isOccupied (s.place fs).toPathname = false := by
  have hlead := leadsTo_beside h hlinks hP (start_dir h hP faults serial)
  have hthin := wipe_thinned h hlead.leadsOnlyTo
  rcases root_cases h hP faults serial with hroot | ⟨hocc, hsame⟩ | hgone
  · rw [h.toPathname_place]
    exact wipe_ok_unoccupied h hok htrue _ hroot
  · rw [hsame] at hthin
    exact hthin.unoccupied hocc
  · refine unoccupied_of_gone h (wipe_leadsTo h hP hlinks faults serial) ?_
    exact hthin.eq_none (hgone _ List.prefix_rfl)

theorem wipe_ok_trash (htrash : isTrashName (s.place fs) name = true) :
    ((s.wipe faults fs serial).files.item? (P ++ [name])).isSome ↔
      (fs.item? (P ++ [name])).isSome ∧ ((s.beside fs).child name).isTooLong = true := by
  have hlead := leadsTo_beside h hlinks hP (start_dir h hP faults serial)
  have hthin := wipe_thinned h hlead.leadsOnlyTo
  constructor
  · intro hi
    obtain ⟨item, hitem⟩ := Option.isSome_iff_exists.1 hi
    have hstart : (plan faults fs serial s).start.item? (P ++ [name]) = some item :=
      hthin.eq_some hitem
    have hmem := mem_names_of_isTrashName h hP htrash (by rw [hstart]; rfl)
    have hlong : ((s.beside fs).child name).isTooLong = true := by
      by_contra hshort
      have hgone := wipe_ok_unoccupied h hok htrue name hmem
      rw [(wipe_leadsTo h hP hlinks faults serial).isOccupied_child
        (isStep_of_isTrashName htrash) hi (Bool.not_eq_true _ ▸ hshort)] at hgone
      cases hgone
    refine ⟨?_, hlong⟩
    rw [← start_tooLong h hP faults serial htrash hlong, hstart]
    rfl
  · rintro ⟨hi, hlong⟩
    rw [hthin.outside, start_tooLong h hP faults serial htrash hlong]
    · exact hi
    · rintro ⟨n, -, hshort, hp⟩
      rcases eq_or_ne n name with rfl | hne
      · rw [hshort] at hlong; cases hlong
      · exact FileSystem.not_prefix_sibling hne hp

omit hok htrue hlinks hP in
theorem leadsTo_of_inside (hrelative : s.root.anchor = .relative)
    (hinside : (s.place fs).parts <+: fs.here)
    (hshort : (s.place fs).toPathname.isTooLong = false) :
    fs.LeadsTo (s.beside fs) (s.place fs).parent.parts := by
  have hroot : (fs.item? (s.place fs).parts).isSome :=
    FileSystem.isSome_of_above (by rw [h.anchored hrelative]; rfl) hinside
  rw [h.parts_place] at hroot
  exact FileSystem.leadsTo_of_item? (Placed.anchor s fs) (FileSystem.item?_dir_of_isSome hroot)
    (h.notTooLong_beside hshort)

section

variable (hanchored : s.Anchored (s.wipe faults fs serial).files)

include hanchored

-- A working directory that was moved aside with the root is gone.
theorem wipe_ok_here (hrelative : s.root.anchor = .relative) :
    (s.wipe faults fs serial).files.here = fs.here := by
  have hthere := hanchored hrelative
  rcases wipe_here h faults serial with hsame | ⟨Q, r, hQ, ⟨-, hhere, -, hshort⟩ | ⟨-, hhere⟩⟩
  · exact hsame
  · obtain rfl := hP.leadsOnlyTo Q hQ
    rw [hhere] at hthere
    have hleft : ((s.wipe faults fs serial).files.item?
        (Q ++ [trashName (s.place fs) (serial + 1)])).isSome :=
      FileSystem.isSome_of_above (by rw [hthere]; rfl) ⟨r, (List.append_cons ..).symm⟩
    have hlong := (wipe_ok_trash h hok htrue hlinks hP (isTrashName_trashName ..)).1 hleft
    rw [hshort] at hlong
    cases hlong.2
  · rw [hhere, FileSystem.item?_of_empty_mem (by simp)] at hthere
    cases hthere

theorem wipe_ok_again (faults' : Faults) (serial' : Nat) :
    (s.wipe faults' (s.wipe faults fs serial).files serial').result = .ok () ∧
      (s.wipe faults' (s.wipe faults fs serial).files serial').files =
        (s.wipe faults fs serial).files := by
  have hlead := wipe_leadsTo h hP hlinks faults serial
  have hhere := wipe_ok_here h hok htrue hlinks hP hanchored
  have hbeside : s.beside (s.wipe faults fs serial).files = s.beside fs := by
    rw [beside, place_congr hhere, beside]
  refine wipe_idle (h.congr hanchored hhere) (b := true) ?_ ?_ ?_ faults' serial'
  · rw [hbeside]; exact hlead.isDirectory?
  · rw [place_congr hhere]; exact wipe_ok_root h hok htrue hlinks hP
  · intro n hn
    obtain ⟨Q, hQ, hi, hname⟩ := mem_trashNames.1 hn
    rw [hbeside] at hQ ⊢
    rw [place_congr hhere] at hname
    obtain rfl := hlead.leadsOnlyTo Q hQ
    exact FileSystem.unoccupied_of_isTooLong ((wipe_ok_trash h hok htrue hlinks hP hname).1 hi).2

end

theorem wipe_ok_inside (hrelative : s.root.anchor = .relative)
    (hinside : (s.place fs).parts <+: fs.here)
    (hshort : (s.place fs).toPathname.isTooLong = false) :
    ¬ s.Anchored (s.wipe faults fs serial).files := by
  intro hanchored
  have hthere := hanchored hrelative
  rw [wipe_ok_here h hok htrue hlinks hP hanchored hrelative] at hthere
  have hroot := FileSystem.isSome_of_above (by rw [hthere]; rfl) hinside
  rw [h.parts_place] at hroot
  have hlead := wipe_leadsTo h (leadsTo_of_inside h hrelative hinside hshort) hlinks faults serial
  have hgone := wipe_ok_root h hok htrue hlinks hP
  rw [h.isOccupied_place hlead hroot hshort] at hgone
  cases hgone

end

/-- Nothing is found at the root, of the trash only that is left whose pathname no call takes, and
nothing comes of another wipe, unless the root is relative and the working directory went with it:
then it fails, for the root has no place any more. -/
structure Finished (faults : Faults) (fs : FileSystem) (serial : Nat) (s : CacheStore) : Prop where
  root : (s.wipe faults fs serial).files.isOccupied (s.place fs).toPathname = false
  trash : ∀ n, isTrashName (s.place fs) n = true →
    (((s.wipe faults fs serial).files.item? ((s.place fs).parent.parts ++ [n])).isSome ↔
      (fs.item? ((s.place fs).parent.parts ++ [n])).isSome ∧
        ((s.beside fs).child n).isTooLong = true)
  again : s.Anchored (s.wipe faults fs serial).files → ∀ faults' serial',
    (s.wipe faults' (s.wipe faults fs serial).files serial').result = .ok () ∧
      (s.wipe faults' (s.wipe faults fs serial).files serial').files =
        (s.wipe faults fs serial).files
  adrift : ¬ s.Anchored (s.wipe faults fs serial).files → ∀ faults' serial',
    s.wipe faults' (s.wipe faults fs serial).files serial' =
      ⟨(s.wipe faults fs serial).files, [], [], serial',
        .error (.removal (.call (.failed ⟨.noEntry, []⟩)))⟩
  inside : s.root.anchor = .relative → (s.place fs).parts <+: fs.here →
    (s.place fs).toPathname.isTooLong = false → ¬ s.Anchored (s.wipe faults fs serial).files

theorem wipe_complete (h : s.Placed fs) (hlinks : fs.NoLinkOn (s.place fs).parent.parts)
    (htrue : ∀ step ∈ (s.wipe faults fs serial).steps, step.isTruthful = true)
    (hok : (s.wipe faults fs serial).result = .ok ()) : Finished faults fs serial s := by
  by_cases hP : ∃ P, fs.LeadsTo (s.beside fs) P
  · obtain ⟨P, hP⟩ := hP
    obtain rfl := hlinks.leadsOnlyTo (Placed.anchor s fs) h.isStep_parent P hP
    exact ⟨wipe_ok_root h hok htrue hlinks hP, fun n => wipe_ok_trash h hok htrue hlinks hP,
      wipe_ok_again h hok htrue hlinks hP, wipe_of_not_anchored, fun hrelative hinside hshort =>
        wipe_ok_inside h hok htrue hlinks hP hrelative hinside hshort⟩
  · have hnone : ∀ P, ¬ fs.LeadsTo (s.beside fs) P := fun P hlead => hP ⟨P, hlead⟩
    obtain ⟨⟨b, hb⟩, -⟩ := wipe_ok h hok
    have hroot := unoccupied_of_nowhere h hnone
    have hsame : (s.wipe faults fs serial).files = fs := wipe_nowhere h hnone
    refine ⟨?_, fun n _ => ?_, fun _ => ?_, wipe_of_not_anchored,
      fun hrelative hinside hshort => ?_⟩
    · rw [hsame]; exact hroot
    · simp [hsame, item?_of_nowhere hb hnone]
    · rw [hsame]
      refine wipe_idle h hb hroot fun n hn => ?_
      obtain ⟨Q, hQ, -⟩ := mem_trashNames.1 hn
      exact absurd hQ (hnone Q)
    · exact absurd (leadsTo_of_inside h hrelative hinside hshort) (hnone _)

def abandonedFiles : FileSystem :=
  (((FileSystem.empty.including ⟨["", "cache"]⟩ .directory).including ⟨["", "cache", "entry"]⟩
    (.file [])).including ⟨["", ".cache.trash-old"]⟩ .directory).including
    ⟨["", ".cache.trash-old", "entry"]⟩ (.link ⟨["", "cache"]⟩)

def vanishing : Faults := { Faults.never with unlink := fun _ => some .vanish }

theorem abandonedFiles_complete : topStore.Placed abandonedFiles ∧
    abandonedFiles.NoLinkOn (topStore.place abandonedFiles).parent.parts ∧
    (∀ step ∈ (topStore.wipe vanishing abandonedFiles 0).steps, step.isTruthful = true) ∧
    (topStore.wipe vanishing abandonedFiles 0).result = .ok () ∧
    (topStore.wipe vanishing abandonedFiles 0).files.item? [".cache.trash-old"] = none := by
  have hplaced : topStore.Placed abandonedFiles :=
    ⟨by decide +kernel, by decide +kernel, by decide +kernel⟩
  have hlinks : abandonedFiles.NoLinkOn (topStore.place abandonedFiles).parent.parts := by
    decide +kernel
  have htrue : ∀ step ∈ (topStore.wipe vanishing abandonedFiles 0).steps,
      step.isTruthful = true := by decide +kernel
  have hok : (topStore.wipe vanishing abandonedFiles 0).result = .ok () := by decide +kernel
  refine ⟨hplaced, hlinks, htrue, hok, ?_⟩
  have hfinished := wipe_complete hplaced hlinks htrue hok
  have hleft := hfinished.trash ".cache.trash-old" (by decide +kernel)
  rw [← Option.not_isSome_iff_eq_none]
  intro hi
  exact absurd (hleft.1 hi).2 (by decide +kernel)

end ArtifactCache.CacheStore
