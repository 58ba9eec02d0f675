import ArtifactCache.Proofs.CacheStore.Recovery
import ArtifactCache.Proofs.CacheStore.Spelling
import ArtifactCache.Proofs.Removal.Remainder

namespace ArtifactCache.CacheStore

variable {faults : Faults} {fs : FileSystem} {serial : Nat} {s : CacheStore} {dir target : Path}
  {targets : List Path} {names : List String} {e : IncompleteRemoval} {P : Location}

theorem dispose_whole
    (h : ¬ ∃ e, (removeAt faults fs target.toPathname).result = .error (.call e)) :
    let r := removeAt faults fs target.toPathname
    dispose faults fs (target :: targets) = (dispose faults r.files targets).after r.steps
      (deletingRecord target :: r.log) r.failedPaths r.cause := by
  simp only [dispose, Removal.failedPaths, Removal.cause]
  cases hresult : (removeAt faults fs target.toPathname).result with
  | ok u => rfl
  | error e =>
      cases e with
      | call e => exact absurd ⟨e, hresult⟩ h
      | incomplete e => rfl

theorem dispose_accounts (ha : dir.anchor ≠ .relative) (hnames : ∀ n ∈ names, isStep n = false)
    (hnodup : names.Nodup) (hdir : fs.item? dir.parts = some .directory)
    (htrue : ∀ step ∈ (dispose faults fs (names.map dir.child)).steps, step.isTruthful = true)
    (hab : (dispose faults fs (names.map dir.child)).aborted = none) :
    Accounts dir names (dispose faults fs (names.map dir.child)).steps
      (dispose faults fs (names.map dir.child)).files
      (dispose faults fs (names.map dir.child)).failedPaths
      (dispose faults fs (names.map dir.child)).cause := by
  induction names generalizing fs with
  | nil => exact ⟨.nil, by simp [dispose, Disposal.nothing], rfl, by simp⟩
  | cons n names ih =>
      obtain ⟨hn, hrest⟩ := List.forall_mem_cons.1 hnames
      obtain ⟨hfresh, hnodup⟩ := List.nodup_cons.1 hnodup
      have hsteps : ∀ part ∈ dir.parts, isStep part = false := fun part hpart =>
        FileSystem.isStep_of_mem (by rw [hdir]; rfl) hpart
      have hchild := toPathname_child ha hsteps n
      have hwhole : ¬ ∃ e, (removeAt faults fs (dir.child n).toPathname).result =
          .error (.call e) := by
        rintro ⟨e, he⟩
        simp [dispose, he] at hab
      have hstill : (removeAt faults fs (dir.child n).toPathname).files.item? dir.parts =
          some .directory := by
        rw [(removeAt_thinned ha faults hdir hn).outside FileSystem.not_prefix_dir, hdir]
      rw [List.map_cons, dispose_whole hwhole] at htrue hab ⊢
      rw [hchild] at htrue hab hwhole hstill ⊢
      refine (removeAt_accounts ha hn hdir (fun step hstep => ?_) hwhole).append
        (ih hrest hnodup hstill (fun step hstep => ?_) hab) hfresh
        (dispose_thinned ha hsteps hrest faults _)
      · exact htrue step (List.mem_append_left _ hstep)
      · exact htrue step (List.mem_append_right _ hstep)

theorem trashNames_nodup (fs : FileSystem) (root : Path) : (trashNames fs root).Nodup := by
  unfold trashNames
  cases hl : fs.list root.parent.toPathname with
  | error e => exact .nil
  | ok entries =>
      obtain ⟨d, -, rfl⟩ := FileSystem.leadsTo_of_list hl
      exact (FileSystem.nodup_entriesOf fs d).filter _

section

variable (h : s.Placed fs)

include h

theorem names_nodup (hunused : fs.isOccupied ((s.beside fs).child
      (trashName (s.place fs) (serial + 1))) = false) :
    (plan faults fs serial s).names.Nodup := by
  have hold := trashNames_nodup fs (s.place fs)
  rcases plan_cases h faults serial with
    ⟨-, heq⟩ | ⟨-, -, heq⟩ | ⟨-, -, hshort, heq⟩ <;> rw [heq]
  · exact hold
  · refine List.nodup_append.2 ⟨hold, List.nodup_singleton _, ?_⟩
    rintro n hn m hm rfl
    obtain ⟨-, -, -, htrash⟩ := mem_trashNames.1 hn
    exact ne_name_of_isTrashName htrash (List.mem_singleton.1 hm)
  · refine List.nodup_append.2 ⟨hold, List.nodup_singleton _, ?_⟩
    rintro n hn m hm rfl
    obtain ⟨P, hP, hi, htrash⟩ := mem_trashNames.1 hn
    rw [← List.mem_singleton.1 hm] at hunused hshort
    rw [hP.isOccupied_child (isStep_of_isTrashName htrash) hi hshort] at hunused
    cases hunused

theorem name_not_mem_of_moved {step : Step} (hstep : step ∈ (s.wipe faults fs serial).steps)
    (hcall : step.call = aside (s.place fs) serial) (hdone : step.failure = none) :
    (s.place fs).name ∉ (plan faults fs serial s).names := by
  have hold : (s.place fs).name ∉ trashNames fs (s.place fs) := by
    intro hn
    obtain ⟨-, -, -, htrash⟩ := mem_trashNames.1 hn
    exact ne_name_of_isTrashName htrash rfl
  have hplan : step ∈ (plan faults fs serial s).steps := by
    rcases wipe_cases h faults serial with ⟨e, -, heq⟩ | ⟨-, -, hsteps, -⟩
    · rw [heq] at hstep
      cases hstep
    · rw [hsteps] at hstep
      refine (List.mem_append.1 hstep).resolve_right fun hdisposed => ?_
      obtain ⟨loc, honly⟩ := (plan faults fs serial s).start.exists_leadsOnlyTo (s.beside fs)
      obtain ⟨q, hdel, -⟩ := (disposal_clearing h faults serial honly).deletes step hdisposed
      rw [hcall] at hdel
      rcases hdel with hdel | hdel <;> cases hdel
  rcases plan_cases h faults serial with
    ⟨-, heq⟩ | ⟨-, hfailed, heq⟩ | ⟨-, -, -, heq⟩ <;> rw [heq] at hplan ⊢
  · exact hold
  · rw [List.mem_singleton.1 hplan] at hdone
    exact absurd hdone hfailed
  · intro hn
    rcases List.mem_append.1 hn with hn | hn
    · exact hold hn
    · exact ne_name_of_isTrashName (isTrashName_trashName ..) (List.mem_singleton.1 hn).symm

end

/-- How the error of a wipe relates to what is left when all is done. The root lies under its own
name or, if it has been moved aside, under that of its trash. -/
structure Tells (faults : Faults) (fs : FileSystem) (serial : Nat) (s : CacheStore)
    (e : IncompleteRemoval) : Prop where
  root : e.root = s.root.toPathname
  nodup : e.failedPaths.Nodup
  cause : ∃ q qs errno, e.failedPaths = q :: qs ∧ e.cause = some ⟨errno, [q]⟩
  left : ∀ n r, IsTarget (s.place fs) n →
    ((s.wipe faults fs serial).files.item? ((s.place fs).parent.parts ++ n :: r)).isSome →
    (∃ q ∈ e.failedPaths, q.covers ((s.beside fs).under (n :: r)) = true ∨
      ((s.beside fs).under (n :: r)).covers q = true) ∨
    Unseen (s.place fs).parent (s.wipe faults fs serial).steps n r
  moved : ∀ step ∈ (s.wipe faults fs serial).steps, step.call = aside (s.place fs) serial →
    step.failure = none → ∀ q ∈ e.failedPaths, (s.place fs).toPathname.covers q = false

theorem incomplete_of_disposalResult {root : Path} {d : Disposal}
    (h : disposalResult root d = .error (.removal (.incomplete e))) :
    d.aborted = none ∧ d.failedPaths ≠ [] ∧ e = ⟨root.toPathname, d.failedPaths, d.cause⟩ := by
  unfold disposalResult at h
  cases hab : d.aborted with
  | some e => rw [hab] at h; cases h
  | none =>
      rw [hab] at h
      simp only at h
      split_ifs at h with hfailed
      exact ⟨rfl, hfailed, (RemovalError.incomplete.inj
        (WipeError.removal.inj (Except.error.inj h))).symm⟩

theorem disposal_nowhere (h : s.Placed fs) (hP : ∀ P, ¬ fs.LeadsTo (s.beside fs) P)
    (faults : Faults) (serial : Nat) : (disposal faults fs serial s).failedPaths = [] := by
  have hplan : plan faults fs serial s = ⟨[], fs, []⟩ := plan_nowhere h hP
  rw [disposal, hplan]
  rfl

theorem wipe_tells (hnormal : ∀ part ∈ s.root.parts, Path.isPart part = true)
    (hlinks : fs.NoLinkOn (s.place fs).parent.parts)
    (hunused : fs.isOccupied ((s.beside fs).child (trashName (s.place fs) (serial + 1))) = false)
    (htrue : ∀ step ∈ (s.wipe faults fs serial).steps, step.isTruthful = true)
    (he : (s.wipe faults fs serial).result = .error (.removal (.incomplete e))) :
    Tells faults fs serial s e := by
  have hbelow : (s.place fs).parts ≠ [] := by
    intro hnil
    rcases wipe_top faults serial hnil with ⟨p, h⟩ | ⟨e', h⟩ <;> rw [he] at h <;> cases h
  have hanchored : s.Anchored fs := anchored_of_result (by rw [he]; nofun)
  have h : s.Placed fs := ⟨hanchored, hnormal, hbelow⟩
  rcases wipe_cases h faults serial with ⟨e', -, heq⟩ | ⟨-, hfiles, hsteps, hresult⟩
  · rw [heq] at he
    cases he
  · rw [hresult] at he
    obtain ⟨hab, hne, rfl⟩ := incomplete_of_disposalResult he
    obtain ⟨P, hP⟩ : ∃ P, fs.LeadsTo (s.beside fs) P := by
      by_contra hnone
      exact hne (disposal_nowhere h (fun P hP => hnone ⟨P, hP⟩) faults serial)
    obtain rfl := hlinks.leadsOnlyTo (Placed.anchor s fs) h.isStep_parent P hP
    have hstart := start_dir h hP faults serial
    have hlead := leadsTo_beside h hlinks hP hstart
    have hthin := wipe_thinned h hlead.leadsOnlyTo
    have haccounts : Accounts (s.place fs).parent (plan faults fs serial s).names
        (disposal faults fs serial s).steps (disposal faults fs serial s).files
        (disposal faults fs serial s).failedPaths (disposal faults fs serial s).cause :=
      dispose_accounts (Placed.anchor s fs) (isStep_of_mem_names h faults serial)
        (names_nodup h hunused) hstart
        (fun step hstep => htrue step (by rw [hsteps]; exact List.mem_append_right _ hstep)) hab
    refine ⟨rfl, haccounts.nodup, haccounts.exists_cause hne, fun n r hn hr => ?_,
      fun step hstep hcall hdone q hq => ?_⟩
    · by_cases hlong : ((s.beside fs).child n).isTooLong = true
      · exact .inr ⟨[], List.nil_prefix, hlong, .inl rfl⟩
      · rw [← h.toPathname_child, Bool.not_eq_true] at hlong
        obtain ⟨item, hitem⟩ := Option.isSome_iff_exists.1
          (FileSystem.isSome_of_above (d := (s.place fs).parent.parts ++ [n]) hr ⟨r, by simp⟩)
        have hmem := mem_names_of_target h hP hn (by rw [hthin.eq_some hitem]; rfl) hlong
        rw [hfiles] at hr
        refine (haccounts.left n hmem r hr).imp_right fun hunseen => ?_
        exact hunseen.mono (by rw [hsteps]; exact List.subset_append_right ..)
    · rw [h.toPathname_place]
      exact haccounts.not_covers h.isStep_name (name_not_mem_of_moved h hstep hcall hdone) hq

def burdenedFiles : FileSystem :=
  (((FileSystem.empty.including ⟨["", "cache"]⟩ .directory).including ⟨["", "cache", "y"]⟩
    (.file [])).including ⟨["", ".cache.trash-old"]⟩ .directory).including
    ⟨["", ".cache.trash-old", "x"]⟩ (.file [])

def burdening : Faults := { Faults.never with unlink := fun _ => some (.deny ⟨13⟩) }

theorem burdenedFiles_told :
    let x : Pathname := ⟨["", ".cache.trash-old", "x"]⟩
    let y : Pathname := ⟨["", trashName ⟨.root, ["cache"]⟩ 1, "y"]⟩
    let e : IncompleteRemoval := ⟨⟨["", "cache"]⟩, [x, y], some ⟨⟨13⟩, [x]⟩⟩
    (topStore.wipe burdening burdenedFiles 0).result = .error (.removal (.incomplete e)) ∧
      Tells burdening burdenedFiles 0 topStore e := by
  intro x y e
  have hresult : (topStore.wipe burdening burdenedFiles 0).result =
      .error (.removal (.incomplete e)) := by decide +kernel
  refine ⟨hresult, wipe_tells ?_ ?_ ?_ ?_ hresult⟩ <;> decide +kernel

end ArtifactCache.CacheStore
