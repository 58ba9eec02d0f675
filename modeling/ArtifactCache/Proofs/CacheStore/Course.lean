import ArtifactCache.Proofs.CacheStore.Plan

namespace ArtifactCache.CacheStore

variable {faults : Faults} {fs : FileSystem} {serial : Nat} {s : CacheStore} {name : String}
  {P l : Location}

def IsTarget (root : Path) (name : String) : Prop := name = root.name ∨ isTrashName root name = true

theorem Placed.isStep_target (h : s.Placed fs) (hname : IsTarget (s.place fs) name) :
    isStep name = false := by
  rcases hname with rfl | htrash
  · exact h.isStep_name
  · exact isStep_of_isTrashName htrash

/-- Where the root is a link, and the name that it is moved to that of another link, the way to the
directory beside the root is still the same after the renaming. -/
def WayStays (s : CacheStore) (fs : FileSystem) (serial : Nat) (P : Location) : Prop :=
  ∀ t u, fs.item? (P ++ [(s.place fs).name]) = some (.link t) →
    fs.item? (P ++ [trashName (s.place fs) (serial + 1)]) = some (.link u) →
    ∀ gs, (aside (s.place fs) serial).run fs = .ok gs → gs.LeadsOnlyTo (s.beside fs) P

section

variable (h : s.Placed fs)

include h

theorem isTarget_of_mem_names (hname : name ∈ (plan faults fs serial s).names) :
    IsTarget (s.place fs) name := by
  have hold : ∀ n ∈ trashNames fs (s.place fs), IsTarget (s.place fs) n := fun n hn => by
    obtain ⟨-, -, -, htrash⟩ := mem_trashNames.1 hn
    exact .inr htrash
  rcases plan_cases h faults serial with ⟨-, heq⟩ | ⟨-, -, heq⟩ | ⟨-, -, -, heq⟩ <;>
    rw [heq] at hname
  · exact hold name hname
  · rcases List.mem_append.1 hname with hname | hname
    · exact hold name hname
    · exact .inl (List.mem_singleton.1 hname)
  · rcases List.mem_append.1 hname with hname | hname
    · exact hold name hname
    · rw [List.mem_singleton.1 hname]
      exact .inr (isTrashName_trashName ..)

theorem isStep_of_mem_names (faults : Faults) (serial : Nat) :
    ∀ n ∈ (plan faults fs serial s).names, isStep n = false := fun _ hn =>
  h.isStep_target (isTarget_of_mem_names h hn)

theorem disposal_clearing (faults : Faults) (serial : Nat)
    (honly : (plan faults fs serial s).start.LeadsOnlyTo (s.beside fs) P) :
    Clearing faults (Named (s.beside fs) (plan faults fs serial s).names)
      (Doomed (s.beside fs) (plan faults fs serial s).names P)
      (plan faults fs serial s).start (disposal faults fs serial s).steps
      (disposal faults fs serial s).files :=
  dispose_clearing (Placed.anchor s fs) h.isStep_parent (isStep_of_mem_names h faults serial) faults
    honly

theorem wipe_traced (faults : Faults) (serial : Nat) :
    Traced faults fs (s.wipe faults fs serial).steps (s.wipe faults fs serial).files := by
  rcases wipe_cases h faults serial with ⟨e, -, heq⟩ | ⟨-, hfiles, hsteps, -⟩
  · rw [heq]; exact rfl
  · obtain ⟨loc, honly⟩ := (plan faults fs serial s).start.exists_leadsOnlyTo (s.beside fs)
    rw [hfiles, hsteps]
    exact traced_append.2
      ⟨_, plan_traced faults serial, (disposal_clearing h faults serial honly).traced⟩

omit h in
theorem plan_unoccupied (hocc : fs.isOccupied (s.place fs).toPathname = false) :
    plan faults fs serial s = ⟨[], fs, trashNames fs (s.place fs)⟩ := by
  simp only [plan, hocc, Bool.false_eq_true, if_false]

theorem plan_here (faults : Faults) (serial : Nat) :
    (plan faults fs serial s).start.here = fs.here ∨
      ∃ P, fs.LeadsTo (s.beside fs) P ∧ fs.isOccupied (s.place fs).toPathname = true ∧
        ((s.beside fs).child (trashName (s.place fs) (serial + 1))).isTooLong = false ∧
        (plan faults fs serial s).start.here = FileSystem.relocate (P ++ [(s.place fs).name])
          (P ++ [trashName (s.place fs) (serial + 1)]) fs.here := by
  cases hocc : fs.isOccupied (s.place fs).toPathname with
  | false => exact .inl (by rw [plan_unoccupied hocc])
  | true =>
      rcases plan_cases h faults serial with
        ⟨-, heq⟩ | ⟨-, -, heq⟩ | ⟨-, ⟨P, item, hP, hmoved⟩, hshort, heq⟩ <;> rw [heq]
      · exact .inl rfl
      · exact .inl rfl
      · exact .inr ⟨P, hP, rfl, hshort, hmoved.here⟩

theorem unoccupied_of_nowhere (hP : ∀ P, ¬ fs.LeadsTo (s.beside fs) P) :
    fs.isOccupied (s.place fs).toPathname = false := by
  rw [h.toPathname_place, ← Bool.not_eq_true]
  intro hocc
  obtain ⟨P, hlead, -⟩ :=
    FileSystem.leadsTo_of_isOccupied (Placed.notEmpty s fs) h.isStep_name hocc
  exact hP P hlead

theorem plan_nowhere (hP : ∀ P, ¬ fs.LeadsTo (s.beside fs) P) :
    plan faults fs serial s = ⟨[], fs, []⟩ := by
  have hnone : trashNames fs (s.place fs) = [] := by
    rw [List.eq_nil_iff_forall_not_mem]
    intro n hn
    obtain ⟨P, hlead, -⟩ := mem_trashNames.1 hn
    exact hP P hlead
  rcases plan_cases h faults serial with ⟨-, heq⟩ | ⟨hocc, -⟩ | ⟨-, ⟨P, item, hlead, -⟩, -⟩
  · rw [heq, hnone]
  · rw [unoccupied_of_nowhere h hP] at hocc
    cases hocc
  · exact absurd hlead (hP P)

theorem wipe_nowhere (hP : ∀ P, ¬ fs.LeadsTo (s.beside fs) P) :
    (s.wipe faults fs serial).files = fs := by
  rcases wipe_cases h faults serial with ⟨e, -, heq⟩ | ⟨-, hfiles, -, -⟩
  · rw [heq]
  · rw [hfiles, disposal, plan_nowhere h hP]
    rfl

theorem wipe_removable (honly : (plan faults fs serial s).start.LeadsOnlyTo (s.beside fs) P) :
    FileSystem.Thinned (Removable (s.beside fs) (plan faults fs serial s).names P)
      (plan faults fs serial s).start (s.wipe faults fs serial).files := by
  rcases wipe_cases h faults serial with ⟨e, he, heq⟩ | ⟨-, hfiles, -, -⟩
  · have hnone : ∀ Q, ¬ fs.LeadsTo (s.beside fs) Q := by
      intro Q hQ
      rw [hQ.isDirectory?] at he
      cases he
    rw [heq, plan_nowhere h hnone]
    exact .refl ..
  · rw [hfiles]
    exact (dispose_removable (Placed.anchor s fs) h.isStep_parent
      (isStep_of_mem_names h faults serial) faults honly).thinned

theorem wipe_thinned (honly : (plan faults fs serial s).start.LeadsOnlyTo (s.beside fs) P) :
    FileSystem.Thinned (Doomed (s.beside fs) (plan faults fs serial s).names P)
      (plan faults fs serial s).start (s.wipe faults fs serial).files :=
  (wipe_removable h honly).mono fun _ hl => hl.doomed

-- A wipe moves the working directory only together with the root that it lies in, and removes it
-- from its place where the root is moved over it.
theorem wipe_here (faults : Faults) (serial : Nat) :
    let files := (s.wipe faults fs serial).files
    files.here = fs.here ∨ ∃ P r, fs.LeadsTo (s.beside fs) P ∧
      ((fs.here = P ++ (s.place fs).name :: r ∧
          files.here = P ++ trashName (s.place fs) (serial + 1) :: r ∧
          fs.isOccupied (s.place fs).toPathname = true ∧
          ((s.beside fs).child (trashName (s.place fs) (serial + 1))).isTooLong = false) ∨
        (fs.here = P ++ trashName (s.place fs) (serial + 1) :: r ∧ files.here = P ++ "" :: r)) := by
  obtain ⟨loc, honly⟩ := (plan faults fs serial s).start.exists_leadsOnlyTo (s.beside fs)
  have hfiles := (wipe_thinned h honly).here
  rcases plan_here h faults serial with hsame | ⟨P, hP, hocc, hshort, hstart⟩
  · exact .inl (hfiles.trans hsame)
  have hmoved := hfiles.trans hstart
  rcases FileSystem.relocate_cases P (s.place fs).name (trashName (s.place fs) (serial + 1))
    fs.here with ⟨r, hhere, heq⟩ | ⟨r, hhere, heq⟩ | hsame
  · exact .inr ⟨P, r, hP, .inl ⟨hhere, hmoved.trans heq, hocc, hshort⟩⟩
  · exact .inr ⟨P, r, hP, .inr ⟨hhere, hmoved.trans heq⟩⟩
  · exact .inl (hmoved.trans hsame)

theorem leadsTo_beside {gs : FileSystem} (hlinks : fs.NoLinkOn (s.place fs).parent.parts)
    (hP : fs.LeadsTo (s.beside fs) P) (hdir : gs.item? P = some .directory) :
    gs.LeadsTo (s.beside fs) P := by
  obtain rfl := hlinks.leadsOnlyTo (Placed.anchor s fs) h.isStep_parent P hP
  exact FileSystem.leadsTo_of_item? (Placed.anchor s fs) hdir hP.notTooLong

theorem unoccupied_of_gone {gs : FileSystem} (hlead : gs.LeadsTo (s.beside fs) P)
    (hgone : gs.item? (P ++ [(s.place fs).name]) = none) :
    gs.isOccupied (s.place fs).toPathname = false := by
  rw [h.toPathname_place, ← Bool.not_eq_true]
  intro hocc
  obtain ⟨Q, hQ, hi⟩ :=
    FileSystem.leadsTo_of_isOccupied (Placed.notEmpty s fs) h.isStep_name hocc
  rw [hlead.leadsOnlyTo Q hQ, hgone] at hi
  cases hi

variable (hP : fs.LeadsTo (s.beside fs) P)

include hP

theorem wipe_found (faults : Faults) (serial : Nat) :
    (s.wipe faults fs serial).files = (disposal faults fs serial s).files ∧
      (s.wipe faults fs serial).result = disposalResult s.root (disposal faults fs serial s) := by
  rcases wipe_cases h faults serial with ⟨e, he, -⟩ | ⟨-, hfiles, -, hresult⟩
  · rw [hP.isDirectory?] at he
    cases he
  · exact ⟨hfiles, hresult⟩

theorem start_outside (hroot : ¬ P ++ [(s.place fs).name] <+: l)
    (htrash : ¬ P ++ [trashName (s.place fs) (serial + 1)] <+: l) :
    (plan faults fs serial s).start.item? l = fs.item? l := by
  rcases plan_cases h faults serial with
    ⟨-, heq⟩ | ⟨-, -, heq⟩ | ⟨-, ⟨Q, item, hQ, hmoved⟩, -, heq⟩ <;> rw [heq]
  obtain rfl := hP.leadsOnlyTo Q hQ
  exact hmoved.outside hroot htrash

theorem start_leadsOnlyTo (faults : Faults) (hway : s.WayStays fs serial P) :
    (plan faults fs serial s).start.LeadsOnlyTo (s.beside fs) P := by
  rcases plan_cases h faults serial with
    ⟨-, heq⟩ | ⟨-, -, heq⟩ | ⟨hf, ⟨Q, item, hQ, hmoved⟩, -, heq⟩ <;> rw [heq]
  · exact hP.leadsOnlyTo
  · exact hP.leadsOnlyTo
  · obtain rfl := hP.leadsOnlyTo Q hQ
    by_cases hlinks : ∃ t u, fs.item? (Q ++ [(s.place fs).name]) = some (.link t) ∧
        fs.item? (Q ++ [trashName (s.place fs) (serial + 1)]) = some (.link u)
    · obtain ⟨t, u, ht, hu⟩ := hlinks
      exact hway t u ht hu _ (Faults.perform_ok hf)
    · refine hP.leadsOnlyTo_of_concordant (Path.isAbsolute_toPathname (Placed.anchor s fs)) ?_
      refine hmoved.concordant (ne_name_of_isTrashName (isTrashName_trashName ..)).symm ?_
      exact fun t u ht hu => absurd ⟨t, u, ht, hu⟩ hlinks

theorem start_entry {item : Item} (hne : name ≠ trashName (s.place fs) (serial + 1))
    (hi : (plan faults fs serial s).start.item? (P ++ [name]) = some item) :
    fs.item? (P ++ [name]) = some item := by
  rcases plan_cases h faults serial with
    ⟨-, heq⟩ | ⟨-, -, heq⟩ | ⟨-, ⟨Q, moved, hQ, hmoved⟩, -, heq⟩ <;> rw [heq] at hi
  · exact hi
  · exact hi
  · obtain rfl := hP.leadsOnlyTo Q hQ
    rcases eq_or_ne name (s.place fs).name with rfl | hroot
    · rw [hmoved.gone hne List.prefix_rfl] at hi
      cases hi
    · rwa [hmoved.outside (FileSystem.not_prefix_sibling hroot.symm)
        (FileSystem.not_prefix_sibling hne.symm)] at hi

theorem mem_names_of_isTrashName (htrash : isTrashName (s.place fs) name = true)
    (hi : ((plan faults fs serial s).start.item? (P ++ [name])).isSome) :
    name ∈ (plan faults fs serial s).names := by
  obtain ⟨item, hitem⟩ := Option.isSome_iff_exists.1 hi
  have hold : fs.item? (P ++ [name]) = some item → name ∈ trashNames fs (s.place fs) := fun hfs =>
    mem_trashNames.2 ⟨P, hP, by rw [hfs]; rfl, htrash⟩
  rcases plan_cases h faults serial with ⟨-, heq⟩ | ⟨-, -, heq⟩ | ⟨-, -, -, heq⟩
  · rw [heq] at hitem ⊢
    exact hold hitem
  · rw [heq] at hitem ⊢
    exact List.mem_append_left _ (hold hitem)
  · rcases eq_or_ne name (trashName (s.place fs) (serial + 1)) with rfl | hne
    · rw [heq]; simp
    · have hmem := hold (start_entry h hP hne hitem)
      rw [heq]
      exact List.mem_append_left _ hmem

theorem start_tooLong (faults : Faults) (serial : Nat)
    (htrash : isTrashName (s.place fs) name = true)
    (hlong : ((s.beside fs).child name).isTooLong = true) :
    (plan faults fs serial s).start.item? (P ++ [name]) = fs.item? (P ++ [name]) := by
  rcases plan_cases h faults serial with
    ⟨-, heq⟩ | ⟨-, -, heq⟩ | ⟨-, ⟨Q, item, hQ, hmoved⟩, hshort, heq⟩ <;> rw [heq]
  obtain rfl := hP.leadsOnlyTo Q hQ
  refine hmoved.outside ?_ ?_
  · exact FileSystem.not_prefix_sibling (ne_name_of_isTrashName htrash).symm
  · refine FileSystem.not_prefix_sibling ?_
    rintro rfl
    rw [hshort] at hlong
    cases hlong

theorem root_cases (faults : Faults) (serial : Nat) :
    (s.place fs).name ∈ (plan faults fs serial s).names ∨
      (fs.isOccupied (s.place fs).toPathname = false ∧ (plan faults fs serial s).start = fs) ∨
      ∀ l, P ++ [(s.place fs).name] <+: l → (plan faults fs serial s).start.item? l = none := by
  rcases plan_cases h faults serial with
    ⟨hocc, heq⟩ | ⟨-, -, heq⟩ | ⟨-, ⟨Q, item, hQ, hmoved⟩, -, heq⟩ <;> rw [heq]
  · exact .inr (.inl ⟨hocc, rfl⟩)
  · exact .inl (by simp)
  · obtain rfl := hP.leadsOnlyTo Q hQ
    exact .inr (.inr fun l => hmoved.gone (ne_name_of_isTrashName (isTrashName_trashName ..)).symm)

theorem start_dir (faults : Faults) (serial : Nat) :
    (plan faults fs serial s).start.item? P = some .directory := by
  rw [start_outside h hP, hP.2]
  · exact FileSystem.not_prefix_dir
  · exact FileSystem.not_prefix_dir

theorem wipe_leadsTo (hlinks : fs.NoLinkOn (s.place fs).parent.parts) (faults : Faults)
    (serial : Nat) : (s.wipe faults fs serial).files.LeadsTo (s.beside fs) P := by
  have hlead := leadsTo_beside h hlinks hP (start_dir h hP faults serial)
  refine leadsTo_beside h hlinks hP ?_
  rw [(wipe_thinned h hlead.leadsOnlyTo).outside not_doomed_dir, start_dir h hP]

end

def topStore : CacheStore := ⟨⟨.root, ["cache"]⟩⟩

end ArtifactCache.CacheStore
