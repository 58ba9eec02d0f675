import ArtifactCache.Proofs.CacheStore.Completeness
import ArtifactCache.Proofs.CacheStore.EntryName
import ArtifactCache.Proofs.CacheStore.Frame
import ArtifactCache.Proofs.CacheStore.Spelling
import ArtifactCache.Proofs.FileSystem.Making
import ArtifactCache.Proofs.FileSystem.SettingOut

namespace ArtifactCache.CacheStore

variable {faults made : Faults} {fs gs : FileSystem} {serial : Nat} {s : CacheStore} {name : String}
  {c : Coordinate} {hash : String} {P l : Location} {p : Path}

theorem present_of_directory {q : Pathname} (h : fs.isDirectory q = true) :
    fs.isPresent q = true := by
  unfold FileSystem.isDirectory at h
  rw [FileSystem.isPresent, beq_iff_eq.1 h]
  rfl

structure Clean (faults : Faults) (fs : FileSystem) (serial : Nat) (s : CacheStore) : Prop where
  ok : (s.wipe faults fs serial).result = .ok ()
  steps : ∀ step ∈ (s.wipe faults fs serial).steps, step.failure = none

def Through (fs : FileSystem) (s : CacheStore) (n : String) (q : Pathname) : Prop :=
  ∃ P, fs.LeadsTo (s.beside fs) P ∧ ∃ l ∈ fs.way q, P ++ [n] <+: l

structure Apart (fs : FileSystem) (serial : Nat) (s : CacheStore) (q : Pathname) : Prop where
  beside : ∀ P, fs.LeadsTo (s.beside fs) P → s.WayStays fs serial P
  target : ¬ Through fs s (trashName (s.place fs) (serial + 1)) q

section

variable (h : s.Placed fs) (hP : fs.LeadsTo (s.beside fs) P)
  (honly : (plan faults fs serial s).start.LeadsOnlyTo (s.beside fs) P)

include h hP honly

theorem wipe_untouched (hroot : P ++ [(s.place fs).name] <+: l →
      (s.place fs).toPathname.isTooLong = true)
    (htrash : ∀ n, isTrashName (s.place fs) n = true → ¬ P ++ [n] <+: l) :
    (s.wipe faults fs serial).files.item? l = fs.item? l := by
  by_cases hp : P ++ [(s.place fs).name] <+: l
  · have hthin := wipe_thinned h honly
    rw [plan_unoccupied (FileSystem.unoccupied_of_isTooLong (hroot hp))] at hthin
    refine hthin.outside ?_
    rintro ⟨n, hn, -, hbeneath⟩
    obtain ⟨-, -, -, hname⟩ := mem_trashNames.1 hn
    exact htrash n hname hbeneath
  · refine wipe_outside h hP honly fun n hn => ?_
    rcases hn with rfl | hn
    · exact hp
    · exact htrash n hn

variable (hclean : Clean faults fs serial s)

include hclean

omit honly in
theorem Clean.moved (hocc : fs.isOccupied (s.place fs).toPathname = true) :
    ∃ item, FileSystem.Moved (P ++ [(s.place fs).name])
        (P ++ [trashName (s.place fs) (serial + 1)]) item fs (plan faults fs serial s).start ∧
      ((s.beside fs).child (trashName (s.place fs) (serial + 1))).isTooLong = false := by
  rcases plan_cases h faults serial with
    ⟨hnone, -⟩ | ⟨-, hfails, heq⟩ | ⟨-, ⟨Q, item, hQ, hmoved⟩, hshort, heq⟩
  · rw [hocc] at hnone
    cases hnone
  · rcases wipe_cases h faults serial with ⟨e, he, -⟩ | ⟨-, -, hsteps, -⟩
    · rw [hP.isDirectory?] at he
      cases he
    · -- A renaming that fails is a call that fails.
      refine absurd (hclean.steps _ ?_) hfails
      rw [hsteps, heq]
      simp
  · obtain rfl := hP.leadsOnlyTo Q hQ
    rw [heq]
    exact ⟨item, hmoved, hshort⟩

theorem Clean.gone (hocc : fs.isOccupied (s.place fs).toPathname = true)
    (hl : P ++ [(s.place fs).name] <+: l) : (s.wipe faults fs serial).files.item? l = none := by
  obtain ⟨item, hmoved, -⟩ := hclean.moved h hP hocc
  refine (wipe_thinned h honly).eq_none ?_
  exact hmoved.gone (ne_name_of_isTrashName (isTrashName_trashName ..)).symm hl

theorem Clean.across (hocc : fs.isOccupied (s.place fs).toPathname = true) {k : Location}
    (hlk : FileSystem.Across P (s.place fs).name (trashName (s.place fs) (serial + 1)) l k) :
    (s.wipe faults fs serial).files.item? k = fs.item? l ∨
      (s.wipe faults fs serial).files.item? k = none := by
  obtain ⟨item, hmoved, -⟩ := hclean.moved h hP hocc
  rw [← hmoved.across hlk]
  exact (wipe_thinned h honly).less k

theorem Clean.less (hl : ¬ P ++ [trashName (s.place fs) (serial + 1)] <+: l) :
    (s.wipe faults fs serial).files.item? l = fs.item? l ∨
      (s.wipe faults fs serial).files.item? l = none := by
  rw [or_iff_not_imp_right]
  intro hsome
  obtain ⟨item, hitem⟩ := Option.ne_none_iff_exists'.1 hsome
  have hstart := (wipe_thinned h honly).eq_some hitem
  rw [hitem, ← hstart]
  by_cases hroot : P ++ [(s.place fs).name] <+: l
  · cases hocc : fs.isOccupied (s.place fs).toPathname with
    | true => exact absurd (hclean.gone h hP honly hocc hroot) hsome
    | false => rw [plan_unoccupied hocc]
  · exact start_outside h hP hroot hl

end

/-- What is followed from within the root, and not by the root's own entry, may still be there if
the moved root is. -/
def Stranded (faults : Faults) (fs : FileSystem) (serial : Nat) (s : CacheStore) (q : Pathname) :
    Prop :=
  ∃ P, fs.LeadsTo (s.beside fs) P ∧ P ++ [(s.place fs).name] <+: fs.startOf q ∧
    P ++ [(s.place fs).name] ∉ fs.way q ∧
    ((s.wipe faults fs serial).files.item? (P ++ [trashName (s.place fs) (serial + 1)])).isSome

section

variable {q : Pathname} (h : s.Placed fs) (hclean : Clean faults fs serial s)
  (hapart : Apart fs serial s q) (hq : fs.isPresent q = true)
  (hname : ∃ piece ∈ q.pieces, isStep piece = false)

include hname

theorem through_of_setOut {n : String} {r : Location} (hP : fs.LeadsTo (s.beside fs) P)
    (hset : fs.setOut q = P ++ n :: r) : Through fs s n q := by
  obtain ⟨piece, hmem⟩ := FileSystem.exists_mem_way hname fs
  refine ⟨P, hP, _, hmem, ?_⟩
  rw [hset]
  exact ⟨r ++ [piece], by simp⟩

include h hapart

-- A name is looked for from where it was before, unless that is within the root.
theorem wipe_setOut (faults : Faults) :
    (s.wipe faults fs serial).files.setOut q = fs.setOut q ∨
      ∃ P r, fs.LeadsTo (s.beside fs) P ∧ fs.isOccupied (s.place fs).toPathname = true ∧
        fs.setOut q = P ++ (s.place fs).name :: r ∧
        (s.wipe faults fs serial).files.setOut q =
          P ++ trashName (s.place fs) (serial + 1) :: r := by
  rcases wipe_here h faults serial with
    hsame | ⟨P, r, hP, ⟨hhere, hmoved, hocc, -⟩ | ⟨hhere, hmoved⟩⟩
  · exact .inl (by rw [FileSystem.setOut, FileSystem.setOut, FileSystem.startOf,
      FileSystem.startOf, hsame])
  · refine (FileSystem.setOut_cases q hhere hmoved).imp_right ?_
    rintro ⟨r, hset, hset'⟩
    exact ⟨P, r, hP, hocc, hset, hset'⟩
  · refine (FileSystem.setOut_cases q hhere hmoved).imp_right ?_
    rintro ⟨r, hset, -⟩
    exact absurd (through_of_setOut hname hP hset) hapart.target

include hclean hq

theorem Clean.isPresent_iff (hP : fs.LeadsTo (s.beside fs) P)
    (hsame : (s.wipe faults fs serial).files.setOut q = fs.setOut q) :
    (s.wipe faults fs serial).files.isPresent q = true ↔
      ∀ l ∈ fs.way q, (s.wipe faults fs serial).files.item? l = fs.item? l := by
  refine FileSystem.isPresent_iff_way hname hsame hq fun l hl => ?_
  exact hclean.less h hP (start_leadsOnlyTo h hP faults (hapart.beside P hP))
    fun htarget => hapart.target ⟨P, hP, l, hl, htarget⟩

omit hclean hapart hname in
theorem occupied_of_through (hlong : (s.place fs).toPathname.isTooLong = false)
    (hP : fs.LeadsTo (s.beside fs) P) (hl : l ∈ fs.way q) (hroot : P ++ [(s.place fs).name] <+: l) :
    fs.isOccupied (s.place fs).toPathname = true := by
  exact h.isOccupied_place hP
    (FileSystem.isSome_of_above (FileSystem.isSome_of_mem_way hq hl) hroot) hlong

theorem Clean.absent_of_through (hlong : (s.place fs).toPathname.isTooLong = false)
    (hthrough : Through fs s (s.place fs).name q) (hstranded : ¬ Stranded faults fs serial s q) :
    (s.wipe faults fs serial).files.isPresent q = false := by
  obtain ⟨P, hP, l, hl, hroot⟩ := hthrough
  have honly := start_leadsOnlyTo h hP faults (hapart.beside P hP)
  have hocc := occupied_of_through h hq hlong hP hl hroot
  rcases wipe_setOut h hapart hname faults with hsame | ⟨Q, r, hQ, -, hset, hset'⟩
  · rw [← Bool.not_eq_true, hclean.isPresent_iff h hapart hq hname hP hsame]
    intro hall
    have hsome := FileSystem.isSome_of_mem_way hq hl
    rw [← hall l hl, hclean.gone h hP honly hocc hroot] at hsome
    cases hsome
  · obtain rfl := hP.leadsOnlyTo Q hQ
    by_cases hentry : Q ++ [(s.place fs).name] ∈ fs.way q
    · refine FileSystem.absent_across (fun _ _ => hclean.across h hP honly hocc)
        (hclean.gone h hP honly hocc List.prefix_rfl) hq ?_ ?_ hentry
      · rw [hset, hset', List.append_cons Q (s.place fs).name, List.append_cons Q (trashName _ _)]
        exact .within ..
      · exact fun htarget => hapart.target ⟨Q, hP, _, htarget, List.prefix_rfl⟩
    · refine FileSystem.absent_of_setOut hname ?_
      have hwithin : Q ++ [(s.place fs).name] <+: fs.startOf q := by
        refine List.IsPrefix.trans ⟨r, ?_⟩ (FileSystem.setOut_prefix fs q)
        rw [hset, ← List.append_cons]
      rw [hset', List.append_cons]
      refine FileSystem.eq_none_of_above ?_ (List.prefix_append ..)
      rw [← Option.not_isSome_iff_eq_none]
      exact fun hleft => hstranded ⟨Q, hP, hwithin, hentry, hleft⟩

theorem Clean.through_of_absent
    (habsent : (s.wipe faults fs serial).files.isPresent q = false)
    (htrash : ∀ n, isTrashName (s.place fs) n = true → ¬ Through fs s n q) :
    (s.place fs).toPathname.isTooLong = false ∧ Through fs s (s.place fs).name q := by
  rcases wipe_setOut h hapart hname faults with hsame | ⟨P, r, hP, hocc, hset, -⟩
  · by_cases hP : ∃ P, fs.LeadsTo (s.beside fs) P
    · obtain ⟨P, hP⟩ := hP
      have honly := start_leadsOnlyTo h hP faults (hapart.beside P hP)
      rw [← Bool.not_eq_true, hclean.isPresent_iff h hapart hq hname hP hsame] at habsent
      by_contra hnot
      refine habsent fun l hl => wipe_untouched h hP honly (fun hroot => ?_) fun n hn hbeneath =>
        htrash n hn ⟨P, hP, l, hl, hbeneath⟩
      by_contra hlong
      exact hnot ⟨Bool.not_eq_true _ ▸ hlong, P, hP, l, hl, hroot⟩
    · have hnone : ∀ P, ¬ fs.LeadsTo (s.beside fs) P := fun P hlead => hP ⟨P, hlead⟩
      rw [wipe_nowhere h hnone, hq] at habsent
      cases habsent
  · exact ⟨FileSystem.notTooLong_of_isOccupied hocc, through_of_setOut hname hP hset⟩

end

theorem Clean.trash_gone (h : s.Placed fs) (hclean : Clean faults fs serial s)
    (hlinks : fs.NoLinkOn (s.place fs).parent.parts) (hP : fs.LeadsTo (s.beside fs) P)
    (hocc : fs.isOccupied (s.place fs).toPathname = true) :
    (s.wipe faults fs serial).files.item? (P ++ [trashName (s.place fs) (serial + 1)]) = none := by
  obtain ⟨item, -, hshort⟩ := hclean.moved h hP hocc
  have htrue : ∀ step ∈ (s.wipe faults fs serial).steps, step.isTruthful = true := by
    intro step hstep
    exact Step.isTruthful_of_done (hclean.steps step hstep)
  rw [← Option.not_isSome_iff_eq_none,
    wipe_ok_trash h hclean.ok htrue hlinks hP (isTrashName_trashName ..)]
  rintro ⟨-, hlong⟩
  rw [hshort] at hlong
  cases hlong

theorem not_stranded (h : s.Placed fs) (hclean : Clean faults fs serial s)
    (hup : ".." ∉ s.root.parts) (hn : isStep name = false)
    (hp : fs.isPresent (s.root.child name).toPathname = true)
    (hlong : (s.place fs).toPathname.isTooLong = false) :
    ¬ Stranded faults fs serial s (s.root.child name).toPathname := by
  rintro ⟨P, hP, -, hentry, hleft⟩
  obtain ⟨Q, hQ, hmem | ⟨hdir, l, hl, hroot⟩⟩ := root_on_way h hup hn hp hlong
  · exact hentry (hP.leadsOnlyTo Q hQ ▸ hmem)
  · have hocc := occupied_of_through h hp hlong hQ hl hroot
    rw [hclean.trash_gone h (FileSystem.noLinkOn_of_directory hdir) hP hocc] at hleft
    cases hleft

/-- An entry that is there is gone after the wipe if its way leads through the root as the wipe
sees it and does not end in the root under another name, as it does if the root is spelled without
a step up, and only then or if its way leads through trash. -/
structure Follows (faults : Faults) (fs : FileSystem) (serial : Nat) (s : CacheStore) (p : Path) :
    Prop where
  gone : (s.place fs).toPathname.isTooLong = false →
    Through fs s (s.place fs).name p.toPathname → ¬ Stranded faults fs serial s p.toPathname →
      (s.wipe faults fs serial).files.isPresent p.toPathname = false
  through : (s.wipe faults fs serial).files.isPresent p.toPathname = false →
    (∀ n, isTrashName (s.place fs) n = true → ¬ Through fs s n p.toPathname) →
      (s.place fs).toPathname.isTooLong = false ∧ Through fs s (s.place fs).name p.toPathname
  spelled : ".." ∉ s.root.parts → (s.place fs).toPathname.isTooLong = false →
    (s.wipe faults fs serial).files.isPresent p.toPathname = false

theorem wipe_follows (hnormal : ∀ part ∈ s.root.parts, Path.isPart part = true)
    (hhash : hash ≠ "") (hslash : Without '/' c hash)
    (hmade : (makeEntry made gs s c hash).result = .ok p)
    (hdir : fs.isDirectory p.toPathname = true) (hclean : Clean faults fs serial s)
    (hapart : Apart fs serial s p.toPathname) : Follows faults fs serial s p := by
  have hpath : s.root.child (entryName c hash) = p := by
    have hentry := entryPath_eq s hhash hslash
    rw [makeEntry, hentry] at hmade
    simp only at hmade
    split at hmade
    · cases hmade
    · exact Except.ok.inj hmade
  have hanchored : s.Anchored fs := anchored_of_result (by rw [hclean.ok]; nofun)
  have hplaced : s.Placed fs := ⟨hanchored, hnormal, parts_ne_nil_of_ok hclean.ok⟩
  have hn := entryName_isStep c hash
  have hpresent := present_of_directory hdir
  have hname : ∃ piece ∈ p.toPathname.pieces, isStep piece = false :=
    ⟨_, Path.mem_pieces_toPathname (by simp [← hpath, Path.child]), hn⟩
  have hgone := hclean.absent_of_through hplaced hapart hpresent hname
  refine ⟨hgone, hclean.through_of_absent hplaced hapart hpresent hname, fun hup hlong => ?_⟩
  rw [← hpath] at hpresent hgone ⊢
  obtain ⟨P, hP, hway⟩ := root_on_way hplaced hup hn hpresent hlong
  refine hgone hlong ⟨P, hP, ?_⟩ (not_stranded hplaced hclean hup hn hpresent hlong)
  exact hway.elim (fun hmem => ⟨_, hmem, List.prefix_rfl⟩) And.right

def crossingFiles : FileSystem :=
  ((FileSystem.empty.including ⟨["", "a"]⟩ .directory).including ⟨["", "a", "b"]⟩
    .directory).including ⟨["", "l"]⟩ (.link ⟨["a", "b"]⟩)

def crossingStore : CacheStore := ⟨⟨.relative, ["l", "..", "cache"]⟩⟩

def crossingMade : FileSystem :=
  (makeEntry .never crossingFiles crossingStore release "af03").files

def crossingEntry : Path := crossingStore.root.child (entryName release "af03")

theorem makeEntry_crossing :
    (makeEntry .never crossingFiles crossingStore release "af03").result = .ok crossingEntry := by
  have hmade : (makeDirectories .never crossingFiles crossingEntry.toPathname).result = .ok () := by
    decide +kernel
  have hentry : crossingStore.entryPath release "af03" = .ok crossingEntry :=
    entryPath_eq crossingStore (by decide) (by decide +kernel)
  simp only [makeEntry, hentry, hmade]

theorem crossingMade_stays : crossingMade.isDirectory crossingEntry.toPathname = true ∧
    Clean .never crossingMade 0 crossingStore ∧
    (crossingStore.wipe .never crossingMade 0).files.isPresent crossingEntry.toPathname = true := by
  have hdir : crossingMade.isDirectory crossingEntry.toPathname = true := by decide +kernel
  have hclean : Clean .never crossingMade 0 crossingStore := ⟨by decide +kernel, by decide +kernel⟩
  have htop : crossingMade.LeadsTo (crossingStore.beside crossingMade) [] :=
    ⟨by decide +kernel, by decide +kernel⟩
  have hway : ∀ l ∈ crossingMade.way crossingEntry.toPathname, ∀ n, l.head? = some n →
      n ≠ (crossingStore.place crossingMade).name ∧
        isTrashName (crossingStore.place crossingMade) n = false := by
    decide +kernel
  have hthrough : ∀ n, Through crossingMade crossingStore n crossingEntry.toPathname →
      n ≠ (crossingStore.place crossingMade).name ∧
        isTrashName (crossingStore.place crossingMade) n = false := by
    rintro n ⟨P, hP, l, hl, rest, rfl⟩
    obtain rfl := htop.leadsOnlyTo P hP
    exact hway _ hl n rfl
  have htrash : ∀ n, isTrashName (crossingStore.place crossingMade) n = true →
      ¬ Through crossingMade crossingStore n crossingEntry.toPathname := by
    intro n hn hthere
    rw [(hthrough n hthere).2] at hn
    cases hn
  have hapart : Apart crossingMade 0 crossingStore crossingEntry.toPathname := by
    refine ⟨fun P hP t u _ hu => ?_, htrash _ (isTrashName_trashName ..)⟩
    have hfree : crossingMade.item? [trashName (crossingStore.place crossingMade) 1] = none := by
      decide +kernel
    obtain rfl := htop.leadsOnlyTo P hP
    rw [List.nil_append, hfree] at hu
    cases hu
  have hfollows : Follows .never crossingMade 0 crossingStore crossingEntry :=
    wipe_follows (by decide +kernel) (by decide) (by decide +kernel)
      makeEntry_crossing hdir hclean hapart
  refine ⟨hdir, hclean, ?_⟩
  by_contra habsent
  have hroot := (hfollows.through (Bool.not_eq_true _ ▸ habsent) htrash).2
  exact (hthrough _ hroot).1 rfl

end ArtifactCache.CacheStore
