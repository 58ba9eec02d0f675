import ArtifactCache.Proofs.FileSystem.Making
import ArtifactCache.Proofs.FileSystem.Way

namespace ArtifactCache

variable {fs gs : FileSystem} {p q : Pathname} {d l : Location} {followLast : Bool}
  {pieces tail : List String}

namespace FileSystem

theorem walk_ne_alreadyExists {again : Location → List String → Except Errno Location}
    (hagain : ∀ base ps, again base ps ≠ .error .alreadyExists) (dir : Location) :
    fs.walk again followLast dir pieces ≠ .error .alreadyExists := by
  induction pieces generalizing dir with
  | nil => exact nofun
  | cons piece pieces ih =>
      rcases step_or_name piece with hp | rfl | hp
      · rw [walk_skip hp]
        exact ih dir
      · rw [walk_up]
        exact ih dir.dropLast
      · rw [walk_name hp]
        split
        · split_ifs <;> nofun
        · exact ih (dir ++ [piece])
        · split_ifs <;> nofun
        · split_ifs
          · nofun
          · exact hagain _ _
          · exact hagain _ _

theorem walkWithin_ne_alreadyExists (n : Nat) (dir : Location) (pieces : List String) :
    fs.walkWithin followLast n dir pieces ≠ .error .alreadyExists := by
  induction n generalizing dir pieces with
  | zero =>
      have hlinks : (.error .tooManyLinks : Except Errno Location) ≠ .error .alreadyExists := nofun
      exact walk_ne_alreadyExists (fun _ _ => hlinks) dir
  | succ n ih => exact walk_ne_alreadyExists (fun base ps => ih base ps) dir

theorem resolveEntry_ne_alreadyExists (fs : FileSystem) (p : Pathname) :
    fs.resolveEntry p ≠ .error .alreadyExists := by
  have hfollow : fs.follow true p p.entryParts.1 ≠ .error .alreadyExists := by
    unfold follow
    split_ifs
    · nofun
    · nofun
    · exact walkWithin_ne_alreadyExists _ _ _
    · exact walkWithin_ne_alreadyExists _ _ _
  intro h
  unfold resolveEntry at h
  cases hf : fs.follow true p p.entryParts.1 with
  | error e =>
      rw [hf] at h
      exact hfollow (by rw [hf]; exact congrArg _ (Except.error.inj h))
  | ok d =>
      rw [hf] at h
      simp only [holder] at h
      split at h <;> cases h

section

variable {dir : fs.Holder} (h : fs.follow true p p.entryParts.1 = .ok dir.1)

include h

theorem exists_leadsTo_of_isStep (hstep : isStep p.entryParts.2 = true) :
    ∃ d, fs.LeadsTo p d := by
  obtain ⟨hlong, hempty, hwalk⟩ := follow_eq_ok_iff.1 h
  by_cases hne : p.entryParts.2 = ""
  · exact ⟨[], leadsTo_of_slashes (Pathname.slashes_of_entryParts hne) hempty hlong⟩
  obtain ⟨k, hpieces⟩ := exists_final_slashes p hne
  have hcases : p.entryParts.2 = "." ∨ p.entryParts.2 = ".." := by simpa [isStep, hne] using hstep
  rcases hcases with hdot | hup
  · refine ⟨dir.1, follow_eq_ok_iff.2 ⟨hlong, hempty, ?_⟩, dir.2⟩
    rw [hpieces, hdot]
    exact (walkWithin_append_idle (idle_dot k) dir.2).2 hwalk
  · obtain ⟨m, -, hm⟩ := walkWithin_append_directory true
      (List.cons_ne_nil p.entryParts.2 (List.replicate k "")) dir.2 hwalk
    refine ⟨dir.1.dropLast, follow_eq_ok_iff.2 ⟨hlong, hempty, ?_⟩, ?_⟩
    · rw [hpieces, hm, hup, walkWithin_eq, walk_up]
      exact walk_idle (idle_slashes k)
    · rcases eq_or_ne dir.1 [] with hnil | hne
      · rw [hnil]
        rfl
      · have hd := dir.2
        rw [← List.dropLast_concat_getLast hne] at hd
        exact item?_dir_of_isSome (by rw [hd]; rfl)

theorem resolveLink_stem (hname : isStep p.entryParts.2 = false)
    (hi : (fs.item? (dir.1 ++ [p.entryParts.2])).isSome) :
    fs.resolveLink p.stem = .ok (dir.1 ++ [p.entryParts.2]) := by
  obtain ⟨hlong, -, hwalk⟩ := follow_eq_ok_iff.1 h
  have hstem := Pathname.stem_eq_entry hname
  have hempty : p.stem.isEmpty = false := by
    have hne := ne_empty_of_isStep hname
    rw [hstem]
    rcases p.entryParts.1 with _ | ⟨a, _ | ⟨b, l⟩⟩ <;> simp [Pathname.isEmpty, hne]
  have hshort := Pathname.notTooLong_of_begins p.stem_begins hlong
  obtain ⟨m, -, hm⟩ := walkWithin_append_directory false
    (List.cons_ne_nil p.entryParts.2 []) dir.2 hwalk
  refine follow_eq_ok_iff.2 ⟨hshort, hempty, ?_⟩
  rw [startOf_of_begins fs p.stem_begins hempty, hstem, hm, walkWithin_eq, walk_name hname]
  obtain ⟨item, hitem⟩ := Option.isSome_iff_exists.1 hi
  rw [hitem]
  cases item <;> rfl

end

end FileSystem

namespace Stands

theorem exists_resolveEntry (h : Stands fs p) :
    ∃ dir, fs.resolveEntry p = .ok (dir, p.entryParts.2) := by
  have hrefused := h.refused
  unfold FileSystem.mkdir at hrefused
  cases he : fs.resolveEntry p with
  | error e =>
      rw [he] at hrefused
      obtain rfl := Except.error.inj hrefused
      exact absurd he (fs.resolveEntry_ne_alreadyExists p)
  | ok entry =>
      obtain ⟨dir, name⟩ := entry
      obtain ⟨-, rfl⟩ := FileSystem.resolveEntry_eq_ok_iff.1 he
      exact ⟨dir, rfl⟩

theorem leadsTo_or_occupied (h : Stands fs p)
    (hslash : ∀ piece ∈ p.pieces, '/' ∉ piece.toList) :
    (∃ d, fs.LeadsTo p d) ∨ fs.isOccupied p.stem = true := by
  obtain ⟨dir, he⟩ := h.exists_resolveEntry
  obtain ⟨hfollow, -⟩ := FileSystem.resolveEntry_eq_ok_iff.1 he
  by_cases hstep : isStep p.entryParts.2 = true
  · exact .inl (FileSystem.exists_leadsTo_of_isStep hfollow hstep)
  rw [Bool.not_eq_true] at hstep
  have hmem : p.entryParts.2 ∈ p.pieces := by
    refine p.stem_begins.subset ?_
    rw [Pathname.stem_eq_entry hstep]
    simp
  have hnul : '\x00' ∉ p.entryParts.2.toList := by simpa using List.any_eq_false.1 h.noNul _ hmem
  have hrefused := h.refused
  simp only [FileSystem.mkdir, he] at hrefused
  split_ifs at hrefused with hname hnew hlong
  · have hi := Option.ne_none_iff_isSome.1 hnew
    have hl := FileSystem.resolveLink_stem hfollow hstep hi
    exact .inr (FileSystem.isOccupied_iff.2 ⟨_, hl, hi⟩)
  · cases hrefused
  · refine absurd ?_ hname
    simpa [isName, hstep, hnul, hslash _ hmem] using hlong

theorem makeDirectories_again (h : Stands fs p) :
    (makeDirectories .never fs p).files = fs ∧ (makeDirectories .never fs p).result = .ok () := by
  obtain ⟨dir, he⟩ := h.exists_resolveEntry
  have hone : Making.upTo .never p.pieces.length fs p = Making.one .never fs p := by
    cases p.pieces.length with
    | zero => rfl
    | succ level =>
        refine (Making.upTo_cases .never level fs p).resolve_right fun honward => ?_
        obtain ⟨hlast, hempty, habsent⟩ := honward.1
        rw [FileSystem.isPresent_above he hlast hempty] at habsent
        cases habsent
  rw [files_makeDirectories, makeDirectories_eq_ok_iff, hone, Making.one_never fs h.noNul,
    h.refused]
  exact ⟨rfl, .inr ⟨_, rfl, rfl⟩⟩

end Stands

namespace FileSystem

structure Blocked (fs gs : FileSystem) (p : Pathname) : Prop where
  noDirectory : gs.isDirectory p = false
  found : ∃ l item, gs.resolveLink p = .ok l ∧ fs.item? l = some item ∧ item ≠ .directory

theorem Grown.blocked_iff (h : Grown fs gs) :
    Blocked fs gs p ↔ gs.isOccupied p = true ∧ gs.isDirectory p = false := by
  constructor
  · rintro ⟨hnot, l, item, hl, hi, -⟩
    have hsome : (fs.item? l).isSome := by rw [hi]; rfl
    exact ⟨isOccupied_iff.2 ⟨l, hl, by rwa [h.kept hsome]⟩, hnot⟩
  · rintro ⟨hocc, hnot⟩
    obtain ⟨l, hl, hsome⟩ := isOccupied_iff.1 hocc
    obtain ⟨item, hi⟩ := Option.isSome_iff_exists.1 hsome
    have hne : item ≠ .directory := by
      rintro rfl
      rw [isDirectory_iff.2 ⟨l, leadsTo_of_resolveLink hl hi⟩] at hnot
      cases hnot
    refine ⟨hnot, l, item, hl, ?_, hne⟩
    rcases h.item l with hsame | ⟨-, hnew⟩
    · rw [← hsame, hi]
    · rw [hi] at hnew
      exact absurd (Option.some.inj hnew) hne

theorem isDirectory_iff_of_stem (hstem : p.stem.isEmpty = false) :
    fs.isDirectory p = true ↔ p.isTooLong = false ∧ fs.isDirectory p.stem = true := by
  obtain ⟨tail, hpieces, htail⟩ := p.exists_stem_tail
  rw [isDirectory_iff, isDirectory_iff, ← exists_and_left]
  exact exists_congr fun d => leadsTo_iff_of_tail hpieces htail hstem

theorem isDirectory_iff_not_blocked (h : Grown fs gs) (hsettled : Settled gs p)
    (hslash : ∀ piece ∈ p.pieces, '/' ∉ piece.toList) :
    gs.isDirectory p = true ↔ p.isTooLong = false ∧ ¬ Blocked fs gs p.stem := by
  obtain ⟨q, tail, hpieces, htail, hstands⟩ := hsettled
  have hbefore : ∀ piece ∈ q.pieces, '/' ∉ piece.toList := fun piece hpiece =>
    hslash piece (hpieces ▸ List.mem_append_left tail hpiece)
  rw [h.blocked_iff]
  rcases hstands.leadsTo_or_occupied hbefore with ⟨d, hd⟩ | hocc
  · have hfree : ¬ (gs.isOccupied p.stem = true ∧ gs.isDirectory p.stem = false) := by
      rintro ⟨hocc, hnot⟩
      obtain ⟨l, hl, -⟩ := isOccupied_iff.1 hocc
      rw [Pathname.stem_eq_of_tail hpieces htail] at hl hnot
      have hstem : gs.isDirectory q.stem = true :=
        ((isDirectory_iff_of_stem (follow_eq_ok_iff.1 hl).2.1).1 (isDirectory_iff.2 ⟨d, hd⟩)).2
      rw [hstem] at hnot
      cases hnot
    rw [isDirectory_iff, and_iff_left hfree]
    constructor
    · rintro ⟨c, hc⟩
      exact hc.notTooLong
    · exact fun hlong => ⟨d, (leadsTo_iff_of_tail hpieces htail hd.notEmpty).2 ⟨hlong, hd⟩⟩
  · rw [← Pathname.stem_eq_of_tail hpieces htail] at hocc
    obtain ⟨l, hl, -⟩ := isOccupied_iff.1 hocc
    rw [isDirectory_iff_of_stem (follow_eq_ok_iff.1 hl).2.1]
    simp [hocc]

end FileSystem

theorem makeDirectories_isDirectory_iff (hslash : ∀ piece ∈ p.pieces, '/' ∉ piece.toList)
    (hok : (makeDirectories .never fs p).result = .ok ()) :
    (makeDirectories .never fs p).files.isDirectory p = true ↔
      p.isTooLong = false ∧ ¬ FileSystem.Blocked fs (makeDirectories .never fs p).files p.stem := by
  have hgrown := makeDirectories_grown .never fs p
  rw [makeDirectories_eq_ok_iff] at hok
  rw [files_makeDirectories] at hgrown ⊢
  exact FileSystem.isDirectory_iff_not_blocked hgrown (Making.upTo_settles hok) hslash

end ArtifactCache
