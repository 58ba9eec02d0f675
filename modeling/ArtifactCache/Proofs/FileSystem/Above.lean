import ArtifactCache.FileSystem.Directories
import ArtifactCache.Proofs.FileSystem.Straight

namespace ArtifactCache

variable {fs : FileSystem} {p q : Pathname} {d : Location} {tail : List String}

namespace Pathname

theorem byteSize_le_of_begins (h : q.pieces <+: p.pieces) : q.byteSize ≤ p.byteSize := by
  obtain ⟨tail, htail⟩ := h
  have hsum : ∀ (l : List String) (n : Nat),
      l.foldr (fun s n => s.utf8ByteSize + 1 + n) 0 ≤
        l.foldr (fun s n => s.utf8ByteSize + 1 + n) n := by
    intro l n
    induction l with
    | nil => exact n.zero_le
    | cons s l ih => exact Nat.add_le_add_left ih _
  rw [byteSize, byteSize, ← htail, List.foldr_append]
  exact Nat.sub_le_sub_right (hsum _ _) 1

theorem notTooLong_of_begins (h : q.pieces <+: p.pieces) (hlong : p.isTooLong = false) :
    q.isTooLong = false := by
  have hle := byteSize_le_of_begins h
  simp only [isTooLong, decide_eq_false_iff_not, not_le] at hlong ⊢
  omega

theorem isEmpty_of_begins (h : q.pieces <+: p.pieces) (hq : q.isEmpty = false) :
    p.isEmpty = false := by
  obtain ⟨pieces⟩ := p
  obtain ⟨tail, rfl⟩ := h
  obtain ⟨_ | ⟨a, _ | ⟨b, l⟩⟩⟩ := q
  · cases hq
  · cases tail with
    | nil => exact hq
    | cons t tail => rfl
  · rfl

theorem isAbsolute_of_begins (h : q.pieces <+: p.pieces) (hq : q.isEmpty = false) :
    q.isAbsolute = p.isAbsolute := by
  obtain ⟨pieces⟩ := p
  obtain ⟨tail, rfl⟩ := h
  obtain ⟨_ | ⟨a, _ | ⟨b, l⟩⟩⟩ := q
  · cases hq
  · have ha : a ≠ "" := by simpa [isEmpty] using hq
    cases tail <;> simp [isAbsolute, ha]
  · rw [isAbsolute_cons (List.cons_ne_nil b l), List.cons_append, isAbsolute_cons (by simp)]

def stem (p : Pathname) : Pathname := ⟨p.pieces.rdropWhile (!Path.isPart ·)⟩

theorem stem_begins (p : Pathname) : p.stem.pieces <+: p.pieces := List.rdropWhile_prefix _ _

theorem exists_stem_tail (p : Pathname) :
    ∃ tail, p.pieces = p.stem.pieces ++ tail ∧ FileSystem.Idle tail := by
  refine ⟨p.pieces.rtakeWhile (!Path.isPart ·), List.rdropWhile_append_rtakeWhile.symm, ?_⟩
  intro piece hpiece
  have hnot := List.mem_rtakeWhile_imp hpiece
  simpa [Path.isPart, or_iff_not_imp_left] using hnot

theorem stem_eq_of_tail (h : p.pieces = q.pieces ++ tail) (htail : FileSystem.Idle tail) :
    p.stem = q.stem := by
  have hsame : (q.pieces ++ tail).rdropWhile (!Path.isPart ·) =
      q.pieces.rdropWhile (!Path.isPart ·) := by
    clear h
    induction tail using List.reverseRecOn with
    | nil => rw [List.append_nil]
    | append_singleton tail piece ih =>
        have hpiece : Path.isPart piece = false := by
          rcases htail piece (by simp) with rfl | rfl <;> rfl
        rw [← List.append_assoc, List.rdropWhile_concat_pos _ _ _ (by simp [hpiece])]
        exact ih fun t ht => htail t (by simp [ht])
  rw [stem, stem, h, hsame]

theorem stem_eq_self (h : Path.isPart p.lastPiece = true) : p.stem = p := by
  have hsame : p.pieces.rdropWhile (!Path.isPart ·) = p.pieces := by
    refine List.rdropWhile_eq_self_iff.2 fun hne => ?_
    rw [lastPiece, List.getLast?_eq_some_getLast hne] at h
    simpa using h
  rw [stem, hsame]

theorem isPart_of_isStep {piece : String} (h : isStep piece = false) :
    Path.isPart piece = true := by
  simp only [isStep, Bool.or_eq_false_iff, beq_eq_false_iff_ne] at h
  simp [Path.isPart, h]

theorem stem_eq_entry (h : isStep p.entryParts.2 = false) :
    p.stem = ⟨p.entryParts.1 ++ [p.entryParts.2]⟩ := by
  obtain ⟨k, hpieces⟩ := FileSystem.exists_final_slashes p (FileSystem.ne_empty_of_isStep h)
  have hcut : p.pieces = p.entryParts.1 ++ [p.entryParts.2] ++ List.replicate k "" := by
    rw [List.append_assoc]
    exact hpieces
  rw [stem_eq_of_tail (q := ⟨_⟩) hcut (FileSystem.idle_slashes k)]
  exact stem_eq_self (by simpa [lastPiece] using isPart_of_isStep h)

def cut (p : Pathname) : Pathname × String :=
  if p.lastPiece = "" then p.splitLast.1.splitLast else p.splitLast

def above (p : Pathname) : Pathname := p.cut.1

theorem slashes_of_entryParts (h : p.entryParts.2 = "") : ∀ piece ∈ p.pieces, piece = "" := by
  rw [← withoutFinalSlashes_eq_nil_iff]
  by_contra hne
  have hlast := List.rdropWhile_last_not (· == "") p.pieces hne
  rw [entryParts, List.getLast?_eq_some_getLast hne] at h
  exact hlast (beq_iff_eq.2 h)

theorem cut_of_slashes (h : ∀ piece ∈ p.pieces, piece = "") : p.cut.2 = "" := by
  have hlast : p.lastPiece = "" := by
    rcases eq_or_ne p.pieces [] with hnil | hne
    · rw [lastPiece, hnil]; rfl
    · rw [lastPiece, List.getLast?_eq_some_getLast hne]
      exact h _ (List.getLast_mem hne)
  have hbefore : p.pieces.dropLast.all (· == "") = true := by
    simpa using fun s hs => h s ((List.dropLast_sublist _).subset hs)
  rw [cut, if_pos hlast]
  change p.splitLast.1.lastPiece = ""
  simp only [splitLast, hbefore, if_true]
  split_ifs <;> simp [lastPiece]

theorem cut_eq_splitLast (h : withoutFinalSlashes p.pieces ≠ []) :
    p.cut = splitLast ⟨withoutFinalSlashes p.pieces⟩ := by
  by_cases hlast : p.lastPiece = ""
  · obtain ⟨pieces⟩ := p
    obtain ⟨before, last, rfl⟩ := (List.eq_nil_or_concat' pieces).resolve_left <| by
      rintro rfl
      exact h rfl
    obtain rfl : last = "" := by simpa [lastPiece] using hlast
    have hsame : withoutFinalSlashes (before ++ [""]) = withoutFinalSlashes before :=
      List.rdropWhile_concat_pos _ _ _ (by simp)
    rw [hsame, Ne, withoutFinalSlashes_eq_nil_iff] at h
    have hne : before.isEmpty = false := by
      rw [List.isEmpty_eq_false_iff]
      rintro rfl
      exact h (by simp)
    have hnot : before.all (· == "") = false := by simpa using h
    rw [cut, if_pos hlast, hsame]
    simp [splitLast, hne, hnot]
  · rw [cut, if_neg hlast, withoutFinalSlashes_eq_self hlast]

theorem snd_cut (p : Pathname) : p.cut.2 = p.entryParts.2 := by
  by_cases h : withoutFinalSlashes p.pieces = []
  · rw [cut_of_slashes (withoutFinalSlashes_eq_nil_iff.1 h), entryParts, h]
    rfl
  · rw [cut_eq_splitLast h]
    rfl

theorem above_cases (h : p.entryParts.2 ≠ "") :
    p.above = ⟨[""]⟩ ∨
      (p.above.pieces = p.entryParts.1 ++ [""] ∧ ∀ piece ∈ p.above.pieces, piece = "") ∨
      ∃ k, p.entryParts.1 = p.above.pieces ++ List.replicate k "" := by
  have hne : withoutFinalSlashes p.pieces ≠ [] := by
    intro hnil
    simp [entryParts, hnil] at h
  rw [above, cut_eq_splitLast hne]
  change _ ∨ (_ = (withoutFinalSlashes p.pieces).dropLast ++ _ ∧ _) ∨ _
  simp only [splitLast, entryParts]
  split_ifs with hnil hall
  · exact .inl rfl
  · refine .inr (.inl ⟨rfl, fun piece hpiece => ?_⟩)
    rcases List.mem_append.1 hpiece with hmem | hlast
    · exact eq_of_beq (List.all_eq_true.1 hall piece hmem)
    · exact List.mem_singleton.1 hlast
  · exact .inr (.inr (exists_slashes _))

theorem exists_above_tail (h : p.entryParts.2 ≠ "") (habove : p.above.isEmpty = false) :
    (∃ j k, p.pieces = p.above.pieces ++
        (List.replicate j "" ++ p.entryParts.2 :: List.replicate k "")) ∨
      ∀ piece ∈ p.above.pieces, piece = "" := by
  obtain ⟨k, hpieces⟩ := FileSystem.exists_final_slashes p h
  rcases above_cases h with hempty | ⟨-, hslashes⟩ | ⟨j, hj⟩
  · rw [hempty] at habove
    cases habove
  · exact .inr hslashes
  · refine .inl ⟨j, k, ?_⟩
    rw [hpieces, hj, List.append_assoc]

end Pathname

namespace FileSystem

theorem startOf_of_begins (fs : FileSystem) (h : q.pieces <+: p.pieces) (hq : q.isEmpty = false) :
    fs.startOf q = fs.startOf p := by
  rw [startOf, startOf, Pathname.isAbsolute_of_begins h hq]

theorem leadsTo_iff_of_tail (h : p.pieces = q.pieces ++ tail) (htail : Idle tail)
    (hq : q.isEmpty = false) :
    fs.LeadsTo p d ↔ p.isTooLong = false ∧ fs.LeadsTo q d := by
  have hprefix : q.pieces <+: p.pieces := ⟨tail, h.symm⟩
  have hp : p.isEmpty = false := Pathname.isEmpty_of_begins hprefix hq
  have hwalk : fs.item? d = some .directory →
      (fs.walkWithin true mostLinks (fs.startOf p) p.pieces = .ok d ↔
        fs.walkWithin true mostLinks (fs.startOf q) q.pieces = .ok d) := fun hd => by
    rw [startOf_of_begins fs hprefix hq, h]
    exact walkWithin_append_idle htail hd
  constructor
  · rintro ⟨hp', hd⟩
    obtain ⟨hlong, -, hfound⟩ := follow_eq_ok_iff.1 hp'
    exact ⟨hlong, follow_eq_ok_iff.2
      ⟨Pathname.notTooLong_of_begins hprefix hlong, hq, (hwalk hd).1 hfound⟩, hd⟩
  · rintro ⟨hlong, hq', hd⟩
    exact ⟨follow_eq_ok_iff.2 ⟨hlong, hp, (hwalk hd).2 (follow_eq_ok_iff.1 hq').2.2⟩, hd⟩

theorem LeadsTo.isPresent (h : fs.LeadsTo p d) : fs.isPresent p = true := by
  rw [FileSystem.isPresent, h.1, itemAt, h.2]
  rfl

theorem leadsTo_of_slashes (h : ∀ piece ∈ p.pieces, piece = "") (hp : p.isEmpty = false)
    (hlong : p.isTooLong = false) : fs.LeadsTo p [] := by
  have hstart : fs.startOf p = [] := by
    obtain ⟨_ | ⟨a, _ | ⟨b, pieces⟩⟩⟩ := p
    · cases hp
    · rw [h a (by simp)] at hp
      cases hp
    · obtain rfl := h a (by simp)
      rfl
  refine ⟨follow_eq_ok_iff.2 ⟨hlong, hp, ?_⟩, rfl⟩
  rw [hstart, walkWithin_eq]
  exact walk_idle fun piece hpiece => .inl (h piece hpiece)

theorem resolveEntry_eq_ok_iff {dir : fs.Holder} {name : String} :
    fs.resolveEntry p = .ok (dir, name) ↔
      fs.follow true p p.entryParts.1 = .ok dir.1 ∧ p.entryParts.2 = name := by
  unfold resolveEntry
  cases hf : fs.follow true p p.entryParts.1 with
  | error e => simp
  | ok d =>
      simp only [Except.ok.injEq]
      constructor
      · intro h
        cases hh : fs.holder d with
        | error e => rw [hh] at h; cases h
        | ok holder =>
            rw [hh] at h
            obtain ⟨rfl, hname⟩ := Prod.mk.inj (Except.ok.inj h)
            exact ⟨(holder_eq_ok_iff.1 hh).symm, hname⟩
      · rintro ⟨rfl, rfl⟩
        rw [holder_eq_ok_iff.2 rfl]
        rfl

theorem isPresent_above {dir : fs.Holder} {name : String}
    (h : fs.resolveEntry p = .ok (dir, name)) (hne : p.entryParts.2 ≠ "")
    (habove : p.above.isEmpty = false) : fs.isPresent p.above = true := by
  obtain ⟨hfollow, -⟩ := resolveEntry_eq_ok_iff.1 h
  obtain ⟨hlong, -, hwalk⟩ := follow_eq_ok_iff.1 hfollow
  obtain ⟨k, hpieces⟩ := exists_final_slashes p hne
  rcases p.above_cases hne with hempty | ⟨hfront, hslashes⟩ | ⟨j, hj⟩
  · rw [hempty] at habove
    cases habove
  · have hchild : (p.above.child p.entryParts.2).pieces = p.entryParts.1 ++ [p.entryParts.2] := by
      simp [Pathname.pieces_child, Pathname.front, Pathname.lastPiece, hfront]
    have hprefix : (p.above.child p.entryParts.2).pieces <+: p.pieces := by
      rw [hchild, hpieces]
      exact ⟨List.replicate k "", by simp⟩
    have hshort : p.above.isTooLong = false :=
      Pathname.notTooLong_of_child (Pathname.notTooLong_of_begins hprefix hlong)
    exact (leadsTo_of_slashes hslashes habove hshort).isPresent
  · have hprefix : p.above.pieces <+: p.pieces := by
      rw [hpieces, hj, List.append_assoc]
      exact List.prefix_append ..
    rw [hj, walkWithin_append_idle (idle_slashes j) dir.2,
      ← startOf_of_begins fs hprefix habove] at hwalk
    have hleads : fs.LeadsTo p.above dir.1 :=
      ⟨follow_eq_ok_iff.2 ⟨Pathname.notTooLong_of_begins hprefix hlong, habove, hwalk⟩, dir.2⟩
    exact hleads.isPresent

end FileSystem

end ArtifactCache
