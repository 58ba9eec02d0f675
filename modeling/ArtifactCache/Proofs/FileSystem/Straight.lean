import Mathlib.Data.List.DropRight
import ArtifactCache.Proofs.FileSystem.Outcome
import ArtifactCache.Proofs.FileSystem.Thinning

namespace ArtifactCache

variable {fs gs : FileSystem} {p : Pathname} {here d loc r q : Location} {name n : String}
  {pieces : List String}

namespace Pathname

def under (p : Pathname) (r : Location) : Pathname := r.foldl child p

@[simp] theorem under_nil (p : Pathname) : p.under [] = p := rfl

@[simp] theorem child_under (p : Pathname) (r : Location) (n : String) :
    (p.under r).child n = p.under (r ++ [n]) := by simp [under]

theorem isEmpty_under (hp : p.isEmpty = false) (hr : ∀ n ∈ r, isStep n = false) :
    (p.under r).isEmpty = false := by
  induction r using List.reverseRecOn with
  | nil => exact hp
  | append_singleton r n ih =>
      rw [← child_under]
      refine isEmpty_child _ ?_
      rintro rfl
      cases hr "" (by simp)

theorem front_under (hr : ∀ n ∈ r, isStep n = false) : (p.under r).front = p.front ++ r := by
  induction r using List.reverseRecOn with
  | nil => rw [under_nil, List.append_nil]
  | append_singleton r n ih =>
      rw [← child_under, front_child (hr n (by simp)), ih fun m hm => hr m (by simp [hm]),
        List.append_assoc]

theorem pieces_under (hr : ∀ n ∈ r, isStep n = false) (hne : r ≠ []) :
    (p.under r).pieces = p.front ++ r := by
  induction r using List.reverseRecOn with
  | nil => exact absurd rfl hne
  | append_singleton r n =>
      rw [← child_under, pieces_child, front_under fun m hm => hr m (by simp [hm]),
        List.append_assoc]

theorem front_eq_pieces (h : p.lastPiece ≠ "") : p.front = p.pieces := if_neg h

theorem covers_under (hr : ∀ n ∈ r, isStep n = false) (hq : ∀ n ∈ q, isStep n = false)
    (h : r ≠ [] ∨ p.lastPiece ≠ "") :
    (p.under r).covers (p.under q) = true ↔ r <+: q := by
  have hpieces : ∀ x : Location, (∀ n ∈ x, isStep n = false) → (x ≠ [] ∨ p.lastPiece ≠ "") →
      (p.under x).pieces = p.front ++ x := by
    rintro x hx (hne | hlast)
    · exact pieces_under hx hne
    · rcases eq_or_ne x [] with rfl | hne
      · rw [under_nil, List.append_nil, front_eq_pieces hlast]
      · exact pieces_under hx hne
  rw [covers, List.isPrefixOf_iff_prefix, hpieces r hr h]
  rcases eq_or_ne q [] with rfl | hne
  · rcases h with hne | hlast
    · simp only [under_nil, List.prefix_nil, hne, iff_false]
      intro hp
      have hlength := hp.length_le
      have hpos := List.length_pos_iff.2 hne
      rcases p.pieces_eq_front with heq | heq
      · rw [heq, List.length_append] at hlength
        omega
      · rw [heq] at hp hlength
        have hend : r = [""] := by
          refine ((List.prefix_append_right_inj _).1 hp).eq_of_length ?_
          simp only [List.length_append, List.length_singleton] at hlength ⊢
          omega
        rw [hend] at hr
        cases hr "" (by simp)
    · rw [hpieces [] (by simp) (.inr hlast), List.prefix_append_right_inj]
  · rw [hpieces q hq (.inl hne), List.prefix_append_right_inj]

theorem under_injective (hr : ∀ n ∈ r, isStep n = false) (hq : ∀ n ∈ q, isStep n = false)
    (h : p.under r = p.under q) : r = q := by
  have hfront := congrArg front h
  rw [front_under hr, front_under hq] at hfront
  exact List.append_cancel_left hfront

theorem withoutFinalSlashes_eq_nil_iff {pieces : List String} :
    withoutFinalSlashes pieces = [] ↔ ∀ piece ∈ pieces, piece = "" := by
  change pieces.rdropWhile (· == "") = [] ↔ _
  simp

theorem exists_slashes (pieces : List String) :
    ∃ k, pieces = withoutFinalSlashes pieces ++ List.replicate k "" := by
  have hall : ∀ s ∈ pieces.rtakeWhile (· == ""), s = "" := fun s hs => by
    simpa using List.mem_rtakeWhile_imp hs
  refine ⟨(pieces.rtakeWhile (· == "")).length, ?_⟩
  rw [← List.eq_replicate_of_mem hall]
  exact List.rdropWhile_append_rtakeWhile.symm

theorem withoutFinalSlashes_eq_self (h : p.lastPiece ≠ "") :
    withoutFinalSlashes p.pieces = p.pieces := by
  refine List.rdropWhile_eq_self_iff.2 fun hne => ?_
  rw [lastPiece, List.getLast?_eq_some_getLast hne] at h
  simpa using h

theorem entryParts_of_lastPiece (h : p.lastPiece ≠ "") :
    p.entryParts = (p.pieces.dropLast, p.lastPiece) := by
  rw [entryParts, withoutFinalSlashes_eq_self h]
  rfl

end Pathname

namespace FileSystem

theorem exists_final_slashes (p : Pathname) (h : p.entryParts.2 ≠ "") :
    ∃ k, p.pieces = p.entryParts.1 ++ p.entryParts.2 :: List.replicate k "" := by
  obtain ⟨k, hsplit⟩ := Pathname.exists_slashes p.pieces
  have hne : Pathname.withoutFinalSlashes p.pieces ≠ [] := by
    intro hnil
    simp [Pathname.entryParts, hnil] at h
  have hlast : Pathname.withoutFinalSlashes p.pieces = p.entryParts.1 ++ [p.entryParts.2] := by
    simp only [Pathname.entryParts, List.getLast?_eq_some_getLast hne, Option.getD_some,
      List.dropLast_concat_getLast]
  rw [hlast, List.append_assoc, List.singleton_append] at hsplit
  exact ⟨k, hsplit⟩

theorem leadsTo_of_resolveEntry {dir : fs.Holder} (he : fs.resolveEntry p = .ok (dir, name))
    (hn : isStep name = false) (hi : fs.item? (dir.1 ++ [name]) = some .directory) :
    fs.LeadsTo p (dir.1 ++ [name]) := by
  have hne : name ≠ "" := by rintro rfl; cases hn
  unfold resolveEntry at he
  cases hf : fs.follow true p p.entryParts.1 with
  | error e => rw [hf] at he; cases he
  | ok d =>
      cases hh : fs.holder d with
      | error e => simp only [hf, hh] at he; cases he
      | ok holder =>
          simp only [hf, hh] at he
          obtain ⟨rfl, hname⟩ := Prod.mk.inj (Except.ok.inj he)
          obtain rfl := holder_eq_ok_iff.1 hh
          obtain ⟨hlong, hempty, hwalk⟩ := follow_eq_ok_iff.1 hf
          obtain ⟨k, hpieces⟩ := exists_final_slashes p (by rw [hname]; exact hne)
          obtain ⟨m, -, hm⟩ := walkWithin_append_directory true
            (List.cons_ne_nil name (List.replicate k "")) holder.2 hwalk
          refine ⟨follow_eq_ok_iff.2 ⟨hlong, hempty, ?_⟩, hi⟩
          rw [hpieces, hname, hm, walkWithin_eq, walk_name hn, hi]
          exact walk_idle (idle_slashes k)

theorem LeadsOnlyTo.lost_of_rmdir (h : fs.LeadsOnlyTo p loc) (hrun : fs.rmdir p = .ok gs) :
    fs.item? loc = some .directory ∧ fs.children loc = [] ∧ Lost loc fs gs := by
  unfold rmdir at hrun
  cases he : fs.resolveEntry p with
  | error e => rw [he] at hrun; cases hrun
  | ok entry =>
      obtain ⟨dir, name⟩ := entry
      simp only [he] at hrun
      split_ifs at hrun with hempty hdot hdots hlong hnone hdir hchildren
      have hi : fs.item? (dir.1 ++ [name]) = some .directory := not_not.1 hdir
      obtain rfl := h _ (leadsTo_of_resolveEntry he (by simp [isStep, hempty, hdot, hdots]) hi)
      obtain rfl := Except.ok.inj hrun
      exact ⟨hi, hchildren, rfl, item?_erase (by simp)⟩

theorem LeadsOnlyTo.lost_of_removes (h : fs.LeadsOnlyTo p loc) (hp : p.isEmpty = false)
    (hn : isStep n = false) (hr : Removes (p.child n) fs gs) : Lost (loc ++ [n]) fs gs := by
  obtain ⟨dir, name, he, -, hhere, hitems⟩ := hr
  rw [h.resolveEntry_child hp hn he] at hitems
  exact ⟨hhere, hitems⟩

theorem LeadsTo.child (h : fs.LeadsTo p d) (hi : fs.item? (d ++ [n]) = some .directory)
    (hlong : (p.child n).isTooLong = false) : fs.LeadsTo (p.child n) (d ++ [n]) := by
  have hn := isStep_eq_false_of_isName (isName_of_isSome (by rw [hi]; rfl))
  exact leadsTo_of_resolveEntry (h.resolveEntry_child hn hlong) hn hi

theorem LeadsTo.under (h : fs.LeadsTo p d) (hi : fs.item? (d ++ r) = some .directory)
    (hlong : (p.under r).isTooLong = false) : fs.LeadsTo (p.under r) (d ++ r) := by
  induction r using List.reverseRecOn with
  | nil => rwa [Pathname.under_nil, List.append_nil]
  | append_singleton r n ih =>
      rw [← List.append_assoc] at hi ⊢
      rw [← Pathname.child_under] at hlong ⊢
      have hshort := Pathname.notTooLong_of_child hlong
      exact (ih (item?_dir_of_isSome (by rw [hi]; rfl)) hshort).child hi hlong

theorem LeadsTo.isOccupied_under (h : fs.LeadsTo p d) (hi : (fs.item? (d ++ r)).isSome)
    (hne : r ≠ []) (hlong : (p.under r).isTooLong = false) :
    fs.isOccupied (p.under r) = true := by
  obtain ⟨q, n, rfl⟩ : ∃ q n, r = q ++ [n] := ⟨_, _, (List.dropLast_concat_getLast hne).symm⟩
  have hn : isStep n = false := isStep_of_mem hi (by simp)
  rw [← List.append_assoc] at hi
  rw [← Pathname.child_under] at hlong ⊢
  have habove := h.under (item?_dir_of_isSome hi) (Pathname.notTooLong_of_child hlong)
  exact habove.isOccupied_child hn hi hlong

theorem exists_leadsTo_of_under (hp : p.isEmpty = false) (hr : ∀ n ∈ r, isStep n = false)
    (h : fs.LeadsTo (p.under r) d) : ∃ c, fs.LeadsTo p c := by
  induction r using List.reverseRecOn generalizing d with
  | nil => exact ⟨d, h⟩
  | append_singleton r n ih =>
      have habove : ∀ m ∈ r, isStep m = false := fun m hm => hr m (by simp [hm])
      rw [← Pathname.child_under] at h
      obtain ⟨c, hc, -⟩ := follow_child (Pathname.isEmpty_under hp habove) (hr n (by simp)) h.1
        (by rw [h.2]; rfl)
      exact ih habove hc

theorem LeadsOnlyTo.under (h : fs.LeadsOnlyTo p loc) (hp : p.isEmpty = false)
    (hi : fs.item? (loc ++ r) = some .directory) : fs.LeadsOnlyTo (p.under r) (loc ++ r) := by
  induction r using List.reverseRecOn with
  | nil => rwa [Pathname.under_nil, List.append_nil]
  | append_singleton r n ih =>
      have hnames : ∀ m ∈ r ++ [n], isStep m = false := fun m hm =>
        isStep_of_mem (by rw [hi]; rfl) (List.mem_append_right _ hm)
      rw [← List.append_assoc] at hi ⊢
      have hdir : fs.item? (loc ++ r) = some .directory := item?_dir_of_isSome (by rw [hi]; rfl)
      rw [← Pathname.child_under]
      refine (ih hdir).child ?_ (hnames n (by simp)) fun t ht => ?_
      · exact Pathname.isEmpty_under hp fun m hm => hnames m (by simp [hm])
      · rw [hi] at ht
        cases ht

end FileSystem

namespace Pathname

/-- In every file system with this working directory in which a directory lies at `d`, the pathname
is that of its entry `name`, unless it is too long. -/
structure Marks (p : Pathname) (here d : Location) (name : String) : Prop where
  isStep : isStep name = false
  last : p.lastPiece = name
  entry : ∀ (gs : FileSystem) (hd : gs.item? d = some .directory), gs.here = here →
    p.isTooLong = false → gs.resolveEntry p = .ok (⟨d, hd⟩, name)

theorem Marks.lastPiece_ne (h : p.Marks here d name) : p.lastPiece ≠ "" := by
  rw [h.last]
  rintro rfl
  cases h.isStep

theorem Marks.leadsTo (h : p.Marks here d name) (hhere : gs.here = here)
    (hi : gs.item? (d ++ [name]) = some .directory) (hlong : p.isTooLong = false) :
    gs.LeadsTo p (d ++ [name]) := by
  have hd : gs.item? d = some .directory := FileSystem.item?_dir_of_isSome (by rw [hi]; rfl)
  exact FileSystem.leadsTo_of_resolveEntry (h.entry gs hd hhere hlong) h.isStep hi

theorem Marks.child (h : p.Marks here d name) (hn : ArtifactCache.isStep n = false) :
    (p.child n).Marks here (d ++ [name]) n where
  isStep := hn
  last := p.lastPiece_child n
  entry _ hd hhere hlong :=
    (h.leadsTo hhere hd (notTooLong_of_child hlong)).resolveEntry_child hn hlong

theorem Marks.under (h : p.Marks here d name)
    (hr : ∀ m ∈ r ++ [n], ArtifactCache.isStep m = false) :
    (p.under (r ++ [n])).Marks here (d ++ name :: r) n := by
  induction r using List.reverseRecOn generalizing n with
  | nil => exact h.child (hr n (by simp))
  | append_singleton r m ih =>
      have hlast := (ih fun x hx => hr x (List.mem_append_left _ hx)).child (hr n (by simp))
      simpa using hlast

structure IsPlain (p : Pathname) : Prop where
  last : p.lastPiece ≠ ""
  noDots : ∀ s ∈ p.pieces, s ≠ "." ∧ s ≠ ".."

def names (p : Pathname) : Location := p.pieces.filter (· != "")

theorem IsPlain.pieces_eq (h : p.IsPlain) : p.pieces = p.pieces.dropLast ++ [p.lastPiece] := by
  have hne : p.pieces ≠ [] := by
    intro hnil
    exact h.last (by rw [lastPiece, hnil]; rfl)
  rw [lastPiece, List.getLast?_eq_some_getLast hne, Option.getD_some, List.dropLast_concat_getLast]

theorem IsPlain.names_eq (h : p.IsPlain) :
    p.names = p.pieces.dropLast.filter (· != "") ++ [p.lastPiece] := by
  rw [names, h.pieces_eq, List.filter_append, List.dropLast_concat]
  simp [h.last]

theorem IsPlain.isEmpty_eq (h : p.IsPlain) : p.isEmpty = false := by
  obtain ⟨pieces⟩ := p
  rcases pieces with _ | ⟨a, _ | ⟨b, l⟩⟩
  · exact absurd rfl h.last
  · simpa [isEmpty, lastPiece] using h.last
  · rfl

end Pathname

namespace FileSystem

theorem walk_plain {again : Location → List String → Except Errno Location} {followLast : Bool}
    (hdots : ∀ s ∈ pieces, s ≠ "." ∧ s ≠ "..")
    (hi : fs.item? (d ++ pieces.filter (· != "")) = some .directory) :
    fs.walk again followLast d pieces = .ok (d ++ pieces.filter (· != "")) := by
  induction pieces generalizing d with
  | nil => simp [walk]
  | cons s pieces ih =>
      have hrest : ∀ t ∈ pieces, t ≠ "." ∧ t ≠ ".." := fun t ht => hdots t (by simp [ht])
      by_cases hs : s = ""
      · rw [List.filter_cons_of_neg (by simp [hs])] at hi ⊢
        rw [walk_skip (.inl hs)]
        exact ih hrest hi
      · rw [List.filter_cons_of_pos (by simp [hs]), List.append_cons] at hi ⊢
        have hstep : isStep s = false := by simp [isStep, hs, hdots s (by simp)]
        have hdir : fs.item? (d ++ [s]) = some .directory := by
          by_cases hnil : pieces.filter (· != "") = []
          · rwa [hnil, List.append_nil] at hi
          · exact isSome_item?_append (by rw [hi]; rfl) hnil
        rw [walk_name hstep, hdir]
        exact ih hrest hi

def placeOf (fs : FileSystem) (p : Pathname) : Location := fs.startOf p ++ p.names

theorem marks_of_isPlain (fs : FileSystem) (h : p.IsPlain) :
    p.Marks fs.here (fs.startOf p ++ p.pieces.dropLast.filter (· != "")) p.lastPiece where
  isStep := by
    have hdots := h.noDots p.lastPiece (by rw [h.pieces_eq]; simp)
    simp [isStep, h.last, hdots]
  last := rfl
  entry gs hd hhere hlong := by
    have hdots : ∀ s ∈ p.pieces.dropLast, s ≠ "." ∧ s ≠ ".." := fun s hs =>
      h.noDots s ((List.dropLast_sublist _).subset hs)
    have hstart : gs.startOf p = fs.startOf p := by rw [startOf, startOf, hhere]
    have hfollow : gs.follow true p p.pieces.dropLast =
        .ok (fs.startOf p ++ p.pieces.dropLast.filter (· != "")) := by
      refine follow_eq_ok_iff.2 ⟨hlong, h.isEmpty_eq, ?_⟩
      rw [hstart, walkWithin_eq]
      exact walk_plain hdots hd
    have hholder := holder_eq_ok_iff (h := ⟨_, hd⟩).2 rfl
    simp only [resolveEntry, Pathname.entryParts_of_lastPiece h.last, hfollow, hholder]
    rfl

theorem placeOf_eq (h : p.IsPlain) :
    fs.placeOf p = fs.startOf p ++ p.pieces.dropLast.filter (· != "") ++ [p.lastPiece] := by
  rw [placeOf, h.names_eq, List.append_assoc]

theorem marks_of_absolute {a : Path} (ha : a.anchor ≠ .relative)
    (hsteps : ∀ part ∈ a.parts, part ≠ "") (hn : isStep name = false) :
    (a.child name).toPathname.Marks here a.parts name where
  isStep := hn
  last := by rw [Path.toPathname_child ha hsteps, Pathname.lastPiece_child]
  entry gs hd hhere hlong := by
    rw [Path.toPathname_child ha hsteps] at hlong ⊢
    have hshort := Pathname.notTooLong_of_child hlong
    exact (leadsTo_of_item? ha hd hshort).resolveEntry_child hn hlong

end FileSystem

end ArtifactCache
