import ArtifactCache.Path
import ArtifactCache.Proofs.FileSystem.Entry
import ArtifactCache.Proofs.Text.Joined

namespace ArtifactCache

variable {fs gs : FileSystem} {a p : Path} {here : Location} {name part : String} {d : Location}

namespace Path

theorem isPart_of_mem_ofText {text : String} (h : part ∈ (ofText text).parts) :
    isPart part = true :=
  (List.mem_filter.1 h).2

theorem name_mem (h : p.parts ≠ []) : p.name ∈ p.parts := by
  rw [name, List.getLast?_eq_some_getLast h, Option.getD_some]
  exact List.getLast_mem h

theorem noSlash_of_mem_ofText {text : String} (h : part ∈ (ofText text).parts) :
    '/' ∉ part.toList :=
  Text.not_mem_of_mem_split (List.mem_of_mem_filter h)

theorem parts_ne_empty (h : ∀ part ∈ p.parts, isPart part = true) :
    ∀ part ∈ p.parts, part ≠ "" := by
  rintro part hpart rfl
  cases h "" hpart

theorem isStep_of_isPart (h : isPart part = true) (hup : part ≠ "..") : isStep part = false := by
  simp only [isPart, Bool.and_eq_true, bne_iff_ne] at h
  simp [isStep, h, hup]

theorem mem_collapse {kept parts : List String} (h : part ∈ collapse kept parts) :
    part ∈ kept ∨ part ∈ parts ∧ part ≠ ".." := by
  induction parts generalizing kept with
  | nil => exact .inl h
  | cons q qs ih =>
      simp only [collapse] at h
      split_ifs at h with hq
      · rcases ih h with hk | ⟨hqs, hne⟩
        · exact .inl ((List.dropLast_sublist kept).subset hk)
        · exact .inr ⟨List.mem_cons_of_mem q hqs, hne⟩
      · rcases ih h with hk | ⟨hqs, hne⟩
        · rcases List.mem_append.1 hk with hk | hk
          · exact .inl hk
          · obtain rfl := List.mem_singleton.1 hk
            exact .inr ⟨by simp, hq⟩
        · exact .inr ⟨List.mem_cons_of_mem q hqs, hne⟩

theorem append_of_relative {q : Path} (h : q.anchor = .relative) :
    p ++ q = ⟨p.anchor, p.parts ++ q.parts⟩ := by
  change append p q = _
  rw [append, h]

theorem append_of_absolute {q : Path} (h : q.anchor ≠ .relative) : p ++ q = q := by
  change append p q = q
  unfold append
  split
  · next hrel => exact absurd hrel h
  · rfl

theorem mem_append {q : Path} (h : part ∈ (p ++ q).parts) : part ∈ p.parts ∨ part ∈ q.parts := by
  by_cases hq : q.anchor = .relative
  · rw [append_of_relative hq] at h
    exact List.mem_append.1 h
  · rw [append_of_absolute hq] at h
    exact .inr h

theorem name_append {q : Path} (h : q.parts ≠ []) :
    (p ++ q).parts ≠ [] ∧ (p ++ q).name = q.name := by
  by_cases hq : q.anchor = .relative
  · rw [append_of_relative hq]
    simp [name, List.getLast?_eq_some_getLast h, h]
  · rw [append_of_absolute hq]
    exact ⟨h, rfl⟩

theorem absolute_relative (hp : p.anchor = .relative) (here : Location) :
    p.absolute here = ⟨.root, collapse [] (here ++ p.parts)⟩ := by
  simp only [absolute, append_of_relative hp]

theorem absolute_absolute (hp : p.anchor ≠ .relative) (here : Location) :
    p.absolute here = ⟨p.anchor, collapse [] p.parts⟩ := by
  simp only [absolute, append_of_absolute hp]

theorem isStep_absolute (hhere : p.anchor = .relative → ∀ n ∈ here, isName n = true)
    (hp : ∀ part ∈ p.parts, isPart part = true) (h : part ∈ (p.absolute here).parts) :
    isStep part = false := by
  obtain ⟨hmem, hup⟩ := (mem_collapse h).resolve_left (by simp)
  by_cases hrelative : p.anchor = .relative
  · rcases mem_append hmem with hn | hn
    · exact FileSystem.isStep_eq_false_of_isName (hhere hrelative part hn)
    · exact isStep_of_isPart (hp part hn) hup
  · rw [append_of_absolute hrelative] at hmem
    exact isStep_of_isPart (hp part hmem) hup

theorem collapse_eq_append {kept parts : List String} (h : ".." ∉ parts) :
    collapse kept parts = kept ++ parts := by
  induction parts generalizing kept with
  | nil => simp [collapse]
  | cons q qs ih =>
      rw [List.mem_cons, not_or] at h
      rw [collapse, if_neg (Ne.symm h.1), ih h.2, List.append_assoc, List.singleton_append]

theorem collapse_append {kept names parts : List String} (h : ".." ∉ names) :
    collapse kept (names ++ parts) = collapse (kept ++ names) parts := by
  induction names generalizing kept with
  | nil => simp
  | cons q qs ih =>
      rw [List.mem_cons, not_or] at h
      rw [List.cons_append, collapse, if_neg (Ne.symm h.1), ih h.2, List.append_assoc,
        List.singleton_append]

-- Another name among those kept is either still there or has been gone up from.
theorem collapse_swap (above : List String) (m n : String) (below parts : List String) :
    (∃ r, collapse (above ++ m :: below) parts = above ++ m :: r ∧
        collapse (above ++ n :: below) parts = above ++ n :: r) ∨
      collapse (above ++ m :: below) parts = collapse (above ++ n :: below) parts := by
  induction parts generalizing below with
  | nil => exact .inl ⟨below, rfl, rfl⟩
  | cons q qs ih =>
      simp only [collapse]
      split_ifs
      · rcases List.eq_nil_or_concat below with rfl | ⟨r, x, rfl⟩
        · rw [List.dropLast_concat, List.dropLast_concat]
          exact .inr rfl
        · simp only [List.concat_eq_append, ← List.cons_append, ← List.append_assoc,
            List.dropLast_concat]
          exact ih r
      · simp only [List.append_assoc, List.cons_append]
        exact ih (below ++ [q])

theorem collapse_concat {kept parts : List String} (hup : name ≠ "..") :
    collapse kept (parts ++ [name]) = collapse kept parts ++ [name] := by
  induction parts generalizing kept with
  | nil => simp [collapse, hup]
  | cons q qs ih =>
      rw [List.cons_append, collapse, collapse]
      split_ifs
      · exact ih
      · exact ih

theorem absolute_child (hup : name ≠ "..") :
    (p.child name).absolute here = (p.absolute here).child name := by
  by_cases hp : p.anchor = .relative
  · have hchild : (p.child name).anchor = .relative := hp
    rw [absolute_relative hp, absolute_relative hchild]
    exact congrArg (Path.mk _) (by rw [child, ← List.append_assoc, collapse_concat hup])
  · have hchild : (p.child name).anchor ≠ .relative := hp
    rw [absolute_absolute hp, absolute_absolute hchild]
    exact congrArg (Path.mk _) (collapse_concat hup)

theorem absolute_of_relative (hp : p.anchor = .relative) (hup : ".." ∉ p.parts)
    (hhere : ∀ n ∈ here, isName n = true) : p.absolute here = ⟨.root, here ++ p.parts⟩ := by
  have hnone : ".." ∉ here ++ p.parts := by
    rw [List.mem_append, not_or]
    exact ⟨fun hmem => absurd (hhere _ hmem) (by decide), hup⟩
  rw [absolute_relative hp, collapse_eq_append hnone, List.nil_append]

theorem absolute_of_absolute (hp : p.anchor ≠ .relative) (hup : ".." ∉ p.parts) :
    p.absolute here = p := by
  rw [absolute_absolute hp, collapse_eq_append hup, List.nil_append]

theorem anchor_absolute (p : Path) (here : Location) : (p.absolute here).anchor ≠ .relative := by
  by_cases hp : p.anchor = .relative
  · rw [absolute_relative hp]
    nofun
  · rwa [absolute_absolute hp]

theorem child_parent (h : p.parts ≠ []) : p.parent.child p.name = p := by
  obtain ⟨anchor, parts⟩ := p
  simp only [parent, child, name, List.getLast?_eq_some_getLast h, Option.getD_some,
    List.dropLast_concat_getLast]

theorem toPathname_child (ha : a.anchor ≠ .relative) (hparts : ∀ part ∈ a.parts, part ≠ "")
    (name : String) : (a.child name).toPathname = a.toPathname.child name := by
  obtain ⟨anchor, parts⟩ := a
  rcases parts with _ | ⟨q, qs⟩
  · cases anchor <;> first | exact absurd rfl ha | rfl
  · have hlast : (q :: qs).getLast?.getD "" ≠ "" := by
      rw [List.getLast?_eq_some_getLast (List.cons_ne_nil q qs), Option.getD_some]
      exact hparts _ (List.getLast_mem _)
    cases anchor
    · exact absurd rfl ha
    all_goals
      simp only [toPathname, child, Pathname.child, Pathname.lastPiece, List.cons_append,
        List.getLast?_cons_cons]
      rw [if_neg hlast]

theorem toPathname_child_of_ne (hne : a ≠ ⟨.relative, []⟩) (hparts : ∀ part ∈ a.parts, part ≠ "")
    (name : String) : (a.child name).toPathname = a.toPathname.child name := by
  by_cases ha : a.anchor = .relative
  · obtain ⟨anchor, parts⟩ := a
    obtain rfl : anchor = .relative := ha
    obtain ⟨q, qs, rfl⟩ : ∃ q qs, parts = q :: qs :=
      List.exists_cons_of_ne_nil fun hnil => hne (by rw [hnil])
    have hlast : (toPathname ⟨.relative, q :: qs⟩).lastPiece ≠ "" := by
      rw [toPathname, Pathname.lastPiece, List.getLast?_eq_some_getLast (List.cons_ne_nil q qs),
        Option.getD_some]
      exact hparts _ (List.getLast_mem _)
    rw [Pathname.child, if_neg hlast]
    rfl
  · exact toPathname_child ha hparts name

theorem mem_pieces_toPathname (h : part ∈ p.parts) : part ∈ p.toPathname.pieces := by
  obtain ⟨anchor, parts⟩ := p
  obtain ⟨q, qs, rfl⟩ := List.exists_cons_of_ne_nil (List.ne_nil_of_mem h)
  cases anchor
  · exact h
  · exact List.mem_cons_of_mem "" h
  · exact List.mem_cons_of_mem "" (List.mem_cons_of_mem "" h)

theorem mem_toPathname (h : part ∈ p.toPathname.pieces) :
    part = "" ∨ part = "." ∨ part ∈ p.parts := by
  obtain ⟨anchor, parts⟩ := p
  rcases parts with _ | ⟨q, qs⟩ <;> cases anchor <;> simp_all [toPathname] <;> tauto

theorem lastPiece_toPathname (h : p.parts ≠ []) : p.toPathname.lastPiece = p.name := by
  obtain ⟨anchor, parts⟩ := p
  obtain ⟨q, qs, rfl⟩ := List.exists_cons_of_ne_nil h
  cases anchor <;> simp [toPathname, Pathname.lastPiece, name]

theorem isEmpty_toPathname (ha : a.anchor ≠ .relative) : a.toPathname.isEmpty = false := by
  obtain ⟨anchor, parts⟩ := a
  rcases parts with _ | ⟨q, qs⟩ <;> cases anchor <;> first | exact absurd rfl ha | rfl

theorem isEmpty_toPathname_of_parts (hparts : ∀ part ∈ a.parts, part ≠ "") :
    a.toPathname.isEmpty = false := by
  obtain ⟨anchor, parts⟩ := a
  rcases parts with _ | ⟨q, _ | ⟨r, qs⟩⟩ <;> cases anchor <;>
    first | rfl | simpa [toPathname, Pathname.isEmpty] using hparts

theorem isAbsolute_toPathname (ha : a.anchor ≠ .relative) : a.toPathname.isAbsolute = true := by
  obtain ⟨anchor, parts⟩ := a
  rcases parts with _ | ⟨q, qs⟩ <;> cases anchor <;> first | exact absurd rfl ha | rfl

theorem hasNul_toPathname (ha : a.anchor ≠ .relative)
    (hparts : ∀ part ∈ a.parts, '\x00' ∉ part.toList) : a.toPathname.hasNul = false := by
  obtain ⟨anchor, parts⟩ := a
  rcases parts with _ | ⟨q, qs⟩
  · cases anchor <;> first | exact absurd rfl ha | rfl
  · cases anchor <;> first | exact absurd rfl ha | simpa [toPathname, Pathname.hasNul] using hparts

end Path

namespace FileSystem

theorem walk_toPathname {again : Location → List String → Except Errno Location}
    (ha : a.anchor ≠ .relative) :
    fs.walk again true [] a.toPathname.pieces = fs.walk again true [] a.parts := by
  obtain ⟨anchor, parts⟩ := a
  rcases parts with _ | ⟨q, qs⟩ <;> cases anchor <;>
    first | exact absurd rfl ha | simp [Path.toPathname, walk_skip]

theorem resolve_toPathname (ha : a.anchor ≠ .relative) :
    fs.resolve a.toPathname =
      if a.toPathname.isTooLong then .error .nameTooLong
      else fs.walk (fs.afterLink true mostLinks) true [] a.parts := by
  rw [resolve, follow, Path.isEmpty_toPathname ha, Path.isAbsolute_toPathname ha, walkWithin_eq]
  simp only [Bool.false_eq_true, if_false, if_true, walk_toPathname ha]

def isLinkAt (fs : FileSystem) (loc : Location) : Bool :=
  match fs.item? loc with
  | some (.link _) => true
  | _ => false

def NoLinkOn (fs : FileSystem) (loc : Location) : Prop :=
  ∀ k ≤ loc.length, fs.isLinkAt (loc.take k) = false

instance (fs : FileSystem) (loc : Location) : Decidable (fs.NoLinkOn loc) :=
  inferInstanceAs (Decidable (∀ k ≤ loc.length, fs.isLinkAt (loc.take k) = false))

theorem NoLinkOn.ne_link {loc q : Location} (h : fs.NoLinkOn loc) (hq : q <+: loc) (t : Pathname) :
    fs.item? q ≠ some (.link t) := by
  intro ht
  have hk := h q.length hq.length_le
  rw [← List.prefix_iff_eq_take.1 hq] at hk
  simp [isLinkAt, ht] at hk

theorem noLinkOn_of_directory {loc : Location} (h : fs.item? loc = some .directory) :
    fs.NoLinkOn loc := by
  intro k _
  have hdir : fs.item? (loc.take k) = some .directory := by
    rcases eq_or_ne (loc.drop k) [] with hnil | hne
    · rwa [← List.take_append_drop k loc, hnil, List.append_nil] at h
    · rw [← List.take_append_drop k loc] at h
      exact isSome_item?_append (by rw [h]; rfl) hne
  rw [isLinkAt, hdir]

theorem NoLinkOn.leadsOnlyTo (h : fs.NoLinkOn a.parts) (ha : a.anchor ≠ .relative)
    (hsteps : ∀ part ∈ a.parts, isStep part = false) : fs.LeadsOnlyTo a.toPathname a.parts := by
  rintro d ⟨hd, hdir⟩
  rw [resolve_toPathname ha] at hd
  split_ifs at hd
  exact walk_linkFree [] hsteps (fun q hq t => h.ne_link hq t) hdir hd

theorem leadsTo_of_item? (ha : a.anchor ≠ .relative) (h : fs.item? a.parts = some .directory)
    (hlong : a.toPathname.isTooLong = false) : fs.LeadsTo a.toPathname a.parts := by
  refine ⟨?_, h⟩
  have hwalk : fs.walk (fs.afterLink true mostLinks) true [] (a.parts ++ []) =
      fs.walk (fs.afterLink true mostLinks) true ([] ++ a.parts) [] := walk_names h
  rw [List.append_nil] at hwalk
  rw [resolve_toPathname ha, if_neg (by simp [hlong]), hwalk]
  rfl

theorem leadsTo_of_isDirectory? {b : Bool} (ha : a.anchor ≠ .relative)
    (h : fs.item? a.parts = some .directory) (hb : fs.isDirectory? a.toPathname = .ok b) :
    fs.LeadsTo a.toPathname a.parts := by
  refine leadsTo_of_item? ha h ?_
  by_contra hlong
  rw [Bool.not_eq_false] at hlong
  have hnul : a.toPathname.hasNul = false := by
    refine Path.hasNul_toPathname ha fun part hpart => ?_
    exact noNul_of_isName (isName_of_mem (by rw [h]; rfl) hpart)
  rw [FileSystem.isDirectory?, resolve_toPathname ha, if_pos hlong] at hb
  simp [hnul] at hb

theorem LeadsTo.isDirectory? {p : Pathname} (h : fs.LeadsTo p d) :
    fs.isDirectory? p = .ok true := by
  simp [FileSystem.isDirectory?, h.1, itemAt, h.2]

end FileSystem

end ArtifactCache
