import ArtifactCache.FileSystem.Basic

namespace ArtifactCache.FileSystem

variable {fs : FileSystem} {loc dir src dst : Location} {name : String} {item : Item}

/-- Where a removed working directory is once something else lies at `loc`, at or above it. -/
def displace (loc here : Location) : Location :=
  if loc <+: here then loc.dropLast ++ "" :: here.drop loc.length else here

def put (fs : FileSystem) (dir : Location) (name : String) (item : Item)
    (hdir : fs.item? dir = some .directory) (hname : isName name = true)
    (hfree : fs.item? (dir ++ [name]) ≠ some .directory) : FileSystem where
  entries := fs.entries.insert (dir ++ [name]) item
  here := displace (dir ++ [name]) fs.here
  rooted := by
    intro d n h
    rw [Std.ExtTreeMap.mem_insert, Std.compare_eq_iff_eq] at h
    by_cases hd : d = []
    · exact .inl hd
    · right
      have hparent : fs.item? d = some .directory := by
        cases h with
        | inl h => rw [← (List.append_inj' h rfl).1]; exact hdir
        | inr h => exact item?_dir_of_isSome (mem_entries_iff.1 h).2
      rw [Std.ExtTreeMap.getElem?_insert, if_neg]
      · rwa [← item?_of_ne_nil hd]
      · rw [Std.compare_eq_iff_eq]
        intro heq
        rw [heq] at hfree
        exact hfree hparent
  named := by
    intro d n h
    rw [Std.ExtTreeMap.mem_insert, Std.compare_eq_iff_eq] at h
    cases h with
    | inl h =>
        have := (List.append_inj' h rfl).2
        simp only [List.cons.injEq, and_true] at this
        rwa [← this]
    | inr h => exact fs.named h
  top_free := by
    rw [Std.ExtTreeMap.mem_insert, Std.compare_eq_iff_eq]
    simp [fs.top_free]

theorem item?_put {hdir : fs.item? dir = some .directory} {hname : isName name = true}
    {hfree : fs.item? (dir ++ [name]) ≠ some .directory} (loc : Location) :
    (fs.put dir name item hdir hname hfree).item? loc =
      if loc = dir ++ [name] then some item else fs.item? loc := by
  cases loc with
  | nil => simp [item?]
  | cons l ls =>
      rw [item?_of_ne_nil (by simp), item?_of_ne_nil (by simp)]
      simp only [put, Std.ExtTreeMap.getElem?_insert, Std.compare_eq_iff_eq]
      simp only [eq_comm]

def erase (fs : FileSystem) (loc : Location) (hempty : fs.children loc = []) : FileSystem where
  entries := fs.entries.erase loc
  here := fs.here
  rooted := by
    intro d n h
    rw [Std.ExtTreeMap.mem_erase] at h
    have hm := mem_entries_iff.1 h.2
    by_cases hd : d = []
    · exact .inl hd
    · right
      rw [Std.ExtTreeMap.getElem?_erase, if_neg]
      · rw [← item?_of_ne_nil hd]; exact item?_dir_of_isSome hm.2
      · rw [Std.compare_eq_iff_eq]
        rintro rfl
        have hc := mem_children.2 hm.2
        rw [hempty] at hc
        cases hc
  named h := fs.named (Std.ExtTreeMap.mem_erase.1 h).2
  top_free h := fs.top_free (Std.ExtTreeMap.mem_erase.1 h).2

theorem item?_erase {hempty : fs.children dir = []} (hdir : dir ≠ []) (loc : Location) :
    (fs.erase dir hempty).item? loc = if loc = dir then none else fs.item? loc := by
  cases loc with
  | nil => simp [item?, Ne.symm hdir]
  | cons l ls =>
      rw [item?_of_ne_nil (by simp), item?_of_ne_nil (by simp)]
      simp only [erase, Std.ExtTreeMap.getElem?_erase, Std.compare_eq_iff_eq]
      simp only [eq_comm]

def rebase (src dst : Location) (e : Location × Item) : Option (Location × Item) :=
  if dst <+: e.1 then none
  else if src <+: e.1 then some (dst ++ e.1.drop src.length, e.2)
  else some e

/-- Where that lay which a move has brought to `loc`. -/
def origin (src dst loc : Location) : Option Location :=
  if dst <+: loc then some (src ++ loc.drop dst.length)
  else if src <+: loc then none
  else some loc

theorem rebase_eq_some_iff (hsrc : ¬ src <+: dst) (hdst : ¬ dst <+: src) {o loc : Location}
    {i j : Item} :
    rebase src dst (o, i) = some (loc, j) ↔ origin src dst loc = some o ∧ i = j := by
  unfold rebase origin
  constructor
  · intro h
    split at h
    · cases h
    · next hn =>
        split at h
        · next hs =>
            obtain ⟨rel, rfl⟩ := hs
            simp only [Option.some.injEq, Prod.mk.injEq] at h
            obtain ⟨rfl, rfl⟩ := h
            simp
        · next hs =>
            simp only [Option.some.injEq, Prod.mk.injEq] at h
            obtain ⟨rfl, rfl⟩ := h
            simp [hn, hs]
  · rintro ⟨h, rfl⟩
    split at h
    · next hd =>
        obtain ⟨rel, rfl⟩ := hd
        simp only [List.drop_left, Option.some.injEq] at h
        subst h
        rw [if_neg, if_pos (List.prefix_append ..)]
        · simp
        · intro hp
          cases List.prefix_or_prefix_of_prefix hp (List.prefix_append src rel) with
          | inl h => exact hdst h
          | inr h => exact hsrc h
    · next hn =>
        split at h
        · cases h
        · next hs =>
            simp only [Option.some.injEq] at h
            subst h
            rw [if_neg hn, if_neg hs]

def relocate (src dst here : Location) : Location :=
  if src <+: here then dst ++ here.drop src.length else displace dst here

def movedEntries (fs : FileSystem) (src dst : Location) : List (Location × Item) :=
  fs.entries.toList.filterMap (rebase src dst)

theorem mem_movedEntries (hsrc : ¬ src <+: dst) (hdst : ¬ dst <+: src) :
    (loc, item) ∈ fs.movedEntries src dst ↔
      ∃ o, origin src dst loc = some o ∧ fs.entries[o]? = some item := by
  simp only [movedEntries, List.mem_filterMap, Prod.exists,
    Std.ExtTreeMap.mem_toList_iff_getElem?_eq_some, rebase_eq_some_iff hsrc hdst]
  constructor
  · rintro ⟨o, i, h, ho, rfl⟩; exact ⟨o, ho, h⟩
  · rintro ⟨o, ho, h⟩; exact ⟨o, item, h, ho, rfl⟩

theorem movedEntries_distinct (fs : FileSystem) (hsrc : ¬ src <+: dst) (hdst : ¬ dst <+: src) :
    (fs.movedEntries src dst).Pairwise fun a b => ¬ compare a.1 b.1 = .eq := by
  refine List.Pairwise.filterMap _ ?_ (Std.ExtTreeMap.distinct_keys_toList (t := fs.entries))
  rintro ⟨a, i⟩ ⟨b, j⟩ hab ⟨c, k⟩ hc ⟨d, l⟩ hd heq
  rw [Std.compare_eq_iff_eq] at hab heq
  simp only at heq
  subst heq
  have ha := ((rebase_eq_some_iff hsrc hdst).1 hc).1
  have hb := ((rebase_eq_some_iff hsrc hdst).1 hd).1
  rw [ha] at hb
  exact hab (Option.some.inj hb)

theorem getElem?_movedEntries (hsrc : ¬ src <+: dst) (hdst : ¬ dst <+: src) (loc : Location) :
    (Std.ExtTreeMap.ofList (fs.movedEntries src dst))[loc]? =
      (origin src dst loc).bind fun o => fs.entries[o]? := by
  cases h : (origin src dst loc).bind fun o => fs.entries[o]? with
  | some item =>
      obtain ⟨o, ho, hi⟩ := Option.bind_eq_some_iff.1 h
      exact Std.ExtTreeMap.getElem?_ofList_of_mem (k := loc) (Std.compare_eq_iff_eq.2 rfl)
        (movedEntries_distinct fs hsrc hdst) ((mem_movedEntries hsrc hdst).2 ⟨o, ho, hi⟩)
  | none =>
      apply Std.ExtTreeMap.getElem?_ofList_of_contains_eq_false
      rw [← Bool.not_eq_true, List.contains_iff_mem, List.mem_map]
      rintro ⟨⟨l, item⟩, hm, rfl⟩
      obtain ⟨o, ho, hi⟩ := (mem_movedEntries hsrc hdst).1 hm
      rw [ho] at h
      simp only [Option.bind_some] at h
      rw [h] at hi
      cases hi

theorem mem_ofList_movedEntries (hsrc : ¬ src <+: dst) (hdst : ¬ dst <+: src) :
    loc ∈ Std.ExtTreeMap.ofList (fs.movedEntries src dst) ↔
      ∃ o, origin src dst loc = some o ∧ o ∈ fs.entries := by
  rw [Std.ExtTreeMap.mem_iff_isSome_getElem?, getElem?_movedEntries hsrc hdst,
    Option.isSome_bind]
  cases origin src dst loc with
  | none => simp
  | some o => simp only [Option.any_some, ← Std.ExtTreeMap.mem_iff_isSome_getElem?,
      Option.some.injEq, exists_eq_left']

theorem origin_eq_some_nil (hsrc : ¬ src <+: dst) (h : origin src dst loc = some []) :
    loc = [] := by
  unfold origin at h
  split at h
  · simp only [Option.some.injEq, List.append_eq_nil_iff] at h
    exact absurd (h.1 ▸ List.nil_prefix) hsrc
  · split at h
    · cases h
    · simpa using h

theorem origin_nil (hsrc : ¬ src <+: dst) (hdst : ¬ dst <+: src) :
    origin src dst [] = some [] := by
  unfold origin
  rw [if_neg, if_neg]
  · intro h; exact hsrc (List.prefix_nil.1 h ▸ List.nil_prefix)
  · intro h; exact hdst (List.prefix_nil.1 h ▸ List.nil_prefix)

theorem origin_concat {o : Location} (h : origin src dst (dir ++ [name]) = some o) :
    (dir ++ [name] = dst ∧ o = src) ∨
      ∃ d, origin src dst dir = some d ∧ o = d ++ [name] := by
  unfold origin at h ⊢
  split at h
  · next hd =>
      simp only [Option.some.injEq] at h
      cases List.prefix_concat_iff.1 hd with
      | inl he => left; subst he; simp_all
      | inr he =>
          right
          obtain ⟨rel, rfl⟩ := he
          refine ⟨src ++ rel, by simp, ?_⟩
          rw [← h]
          simp
  · next hd =>
      split at h
      · cases h
      · next hs =>
          simp only [Option.some.injEq] at h
          right
          refine ⟨dir, ?_, h.symm⟩
          rw [if_neg, if_neg]
          · exact fun hp => hs (hp.trans (List.prefix_append ..))
          · exact fun hp => hd (hp.trans (List.prefix_append ..))

theorem origin_dir (hsrc : ¬ src <+: dir ++ [name]) :
    origin src (dir ++ [name]) dir = some dir := by
  unfold origin
  rw [if_neg, if_neg]
  · exact fun hp => hsrc (hp.trans (List.prefix_append ..))
  · intro hp
    have := hp.length_le
    simp only [List.length_append, List.length_singleton] at this
    omega

def move (fs : FileSystem) (src dir : Location) (name : String)
    (hdir : fs.item? dir = some .directory) (hname : isName name = true)
    (hsrc : ¬ src <+: dir ++ [name]) (hdst : ¬ dir ++ [name] <+: src) : FileSystem where
  entries := .ofList (fs.movedEntries src (dir ++ [name]))
  here := relocate src (dir ++ [name]) fs.here
  rooted := by
    intro d n h
    obtain ⟨o, ho, hm⟩ := (mem_ofList_movedEntries hsrc hdst).1 h
    by_cases hd : d = []
    · exact .inl hd
    · right
      rw [getElem?_movedEntries hsrc hdst]
      cases origin_concat ho with
      | inl he =>
          rw [(List.append_inj' he.1 rfl).1, origin_dir hsrc, Option.bind_some,
            ← item?_of_ne_nil ((List.append_inj' he.1 rfl).1 ▸ hd)]
          exact hdir
      | inr he =>
          obtain ⟨d', hd', rfl⟩ := he
          rw [hd', Option.bind_some]
          cases fs.rooted hm with
          | inl hn => exact absurd (origin_eq_some_nil hsrc (hn ▸ hd')) hd
          | inr hi => exact hi
  named := by
    intro d n h
    obtain ⟨o, ho, hm⟩ := (mem_ofList_movedEntries hsrc hdst).1 h
    cases origin_concat ho with
    | inl he =>
        have := (List.append_inj' he.1 rfl).2
        simp only [List.cons.injEq, and_true] at this
        rw [this]
        exact hname
    | inr he =>
        obtain ⟨d', -, rfl⟩ := he
        exact fs.named hm
  top_free := by
    intro h
    obtain ⟨o, ho, hm⟩ := (mem_ofList_movedEntries hsrc hdst).1 h
    rw [origin_nil hsrc hdst] at ho
    exact fs.top_free (Option.some.inj ho ▸ hm)

theorem item?_move {hdir : fs.item? dir = some .directory} {hname : isName name = true}
    {hsrc : ¬ src <+: dir ++ [name]} {hdst : ¬ dir ++ [name] <+: src} (loc : Location) :
    (fs.move src dir name hdir hname hsrc hdst).item? loc =
      (origin src (dir ++ [name]) loc).bind fs.item? := by
  by_cases hl : loc = []
  · rw [hl, origin_nil hsrc hdst]; rfl
  · rw [item?_of_ne_nil hl]
    simp only [move, getElem?_movedEntries hsrc hdst]
    cases ho : origin src (dir ++ [name]) loc with
    | none => rfl
    | some o =>
        simp only [Option.bind_some]
        rw [item?_of_ne_nil]
        rintro rfl
        exact hl (origin_eq_some_nil hsrc ho)

end ArtifactCache.FileSystem
