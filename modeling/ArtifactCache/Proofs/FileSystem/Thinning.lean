import ArtifactCache.FileSystem.Call
import ArtifactCache.Proofs.FileSystem.Entry

namespace ArtifactCache.FileSystem

variable {fs gs hs : FileSystem} {p : Pathname} {name : String} {d l loc : Location}
  {region inner : Location → Prop}

theorem isOccupied_iff :
    fs.isOccupied p = true ↔ ∃ l, fs.resolveLink p = .ok l ∧ (fs.item? l).isSome := by
  unfold isOccupied
  cases fs.resolveLink p <;> simp [itemAt]

theorem leadsTo_of_isOccupied (hp : p.isEmpty = false) (hn : isStep name = false)
    (h : fs.isOccupied (p.child name) = true) :
    ∃ d, fs.LeadsTo p d ∧ (fs.item? (d ++ [name])).isSome := by
  obtain ⟨l, hl, hi⟩ := isOccupied_iff.1 h
  obtain ⟨d, hd, rfl⟩ := resolveLink_child hp hn hl hi
  exact ⟨d, hd, hi⟩

theorem LeadsTo.isOccupied_child (h : fs.LeadsTo p d) (hn : isStep name = false)
    (hi : (fs.item? (d ++ [name])).isSome) (hlong : (p.child name).isTooLong = false) :
    fs.isOccupied (p.child name) = true :=
  isOccupied_iff.2 ⟨_, h.resolveLink_child hn hi hlong, hi⟩

theorem unoccupied_of_isTooLong (h : p.isTooLong = true) : fs.isOccupied p = false := by
  rw [← Bool.not_eq_true, isOccupied_iff]
  rintro ⟨l, hl, -⟩
  rw [(follow_eq_ok_iff.1 hl).1] at h
  cases h

theorem notTooLong_of_isOccupied (h : fs.isOccupied p = true) : p.isTooLong = false := by
  by_contra hlong
  rw [unoccupied_of_isTooLong (Bool.not_eq_false _ ▸ hlong)] at h
  cases h

theorem hasNul_of_isOccupied (h : fs.isOccupied p = true) : p.hasNul = false := by
  obtain ⟨l, hl, hi⟩ := isOccupied_iff.1 h
  rw [Pathname.hasNul, List.any_eq_false]
  intro piece hpiece
  simpa using walkWithin_noNul hi (follow_eq_ok_iff.1 hl).2.2 piece hpiece

theorem isLink_iff :
    fs.isLink p = true ↔ ∃ l t, fs.resolveLink p = .ok l ∧ fs.item? l = some (.link t) := by
  unfold isLink
  cases fs.resolveLink p with
  | error e => simp [itemAt]
  | ok l =>
      simp only [itemAt, Except.ok.injEq, exists_and_left, exists_eq_left']
      split <;> simp_all

theorem isDirectory_iff : fs.isDirectory p = true ↔ ∃ d, fs.LeadsTo p d := by
  unfold isDirectory LeadsTo
  cases fs.resolve p <;> simp [itemAt]

theorem mem_entriesOf {item : Item} :
    (name, item) ∈ fs.entriesOf d ↔ fs.item? (d ++ [name]) = some item := by
  simp only [entriesOf, List.mem_filterMap, mem_children, Option.map_eq_some_iff, Prod.mk.injEq]
  constructor
  · rintro ⟨n, -, i, hi, rfl, rfl⟩; exact hi
  · intro h; exact ⟨name, by rw [h]; rfl, item, h, rfl, rfl⟩

theorem leadsTo_of_list {entries : List (String × Item)} (h : fs.list p = .ok entries) :
    ∃ d, fs.LeadsTo p d ∧ entries = fs.entriesOf d := by
  unfold list at h
  cases hr : fs.resolve p with
  | error e => rw [hr] at h; cases h
  | ok loc =>
      simp only [hr] at h
      cases hh : fs.holder loc with
      | error e => rw [hh] at h; cases h
      | ok dir =>
          rw [hh] at h
          obtain rfl := holder_eq_ok_iff.1 hh
          exact ⟨dir.1, ⟨hr, dir.2⟩, (Except.ok.inj h).symm⟩

theorem LeadsTo.list (h : fs.LeadsTo p d) : fs.list p = .ok (fs.entriesOf d) := by
  have hh : fs.holder d = .ok ⟨d, h.2⟩ := holder_eq_ok_iff.2 rfl
  simp only [FileSystem.list, h.1, hh]
  rfl

theorem LeadsOnlyTo.child (h : fs.LeadsOnlyTo p loc) (hp : p.isEmpty = false)
    (hn : isStep name = false) (hlink : ∀ t, fs.item? (loc ++ [name]) ≠ some (.link t)) :
    fs.LeadsOnlyTo (p.child name) (loc ++ [name]) := by
  intro l hl
  obtain ⟨d, hd, hcase⟩ := follow_child hp hn hl.1 (by rw [hl.2]; rfl)
  obtain rfl := h d hd
  rcases hcase with hl | ⟨-, t, ht⟩
  · exact hl
  · exact absurd ht (hlink t)

theorem LeadsOnlyTo.resolveEntry_child (h : fs.LeadsOnlyTo p loc) (hp : p.isEmpty = false)
    (hn : isStep name = false) {dir : fs.Holder} {name' : String}
    (he : fs.resolveEntry (p.child name) = .ok (dir, name')) :
    dir.1 ++ [name'] = loc ++ [name] := by
  obtain ⟨hdir, hname⟩ := FileSystem.resolveEntry_child hp hn he
  rw [h _ hdir]
  exact congrArg (fun n => loc ++ [n]) hname

theorem LeadsOnlyTo.resolveLink_child (h : fs.LeadsOnlyTo p loc) (hp : p.isEmpty = false)
    (hn : isStep name = false) (hl : fs.resolveLink (p.child name) = .ok l)
    (hi : (fs.item? l).isSome) : l = loc ++ [name] := by
  obtain ⟨d, hd, rfl⟩ := FileSystem.resolveLink_child hp hn hl hi
  rw [h d hd]

theorem LeadsOnlyTo.isLink_child {item : Item} (h : fs.LeadsOnlyTo p loc)
    (hlead : (p.child name).isTooLong = false → fs.LeadsTo p loc) (hp : p.isEmpty = false)
    (hi : fs.item? (loc ++ [name]) = some item) :
    fs.isLink (p.child name) = true ↔
      (∃ t, item = .link t) ∧ (p.child name).isTooLong = false := by
  have hsome : (fs.item? (loc ++ [name])).isSome := by rw [hi]; rfl
  have hn := isStep_eq_false_of_isName (isName_of_isSome hsome)
  rw [isLink_iff]
  constructor
  · rintro ⟨l, t, hl, ht⟩
    obtain rfl := h.resolveLink_child hp hn hl (by rw [ht]; rfl)
    rw [hi] at ht
    exact ⟨⟨t, Option.some.inj ht⟩, (follow_eq_ok_iff.1 hl).1⟩
  · rintro ⟨⟨t, rfl⟩, hlong⟩
    exact ⟨_, t, (hlead hlong).resolveLink_child hn hsome hlong, hi⟩

theorem LeadsTo.resolveLink (h : fs.LeadsTo p d) (hlink : fs.isLink p = false) :
    fs.resolveLink p = .ok d := by
  obtain ⟨hlong, hempty, hwalk⟩ := follow_eq_ok_iff.1 h.1
  rcases walkWithin_unfollowed h.2 hwalk with hsame | ⟨l, t, hl, ht⟩
  · exact follow_eq_ok_iff.2 ⟨hlong, hempty, hsame⟩
  · rw [isLink_iff.2 ⟨l, t, follow_eq_ok_iff.2 ⟨hlong, hempty, hl⟩, ht⟩] at hlink
    cases hlink

theorem leadsTo_of_resolveLink (h : fs.resolveLink p = .ok d)
    (hd : fs.item? d = some .directory) : fs.LeadsTo p d := by
  obtain ⟨hlong, hempty, hwalk⟩ := follow_eq_ok_iff.1 h
  exact ⟨follow_eq_ok_iff.2 ⟨hlong, hempty, walkWithin_followed hd hwalk⟩, hd⟩

structure Thinned (region : Location → Prop) (fs gs : FileSystem) : Prop where
  here : gs.here = fs.here
  item : ∀ l, gs.item? l = fs.item? l ∨ region l ∧ gs.item? l = none

namespace Thinned

theorem refl (region : Location → Prop) (fs : FileSystem) : Thinned region fs fs :=
  ⟨rfl, fun _ => .inl rfl⟩

theorem trans (h : Thinned region fs gs) (h' : Thinned region gs hs) : Thinned region fs hs where
  here := h'.here.trans h.here
  item l := by
    rcases h'.item l with heq | hgone
    · rw [heq]; exact h.item l
    · exact .inr hgone

theorem mono (h : Thinned inner fs gs) (hsub : ∀ l, inner l → region l) : Thinned region fs gs where
  here := h.here
  item l := (h.item l).imp_right fun hl => ⟨hsub l hl.1, hl.2⟩

theorem less (h : Thinned region fs gs) (l : Location) :
    gs.item? l = fs.item? l ∨ gs.item? l = none := (h.item l).imp_right And.right

theorem outside (h : Thinned region fs gs) (hl : ¬ region l) : gs.item? l = fs.item? l :=
  (h.item l).resolve_right fun hgone => hl hgone.1

theorem eq_none (h : Thinned region fs gs) (hl : fs.item? l = none) : gs.item? l = none := by
  rcases h.less l with heq | hnone
  · rw [heq, hl]
  · exact hnone

theorem eq_some {item : Item} (h : Thinned region fs gs) (hl : gs.item? l = some item) :
    fs.item? l = some item := by
  rcases h.less l with heq | hnone
  · rw [← heq, hl]
  · rw [hnone] at hl; cases hl

theorem startOf (h : Thinned region fs gs) (p : Pathname) : gs.startOf p = fs.startOf p := by
  rw [FileSystem.startOf, FileSystem.startOf, h.here]

theorem follow {followLast : Bool} {pieces : List String} (h : Thinned region fs gs)
    (hf : gs.follow followLast p pieces = .ok l) (hl : (gs.item? l).isSome) :
    fs.follow followLast p pieces = .ok l := by
  rw [follow_eq_ok_iff] at hf ⊢
  obtain ⟨hlong, hempty, hwalk⟩ := hf
  rw [h.startOf] at hwalk
  exact ⟨hlong, hempty, walkWithin_of_less h.less hl hwalk⟩

theorem leadsTo (h : Thinned region fs gs) (hp : gs.LeadsTo p d) : fs.LeadsTo p d :=
  ⟨h.follow hp.1 (by rw [hp.2]; rfl), h.eq_some hp.2⟩

theorem leadsOnlyTo (h : Thinned region fs gs) (hp : fs.LeadsOnlyTo p loc) :
    gs.LeadsOnlyTo p loc := fun d hd => hp d (h.leadsTo hd)

theorem isDirectory (h : Thinned region fs gs) (hp : gs.isDirectory p = true) :
    fs.isDirectory p = true := by
  obtain ⟨d, hd⟩ := isDirectory_iff.1 hp
  exact isDirectory_iff.2 ⟨d, h.leadsTo hd⟩

theorem isOccupied (h : Thinned region fs gs) (hp : gs.isOccupied p = true) :
    fs.isOccupied p = true := by
  obtain ⟨l, hl, hi⟩ := isOccupied_iff.1 hp
  obtain ⟨item, hitem⟩ := Option.isSome_iff_exists.1 hi
  exact isOccupied_iff.2 ⟨l, h.follow hl hi, by rw [h.eq_some hitem]; rfl⟩

theorem unoccupied (h : Thinned region fs gs) (hp : fs.isOccupied p = false) :
    gs.isOccupied p = false := by
  by_contra hne
  rw [h.isOccupied (Bool.not_eq_false _ ▸ hne)] at hp
  cases hp

end Thinned

def Removes (p : Pathname) (fs gs : FileSystem) : Prop :=
  ∃ (dir : fs.Holder) (name : String), fs.resolveEntry p = .ok (dir, name) ∧
    isStep name = false ∧ gs.here = fs.here ∧
    ∀ l, gs.item? l = if l = dir.1 ++ [name] then none else fs.item? l

theorem removes_of_unlink (h : fs.unlink p = .ok gs) : Removes p fs gs := by
  unfold unlink at h
  cases hr : fs.resolveEntry p with
  | error e => rw [hr] at h; cases h
  | ok entry =>
      obtain ⟨dir, name⟩ := entry
      simp only [hr] at h
      split_ifs at h with hname hnone hdir hlast
      obtain rfl := Except.ok.inj h
      exact ⟨dir, name, hr, isStep_eq_false_of_isName hname, rfl,
        fun l => item?_erase (by simp) l⟩

theorem removes_of_rmdir (h : fs.rmdir p = .ok gs) : Removes p fs gs := by
  unfold rmdir at h
  cases hr : fs.resolveEntry p with
  | error e => rw [hr] at h; cases h
  | ok entry =>
      obtain ⟨dir, name⟩ := entry
      simp only [hr] at h
      split_ifs at h with hempty hdot hdots hlong hnone hdir hchildren
      obtain rfl := Except.ok.inj h
      exact ⟨dir, name, hr, by simp [isStep, hempty, hdot, hdots], rfl,
        fun l => item?_erase (by simp) l⟩

theorem Removes.thinned (h : Removes p fs gs)
    (hregion : ∀ (dir : fs.Holder) (name : String), fs.resolveEntry p = .ok (dir, name) →
      region (dir.1 ++ [name])) : Thinned region fs gs := by
  obtain ⟨dir, name, hr, -, hhere, hitem⟩ := h
  refine ⟨hhere, fun l => ?_⟩
  rw [hitem]
  split_ifs with hl
  · exact .inr ⟨hl ▸ hregion dir name hr, rfl⟩
  · exact .inl rfl

theorem Removes.unoccupied (hp : p.isEmpty = false) (hn : isStep name = false)
    (h : Removes (p.child name) fs gs) : gs.isOccupied (p.child name) = false := by
  have hthin : Thinned (fun _ => True) fs gs := h.thinned fun _ _ _ => trivial
  obtain ⟨dir, name', hr, -, -, hitem⟩ := h
  obtain ⟨hdir, rfl⟩ := resolveEntry_child hp hn hr
  rw [← Bool.not_eq_true]
  intro hocc
  obtain ⟨d, hd, hi⟩ := leadsTo_of_isOccupied hp hn hocc
  rw [hdir.leadsOnlyTo d (hthin.leadsTo hd), hitem, if_pos rfl] at hi
  cases hi

end ArtifactCache.FileSystem
