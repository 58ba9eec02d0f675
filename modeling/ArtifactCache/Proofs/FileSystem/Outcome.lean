import ArtifactCache.FileSystem.Fault
import ArtifactCache.Proofs.Path

namespace ArtifactCache

variable {faults : Faults} {fs gs : FileSystem} {a : Path} {p : Pathname} {name : String}
  {item : Item} {d r l : Location}

namespace Path

def below (a : Path) (r : Location) : Path := { a with parts := a.parts ++ r }

@[simp] theorem below_nil (a : Path) : a.below [] = a := by simp [below]

@[simp] theorem parts_below (a : Path) (r : Location) : (a.below r).parts = a.parts ++ r := rfl

@[simp] theorem child_below (a : Path) (r : Location) (name : String) :
    (a.below r).child name = a.below (r ++ [name]) := by simp [below, child]

theorem child_eq_below (a : Path) (name : String) : a.child name = a.below [name] := rfl

@[simp] theorem below_below (a : Path) (r q : Location) :
    (a.below r).below q = a.below (r ++ q) := by simp [below]

theorem covers_toPathname {b : Path} (hanchor : a.anchor = b.anchor) (ha : a.parts ≠ [])
    (hb : b.parts ≠ []) : a.toPathname.covers b.toPathname = true ↔ a.parts <+: b.parts := by
  obtain ⟨anchor, parts⟩ := a
  obtain ⟨anchor', others⟩ := b
  obtain rfl : anchor = anchor' := hanchor
  obtain ⟨x, xs, rfl⟩ := List.exists_cons_of_ne_nil ha
  obtain ⟨y, ys, rfl⟩ := List.exists_cons_of_ne_nil hb
  cases anchor <;> simp [Pathname.covers, toPathname, List.isPrefixOf_iff_prefix,
    List.cons_prefix_cons]

theorem covers_below {r q : Location} (ha : a.parts ≠ []) :
    (a.below r).toPathname.covers (a.below q).toPathname = true ↔ r <+: q := by
  have hcovers := covers_toPathname (a := a.below r) (b := a.below q) rfl (by simp [ha])
    (by simp [ha])
  rw [hcovers, parts_below, parts_below, List.prefix_append_right_inj]

theorem covers_child {m n : String} :
    (a.child m).toPathname.covers (a.child n).toPathname = true ↔ m = n := by
  have hcovers := covers_toPathname (a := a.child m) (b := a.child n) rfl (by simp [child])
    (by simp [child])
  rw [hcovers]
  constructor
  · intro h
    have heq := h.eq_of_length (by simp [child])
    simpa [child] using heq
  · rintro rfl
    exact List.prefix_rfl

end Path

namespace FileSystem

theorem ne_empty_of_isSome (h : (fs.item? l).isSome) : ∀ part ∈ l, part ≠ "" := by
  rintro part hpart rfl
  have := isName_of_mem h hpart
  revert this
  decide

theorem toPathname_entry (ha : a.anchor ≠ .relative) (h : (fs.item? (a.parts ++ [name])).isSome) :
    (a.child name).toPathname = a.toPathname.child name := by
  refine Path.toPathname_child ha (fun part hpart => ?_) name
  exact ne_empty_of_isSome h part (List.mem_append_left _ hpart)

theorem notTooLong_of_entry (ha : a.anchor ≠ .relative)
    (h : (fs.item? (a.parts ++ [name])).isSome)
    (hlong : (a.child name).toPathname.isTooLong = false) : a.toPathname.isTooLong = false := by
  rw [toPathname_entry ha h] at hlong
  exact Pathname.notTooLong_of_child hlong

theorem LeadsTo.resolveEntry_child (h : fs.LeadsTo p d) (hn : isStep name = false)
    (hlong : (p.child name).isTooLong = false) :
    fs.resolveEntry (p.child name) = .ok (⟨d, h.2⟩, name) := by
  have hne : name ≠ "" := by rintro rfl; cases hn
  have hwalk := (follow_eq_ok_iff.1 h.1).2.2
  rw [← walkWithin_front h.2, ← startOf_child fs name h.notEmpty] at hwalk
  have hfollow : fs.follow true (p.child name) p.front = .ok d :=
    follow_eq_ok_iff.2 ⟨hlong, Pathname.isEmpty_child p hne, hwalk⟩
  have hholder : fs.holder d = .ok ⟨d, h.2⟩ := holder_eq_ok_iff.2 rfl
  rw [resolveEntry, Pathname.entryParts_child p hne]
  simp only [hfollow, hholder]
  rfl

theorem resolveEntry_of_isTooLong (h : p.isTooLong = true) :
    fs.resolveEntry p = .error .nameTooLong := by
  rw [resolveEntry, follow, if_pos h]

def hindrance (fs : FileSystem) (p : Pathname) (l : Location) : Option Errno :=
  if p.isTooLong then some .nameTooLong
  else if fs.children l = [] then none
  else some .notEmpty

structure Lost (l : Location) (fs gs : FileSystem) : Prop where
  here : gs.here = fs.here
  items : ∀ k, gs.item? k = if k = l then none else fs.item? k

end FileSystem

def Call.removing : Item → Pathname → Call
  | .directory, p => .rmdir p
  | _, p => .unlink p

theorem Call.removing_of_ne (h : item ≠ .directory) : Call.removing item p = .unlink p := by
  cases item with
  | directory => exact absurd rfl h
  | file content => rfl
  | link target => rfl

theorem Call.paths_removing (item : Item) (p : Pathname) :
    (Call.removing item p).paths = [p] ∧ (Call.removing item p).deniedPaths = [p] := by
  cases item <;> exact ⟨rfl, rfl⟩

namespace FileSystem

section

variable {hd : fs.item? d = some .directory} (he : fs.resolveEntry p = .ok (⟨d, hd⟩, name))
  (hlast : p.lastPiece = name) (hi : fs.item? (d ++ [name]) = some item)

include he hlast hi

theorem unlink_entry (hitem : item ≠ .directory) :
    ∃ gs, fs.unlink p = .ok gs ∧ Lost (d ++ [name]) fs gs := by
  have hname : isName name = true := isName_of_isSome (by rw [hi]; rfl)
  have hnotdir : fs.item? (d ++ [name]) ≠ some .directory := by simpa [hi] using hitem
  have hne : p.lastPiece ≠ "" := by
    rw [hlast]
    rintro rfl
    cases isStep_eq_false_of_isName hname
  refine ⟨fs.erase (d ++ [name]) (children_eq_nil_of_ne hnotdir), ?_, rfl, item?_erase (by simp)⟩
  simp only [unlink, he, hname, if_true, hi, if_neg hne, Option.some.injEq, dif_neg hitem,
    reduceCtorEq, if_false]

omit hlast in
theorem rmdir_entry (hitem : item = .directory) :
    if fs.children (d ++ [name]) = [] then ∃ gs, fs.rmdir p = .ok gs ∧ Lost (d ++ [name]) fs gs
    else fs.rmdir p = .error .notEmpty := by
  have hname : isName name = true := isName_of_isSome (by rw [hi]; rfl)
  have hn := isStep_eq_false_of_isName hname
  have hshort : isTooLong name = false := by
    simp only [isName, Bool.and_eq_true, Bool.not_eq_true'] at hname
    exact hname.2
  have hsteps : name ≠ "" ∧ name ≠ "." ∧ name ≠ ".." := by
    simpa [isStep, not_or, and_assoc] using hn
  subst hitem
  split_ifs with hempty
  · refine ⟨fs.erase (d ++ [name]) hempty, ?_, rfl, item?_erase (by simp)⟩
    simp [rmdir, he, hsteps, hshort, hi, hempty]
  · simp [rmdir, he, hsteps, hshort, hi, hempty]

end

theorem run_removing_of_isTooLong (h : p.isTooLong = true) :
    (Call.removing item p).run fs = .error .nameTooLong := by
  cases item <;> simp [Call.removing, Call.run, unlink, rmdir, resolveEntry_of_isTooLong h]

theorem run_removing {hd : fs.item? d = some .directory}
    (he : p.isTooLong = false → fs.resolveEntry p = .ok (⟨d, hd⟩, name))
    (hlast : p.lastPiece = name) (hi : fs.item? (d ++ [name]) = some item) :
    match fs.hindrance p (d ++ [name]) with
    | some e => (Call.removing item p).run fs = .error e
    | none => ∃ gs, (Call.removing item p).run fs = .ok gs ∧ Lost (d ++ [name]) fs gs := by
  cases hlong : p.isTooLong with
  | true =>
      rw [hindrance, if_pos hlong]
      exact run_removing_of_isTooLong hlong
  | false =>
      rw [hindrance, if_neg (by simp [hlong])]
      by_cases hitem : item = .directory
      · have hrmdir := rmdir_entry (he hlong) hi hitem
        subst hitem
        split_ifs at hrmdir ⊢ with hempty <;> exact hrmdir
      · have hempty : fs.children (d ++ [name]) = [] :=
          children_eq_nil_of_ne (by simpa [hi] using hitem)
        rw [if_pos hempty, Call.removing_of_ne hitem]
        exact unlink_entry (he hlong) hlast hi hitem

end FileSystem

structure Outcome where
  errno : Option Errno
  takes : Bool
  deriving DecidableEq

def Outcome.of : Option Fault → Option Errno → Outcome
  | some (.deny e), _ => ⟨some e, false⟩
  | _, some e => ⟨some e, false⟩
  | some .vanish, none => ⟨some .noEntry, true⟩
  | none, none => ⟨none, true⟩

def Faults.outcome (faults : Faults) (fs : FileSystem) (item : Item) (p : Pathname)
    (l : Location) : Outcome :=
  .of ((Call.removing item p).fault? faults) (fs.hindrance p l)

def Outcome.Leaves (o : Outcome) (l : Location) (fs gs : FileSystem) : Prop :=
  if o.takes then FileSystem.Lost l fs gs else gs = fs

theorem Faults.perform_entry (faults : Faults) {hd : fs.item? d = some .directory}
    (he : p.isTooLong = false → fs.resolveEntry p = .ok (⟨d, hd⟩, name))
    (hlast : p.lastPiece = name) (hi : fs.item? (d ++ [name]) = some item) :
    (faults.perform fs (.removing item p)).failure =
        (faults.outcome fs item p (d ++ [name])).errno.map (fun e => ⟨e, [p]⟩) ∧
      (faults.outcome fs item p (d ++ [name])).Leaves (d ++ [name]) fs
        (faults.perform fs (.removing item p)).files := by
  have hrun := FileSystem.run_removing he hlast hi
  obtain ⟨hpaths, hdenied⟩ := Call.paths_removing item p
  unfold Faults.outcome
  cases hhindrance : fs.hindrance p (d ++ [name]) with
  | some e =>
      rw [hhindrance] at hrun
      rcases hfault : (Call.removing item p).fault? faults with _ | ⟨errno⟩ | _ <;>
        simp_all [perform, Outcome.of, Outcome.Leaves]
  | none =>
      rw [hhindrance] at hrun
      obtain ⟨gs, hgs, hlost⟩ := hrun
      rcases hfault : (Call.removing item p).fault? faults with _ | ⟨errno⟩ | _ <;>
        simp_all [perform, Outcome.of, Outcome.Leaves]

theorem Faults.perform_removing (faults : Faults) (h : fs.LeadsTo p d)
    (hi : fs.item? (d ++ [name]) = some item) :
    (faults.perform fs (.removing item (p.child name))).failure =
        (faults.outcome fs item (p.child name) (d ++ [name])).errno.map
          (fun e => ⟨e, [p.child name]⟩) ∧
      (faults.outcome fs item (p.child name) (d ++ [name])).Leaves (d ++ [name]) fs
        (faults.perform fs (.removing item (p.child name))).files := by
  have hn : isStep name = false :=
    FileSystem.isStep_eq_false_of_isName (FileSystem.isName_of_isSome (by rw [hi]; rfl))
  exact faults.perform_entry (fun hlong => h.resolveEntry_child hn hlong) (p.lastPiece_child name) hi

end ArtifactCache
