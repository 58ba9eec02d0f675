import Mathlib.Data.List.Basic
import ArtifactCache.Proofs.FileSystem.Listing
import ArtifactCache.Proofs.Removal

namespace ArtifactCache

variable {faults : Faults} {fs : FileSystem} {a : Path} {item : Item} {name : String}
  {e : String × Item} {es : List (String × Item)} {level : Nat}

namespace FileSystem

theorem leadsOnlyTo_of_item? (ha : a.anchor ≠ .relative)
    (h : fs.item? a.parts = some .directory) : fs.LeadsOnlyTo a.toPathname a.parts := by
  intro d hd
  exact (leadsTo_of_item? ha h hd.notTooLong).leadsOnlyTo d hd

theorem isLink_entry (ha : a.anchor ≠ .relative) (hi : fs.item? (a.parts ++ [name]) = some item) :
    fs.isLink (a.child name).toPathname = true ↔
      (∃ t, item = .link t) ∧ (a.child name).toPathname.isTooLong = false := by
  have hsome : (fs.item? (a.parts ++ [name])).isSome := by rw [hi]; rfl
  have hdir := item?_dir_of_isSome hsome
  rw [toPathname_entry ha hsome]
  refine (leadsOnlyTo_of_item? ha hdir).isLink_child (fun hlong => ?_)
    (Path.isEmpty_toPathname ha) hi
  rw [← toPathname_entry ha hsome] at hlong
  exact leadsTo_of_item? ha hdir (notTooLong_of_entry ha hsome hlong)

end FileSystem

theorem Outcome.Leaves.item?_of_ne {o : Outcome} {l k : Location} {gs : FileSystem}
    (h : o.Leaves l fs gs) (hk : k ≠ l) : gs.item? k = fs.item? k := by
  unfold Leaves at h
  split_ifs at h
  · rw [h.items, if_neg hk]
  · rw [h]

theorem Outcome.Leaves.item?_eq_some_iff {o : Outcome} {l k : Location} {gs : FileSystem}
    (h : o.Leaves l fs gs) :
    gs.item? k = some item ↔ fs.item? k = some item ∧ (k = l → o.takes = false) := by
  unfold Leaves at h
  split_ifs at h with htakes
  · rw [h.items]
    split_ifs with hk <;> simp [hk, htakes]
  · simp [h, htakes]

namespace Sweep

variable {s t u : Sweep}

def dismiss (faults : Faults) (s : Sweep) : Item → Pathname → Sweep
  | .directory, p => s.rmdir faults p
  | _, p => s.unlink faults p

theorem dismiss_of_ne (h : item ≠ .directory) (p : Pathname) :
    s.dismiss faults item p = s.unlink faults p := by
  cases item with
  | directory => exact absurd rfl h
  | file content => rfl
  | link target => rfl

def report (s : Sweep) (item : Item) (p : Pathname) : Option Errno → List (Pathname × Failure)
  | none => []
  | some e =>
      if e = .noEntry ∨ (item = .directory ∧ s.hasFailedWithin p = true) then []
      else [(p, ⟨e, [p]⟩)]

theorem unlink_report (faults : Faults) (s : Sweep) (p : Pathname) {o : Option Errno}
    (hitem : item ≠ .directory)
    (h : (faults.perform s.files (.unlink p)).failure = o.map fun e => ⟨e, [p]⟩) :
    (s.unlink faults p).failures = s.failures ++ s.report item p o := by
  cases o with
  | none => simp [unlink, h, took, report]
  | some e =>
      rw [Option.map_some] at h
      by_cases hgone : e = .noEntry <;>
        simp [unlink, h, took, record, report, Failure.isNoEntry, hgone, hitem]

theorem rmdir_report (faults : Faults) (s : Sweep) (p : Pathname) {o : Option Errno}
    (h : (faults.perform s.files (.rmdir p)).failure = o.map fun e => ⟨e, [p]⟩) :
    (s.rmdir faults p).failures = s.failures ++ s.report .directory p o := by
  cases o with
  | none => simp [rmdir, h, took, report]
  | some e =>
      rw [Option.map_some] at h
      cases hfailed : s.hasFailedWithin p with
      | true => simp [rmdir, h, hfailed, took, report]
      | false =>
          by_cases hgone : e = .noEntry <;>
            simp [rmdir, h, hfailed, took, record, report, Failure.isNoEntry, hgone]

theorem dismiss_report (faults : Faults) (s : Sweep) (item : Item) (p : Pathname)
    {o : Option Errno}
    (h : (faults.perform s.files (.removing item p)).failure = o.map fun e => ⟨e, [p]⟩) :
    (s.dismiss faults item p).files = (faults.perform s.files (.removing item p)).files ∧
      (s.dismiss faults item p).failures = s.failures ++ s.report item p o := by
  by_cases hitem : item = .directory
  · subst hitem
    exact ⟨(files_rmdir faults s p).1, rmdir_report faults s p h⟩
  · rw [dismiss_of_ne hitem]
    rw [Call.removing_of_ne hitem] at h ⊢
    exact ⟨(files_unlink faults s p).1, unlink_report faults s p hitem h⟩

def fate (faults : Faults) (s : Sweep) (a : Path) (e : String × Item) : Outcome :=
  faults.outcome s.files e.2 (a.child e.1).toPathname (a.parts ++ [e.1])

structure Dismissed (faults : Faults) (a : Path) (es : List (String × Item)) (s t : Sweep) :
    Prop where
  items : ∀ k i, t.files.item? k = some i ↔ s.files.item? k = some i ∧
    ∀ e ∈ es, k = a.parts ++ [e.1] → (s.fate faults a e).takes = false
  failures : t.failures =
    s.failures ++ es.flatMap fun e => s.report e.2 (a.child e.1).toPathname (s.fate faults a e).errno

section

variable (ha : a.anchor ≠ .relative) (hlong : a.toPathname.isTooLong = false)

include ha hlong

theorem dismiss_entry (faults : Faults) (hi : s.files.item? (a.parts ++ [e.1]) = some e.2) :
    let t := s.dismiss faults e.2 (a.child e.1).toPathname
    (s.fate faults a e).Leaves (a.parts ++ [e.1]) s.files t.files ∧
      t.failures =
        s.failures ++ s.report e.2 (a.child e.1).toPathname (s.fate faults a e).errno := by
  have hsome : (s.files.item? (a.parts ++ [e.1])).isSome := by rw [hi]; rfl
  have hlead := FileSystem.leadsTo_of_item? ha (FileSystem.item?_dir_of_isSome hsome) hlong
  have hperform := faults.perform_removing hlead hi
  rw [← FileSystem.toPathname_entry ha hsome] at hperform
  obtain ⟨hfailure, hleaves⟩ := hperform
  obtain ⟨hfiles, hfailures⟩ := dismiss_report faults s e.2 _ hfailure
  exact ⟨by rw [hfiles]; exact hleaves, hfailures⟩

omit ha hlong in
theorem fate_congr {x : String × Item} (h : ∀ k, k ≠ a.parts ++ [e.1] →
    t.files.item? k = s.files.item? k) (faults : Faults) :
    t.fate faults a x = s.fate faults a x := by
  have hchildren : t.files.children (a.parts ++ [x.1]) = s.files.children (a.parts ++ [x.1]) := by
    refine FileSystem.children_congr fun n => ?_
    rw [h _ fun heq => by simpa using congrArg List.length heq]
  rw [fate, fate, Faults.outcome, Faults.outcome, FileSystem.hindrance, FileSystem.hindrance,
    hchildren]

omit ha hlong in
theorem report_congr {x : String × Item} {o o' : Option Errno} (hne : x.1 ≠ e.1)
    (h : t.failures = s.failures ++ s.report e.2 (a.child e.1).toPathname o) :
    t.report x.2 (a.child x.1).toPathname o' = s.report x.2 (a.child x.1).toPathname o' := by
  have hnone : (s.report e.2 (a.child e.1).toPathname o).any
      (fun f => (a.child x.1).toPathname.covers f.1) = false := by
    have hcovers : (a.child x.1).toPathname.covers (a.child e.1).toPathname = false := by
      rw [← Bool.not_eq_true, Path.covers_child]
      exact hne
    cases o with
    | none => rfl
    | some errno =>
        simp only [report]
        split_ifs
        · rfl
        · simp [hcovers]
  have hfailed : t.hasFailedWithin (a.child x.1).toPathname =
      s.hasFailedWithin (a.child x.1).toPathname := by
    rw [hasFailedWithin, h, List.any_append, hnone, Bool.or_false, hasFailedWithin]
  cases o' with
  | none => rfl
  | some errno => simp only [report, hfailed]

-- The induction is on the entries that have not had their turn; they all are still where they were.
theorem foldl_dismissed {f : Sweep → String × Item → Sweep}
    (hf : ∀ u : Sweep, ∀ e ∈ es, u.files.item? (a.parts ++ [e.1]) = some e.2 →
      f u e = u.dismiss faults e.2 (a.child e.1).toPathname)
    (hnodup : (es.map (·.1)).Nodup)
    (hfound : ∀ e ∈ es, s.files.item? (a.parts ++ [e.1]) = some e.2) :
    Dismissed faults a es s (es.foldl f s) := by
  induction es generalizing s with
  | nil => exact ⟨by simp, by simp⟩
  | cons e es ih =>
      rw [List.map_cons, List.nodup_cons] at hnodup
      have hfirst : f s e = s.dismiss faults e.2 (a.child e.1).toPathname :=
        hf s e (by simp) (hfound e (by simp))
      obtain ⟨hleaves, hfailures⟩ := dismiss_entry ha hlong faults (hfound e (by simp))
      rw [← hfirst] at hleaves hfailures
      have hne : ∀ x ∈ es, x.1 ≠ e.1 := fun x hx heq =>
        hnodup.1 (heq ▸ List.mem_map_of_mem hx)
      have hrest := ih (fun u x hx => hf u x (by simp [hx])) hnodup.2 (s := f s e) fun x hx => by
        rw [hleaves.item?_of_ne (by simpa using hne x hx)]
        exact hfound x (by simp [hx])
      have hfate : ∀ x, (f s e).fate faults a x = s.fate faults a x := fun x =>
        fate_congr (fun k hk => hleaves.item?_of_ne hk) faults
      refine ⟨fun k i => ?_, ?_⟩
      · rw [List.foldl_cons, hrest.items, hleaves.item?_eq_some_iff, List.forall_mem_cons, and_assoc]
        simp only [hfate]
      · rw [List.foldl_cons, hrest.failures, hfailures, List.flatMap_cons, List.append_assoc]
        have hreports : ∀ x ∈ es, (f s e).report x.2 (a.child x.1).toPathname
            ((f s e).fate faults a x).errno =
              s.report x.2 (a.child x.1).toPathname (s.fate faults a x).errno := fun x hx => by
          rw [hfate, report_congr (hne x hx) hfailures]
        rw [List.flatMap_def, List.flatMap_def, List.map_congr_left hreports]

end

def inTurn (fs : FileSystem) (a : Path) : List (String × Item) :=
  (fs.entriesOf a.parts).filter (fun e => !leadsToDirectory fs a.toPathname e) ++
    (fs.entriesOf a.parts).filter (leadsToDirectory fs a.toPathname)

theorem inTurn_perm (fs : FileSystem) (a : Path) :
    (inTurn fs a).Perm (fs.entriesOf a.parts) :=
  List.perm_append_comm.trans (List.filter_append_perm _ _)

def deeper (faults : Faults) (level : Nat) (a : Path) (s : Sweep) : Sweep :=
  ((s.files.entriesOf a.parts).filter fun e => e.2 == .directory).foldl
    (fun s e => below faults level (a.child e.1).toPathname s) s

variable (ha : a.anchor ≠ .relative)

include ha

theorem below_thinned (faults : Faults) (level : Nat)
    (h : s.files.item? a.parts = some .directory) :
    FileSystem.Thinned (fun l => ∃ r, r ≠ [] ∧ l = a.parts ++ r) s.files
      (below faults level a.toPathname s).files := by
  refine (below_advances faults level (FileSystem.leadsOnlyTo_of_item? ha h)).thinned.mono ?_
  rintro l ⟨r, hr, rfl, -⟩
  exact ⟨r, hr, rfl⟩

theorem below_keeps {l : Location} (faults : Faults) (level : Nat)
    (h : s.files.item? a.parts = some .directory) (hl : l.length ≤ a.parts.length) :
    (below faults level a.toPathname s).files.item? l = s.files.item? l := by
  refine (below_thinned ha faults level h).outside ?_
  rintro ⟨r, hr, rfl⟩
  have hpos := List.length_pos_of_ne_nil hr
  rw [List.length_append] at hl
  omega

theorem foldl_below_thinned (faults : Faults) (level : Nat)
    (hdirs : ∀ e ∈ es, s.files.item? (a.parts ++ [e.1]) = some .directory) :
    FileSystem.Thinned (fun l => ∃ n r, r ≠ [] ∧ l = a.parts ++ n :: r) s.files
      (es.foldl (fun s e => below faults level (a.child e.1).toPathname s) s).files := by
  refine Advances.thinned (.foldl ?_ (.refl faults (fun _ => True) _ s))
  intro u hu e he
  have hitem : u.files.item? (a.child e.1).parts = some .directory := by
    refine (hu.thinned.outside ?_).trans (hdirs e he)
    rintro ⟨n, r, hr, heq⟩
    have hlength := congrArg List.length heq
    have hpos := List.length_pos_of_ne_nil hr
    simp only [Path.child, List.length_append, List.length_cons, List.length_nil] at hlength
    omega
  have honly := FileSystem.leadsOnlyTo_of_item? (a := a.child e.1) ha hitem
  refine (below_advances faults level honly).mono (fun _ _ => trivial) ?_
  rintro l ⟨r, hr, rfl, -⟩
  exact ⟨e.1, r, hr, by simp [Path.child]⟩

theorem deeper_thinned (faults : Faults) (level : Nat) (s : Sweep) :
    FileSystem.Thinned (fun l => ∃ n r, r ≠ [] ∧ l = a.parts ++ n :: r) s.files
      (s.deeper faults level a).files := by
  refine foldl_below_thinned ha faults level fun e he => ?_
  obtain ⟨hmem, hkind⟩ := List.mem_filter.1 he
  rw [← beq_iff_eq.1 hkind]
  exact FileSystem.mem_entriesOf.1 hmem

theorem deeper_entry (faults : Faults) (level : Nat) (he : e ∈ s.files.entriesOf a.parts) :
    (s.deeper faults level a).files.item? (a.parts ++ [e.1]) = some e.2 := by
  rw [(deeper_thinned ha faults level s).outside]
  · exact FileSystem.mem_entriesOf.1 he
  · rintro ⟨n, r, hr, heq⟩
    exact hr (by simpa using congrArg List.tail (List.append_cancel_left heq) |>.symm)

theorem removeDirectory_eq (hi : s.files.item? (a.parts ++ [e.1]) = some e.2)
    (hleads : leadsToDirectory fs a.toPathname e = true)
    (hsame : fs.item? (a.parts ++ [e.1]) = some e.2) :
    s.removeDirectory faults (a.child e.1).toPathname =
      s.dismiss faults e.2 (a.child e.1).toPathname := by
  have hlink := FileSystem.isLink_entry ha hi
  obtain ⟨n, item⟩ := e
  cases item with
  | directory =>
      have hno : s.files.isLink (a.child n).toPathname = false := by
        rw [← Bool.not_eq_true, hlink]
        simp
      simp [removeDirectory, hno, dismiss]
  | file content => cases hleads
  | link target =>
      have hshort : (a.child n).toPathname.isTooLong = false := by
        rw [FileSystem.toPathname_entry ha (by rw [hsame]; rfl)]
        by_contra hlong
        rw [Bool.not_eq_false] at hlong
        simp [leadsToDirectory, FileSystem.isDirectory, FileSystem.resolve, FileSystem.follow, hlong,
          FileSystem.itemAt] at hleads
      simp [removeDirectory, hlink.2 ⟨⟨target, rfl⟩, hshort⟩, dismiss]

theorem below_refused {errno : Errno} (h : s.files.item? a.parts = some .directory)
    (hlist : faults.refusedListing a.toPathname = some errno) :
    below faults (level + 1) a.toPathname s =
      s.record a.toPathname ⟨errno, [a.toPathname]⟩ := by
  simp only [below, faults.listing_eq ha h, hlist]

theorem below_listed (hlong : a.toPathname.isTooLong = false)
    (h : s.files.item? a.parts = some .directory)
    (hlist : faults.refusedListing a.toPathname = none) :
    Dismissed faults a (inTurn s.files a) (s.deeper faults level a)
      (below faults (level + 1) a.toPathname s) := by
  have hchild : ∀ e ∈ s.files.entriesOf a.parts,
      a.toPathname.child e.1 = (a.child e.1).toPathname := fun e he =>
    (FileSystem.toPathname_entry ha (by rw [FileSystem.mem_entriesOf.1 he]; rfl)).symm
  have hdeeper : ((s.files.entriesOf a.parts).filter fun e => e.2 == .directory).foldl
      (fun s e => below faults level (a.toPathname.child e.1) s) s = s.deeper faults level a := by
    refine List.foldl_ext _ _ _ fun u e he => ?_
    rw [hchild e (List.mem_filter.1 he).1]
  -- The files, then what leads to directories: both come to one pass over the entries in turn.
  have hturns : below faults (level + 1) a.toPathname s =
      (inTurn s.files a).foldl (fun u e =>
        if leadsToDirectory s.files a.toPathname e = true then
          u.removeDirectory faults (a.toPathname.child e.1)
        else u.unlink faults (a.toPathname.child e.1)) (s.deeper faults level a) := by
    have hkind : ((s.files.entriesOf a.parts).filter
        (leadsToDirectory s.files a.toPathname)).filter (fun e => e.2 == .directory) =
          (s.files.entriesOf a.parts).filter fun e => e.2 == .directory := by
      rw [List.filter_filter]
      refine List.filter_congr fun e _ => ?_
      obtain ⟨n, item⟩ := e
      cases item <;> simp [leadsToDirectory]
    simp only [below, faults.listing_eq ha h, hlist, List.partition_eq_filter_filter, hkind,
      hdeeper, inTurn, List.foldl_append]
    rw [List.foldl_ext _ _ (s.deeper faults level a) fun u e he => if_neg ?_]
    · refine List.foldl_ext _ _ _ fun u e he => (if_pos (List.mem_filter.1 he).2).symm
    · simpa using (List.mem_filter.1 he).2
  rw [hturns]
  refine foldl_dismissed ha hlong ?_ ?_ ?_
  · intro u e he hi
    have hmem := (inTurn_perm s.files a).mem_iff.1 he
    rw [hchild e hmem]
    split_ifs with hleads
    · exact removeDirectory_eq ha hi hleads (FileSystem.mem_entriesOf.1 hmem)
    · refine (dismiss_of_ne (fun hdir => hleads ?_) _).symm
      obtain ⟨n, item⟩ := e
      obtain rfl : item = .directory := hdir
      rfl
  · exact ((inTurn_perm s.files a).map _).nodup_iff.2 (FileSystem.nodup_entriesOf ..)
  · exact fun e he => deeper_entry ha faults level ((inTurn_perm s.files a).mem_iff.1 he)

end Sweep

end ArtifactCache
