import ArtifactCache.Proofs.Removal.Target

namespace ArtifactCache

variable {faults faults' : Faults} {fs gs : FileSystem} {ordered : Prop} {a b : Path}
  {r : Location} {item : Item} {e : String × Item} {es es' : List (String × Item)} {level : Nat}

structure Alike (ordered : Prop) (faults faults' : Faults) (fs gs : FileSystem) (a b : Path) :
    Prop where
  anchor : a.anchor ≠ .relative
  anchor' : b.anchor ≠ .relative
  below : a.parts ≠ []
  below' : b.parts ≠ []
  long : ∀ r, (fs.item? (a.parts ++ r)).isSome →
    (a.below r).toPathname.isTooLong = (b.below r).toPathname.isTooLong
  unlink : ∀ r, faults.unlink (a.below r).toPathname = faults'.unlink (b.below r).toPathname
  rmdir : ∀ r, faults.rmdir (a.below r).toPathname = faults'.rmdir (b.below r).toPathname
  list : ∀ r, faults.list (a.below r).toPathname = faults'.list (b.below r).toPathname
  links : ordered → ∀ fs' gs' : FileSystem, FileSystem.Thinned (a.parts <+: ·) fs fs' →
    FileSystem.Thinned (b.parts <+: ·) gs gs' →
    (∀ r, fs'.item? (a.parts ++ r) = gs'.item? (b.parts ++ r)) →
    ∀ r n t, fs'.item? (a.parts ++ r ++ [n]) = some (.link t) →
      fs'.isDirectory ((a.below r).child n).toPathname =
        gs'.isDirectory ((b.below r).child n).toPathname

namespace Sweep

variable {s t u v : Sweep} {xs ys : List (Location × Errno)}

def reported (a : Path) (x : Location × Errno) : Pathname × Failure :=
  ((a.below x.1).toPathname, ⟨x.2, [(a.below x.1).toPathname]⟩)

structure Twin (ordered : Prop) (fs gs : FileSystem) (a b : Path) (s t : Sweep) : Prop where
  thinned : FileSystem.Thinned (a.parts <+: ·) fs s.files
  thinned' : FileSystem.Thinned (b.parts <+: ·) gs t.files
  items : ∀ r, s.files.item? (a.parts ++ r) = t.files.item? (b.parts ++ r)
  failures : ∃ xs ys : List (Location × Errno), s.failures = xs.map (reported a) ∧
    t.failures = ys.map (reported b) ∧ xs.Perm ys ∧ (ordered → xs = ys)

def reportAt (xs : List (Location × Errno)) (item : Item) (r : Location) :
    Option Errno → List (Location × Errno)
  | none => []
  | some e =>
      if e = .noEntry ∨ (item = .directory ∧ xs.any (fun x => r.isPrefixOf x.1) = true) then []
      else [(r, e)]

theorem report_reported (ha : a.parts ≠ []) (h : s.failures = xs.map (reported a))
    (item : Item) (r : Location) (o : Option Errno) :
    s.report item (a.below r).toPathname o = (reportAt xs item r o).map (reported a) := by
  have hwithin : s.hasFailedWithin (a.below r).toPathname =
      xs.any fun x => r.isPrefixOf x.1 := by
    rw [hasFailedWithin, h, List.any_map]
    refine congrArg (fun p => xs.any p) (funext fun x => ?_)
    rw [Bool.eq_iff_iff, List.isPrefixOf_iff_prefix]
    exact Path.covers_below ha
  cases o with
  | none => rfl
  | some e =>
      simp only [report, reportAt, hwithin]
      split_ifs <;> rfl

theorem reportAt_perm (h : xs.Perm ys) (item : Item) (r : Location) (o : Option Errno) :
    reportAt xs item r o = reportAt ys item r o := by
  cases o with
  | none => rfl
  | some e => simp only [reportAt, h.any_eq]

namespace Twin

theorem record (h : Twin ordered fs gs a b s t) (r : Location) (errno : Errno) :
    Twin ordered fs gs a b
      (s.record (a.below r).toPathname ⟨errno, [(a.below r).toPathname]⟩)
      (t.record (b.below r).toPathname ⟨errno, [(b.below r).toPathname]⟩) := by
  obtain ⟨xs, ys, hxs, hys, hperm, horder⟩ := h.failures
  by_cases hgone : errno = .noEntry
  · simpa [Sweep.record, Failure.isNoEntry, hgone] using h
  · simp only [Sweep.record, Failure.isNoEntry, beq_eq_false_iff_ne.2 hgone, Bool.false_eq_true,
      if_false]
    refine ⟨h.thinned, h.thinned', h.items, xs ++ [(r, errno)], ys ++ [(r, errno)], ?_, ?_,
      hperm.append_right _, fun hordered => by rw [horder hordered]⟩
    · rw [hxs, List.map_append]; rfl
    · rw [hys, List.map_append]; rfl

variable (halike : Alike ordered faults faults' fs gs a b) (h : Twin ordered fs gs a b s t)

include halike h

theorem outcome_eq (hi : s.files.item? (a.parts ++ r) = some item) :
    faults.outcome s.files item (a.below r).toPathname (a.parts ++ r) =
      faults'.outcome t.files item (b.below r).toPathname (b.parts ++ r) := by
  have hsome : (fs.item? (a.parts ++ r)).isSome := by
    rw [h.thinned.eq_some hi]
    rfl
  have hchildren : s.files.children (a.parts ++ r) = t.files.children (b.parts ++ r) := by
    refine FileSystem.children_congr fun n => ?_
    rw [List.append_assoc, List.append_assoc, h.items]
  have hfault : (Call.removing item (a.below r).toPathname).fault? faults =
      (Call.removing item (b.below r).toPathname).fault? faults' := by
    cases item
    · exact halike.rmdir r
    · exact halike.unlink r
    · exact halike.unlink r
  rw [Faults.outcome, Faults.outcome, FileSystem.hindrance, FileSystem.hindrance, hfault, hchildren,
    halike.long r hsome]

theorem outcome_self (hi : s.files.item? a.parts = some item) :
    faults.outcome s.files item a.toPathname a.parts =
      faults'.outcome t.files item b.toPathname b.parts := by
  rw [← List.append_nil a.parts] at hi
  have hself := h.outcome_eq halike hi
  rwa [Path.below_nil, Path.below_nil, List.append_nil, List.append_nil] at hself

theorem fate_eq {name : String} (hi : s.files.item? (a.parts ++ r ++ [name]) = some item) :
    s.fate faults (a.below r) (name, item) = t.fate faults' (b.below r) (name, item) := by
  rw [List.append_assoc] at hi
  have houtcome := h.outcome_eq halike hi
  simpa only [fate, Path.child_below, Path.parts_below, List.append_assoc] using houtcome

theorem dismissed (hfound : ∀ e ∈ es, s.files.item? (a.parts ++ r ++ [e.1]) = some e.2)
    (hperm : es.Perm es') (horder : ordered → es = es')
    (hu : Dismissed faults (a.below r) es s u) (hv : Dismissed faults' (b.below r) es' t v)
    (hthin : FileSystem.Thinned (a.parts <+: ·) fs u.files)
    (hthin' : FileSystem.Thinned (b.parts <+: ·) gs v.files) :
    Twin ordered fs gs a b u v := by
  obtain ⟨xs, ys, hxs, hys, hreports, hsame⟩ := h.failures
  have hfate : ∀ e ∈ es, s.fate faults (a.below r) e = t.fate faults' (b.below r) e := fun e he =>
    h.fate_eq halike (hfound e he)
  refine ⟨hthin, hthin', fun q => Option.ext fun i => ?_, ?_⟩
  · rw [hu.items, hv.items, h.items]
    refine and_congr_right fun _ => ?_
    simp only [Path.parts_below, List.append_assoc, List.append_cancel_left_eq]
    constructor
    · intro hstays e he hq
      rw [← hfate e (hperm.mem_iff.2 he)]
      exact hstays e (hperm.mem_iff.2 he) hq
    · intro hstays e he hq
      rw [hfate e he]
      exact hstays e (hperm.mem_iff.1 he) hq
  · have hleft : ∀ e ∈ es, s.report e.2 ((a.below r).child e.1).toPathname
        (s.fate faults (a.below r) e).errno =
          (reportAt xs e.2 (r ++ [e.1]) (s.fate faults (a.below r) e).errno).map (reported a) :=
      fun e _ => by rw [Path.child_below, report_reported halike.below hxs]
    have hright : ∀ e ∈ es', t.report e.2 ((b.below r).child e.1).toPathname
        (t.fate faults' (b.below r) e).errno =
          (reportAt xs e.2 (r ++ [e.1]) (s.fate faults (a.below r) e).errno).map (reported b) :=
      fun e he => by
        rw [Path.child_below, report_reported halike.below' hys,
          hfate e (hperm.mem_iff.2 he), reportAt_perm hreports]
    refine ⟨xs ++ es.flatMap fun e =>
        reportAt xs e.2 (r ++ [e.1]) (s.fate faults (a.below r) e).errno,
      ys ++ es'.flatMap fun e =>
        reportAt xs e.2 (r ++ [e.1]) (s.fate faults (a.below r) e).errno, ?_, ?_,
      hreports.append (hperm.flatMap_right _), fun hordered => by
        rw [hsame hordered, horder hordered]⟩
    · rw [hu.failures, hxs, List.map_append, List.map_flatMap, List.flatMap_def, List.flatMap_def,
        List.map_congr_left hleft]
    · rw [hv.failures, hys, List.map_append, List.map_flatMap, List.flatMap_def, List.flatMap_def,
        List.map_congr_left hright]

omit halike in
theorem entriesOf_eq (r : Location) :
    s.files.entriesOf (a.parts ++ r) = t.files.entriesOf (b.parts ++ r) := by
  refine FileSystem.entriesOf_congr fun n => ?_
  rw [List.append_assoc, List.append_assoc, h.items]

theorem refusedListing_eq (hdir : s.files.item? (a.parts ++ r) = some .directory) :
    faults.refusedListing (a.below r).toPathname =
      faults'.refusedListing (b.below r).toPathname := by
  have hsome : (fs.item? (a.parts ++ r)).isSome := by rw [h.thinned.eq_some hdir]; rfl
  rw [Faults.refusedListing, Faults.refusedListing, halike.list, halike.long r hsome]

theorem leadsToDirectory_eq (hordered : ordered) (he : e ∈ s.files.entriesOf (a.parts ++ r)) :
    leadsToDirectory s.files (a.below r).toPathname e =
      leadsToDirectory t.files (b.below r).toPathname e := by
  obtain ⟨n, item⟩ := e
  have hitem := FileSystem.mem_entriesOf.1 he
  have hitem' : t.files.item? ((b.below r).parts ++ [n]) = some item := by
    rw [← hitem, Path.parts_below, List.append_assoc, List.append_assoc, h.items]
  cases item with
  | directory => rfl
  | file content => rfl
  | link target =>
      have hlinks := halike.links hordered s.files t.files h.thinned h.thinned' h.items r n target
        hitem
      have hentry : ((a.below r).child n).toPathname = (a.below r).toPathname.child n :=
        FileSystem.toPathname_entry halike.anchor (by rw [Path.parts_below, hitem]; rfl)
      have hentry' : ((b.below r).child n).toPathname = (b.below r).toPathname.child n :=
        FileSystem.toPathname_entry halike.anchor' (by rw [hitem']; rfl)
      simp only [leadsToDirectory, ← hentry, ← hentry', hlinks]

theorem inTurn_eq (hordered : ordered) :
    inTurn s.files (a.below r) = inTurn t.files (b.below r) := by
  simp only [inTurn, Path.parts_below, ← h.entriesOf_eq r]
  have hsame : ∀ e ∈ s.files.entriesOf (a.parts ++ r),
      leadsToDirectory s.files (a.below r).toPathname e =
        leadsToDirectory t.files (b.below r).toPathname e := fun e he =>
    h.leadsToDirectory_eq halike hordered he
  rw [List.filter_congr hsame, List.filter_congr fun e he => by rw [hsame e he]]

-- Each of the directories is still there when its turn comes.
theorem foldl_below
    (hstep : ∀ n (u v : Sweep), Twin ordered fs gs a b u v →
      u.files.item? (a.parts ++ (r ++ [n])) = some .directory →
      Twin ordered fs gs a b (below faults level (a.below (r ++ [n])).toPathname u)
        (below faults' level (b.below (r ++ [n])).toPathname v))
    (hdirs : ∀ e ∈ es, s.files.item? (a.parts ++ (r ++ [e.1])) = some .directory) :
    Twin ordered fs gs a b
      (es.foldl (fun s e => below faults level ((a.below r).child e.1).toPathname s) s)
      (es.foldl (fun t e => below faults' level ((b.below r).child e.1).toPathname t) t) := by
  induction es generalizing s t with
  | nil => exact h
  | cons e es ih =>
      have hfirst := hdirs e (by simp)
      refine ih (by simpa using hstep e.1 s t h hfirst) fun x hx => ?_
      simp only [Path.child_below]
      rw [below_keeps (a := a.below (r ++ [e.1])) halike.anchor faults level hfirst (by simp)]
      exact hdirs x (by simp [hx])

theorem deeper
    (hstep : ∀ n (u v : Sweep), Twin ordered fs gs a b u v →
      u.files.item? (a.parts ++ (r ++ [n])) = some .directory →
      Twin ordered fs gs a b (below faults level (a.below (r ++ [n])).toPathname u)
        (below faults' level (b.below (r ++ [n])).toPathname v)) :
    Twin ordered fs gs a b (s.deeper faults level (a.below r))
      (t.deeper faults' level (b.below r)) := by
  rw [Sweep.deeper, Sweep.deeper, Path.parts_below, Path.parts_below, ← h.entriesOf_eq r]
  refine h.foldl_below halike hstep fun e he => ?_
  obtain ⟨hmem, hkind⟩ := List.mem_filter.1 he
  rw [← beq_iff_eq.1 hkind, ← List.append_assoc]
  exact FileSystem.mem_entriesOf.1 hmem

end Twin

theorem below_within (ha : a.anchor ≠ .relative) (faults : Faults) (level : Nat)
    (hdir : s.files.item? (a.parts ++ r) = some .directory) :
    FileSystem.Thinned (a.parts <+: ·) s.files
      (below faults level (a.below r).toPathname s).files := by
  refine (below_thinned (a := a.below r) ha faults level hdir).mono ?_
  rintro l ⟨q, -, rfl⟩
  exact ⟨r ++ q, by simp⟩

-- The induction is on the levels. What lies deeper comes first, and its turn leaves the entries of
-- this level where they are, so that they meet the same fates in both.
theorem twin_below (halike : Alike ordered faults faults' fs gs a b)
    (h : Twin ordered fs gs a b s t) (hdir : s.files.item? (a.parts ++ r) = some .directory) :
    Twin ordered fs gs a b (below faults level (a.below r).toPathname s)
      (below faults' level (b.below r).toPathname t) := by
  induction level generalizing r s t with
  | zero => exact h
  | succ level ih =>
      have hdir' : t.files.item? (b.parts ++ r) = some .directory := by rw [← h.items, hdir]
      have hlisting := h.refusedListing_eq halike hdir
      cases hlist : faults.refusedListing (a.below r).toPathname with
      | some errno =>
          rw [below_refused (a := a.below r) halike.anchor hdir hlist,
            below_refused (a := b.below r) halike.anchor' hdir' (hlisting ▸ hlist)]
          exact h.record r errno
      | none =>
          have hlong := Faults.notTooLong_of_listed hlist
          have hlong' : (b.below r).toPathname.isTooLong = false := by
            rw [← halike.long r (by rw [h.thinned.eq_some hdir]; rfl), hlong]
          have hu : Dismissed faults (a.below r) (inTurn s.files (a.below r))
              (s.deeper faults level (a.below r))
              (below faults (level + 1) (a.below r).toPathname s) :=
            below_listed halike.anchor hlong hdir hlist
          have hv : Dismissed faults' (b.below r) (inTurn t.files (b.below r))
              (t.deeper faults' level (b.below r))
              (below faults' (level + 1) (b.below r).toPathname t) :=
            below_listed halike.anchor' hlong' hdir' (hlisting ▸ hlist)
          have hdeeper : Twin ordered fs gs a b (s.deeper faults level (a.below r))
              (t.deeper faults' level (b.below r)) :=
            h.deeper halike fun n u v huv hn => ih huv hn
          refine hdeeper.dismissed halike ?_ ?_ ?_ hu hv ?_ ?_
          · intro e he
            exact deeper_entry (a := a.below r) halike.anchor faults level
              ((inTurn_perm s.files (a.below r)).mem_iff.1 he)
          · refine (inTurn_perm s.files (a.below r)).trans ?_
            rw [Path.parts_below, h.entriesOf_eq r]
            exact (inTurn_perm t.files (b.below r)).symm
          · exact fun hordered => h.inTurn_eq halike hordered
          · exact h.thinned.trans (below_within halike.anchor faults _ hdir)
          · exact h.thinned'.trans (below_within halike.anchor' faults' _ hdir')

end Sweep

inductive Removal.Same (faults : Faults) (ordered : Prop) (a b : Path) :
    Except RemovalError Unit → Except RemovalError Unit → Prop
  | done : Same faults ordered a b (.ok ()) (.ok ())
  | incomplete {xs ys : List Location} {f f' : Option Failure} (hxs : xs ≠ [])
      (hperm : xs.Perm ys) (horder : ordered → xs = ys) :
      Same faults ordered a b
        (.error (.incomplete ⟨a.toPathname, xs.map fun r => (a.below r).toPathname, f⟩))
        (.error (.incomplete ⟨b.toPathname, ys.map fun r => (b.below r).toPathname, f'⟩))
  | refused {e : Errno} (hfault : faults.unlink a.toPathname = some (.deny e)) :
      Same faults ordered a b (.error (.call (.failed ⟨e, [a.toPathname]⟩)))
        (.error (.call (.failed ⟨e, [b.toPathname]⟩)))

theorem Removal.same_treeResult {xs ys : List (Location × Errno)} (hperm : xs.Perm ys)
    (horder : ordered → xs = ys) :
    Same faults ordered a b (treeResult a.toPathname (xs.map (Sweep.reported a)))
      (treeResult b.toPathname (ys.map (Sweep.reported b))) := by
  have hlocations : (xs.map (·.1)).Perm (ys.map (·.1)) := hperm.map _
  cases xs with
  | nil =>
      obtain rfl := hperm.nil_eq
      exact .done
  | cons x xs =>
      cases ys with
      | nil => exact absurd hperm.symm.nil_eq (by simp)
      | cons y ys =>
          have hsame : ordered → (x :: xs).map (·.1) = (y :: ys).map (·.1) := fun hordered => by
            rw [horder hordered]
          have hboth : Same faults ordered a b
              (.error (.incomplete ⟨a.toPathname, ((x :: xs).map (·.1)).map fun r =>
                (a.below r).toPathname, some (Sweep.reported a x).2⟩))
              (.error (.incomplete ⟨b.toPathname, ((y :: ys).map (·.1)).map fun r =>
                (b.below r).toPathname, some (Sweep.reported b y).2⟩)) :=
            .incomplete (by simp) hlocations hsame
          simpa [treeResult, Sweep.reported, Function.comp_def] using hboth

theorem Outcome.Leaves.twin {o : Outcome} {fs' gs' : FileSystem} (h : o.Leaves a.parts fs fs')
    (h' : o.Leaves b.parts gs gs')
    (hitems : ∀ r, fs.item? (a.parts ++ r) = gs.item? (b.parts ++ r)) :
    ∀ r, fs'.item? (a.parts ++ r) = gs'.item? (b.parts ++ r) := by
  refine fun r => Option.ext fun i => ?_
  rw [h.item?_eq_some_iff, h'.item?_eq_some_iff, hitems]
  simp only [List.append_right_eq_self]

theorem Sweep.twin_start
    (hitems : ∀ r, fs.item? (a.parts ++ r) = gs.item? (b.parts ++ r)) :
    Twin ordered fs gs a b (.start fs) (.start gs) :=
  ⟨.refl .., .refl .., hitems, [], [], rfl, rfl, .nil, fun _ => rfl⟩

theorem Removal.same_fileResult :
    let o := Outcome.of (faults.unlink a.toPathname) none
    Same faults ordered a b (fileResult a.toPathname o.errno) (fileResult b.toPathname o.errno) := by
  rcases hfault : faults.unlink a.toPathname with _ | ⟨e⟩ | _
  · exact .done
  · simp only [Outcome.of, fileResult]
    split_ifs
    · exact .done
    · exact .refused hfault
  · exact .done

section

variable {dir dir' : Path} {m n : String}
  (halike : Alike ordered faults faults' fs gs (dir.child m) (dir'.child n))
  (hitems : ∀ r, fs.item? ((dir.child m).parts ++ r) = gs.item? ((dir'.child n).parts ++ r))

include halike hitems

theorem Removal.ofFile_twin (hi : fs.item? (dir.child m).parts = some item)
    (hi' : gs.item? (dir'.child n).parts = some item) (hitem : item ≠ .directory)
    (hlong : (dir.child m).toPathname.isTooLong = false)
    (hlong' : (dir'.child n).toPathname.isTooLong = false) :
    (∀ r, (ofFile faults fs (dir.child m).toPathname).files.item? ((dir.child m).parts ++ r) =
        (ofFile faults' gs (dir'.child n).toPathname).files.item? ((dir'.child n).parts ++ r)) ∧
      Same faults ordered (dir.child m) (dir'.child n)
        (ofFile faults fs (dir.child m).toPathname).result
        (ofFile faults' gs (dir'.child n).toPathname).result := by
  have ha : dir.anchor ≠ .relative := halike.anchor
  have hb : dir'.anchor ≠ .relative := halike.anchor'
  obtain ⟨hleaves, hresult⟩ := ofFile_entry ha hlong faults hi hitem
  obtain ⟨hleaves', hresult'⟩ := ofFile_entry hb hlong' faults' hi' hitem
  have houtcome : faults.outcome fs item (dir.child m).toPathname (dir.parts ++ [m]) =
      faults'.outcome gs item (dir'.child n).toPathname (dir'.parts ++ [n]) :=
    (Sweep.twin_start hitems).outcome_self halike hi
  rw [← houtcome] at hleaves' hresult'
  refine ⟨hleaves.twin hleaves' hitems, ?_⟩
  -- Nothing but a fault keeps something that is no directory from being taken away.
  have hhindrance : fs.hindrance (dir.child m).toPathname (dir.parts ++ [m]) = none := by
    have hempty : fs.children (dir.child m).parts = [] :=
      FileSystem.children_eq_nil_of_ne (by rw [hi]; simpa using hitem)
    change fs.children (dir.parts ++ [m]) = [] at hempty
    rw [FileSystem.hindrance, if_neg (by simp [hlong]), if_pos hempty]
  have hfault : faults.outcome fs item (dir.child m).toPathname (dir.parts ++ [m]) =
      .of (faults.unlink (dir.child m).toPathname) none := by
    rw [Faults.outcome, Call.removing_of_ne hitem, hhindrance]
    rfl
  rw [hresult, hresult', hfault]
  exact same_fileResult

theorem Removal.ofTree_twin (hheight : fs.height = gs.height)
    (hi : fs.item? (dir.child m).parts = some .directory)
    (hi' : gs.item? (dir'.child n).parts = some .directory)
    (hlong : (dir.child m).toPathname.isTooLong = false)
    (hlong' : (dir'.child n).toPathname.isTooLong = false) :
    (∀ r, (ofTree faults fs (dir.child m).toPathname).files.item? ((dir.child m).parts ++ r) =
        (ofTree faults' gs (dir'.child n).toPathname).files.item? ((dir'.child n).parts ++ r)) ∧
      Same faults ordered (dir.child m) (dir'.child n)
        (ofTree faults fs (dir.child m).toPathname).result
        (ofTree faults' gs (dir'.child n).toPathname).result := by
  have ha : dir.anchor ≠ .relative := halike.anchor
  have hb : dir'.anchor ≠ .relative := halike.anchor'
  obtain ⟨hleaves, hresult⟩ := ofTree_entry ha hlong faults hi
  obtain ⟨hleaves', hresult'⟩ := ofTree_entry hb hlong' faults' hi'
  have htwin : Sweep.Twin ordered fs gs (dir.child m) (dir'.child n)
      (Sweep.below faults (fs.height + 1) ((dir.child m).below []).toPathname (.start fs))
      (Sweep.below faults' (fs.height + 1) ((dir'.child n).below []).toPathname (.start gs)) :=
    Sweep.twin_below halike (Sweep.twin_start hitems) (by rw [List.append_nil]; exact hi)
  rw [Path.below_nil, Path.below_nil] at htwin
  rw [← hheight] at hleaves' hresult'
  have hstill : (Sweep.below faults (fs.height + 1) (dir.child m).toPathname
      (.start fs)).files.item? (dir.child m).parts = some .directory :=
    (Sweep.below_keeps (a := dir.child m) ha faults _ hi (Nat.le_refl _)).trans hi
  generalize Sweep.below faults (fs.height + 1) (dir.child m).toPathname (.start fs) = s at *
  generalize Sweep.below faults' (fs.height + 1) (dir'.child n).toPathname (.start gs) = t at *
  have houtcome : s.fate faults dir (m, .directory) = t.fate faults' dir' (n, .directory) :=
    htwin.outcome_self halike hstill
  obtain ⟨xs, ys, hxs, hys, hperm, horder⟩ := htwin.failures
  rw [← houtcome] at hleaves' hresult'
  refine ⟨hleaves.twin hleaves' htwin.items, ?_⟩
  have hreport := Sweep.report_reported halike.below hxs .directory []
    (s.fate faults dir (m, .directory)).errno
  have hreport' := Sweep.report_reported halike.below' hys .directory []
    (s.fate faults dir (m, .directory)).errno
  rw [Path.below_nil] at hreport hreport'
  rw [hresult, hresult', hreport, hreport', hxs, hys, ← List.map_append, ← List.map_append,
    Sweep.reportAt_perm hperm]
  exact same_treeResult (hperm.append_right _) fun hordered => by rw [horder hordered]

theorem removeAt_twin (hm : isStep m = false) (hn : isStep n = false)
    (hdir : fs.item? dir.parts = some .directory)
    (hdir' : gs.item? dir'.parts = some .directory) (hheight : fs.height = gs.height) :
    (∀ r, (removeAt faults fs (dir.child m).toPathname).files.item? ((dir.child m).parts ++ r) =
        (removeAt faults' gs (dir'.child n).toPathname).files.item? ((dir'.child n).parts ++ r)) ∧
      Removal.Same faults ordered (dir.child m) (dir'.child n)
        (removeAt faults fs (dir.child m).toPathname).result
        (removeAt faults' gs (dir'.child n).toPathname).result := by
  have ha : dir.anchor ≠ .relative := halike.anchor
  have hb : dir'.anchor ≠ .relative := halike.anchor'
  have hself : fs.item? (dir.child m).parts = gs.item? (dir'.child n).parts := by
    simpa using hitems []
  cases hi : fs.item? (dir.child m).parts with
  | none =>
      rw [hi] at hself
      rw [removeAt_missing ha faults hdir hm hi, removeAt_missing hb faults' hdir' hn hself.symm]
      exact ⟨hitems, .done⟩
  | some item =>
      rw [hi] at hself
      have hlength := halike.long [] (by rw [List.append_nil, hi]; rfl)
      rw [Path.below_nil, Path.below_nil] at hlength
      rw [removeAt_entry ha faults hi, removeAt_entry hb faults' hself.symm, ← hlength]
      split_ifs with hlong hitem
      · exact ⟨hitems, .done⟩
      · subst hitem
        rw [Bool.not_eq_true] at hlong
        exact Removal.ofTree_twin halike hitems hheight hi hself.symm hlong (hlength ▸ hlong)
      · rw [Bool.not_eq_true] at hlong
        exact Removal.ofFile_twin halike hitems hi hself.symm hitem hlong (hlength ▸ hlong)

end

end ArtifactCache
