import ArtifactCache.Proofs.Removal.Target

namespace ArtifactCache

variable {fs gs : FileSystem} {a : Path} {item : Item} {name : String} {level : Nat}
  {region : Location → Prop} {es : List (String × Item)}

structure Attainable (fs : FileSystem) (a : Path) (level : Nat) : Prop where
  short : ∀ r, (fs.item? (a.parts ++ r)).isSome → (a.below r).toPathname.isTooLong = false
  shallow : ∀ l, (fs.item? l).isSome → l.length < a.parts.length + level

namespace Attainable

theorem thinned (h : Attainable fs a level) (hthin : FileSystem.Thinned region fs gs) :
    Attainable gs a level := by
  have hsome : ∀ l, (gs.item? l).isSome → (fs.item? l).isSome := by
    intro l hl
    obtain ⟨item, hitem⟩ := Option.isSome_iff_exists.1 hl
    rw [hthin.eq_some hitem]
    rfl
  exact ⟨fun r hr => h.short r (hsome _ hr), fun l hl => h.shallow l (hsome l hl)⟩

theorem child (h : Attainable fs a (level + 1)) (name : String) :
    Attainable fs (a.child name) level := by
  refine ⟨fun r hr => ?_, fun l hl => ?_⟩
  · have hshort := h.short (name :: r) (by simpa [Path.child] using hr)
    simpa [Path.child_eq_below] using hshort
  · have hshallow := h.shallow l hl
    simp only [Path.child, List.length_append, List.length_singleton]
    omega

theorem itself (h : Attainable fs a level) (hdir : fs.item? a.parts = some .directory) :
    a.toPathname.isTooLong = false := by
  have hshort := h.short [] (by rw [List.append_nil, hdir]; rfl)
  rwa [Path.below_nil] at hshort

end Attainable

theorem attainable_height (h : ∀ r, (fs.item? (a.parts ++ r)).isSome →
    (a.below r).toPathname.isTooLong = false) : Attainable fs a (fs.height + 1) := by
  refine ⟨h, fun l hl => ?_⟩
  rcases eq_or_ne l [] with rfl | hne
  · simp only [List.length_nil]; omega
  · have := FileSystem.length_le_height (FileSystem.mem_entries_iff.2 ⟨hne, hl⟩)
    omega

theorem Faults.refusedListing_never {p : Pathname} (hlong : p.isTooLong = false) :
    Faults.never.refusedListing p = none := by
  simp [refusedListing, never, Outcome.of, hlong]

theorem Faults.outcome_never {p : Pathname} {l : Location} (hlong : p.isTooLong = false)
    (hempty : fs.children l = []) : Faults.never.outcome fs item p l = ⟨none, true⟩ := by
  cases item <;>
    simp [outcome, FileSystem.hindrance, hlong, hempty, never, Call.removing, Call.fault?,
      Outcome.of]

namespace Sweep

variable {s : Sweep} (ha : a.anchor ≠ .relative)

include ha

-- The induction is on the directories that have not had their turn; each is emptied in its turn,
-- and what is gone stays gone.
theorem foldl_emptied
    (hbelow : ∀ (n : String) (u : Sweep), u.files.item? (a.parts ++ [n]) = some .directory →
      Attainable u.files (a.child n) level → u.failures = [] →
        (below .never level (a.child n).toPathname u).failures = [] ∧
          ∀ r, r ≠ [] →
            (below .never level (a.child n).toPathname u).files.item? (a.parts ++ n :: r) = none)
    (hdirs : ∀ e ∈ es, s.files.item? (a.parts ++ [e.1]) = some .directory)
    (h : Attainable s.files a (level + 1)) (hclean : s.failures = []) :
    let t := es.foldl (fun s e => below .never level (a.child e.1).toPathname s) s
    t.failures = [] ∧ ∀ e ∈ es, ∀ r, r ≠ [] → t.files.item? (a.parts ++ e.1 :: r) = none := by
  induction es generalizing s with
  | nil => exact ⟨hclean, by simp⟩
  | cons e es ih =>
      have hfirst := hbelow e.1 s (hdirs e (by simp)) (h.child e.1) hclean
      have hthin := below_thinned (a := a.child e.1) ha .never level (hdirs e (by simp))
      have hrest : ∀ x ∈ es, (below .never level (a.child e.1).toPathname s).files.item?
          (a.parts ++ [x.1]) = some .directory := by
        intro x hx
        rw [below_keeps (a := a.child e.1) ha .never level (hdirs e (by simp))
          (by simp [Path.child])]
        exact hdirs x (by simp [hx])
      obtain ⟨hfailures, hgone⟩ := ih hrest (h.thinned hthin) hfirst.1
      refine ⟨hfailures, fun x hx r hr => ?_⟩
      rcases List.mem_cons.1 hx with rfl | hx
      · exact (foldl_below_thinned ha .never level hrest).eq_none (hfirst.2 r hr)
      · exact hgone x hx r hr

theorem deeper_never
    (hbelow : ∀ (n : String) (u : Sweep), u.files.item? (a.parts ++ [n]) = some .directory →
      Attainable u.files (a.child n) level → u.failures = [] →
        (below .never level (a.child n).toPathname u).failures = [] ∧
          ∀ r, r ≠ [] →
            (below .never level (a.child n).toPathname u).files.item? (a.parts ++ n :: r) = none)
    (h : Attainable s.files a (level + 1)) (hclean : s.failures = []) :
    (s.deeper .never level a).failures = [] ∧
      ∀ n, s.files.item? (a.parts ++ [n]) = some .directory → ∀ r, r ≠ [] →
        (s.deeper .never level a).files.item? (a.parts ++ n :: r) = none := by
  have hdirs : ∀ e ∈ (s.files.entriesOf a.parts).filter (fun e => e.2 == .directory),
      s.files.item? (a.parts ++ [e.1]) = some .directory := by
    intro e he
    obtain ⟨hmem, hkind⟩ := List.mem_filter.1 he
    rw [← beq_iff_eq.1 hkind]
    exact FileSystem.mem_entriesOf.1 hmem
  obtain ⟨hfailures, hempty⟩ := foldl_emptied ha hbelow hdirs h hclean
  refine ⟨hfailures, fun n hn => hempty (n, .directory) ?_⟩
  exact List.mem_filter.2 ⟨FileSystem.mem_entriesOf.2 hn, by simp⟩

theorem fate_never {e : String × Item} (h : Attainable s.files a (level + 1))
    (he : e ∈ inTurn s.files a)
    (hempty : ∀ n, s.files.item? (a.parts ++ [n]) = some .directory → ∀ r, r ≠ [] →
      (s.deeper .never level a).files.item? (a.parts ++ n :: r) = none) :
    (s.deeper .never level a).fate .never a e = ⟨none, true⟩ := by
  have hitem := FileSystem.mem_entriesOf.1 ((inTurn_perm s.files a).mem_iff.1 he)
  refine Faults.outcome_never (h.short [e.1] (by rw [hitem]; rfl)) ?_
  rw [List.eq_nil_iff_forall_not_mem]
  intro n hn
  have hi := FileSystem.mem_children.1 hn
  have hdir := (deeper_thinned ha .never level s).eq_some (FileSystem.item?_dir_of_isSome hi)
  rw [List.append_assoc, List.singleton_append, hempty e.1 hdir [n] (by simp)] at hi
  cases hi

omit ha in
theorem Dismissed.emptied {t u : Sweep} {faults : Faults}
    (h : Dismissed faults a (inTurn s.files a) u t)
    (hthin : FileSystem.Thinned region s.files u.files)
    (htakes : ∀ e ∈ inTurn s.files a, (u.fate faults a e).takes = true) :
    ∀ r, r ≠ [] → t.files.item? (a.parts ++ r) = none := by
  intro r hr
  obtain ⟨n, r, rfl⟩ := List.exists_cons_of_ne_nil hr
  rw [← Option.not_isSome_iff_eq_none]
  intro hi
  have habove : (t.files.item? (a.parts ++ [n])).isSome :=
    FileSystem.isSome_of_above hi ⟨r, by simp⟩
  obtain ⟨item, hitem⟩ := Option.isSome_iff_exists.1 habove
  obtain ⟨hbefore, hkept⟩ := (h.items _ _).1 hitem
  have hmem : (n, item) ∈ inTurn s.files a :=
    (inTurn_perm s.files a).mem_iff.2 (FileSystem.mem_entriesOf.2 (hthin.eq_some hbefore))
  have hstays := hkept _ hmem rfl
  rw [htakes _ hmem] at hstays
  cases hstays

theorem below_never (hdir : s.files.item? a.parts = some .directory)
    (h : Attainable s.files a level) (hclean : s.failures = []) :
    (below .never level a.toPathname s).failures = [] ∧
      ∀ r, r ≠ [] → (below .never level a.toPathname s).files.item? (a.parts ++ r) = none := by
  induction level generalizing a s with
  | zero =>
      have hshallow := h.shallow a.parts (by rw [hdir]; rfl)
      omega
  | succ level ih =>
      have hshort := h.itself hdir
      have hturns : Dismissed .never a (inTurn s.files a) (s.deeper .never level a)
          (below .never (level + 1) a.toPathname s) :=
        below_listed ha hshort hdir (Faults.refusedListing_never hshort)
      obtain ⟨hfailures, hempty⟩ : (s.deeper .never level a).failures = [] ∧
          ∀ n, s.files.item? (a.parts ++ [n]) = some .directory → ∀ r, r ≠ [] →
            (s.deeper .never level a).files.item? (a.parts ++ n :: r) = none := by
        refine deeper_never ha (fun n u hu hattain hclean' => ?_) h hclean
        obtain ⟨hnone, hgone⟩ := ih (a := a.child n) ha hu hattain hclean'
        refine ⟨hnone, fun r hr => ?_⟩
        rw [List.append_cons]
        exact hgone r hr
      have hfate : ∀ e ∈ inTurn s.files a,
          (s.deeper .never level a).fate .never a e = ⟨none, true⟩ := fun e he =>
        fate_never ha h he hempty
      refine ⟨?_, hturns.emptied (deeper_thinned ha .never level s) fun e he => by rw [hfate e he]⟩
      rw [hturns.failures, hfailures, List.nil_append, List.flatMap_eq_nil_iff]
      intro e he
      rw [hfate e he]
      rfl

end Sweep

theorem Removal.ofTree_never (ha : a.anchor ≠ .relative)
    (hi : fs.item? (a.parts ++ [name]) = some .directory)
    (h : Attainable fs (a.child name) (fs.height + 1)) :
    (ofTree .never fs (a.child name).toPathname).result = .ok () ∧
      (ofTree .never fs (a.child name).toPathname).files.item? (a.parts ++ [name]) = none := by
  have hlong := h.itself hi
  obtain ⟨hleaves, hresult⟩ := ofTree_entry ha hlong .never hi
  obtain ⟨hclean, hgone⟩ := Sweep.below_never (a := a.child name) (s := .start fs) ha hi h rfl
  have hempty : (Sweep.below .never (fs.height + 1) (a.child name).toPathname
      (.start fs)).files.children (a.parts ++ [name]) = [] := by
    rw [List.eq_nil_iff_forall_not_mem]
    intro n hn
    have hsome := FileSystem.mem_children.1 hn
    rw [show a.parts ++ [name] = (a.child name).parts from rfl, hgone [n] (by simp)] at hsome
    cases hsome
  rw [Sweep.fate, Faults.outcome_never hlong hempty] at hleaves hresult
  refine ⟨by rw [hresult, hclean]; rfl, ?_⟩
  rw [hleaves.items, if_pos rfl]

-- A directory that stays is not empty, and that is reported unless something else has been.
theorem Removal.gone_of_ofTree_ok (ha : a.anchor ≠ .relative)
    (hi : fs.item? (a.parts ++ [name]) = some .directory)
    (hlong : (a.child name).toPathname.isTooLong = false)
    (hok : (ofTree .never fs (a.child name).toPathname).result = .ok ()) :
    (ofTree .never fs (a.child name).toPathname).files.item? (a.parts ++ [name]) = none := by
  obtain ⟨hleaves, hresult⟩ := ofTree_entry ha hlong .never hi
  generalize Sweep.below .never (fs.height + 1) (a.child name).toPathname (.start fs) = s
    at hleaves hresult
  rw [hok, eq_comm, treeResult_eq_ok_iff, List.append_eq_nil_iff] at hresult
  obtain ⟨hclean, hreport⟩ := hresult
  rw [Sweep.fate, Faults.outcome] at hleaves hreport
  cases hempty : s.files.children (a.parts ++ [name]) with
  | nil =>
      simp only [FileSystem.hindrance, hlong, hempty] at hleaves
      rw [hleaves.items, if_pos rfl]
  | cons n names =>
      simp [FileSystem.hindrance, hlong, hempty, Outcome.of, Call.removing, Call.fault?,
        Faults.never, Sweep.report, Sweep.hasFailedWithin, hclean, Errno.notEmpty, Errno.noEntry]
        at hreport

theorem Removal.ofFile_never (ha : a.anchor ≠ .relative)
    (hi : fs.item? (a.parts ++ [name]) = some item) (hitem : item ≠ .directory)
    (hlong : (a.child name).toPathname.isTooLong = false) :
    (ofFile .never fs (a.child name).toPathname).result = .ok () ∧
      (ofFile .never fs (a.child name).toPathname).files.item? (a.parts ++ [name]) = none := by
  obtain ⟨hleaves, hresult⟩ := ofFile_entry ha hlong .never hi hitem
  have hempty : fs.children (a.parts ++ [name]) = [] :=
    FileSystem.children_eq_nil_of_ne (by simpa [hi] using hitem)
  rw [Faults.outcome_never hlong hempty] at hleaves hresult
  refine ⟨hresult, ?_⟩
  rw [hleaves.items, if_pos rfl]

theorem removeAt_never (ha : a.anchor ≠ .relative) (hdir : fs.item? a.parts = some .directory)
    (hn : isStep name = false)
    (hshort : ∀ r, (fs.item? (a.parts ++ name :: r)).isSome →
      (a.below (name :: r)).toPathname.isTooLong = false) :
    (removeAt .never fs (a.child name).toPathname).result = .ok () ∧
      (removeAt .never fs (a.child name).toPathname).files.item? (a.parts ++ [name]) = none := by
  cases hi : fs.item? (a.parts ++ [name]) with
  | none =>
      rw [removeAt_missing ha .never hdir hn hi]
      exact ⟨rfl, hi⟩
  | some item =>
      have hlong : (a.child name).toPathname.isTooLong = false := hshort [] (by rw [hi]; rfl)
      rw [removeAt_entry ha .never hi, hlong, if_neg Bool.false_ne_true]
      split_ifs with hitem
      · refine Removal.ofTree_never ha (hitem ▸ hi) (attainable_height fun r hr => ?_)
        have hbelow := hshort r (by simpa [Path.child] using hr)
        simpa [Path.child_eq_below] using hbelow
      · exact Removal.ofFile_never ha hi hitem hlong

theorem removeAt_never_cases (ha : a.anchor ≠ .relative)
    (hdir : fs.item? a.parts = some .directory) (hn : isStep name = false) :
    ((removeAt .never fs (a.child name).toPathname).result = .ok () ∧
        ((a.child name).toPathname.isTooLong = false →
          (removeAt .never fs (a.child name).toPathname).files.item? (a.parts ++ [name]) = none)) ∨
      ∃ e, (removeAt .never fs (a.child name).toPathname).result = .error (.incomplete e) := by
  cases hi : fs.item? (a.parts ++ [name]) with
  | none =>
      rw [removeAt_missing ha .never hdir hn hi]
      exact .inl ⟨rfl, fun _ => hi⟩
  | some item =>
      rw [removeAt_entry ha .never hi]
      cases hlong : (a.child name).toPathname.isTooLong with
      | true => exact .inl ⟨rfl, fun hshort => by cases hshort⟩
      | false =>
          rw [if_neg Bool.false_ne_true]
          split_ifs with hitem
          · rcases Removal.ofTree_result .never fs (a.child name).toPathname with
              ⟨hok, -⟩ | ⟨e, he, -⟩
            · exact .inl ⟨hok, fun _ => Removal.gone_of_ofTree_ok ha (hitem ▸ hi) hlong hok⟩
            · exact .inr ⟨e, he⟩
          · obtain ⟨hok, hgone⟩ := Removal.ofFile_never ha hi hitem hlong
            exact .inl ⟨hok, fun _ => hgone⟩

end ArtifactCache
