import ArtifactCache.Proofs.Removal.Level

namespace ArtifactCache

variable {faults : Faults} {fs : FileSystem} {a : Path} {item : Item} {name : String}

section

variable (ha : a.anchor ≠ .relative)

include ha

theorem FileSystem.isOccupied_entry (hi : (fs.item? (a.parts ++ [name])).isSome) :
    fs.isOccupied (a.child name).toPathname = !(a.child name).toPathname.isTooLong := by
  cases hlong : (a.child name).toPathname.isTooLong with
  | true => exact unoccupied_of_isTooLong hlong
  | false =>
      have hn := isStep_eq_false_of_isName (isName_of_isSome hi)
      have hshort := notTooLong_of_entry ha hi hlong
      rw [toPathname_entry ha hi] at hlong ⊢
      exact (leadsTo_of_item? ha (item?_dir_of_isSome hi) hshort).isOccupied_child hn hi hlong

theorem FileSystem.isDirectory_entry (hi : fs.item? (a.parts ++ [name]) = some item)
    (hlink : ∀ t, item ≠ .link t) (hlong : (a.child name).toPathname.isTooLong = false) :
    fs.isDirectory (a.child name).toPathname = decide (item = .directory) := by
  have hsome : (fs.item? (a.parts ++ [name])).isSome := by rw [hi]; rfl
  have hn := isStep_eq_false_of_isName (isName_of_isSome hsome)
  rw [Bool.eq_iff_iff, decide_eq_true_eq]
  constructor
  · intro hdir
    obtain ⟨l, hl, hitem⟩ := isDirectory_iff.1 hdir
    have honly := leadsOnlyTo_of_item? ha (item?_dir_of_isSome hsome)
    have hchild := honly.child (Path.isEmpty_toPathname ha) hn fun t ht => by
      rw [hi] at ht
      exact hlink t (Option.some.inj ht)
    rw [← toPathname_entry ha hsome] at hchild
    obtain rfl := hchild l ⟨hl, hitem⟩
    rw [hi] at hitem
    exact Option.some.inj hitem
  · rintro rfl
    obtain ⟨hresolve, hdir⟩ := leadsTo_of_item? (a := a.child name) ha hi hlong
    rw [isDirectory, hresolve, itemAt, hdir]
    rfl

theorem removeAt_entry (faults : Faults) (hi : fs.item? (a.parts ++ [name]) = some item) :
    removeAt faults fs (a.child name).toPathname =
      if (a.child name).toPathname.isTooLong then .nothing fs
      else if item = .directory then .ofTree faults fs (a.child name).toPathname
      else .ofFile faults fs (a.child name).toPathname := by
  have hsome : (fs.item? (a.parts ++ [name])).isSome := by rw [hi]; rfl
  have hocc := FileSystem.isOccupied_entry ha hsome
  cases hlong : (a.child name).toPathname.isTooLong with
  | true => exact removeAt_unoccupied faults (FileSystem.unoccupied_of_isTooLong hlong)
  | false =>
      have hlink := FileSystem.isLink_entry ha hi
      rw [hlong] at hocc
      cases item with
      | link target => simp [removeAt, hlink.2 ⟨⟨target, rfl⟩, hlong⟩]
      | directory =>
          have hno : fs.isLink (a.child name).toPathname = false := by
            rw [← Bool.not_eq_true, hlink]; simp
          simp [removeAt, hno, hocc, FileSystem.isDirectory_entry ha hi (by simp) hlong]
      | file content =>
          have hno : fs.isLink (a.child name).toPathname = false := by
            rw [← Bool.not_eq_true, hlink]; simp
          simp [removeAt, hno, hocc, FileSystem.isDirectory_entry ha hi (by simp) hlong]

theorem removeAt_missing (faults : Faults) (hdir : fs.item? a.parts = some .directory)
    (hn : isStep name = false) (hi : fs.item? (a.parts ++ [name]) = none) :
    removeAt faults fs (a.child name).toPathname = .nothing fs := by
  have hparts := FileSystem.ne_empty_of_isSome (l := a.parts) (by rw [hdir]; rfl)
  refine removeAt_unoccupied faults ?_
  rw [Path.toPathname_child ha hparts, ← Bool.not_eq_true]
  intro hocc
  obtain ⟨d, hd, hsome⟩ := FileSystem.leadsTo_of_isOccupied (Path.isEmpty_toPathname ha) hn hocc
  rw [FileSystem.leadsOnlyTo_of_item? ha hdir d hd, hi] at hsome
  cases hsome

theorem removeAt_thinned (faults : Faults) (hdir : fs.item? a.parts = some .directory)
    (hn : isStep name = false) :
    FileSystem.Thinned (a.parts ++ [name] <+: ·) fs
      (removeAt faults fs (a.child name).toPathname).files := by
  have honly := FileSystem.leadsOnlyTo_of_item? ha hdir
  have hparts := FileSystem.ne_empty_of_isSome (l := a.parts) (by rw [hdir]; rfl)
  rw [Path.toPathname_child ha hparts]
  have hclear := removeAt_clearing (Path.isEmpty_toPathname ha) hn faults honly
  exact hclear.thinned.mono fun _ hl => hl.2

end

namespace Removal

def fileResult (p : Pathname) : Option Errno → Except RemovalError Unit
  | none => .ok ()
  | some e => if e = .noEntry then .ok () else .error (.call (.failed ⟨e, [p]⟩))

def treeResult (p : Pathname) : List (Pathname × Failure) → Except RemovalError Unit
  | [] => .ok ()
  | f :: fs => .error (.incomplete ⟨p, (f :: fs).map (·.1), some f.2⟩)

theorem treeResult_eq_ok_iff {p : Pathname} {failures : List (Pathname × Failure)} :
    treeResult p failures = .ok () ↔ failures = [] := by
  cases failures <;> simp [treeResult]

variable (ha : a.anchor ≠ .relative) (hlong : (a.child name).toPathname.isTooLong = false)

include ha hlong

theorem ofFile_entry (faults : Faults) (hi : fs.item? (a.parts ++ [name]) = some item)
    (hitem : item ≠ .directory) :
    let o := faults.outcome fs item (a.child name).toPathname (a.parts ++ [name])
    o.Leaves (a.parts ++ [name]) fs (ofFile faults fs (a.child name).toPathname).files ∧
      (ofFile faults fs (a.child name).toPathname).result =
        fileResult (a.child name).toPathname o.errno := by
  have hsome : (fs.item? (a.parts ++ [name])).isSome := by rw [hi]; rfl
  have hocc : fs.isOccupied (a.child name).toPathname = true := by
    rw [FileSystem.isOccupied_entry ha hsome, hlong]; rfl
  have hnul := FileSystem.hasNul_of_isOccupied hocc
  have hshort := FileSystem.notTooLong_of_entry ha hsome hlong
  have hlead := FileSystem.leadsTo_of_item? ha (FileSystem.item?_dir_of_isSome hsome) hshort
  have hperform := faults.perform_removing hlead hi
  rw [← FileSystem.toPathname_entry ha hsome, Call.removing_of_ne hitem] at hperform
  obtain ⟨hfailure, hleaves⟩ := hperform
  refine ⟨by rw [(ofFile_calls faults fs hnul).2]; exact hleaves, ?_⟩
  generalize faults.outcome fs item (a.child name).toPathname (a.parts ++ [name]) = o at hfailure ⊢
  cases he : o.errno with
  | none =>
      rw [he] at hfailure
      exact ofFile_ok hnul fun f hf => by rw [hfailure] at hf; cases hf
  | some e =>
      rw [he, Option.map_some] at hfailure
      by_cases hgone : e = .noEntry
      · rw [fileResult, if_pos hgone]
        refine ofFile_ok hnul fun f hf => ?_
        rw [hfailure] at hf
        simp [← Option.some.inj hf, Failure.isNoEntry, hgone]
      · rw [fileResult, if_neg hgone]
        exact ofFile_error hnul hfailure (by simp [Failure.isNoEntry, hgone])

theorem ofTree_entry (faults : Faults) (hi : fs.item? (a.parts ++ [name]) = some .directory) :
    let s := Sweep.below faults (fs.height + 1) (a.child name).toPathname (.start fs)
    let o := s.fate faults a (name, .directory)
    let r := ofTree faults fs (a.child name).toPathname
    o.Leaves (a.parts ++ [name]) s.files r.files ∧
      r.result = treeResult (a.child name).toPathname
        (s.failures ++ s.report .directory (a.child name).toPathname o.errno) := by
  have hsome : (fs.item? (a.parts ++ [name])).isSome := by rw [hi]; rfl
  have hshort := FileSystem.notTooLong_of_entry ha hsome hlong
  have hstill : (Sweep.below faults (fs.height + 1) (a.child name).toPathname
      (.start fs)).files.item? (a.parts ++ [name]) = some .directory :=
    (Sweep.below_keeps (a := a.child name) ha faults _ hi (Nat.le_refl _)).trans hi
  obtain ⟨hleaves, hfailures⟩ :=
    Sweep.dismiss_entry (e := (name, .directory)) ha hshort faults hstill
  refine ⟨hleaves, ?_⟩
  rw [← hfailures]
  change (match (Sweep.tree faults fs (a.child name).toPathname).failures with
    | [] => _
    | f :: _ => _) = treeResult _ (Sweep.tree faults fs (a.child name).toPathname).failures
  cases (Sweep.tree faults fs (a.child name).toPathname).failures <;> rfl

end Removal

end ArtifactCache
