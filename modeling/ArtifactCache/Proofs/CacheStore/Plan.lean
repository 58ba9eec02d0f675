import ArtifactCache.Proofs.CacheStore.Disposal
import ArtifactCache.Proofs.FileSystem.Moving
import ArtifactCache.Proofs.FileSystem.WorkingDirectory

namespace ArtifactCache.CacheStore

variable {faults : Faults} {fs : FileSystem} {serial : Nat} {s : CacheStore} {root : Path}
  {name : String} {P l : Location}

theorem length_lt_of_isTrashName (h : isTrashName root name = true) :
    root.name.toList.length + 7 < name.toList.length := by
  rw [isTrashName, List.isPrefixOf_iff_prefix] at h
  have := h.length_le
  simp only [trashStem, String.toList_append, List.length_append] at this
  have hdot : ".".toList.length = 1 := rfl
  have htrash : ".trash-".toList.length = 7 := rfl
  omega

theorem isStep_of_isTrashName (h : isTrashName root name = true) : isStep name = false := by
  have := length_lt_of_isTrashName h
  rw [← Bool.not_eq_true]
  simp only [isStep, Bool.or_eq_true, beq_iff_eq]
  rintro ((rfl | rfl) | rfl)
  · have : "".toList.length = 0 := rfl
    omega
  · have : ".".toList.length = 1 := rfl
    omega
  · have : "..".toList.length = 2 := rfl
    omega

theorem ne_name_of_isTrashName (h : isTrashName root name = true) : name ≠ root.name := by
  rintro rfl
  have := length_lt_of_isTrashName h
  omega

theorem isTrashName_trashName (root : Path) (serial : Nat) :
    isTrashName root (trashName root serial) = true := by
  rw [isTrashName, List.isPrefixOf_iff_prefix, trashName, String.toList_append]
  exact List.prefix_append ..

def place (s : CacheStore) (fs : FileSystem) : Path := s.root.absolute fs.here

def beside (s : CacheStore) (fs : FileSystem) : Pathname := (s.place fs).parent.toPathname

/-- A relative root has a place: the working directory has not been removed. -/
def Anchored (s : CacheStore) (fs : FileSystem) : Prop :=
  s.root.anchor = .relative → fs.item? fs.here = some .directory

instance (s : CacheStore) (fs : FileSystem) : Decidable (s.Anchored fs) :=
  inferInstanceAs (Decidable (_ → _))

theorem anchored_iff : s.Anchored fs ↔
    ¬ (s.root.anchor = .relative ∧ fs.workingDirectory? = none) := by
  rw [FileSystem.workingDirectory?_eq_none_iff, not_and, not_not]
  rfl

theorem absolute?_eq_ok_iff {p : Path} :
    fs.absolute? s.root = .ok p ↔ s.Anchored fs ∧ s.place fs = p := by
  rw [FileSystem.absolute?, anchored_iff]
  split_ifs with h <;> simp [h, place]

theorem absolute?_of_not_anchored (h : ¬ s.Anchored fs) :
    fs.absolute? s.root = .error .noEntry := by
  rw [anchored_iff, not_not] at h
  rw [FileSystem.absolute?, if_pos h]

theorem wipe_of_not_anchored (h : ¬ s.Anchored fs) (faults : Faults) (serial : Nat) :
    s.wipe faults fs serial =
      ⟨fs, [], [], serial, .error (.removal (.call (.failed ⟨.noEntry, []⟩)))⟩ := by
  rw [wipe, absolute?_of_not_anchored h]

theorem anchored_of_result (h : (s.wipe faults fs serial).result ≠
    .error (.removal (.call (.failed ⟨.noEntry, []⟩)))) : s.Anchored fs := by
  by_contra hnot
  exact h (by rw [wipe_of_not_anchored hnot])

theorem wipe_of_anchored (h : s.Anchored fs) (faults : Faults) (serial : Nat) :
    s.wipe faults fs serial =
      match leftovers fs (s.place fs) with
      | .ok old => wipeWith faults fs serial s (s.place fs) old
      | .error f => ⟨fs, [], [], serial, .error (.removal (.call (.failed f)))⟩ := by
  have hplace : fs.absolute? s.root = .ok (s.place fs) := absolute?_eq_ok_iff.2 ⟨h, rfl⟩
  cases hleft : leftovers fs (s.place fs) <;> simp only [wipe, hplace, hleft]

/-- The root is given by a path in normal form, has a place, and lies below the top directory. -/
structure Placed (s : CacheStore) (fs : FileSystem) : Prop where
  anchored : s.Anchored fs
  normal : ∀ part ∈ s.root.parts, Path.isPart part = true
  below : (s.place fs).parts ≠ []

namespace Placed

theorem isStep_part (h : s.Placed fs) {part : String} (hpart : part ∈ (s.place fs).parts) :
    isStep part = false :=
  Path.isStep_absolute
    (fun hrelative n hn => FileSystem.isName_of_mem (by rw [h.anchored hrelative]; rfl) hn)
    h.normal hpart

theorem isStep_parent (h : s.Placed fs) :
    ∀ part ∈ (s.place fs).parent.parts, isStep part = false := fun _ hpart =>
  h.isStep_part ((List.dropLast_sublist _).subset hpart)

theorem anchor (s : CacheStore) (fs : FileSystem) : (s.place fs).parent.anchor ≠ .relative :=
  Path.anchor_absolute s.root fs.here

theorem isStep_name (h : s.Placed fs) : isStep (s.place fs).name = false := by
  refine h.isStep_part ?_
  rw [Path.name, List.getLast?_eq_some_getLast h.below, Option.getD_some]
  exact List.getLast_mem _

theorem name_ne (h : s.Placed fs) : (s.place fs).name ≠ "" := by
  intro hname
  have := h.isStep_name
  rw [hname] at this
  cases this

theorem notEmpty (s : CacheStore) (fs : FileSystem) : (s.beside fs).isEmpty = false :=
  Path.isEmpty_toPathname (anchor s fs)

theorem toPathname_child (h : s.Placed fs) (name : String) :
    ((s.place fs).parent.child name).toPathname = (s.beside fs).child name :=
  CacheStore.toPathname_child (anchor s fs) h.isStep_parent name

theorem toPathname_place (h : s.Placed fs) :
    (s.place fs).toPathname = (s.beside fs).child (s.place fs).name := by
  rw [← h.toPathname_child, Path.child_parent h.below]

theorem parts_place (h : s.Placed fs) :
    (s.place fs).parts = (s.place fs).parent.parts ++ [(s.place fs).name] :=
  congrArg Path.parts (Path.child_parent h.below).symm

theorem notTooLong_beside (h : s.Placed fs) (hlong : (s.place fs).toPathname.isTooLong = false) :
    (s.beside fs).isTooLong = false := by
  rw [h.toPathname_place] at hlong
  exact Pathname.notTooLong_of_child hlong

theorem isOccupied_place {gs : FileSystem} (h : s.Placed fs) (hP : gs.LeadsTo (s.beside fs) P)
    (hi : (gs.item? (P ++ [(s.place fs).name])).isSome)
    (hlong : (s.place fs).toPathname.isTooLong = false) :
    gs.isOccupied (s.place fs).toPathname = true := by
  rw [h.toPathname_place] at hlong ⊢
  exact hP.isOccupied_child h.isStep_name hi hlong

end Placed

structure Plan where
  steps : List Step
  start : FileSystem
  names : List String

def trashNames (fs : FileSystem) (root : Path) : List String :=
  match fs.list root.parent.toPathname with
  | .ok entries => (entries.map (·.1)).filter (isTrashName root)
  | .error _ => []

def aside (root : Path) (serial : Nat) : Call :=
  .rename root.toPathname (root.parent.child (trashName root (serial + 1))).toPathname

def finalName (root : Path) (serial : Nat) : Option Failure → String
  | none => trashName root (serial + 1)
  | some _ => root.name

def plan (faults : Faults) (fs : FileSystem) (serial : Nat) (s : CacheStore) : Plan :=
  let root := s.place fs
  if fs.isOccupied root.toPathname then
    let step := faults.perform fs (aside root serial)
    ⟨[step], step.files, trashNames fs root ++ [finalName root serial step.failure]⟩
  else ⟨[], fs, trashNames fs root⟩

def disposal (faults : Faults) (fs : FileSystem) (serial : Nat) (s : CacheStore) : Disposal :=
  let p := plan faults fs serial s
  dispose faults p.start (p.names.map (s.place fs).parent.child)

theorem leftovers_eq (fs : FileSystem) (root : Path) :
    leftovers fs root =
      match fs.isDirectory? root.parent.toPathname with
      | .error e => .error ⟨e, [root.parent.toPathname]⟩
      | .ok _ => .ok ((trashNames fs root).map root.parent.child) := by
  simp only [leftovers, trashNames]
  cases fs.isDirectory? root.parent.toPathname <;> cases fs.list root.parent.toPathname <;> rfl

theorem wipeWith_plan (h : s.Placed fs) (faults : Faults) (serial : Nat) :
    let w := wipeWith faults fs serial s (s.place fs)
      ((trashNames fs (s.place fs)).map (s.place fs).parent.child)
    w.files = (disposal faults fs serial s).files ∧
      w.steps = (plan faults fs serial s).steps ++ (disposal faults fs serial s).steps ∧
      w.result = disposalResult s.root (disposal faults fs serial s) := by
  have hroot : [s.place fs] = [(s.place fs).name].map (s.place fs).parent.child := by
    rw [List.map_singleton, Path.child_parent h.below]
  simp only [wipeWith, disposal, plan]
  cases hocc : fs.isOccupied (s.place fs).toPathname with
  | true =>
      simp only [if_true, if_neg h.name_ne, List.map_append, hroot]
      generalize hstep : faults.perform fs (aside (s.place fs) serial) = step
      obtain ⟨call, failure, files⟩ := step
      unfold aside at hstep
      rw [hstep]
      cases failure <;> exact ⟨rfl, rfl, rfl⟩
  | false =>
      simp only [Bool.false_eq_true, if_false]
      split_ifs with hold
      · rw [hold]
        exact ⟨rfl, rfl, rfl⟩
      · exact ⟨rfl, rfl, rfl⟩

theorem wipe_cases (h : s.Placed fs) (faults : Faults) (serial : Nat) :
    (∃ e, fs.isDirectory? (s.beside fs) = .error e ∧ s.wipe faults fs serial =
      ⟨fs, [], [], serial, .error (.removal (.call (.failed ⟨e, [s.beside fs]⟩)))⟩) ∨
    ((∃ b, fs.isDirectory? (s.beside fs) = .ok b) ∧
      (s.wipe faults fs serial).files = (disposal faults fs serial s).files ∧
      (s.wipe faults fs serial).steps =
        (plan faults fs serial s).steps ++ (disposal faults fs serial s).steps ∧
      (s.wipe faults fs serial).result = disposalResult s.root (disposal faults fs serial s)) := by
  have hwipe := wipe_of_anchored h.anchored faults serial
  have hleft := leftovers_eq fs (s.place fs)
  cases hb : fs.isDirectory? (s.place fs).parent.toPathname with
  | error e =>
      rw [hb] at hleft
      refine .inl ⟨e, hb, ?_⟩
      rw [hwipe, hleft]
      rfl
  | ok b =>
      rw [hb] at hleft
      refine .inr ⟨⟨b, hb⟩, ?_⟩
      rw [hwipe, hleft]
      exact wipeWith_plan h faults serial

theorem plan_traced (faults : Faults) (serial : Nat) :
    Traced faults fs (plan faults fs serial s).steps (plan faults fs serial s).start := by
  simp only [plan]
  split_ifs
  · exact .perform faults fs _
  · exact rfl

theorem mem_trashNames :
    name ∈ trashNames fs (s.place fs) ↔ ∃ P, fs.LeadsTo (s.beside fs) P ∧
      (fs.item? (P ++ [name])).isSome ∧ isTrashName (s.place fs) name = true := by
  unfold trashNames
  change name ∈ (match fs.list (s.beside fs) with
    | .ok entries => (entries.map fun e : String × Item => e.1).filter (isTrashName (s.place fs))
    | .error _ => []) ↔ _
  cases hl : fs.list (s.beside fs) with
  | error e =>
      simp only [List.not_mem_nil, false_iff]
      rintro ⟨P, hP, -⟩
      rw [hP.list] at hl
      cases hl
  | ok entries =>
      obtain ⟨P, hP, rfl⟩ := FileSystem.leadsTo_of_list hl
      simp only [List.mem_filter, List.mem_map, Prod.exists, exists_and_right, exists_eq_right,
        FileSystem.mem_entriesOf, ← Option.isSome_iff_exists]
      constructor
      · rintro ⟨hi, ht⟩; exact ⟨P, hP, hi, ht⟩
      · rintro ⟨Q, hQ, hi, ht⟩
        rw [hP.leadsOnlyTo Q hQ] at hi
        exact ⟨hi, ht⟩

theorem moved_of_aside (h : s.Placed fs) {gs : FileSystem}
    (hrun : (aside (s.place fs) serial).run fs = .ok gs) :
    ∃ P item, fs.LeadsTo (s.beside fs) P ∧ FileSystem.Moved (P ++ [(s.place fs).name])
        (P ++ [trashName (s.place fs) (serial + 1)]) item fs gs ∧
      ((s.beside fs).child (trashName (s.place fs) (serial + 1))).isTooLong = false := by
  have htrash := isTrashName_trashName (s.place fs) (serial + 1)
  have haside : aside (s.place fs) serial = .rename ((s.beside fs).child (s.place fs).name)
      ((s.beside fs).child (trashName (s.place fs) (serial + 1))) := by
    rw [aside, h.toPathname_child, h.toPathname_place]
  rw [haside] at hrun
  exact FileSystem.moved_of_rename (Placed.notEmpty s fs) h.isStep_name
    (isStep_of_isTrashName htrash) (ne_name_of_isTrashName htrash).symm hrun

-- Either the call that moves the root aside is not made, or it fails, or the root is moved.
theorem plan_cases (h : s.Placed fs) (faults : Faults) (serial : Nat) :
    (fs.isOccupied (s.place fs).toPathname = false ∧
      plan faults fs serial s = ⟨[], fs, trashNames fs (s.place fs)⟩) ∨
    (fs.isOccupied (s.place fs).toPathname = true ∧
      (faults.perform fs (aside (s.place fs) serial)).failure ≠ none ∧
      plan faults fs serial s = ⟨[faults.perform fs (aside (s.place fs) serial)], fs,
        trashNames fs (s.place fs) ++ [(s.place fs).name]⟩) ∨
    ((faults.perform fs (aside (s.place fs) serial)).failure = none ∧
      (∃ P item, fs.LeadsTo (s.beside fs) P ∧ FileSystem.Moved (P ++ [(s.place fs).name])
        (P ++ [trashName (s.place fs) (serial + 1)]) item fs
        (faults.perform fs (aside (s.place fs) serial)).files) ∧
      ((s.beside fs).child (trashName (s.place fs) (serial + 1))).isTooLong = false ∧
      plan faults fs serial s = ⟨[faults.perform fs (aside (s.place fs) serial)],
        (faults.perform fs (aside (s.place fs) serial)).files,
        trashNames fs (s.place fs) ++ [trashName (s.place fs) (serial + 1)]⟩) := by
  cases hocc : fs.isOccupied (s.place fs).toPathname with
  | false => exact .inl ⟨rfl, by simp only [plan, hocc, Bool.false_eq_true, if_false]⟩
  | true =>
      right
      have hplan : plan faults fs serial s =
          ⟨[faults.perform fs (aside (s.place fs) serial)],
            (faults.perform fs (aside (s.place fs) serial)).files,
            trashNames fs (s.place fs) ++ [finalName (s.place fs) serial
              (faults.perform fs (aside (s.place fs) serial)).failure]⟩ := by
        simp only [plan, hocc, if_true]
      rw [hplan]
      cases hf : (faults.perform fs (aside (s.place fs) serial)).failure with
      | some f =>
          have hsame : (faults.perform fs (aside (s.place fs) serial)).files = fs :=
            Faults.perform_rename hf
          rw [hsame]
          exact .inl ⟨rfl, by simp, rfl⟩
      | none =>
          obtain ⟨P, item, hP, hmoved, hshort⟩ := moved_of_aside h (Faults.perform_ok hf)
          exact .inr ⟨rfl, ⟨P, item, hP, hmoved⟩, hshort, rfl⟩

end ArtifactCache.CacheStore
