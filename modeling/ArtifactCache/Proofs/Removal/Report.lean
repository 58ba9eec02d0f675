import Mathlib.Data.List.Nodup
import ArtifactCache.Proofs.Removal.Residue

namespace ArtifactCache

variable {faults : Faults} {fs : FileSystem} {p : Pathname} {d loc r : Location} {name : String}
  {v w : Visit} {before listed vs : List Visit} {steps : List Step} {item : Item}

namespace Visit

theorem Precedes.ne (h : v.Precedes w) : v ≠ w := by
  rintro rfl
  cases hkind : v.isListing with
  | true => exact h.listing hkind List.prefix_rfl
  | false => exact h.deletion hkind List.prefix_rfl

theorem isListing_of_isRmdir (h : v.isRmdir = true) : v.isListing = false := by
  cases v with
  | listing => cases h
  | deletion => rfl

theorem mem_newly_iff : w ∈ v.newly before ↔ w = v ∧ v.fails = true ∧
    (v.isRmdir = true → ∀ u ∈ before, ¬ v.place <+: u.place) := by
  unfold newly isReported
  split_ifs with h <;> grind

theorem map_report (h : ∀ v ∈ vs, v.fails = true) :
    (vs.filterMap (report p)).map (·.1) = vs.map fun v => p.under v.place := by
  induction vs with
  | nil => rfl
  | cons v vs ih =>
      obtain ⟨f, hf, -⟩ := exists_failure (h v (by simp))
      rw [List.filterMap_cons_some (b := (p.under v.place, f)) (by rw [report, hf]; rfl),
        List.map_cons, List.map_cons, ih fun w hw => h w (by simp [hw])]

-- Nothing that comes after the deletion of a directory lies within it, so it makes no difference
-- whether a visit is held against the earlier ones that are reported or against all of them.
theorem mem_reported_iff (horder : vs.Pairwise Precedes)
    (hbefore : ∀ w ∈ before, ∀ v ∈ vs, w.Precedes v) :
    v ∈ reported before vs ↔ v ∈ vs ∧ v.fails = true ∧
      (v.isRmdir = true → ∀ w ∈ before ++ reported before vs, w ≠ v → ¬ v.place <+: w.place) := by
  induction vs generalizing before with
  | nil => simp [reported]
  | cons u vs ih =>
      obtain ⟨hfirst, hrest⟩ := List.pairwise_cons.1 horder
      have hnext : ∀ w ∈ before ++ u.newly before, ∀ v ∈ vs, w.Precedes v := by
        intro w hw v hv
        rcases List.mem_append.1 hw with hw | hw
        · exact hbefore w hw v (by simp [hv])
        · rw [(mem_newly_iff.1 hw).1]
          exact hfirst v hv
      have hlater := ih hrest hnext
      rw [List.append_assoc] at hlater
      rw [reported, List.mem_append, hlater, mem_newly_iff, List.mem_cons]
      by_cases hvu : v = u
      · subst hvu
        have hv : v ∉ vs := fun hv => (hfirst v hv).ne rfl
        simp only [true_and, hv, false_and, or_false, and_congr_right_iff]
        intro hfails
        refine forall_congr' fun hrmdir => ⟨fun h w hw hne => ?_, fun h w hw => ?_⟩
        · rcases List.mem_append.1 hw with hw | hw
          · exact h w hw
          · rcases List.mem_append.1 hw with hw | hw
            · exact absurd (mem_newly_iff.1 hw).1 hne
            · exact (hfirst w ((reported_sublist _ vs).subset hw)).deletion
                (isListing_of_isRmdir hrmdir)
        · exact h w (List.mem_append_left _ hw) (hbefore w hw v (by simp)).ne
      · simp only [hvu, false_and, false_or]

end Visit

namespace Sweep

theorem reportable_of_mem (h : fs.LeadsTo p loc) (hp : p.lastPiece ≠ "")
    (hv : v ∈ treeVisits faults fs p) : Reportable p v :=
  ⟨isSpelled_of_mem h hv, fun _ => .inr hp⟩

theorem tree_failures (h : fs.LeadsTo p loc) (hp : p.lastPiece ≠ "") :
    (tree faults fs p).failures =
      (Visit.reported [] (treeVisits faults fs p)).filterMap (Visit.report p) := by
  have hnone : ∀ v ∈ ([] : List Visit), v.IsSpelled ∧ v.fails = true := by simp
  exact (tree_walks faults fs p).failures (fun _ => reportable_of_mem h hp) hnone rfl

section

variable (hm : p.Marks fs.here d name) (h : fs.LeadsTo p (d ++ [name]))

include hm h

theorem paths_of_failure (hv : v ∈ treeVisits faults fs p) {f : Failure} (hf : v.failure = some f) :
    f.paths = [p.under v.place] := by
  cases v with
  | listing r gs result =>
      cases result with
      | ok entries => cases hf
      | error e =>
          obtain rfl : e = f := Option.some.inj hf
          have hresult := result_of_listing hm h hv
          split at hresult
          · rw [Except.error.inj hresult]
            rfl
          · cases hresult
  | deletion r gs step =>
      obtain ⟨item, hitem, -⟩ := exists_item_of_mem h hv
      have hfailure := (deletion_outcome hm h hv hitem).1
      rw [show step.failure = some f from hf] at hfailure
      obtain ⟨e, -, rfl⟩ := Option.map_eq_some_iff.1 hfailure.symm
      rfl

omit hm h in
theorem mem_reported_tree : v ∈ Visit.reported [] (treeVisits faults fs p) ↔
    v ∈ treeVisits faults fs p ∧ v.fails = true ∧ (v.isRmdir = true →
      ∀ w ∈ Visit.reported [] (treeVisits faults fs p), w ≠ v → ¬ v.place <+: w.place) := by
  have hnone : ∀ w ∈ ([] : List Visit), ∀ v ∈ treeVisits faults fs p, w.Precedes v := by simp
  rw [Visit.mem_reported_iff (treeVisits_precede faults fs p) hnone, List.nil_append]

theorem isRmdir_of_directory (hv : v ∈ treeVisits faults fs p) (hdeletion : v.isListing = false)
    (hi : fs.item? (d ++ [name] ++ v.place) = some .directory) : v.isRmdir = true := by
  cases v with
  | listing => cases hdeletion
  | deletion r gs step =>
      rw [step_of_deletion hm h hv hi]
      simp [Visit.isRmdir, Call.removing]

theorem reported_places_nodup :
    ((Visit.reported [] (treeVisits faults fs p)).map Visit.place).Nodup := by
  have horder := treeVisits_precede faults fs p
  have hsublist := Visit.reported_sublist [] (treeVisits faults fs p)
  refine List.pairwise_map.2 (List.Pairwise.imp_of_mem ?_ (horder.sublist hsublist))
  intro v w hv hw hprecedes hplace
  cases hvkind : v.isListing with
  | false => exact hprecedes.deletion hvkind (hplace ▸ List.prefix_rfl)
  | true =>
      cases hwkind : w.isListing with
      | true => exact hprecedes.listing hwkind (hplace ▸ List.prefix_rfl)
      | false =>
          obtain ⟨item, hitem, hdir⟩ := exists_item_of_mem h (hsublist.subset hv)
          rw [hdir hvkind, hplace] at hitem
          have hrmdir := isRmdir_of_directory hm h (hsublist.subset hw) hwkind hitem
          obtain ⟨-, -, hexcused⟩ := mem_reported_tree.1 hw
          exact hexcused hrmdir v hv hprecedes.ne (hplace ▸ List.prefix_rfl)

end

end Sweep

namespace Removal

def walk (faults : Faults) (fs : FileSystem) (p : Pathname) : List Visit :=
  if p.isTooLong then [] else Sweep.treeVisits faults fs p

structure Walked (faults : Faults) (fs : FileSystem) (p : Pathname) (walk : List Visit)
    (steps : List Step) : Prop where
  steps : steps = walk.filterMap Visit.step?
  order : walk.Pairwise Visit.Precedes
  places : ∀ v ∈ walk, (fs.item? (fs.placeOf p ++ v.place)).isSome
  listed : ∀ r, (∃ gs result, .listing r gs result ∈ walk) ↔
    p.isTooLong = false ∧ fs.item? (fs.placeOf p ++ r) = some .directory ∧ faults.Reach p r
  deleted : ∀ r item, fs.item? (fs.placeOf p ++ r) = some item →
    ((∃ gs step, .deletion r gs step ∈ walk) ↔ p.isTooLong = false ∧ faults.Reach p r)
  calls : ∀ r gs step item, .deletion r gs step ∈ walk →
    fs.item? (fs.placeOf p ++ r) = some item → step.call = .removing item (p.under r)
  paths : ∀ v ∈ walk, ∀ f, v.failure = some f → f.paths = [p.under v.place]

structure Reports (p : Pathname) (walk listed : List Visit) (result : Except RemovalError Unit) :
    Prop where
  order : listed.Sublist walk
  mem_iff : ∀ v, v ∈ listed ↔ v ∈ walk ∧ v.fails = true ∧
    (v.isRmdir = true → ∀ w ∈ listed, w ≠ v → ¬ v.place <+: w.place)
  nodup : (listed.map fun v => p.under v.place).Nodup
  result : result = match listed with
    | [] => .ok ()
    | v :: vs =>
        .error (.incomplete ⟨p, (v :: vs).map fun v => p.under v.place, v.failure⟩)

section

variable (hm : p.Marks fs.here d name) (h : fs.LeadsTo p (d ++ [name]))

include hm h

theorem tree_walked (hplace : fs.placeOf p = d ++ [name]) :
    Walked faults fs p (Sweep.treeVisits faults fs p) (ofTree faults fs p).steps where
  steps := (Sweep.tree_walks faults fs p).steps
  order := Sweep.treeVisits_precede faults fs p
  places v hv := by
    obtain ⟨item, hitem, -⟩ := Sweep.exists_item_of_mem h hv
    rw [hplace, hitem]
    rfl
  listed r := by
    rw [hplace]
    constructor
    · rintro ⟨gs, result, hv⟩
      obtain ⟨item, hitem, hdir⟩ := Sweep.exists_item_of_mem h hv
      obtain rfl := hdir rfl
      exact ⟨h.notTooLong, hitem, Sweep.reach_of_mem hm h hv⟩
    · rintro ⟨-, hi, hreach⟩
      exact Sweep.exists_listing_of_reach hm h hi hreach
  deleted r item hi := by
    rw [hplace] at hi
    constructor
    · rintro ⟨gs, step, hv⟩
      exact ⟨h.notTooLong, Sweep.reach_of_mem hm h hv⟩
    · rintro ⟨-, hreach⟩
      exact Sweep.exists_deletion_of_reach hm h hi hreach
  calls r gs step item hv hi := by
    rw [hplace] at hi
    rw [Sweep.step_of_deletion hm h hv hi, Faults.perform_call]
  paths v hv f hf := Sweep.paths_of_failure hm h hv hf

theorem tree_reports (hp : p.lastPiece ≠ "") :
    Reports p (Sweep.treeVisits faults fs p)
      (Visit.reported [] (Sweep.treeVisits faults fs p)) (ofTree faults fs p).result where
  order := Visit.reported_sublist [] _
  mem_iff _ := Sweep.mem_reported_tree
  nodup := by
    have hplaces : ((Visit.reported [] (Sweep.treeVisits faults fs p)).map Visit.place).Nodup :=
      Sweep.reported_places_nodup hm h
    have hpaths : (fun v : Visit => p.under v.place) = p.under ∘ Visit.place := rfl
    rw [hpaths, ← List.map_map]
    refine List.Nodup.map_on (fun q hq r hr heq => ?_) hplaces
    obtain ⟨v, hv, rfl⟩ := List.mem_map.1 hq
    obtain ⟨w, hw, rfl⟩ := List.mem_map.1 hr
    exact Pathname.under_injective
      (Sweep.isSpelled_of_mem h ((Visit.reported_sublist [] _).subset hv))
      (Sweep.isSpelled_of_mem h ((Visit.reported_sublist [] _).subset hw)) heq
  result := by
    have hfailures : (Sweep.tree faults fs p).failures = _ := Sweep.tree_failures h hp
    have hfails : ∀ v ∈ Visit.reported [] (Sweep.treeVisits faults fs p), v.fails = true :=
      fun v hv => (Sweep.mem_reported_tree.1 hv).2.1
    simp only [ofTree, hfailures, Visit.map_report hfails]
    cases hlisted : Visit.reported [] (Sweep.treeVisits faults fs p) with
    | nil => rfl
    | cons v vs =>
        obtain ⟨f, hf, -⟩ := Visit.exists_failure (hfails v (by simp [hlisted]))
        have hreport : Visit.report p v = some (p.under v.place, f) := by
          rw [Visit.report, hf]
          rfl
        simp only [List.filterMap_cons_some hreport, hf]

end

end Removal

theorem removeAt_reports (faults : Faults) (hp : p.IsPlain)
    (hroot : fs.item? (fs.placeOf p) = some .directory) :
    Removal.Walked faults fs p (Removal.walk faults fs p) (removeAt faults fs p).steps ∧
      ∃ listed, Removal.Reports p (Removal.walk faults fs p) listed
        (removeAt faults fs p).result := by
  have hmarks := FileSystem.marks_of_isPlain fs hp
  rw [removeAt_of_isPlain faults hp hroot, Removal.walk]
  cases hlong : p.isTooLong with
  | true =>
      refine ⟨⟨rfl, .nil, by simp, ?_, ?_, by simp, by simp⟩, [], .refl [], by simp, .nil, rfl⟩
      · simp [hlong]
      · simp [hlong]
  | false =>
      rw [FileSystem.placeOf_eq hp] at hroot
      have hlead := hmarks.leadsTo rfl hroot hlong
      exact ⟨Removal.tree_walked hmarks hlead (FileSystem.placeOf_eq hp), _,
        Removal.tree_reports hmarks hlead hp.last⟩

def refusing : Faults :=
  { Faults.never with
    unlink := fun p => if p = ⟨["d", "kept"]⟩ then some (.deny ⟨13⟩) else none
    list := fun p => if p = ⟨["d", "shut"]⟩ then some (.deny ⟨13⟩) else none }

theorem heldFiles_reported :
    (removeAt refusing heldFiles ⟨["d"]⟩).result = .error (.incomplete
      ⟨⟨["d"]⟩, [⟨["d", "shut"]⟩, ⟨["d", "kept"]⟩], some ⟨⟨13⟩, [⟨["d", "shut"]⟩]⟩⟩) ∧
    ∃ listed, Removal.Reports ⟨["d"]⟩ (Removal.walk refusing heldFiles ⟨["d"]⟩) listed
      (removeAt refusing heldFiles ⟨["d"]⟩).result ∧ listed ≠ [] := by
  have hresult : (removeAt refusing heldFiles ⟨["d"]⟩).result = .error (.incomplete
      ⟨⟨["d"]⟩, [⟨["d", "shut"]⟩, ⟨["d", "kept"]⟩], some ⟨⟨13⟩, [⟨["d", "shut"]⟩]⟩⟩) := by
    decide +kernel
  have hroot : heldFiles.item? (heldFiles.placeOf ⟨["d"]⟩) = some .directory := by decide +kernel
  obtain ⟨-, listed, hreports⟩ := removeAt_reports refusing ⟨by decide, by decide⟩ hroot
  refine ⟨hresult, listed, hreports, ?_⟩
  rintro rfl
  rw [hreports.result] at hresult
  cases hresult

end ArtifactCache
