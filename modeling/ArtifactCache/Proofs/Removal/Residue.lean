import ArtifactCache.Proofs.FileSystem.Moving
import ArtifactCache.Proofs.Removal.Reach

namespace ArtifactCache

variable {faults : Faults} {fs gs : FileSystem} {p : Pathname} {d l q r : Location}
  {name n : String} {item : Item}

namespace Faults

def Bars (faults : Faults) (item : Item) (p : Pathname) : Prop :=
  p.isTooLong = true ∨ ∃ e, (Call.removing item p).fault? faults = some (.deny e)

def Hides (faults : Faults) (p : Pathname) : Prop := p.isTooLong = true ∨ faults.list p ≠ none

theorem hides_iff : faults.Hides p ↔ faults.refusedListing p ≠ none := by
  unfold Hides refusedListing
  rcases faults.list p with _ | ⟨e⟩ | _ <;> cases p.isTooLong <;> simp [Outcome.of]

theorem not_reach_iff : ¬ faults.Reach p r ↔ ∃ q, q <+: r ∧ q ≠ r ∧ faults.Hides (p.under q) := by
  simp only [Reach, hides_iff, not_forall]
  grind

theorem takes_iff :
    (faults.outcome fs item p l).takes = true ↔ ¬ faults.Bars item p ∧ fs.children l = [] := by
  unfold outcome Bars FileSystem.hindrance
  rcases (Call.removing item p).fault? faults with _ | ⟨e⟩ | _ <;> cases p.isTooLong <;>
    by_cases hempty : fs.children l = [] <;> simp [Outcome.of, hempty]

end Faults

namespace FileSystem

theorem children_ne_nil_iff : fs.children l ≠ [] ↔ ∃ n, (fs.item? (l ++ [n])).isSome := by
  simp only [ne_eq, List.eq_nil_iff_forall_not_mem, not_forall, not_not, mem_children]

end FileSystem

namespace Sweep

theorem tree_survives_iff (faults : Faults) (hm : p.Marks fs.here d name)
    (h : fs.LeadsTo p (d ++ [name]))
    (hi : fs.item? (d ++ [name] ++ r) = some item) :
    ((tree faults fs p).files.item? (d ++ [name] ++ r)).isSome ↔
      ¬ faults.Reach p r ∨ faults.Bars item (p.under r) ∨
        (tree faults fs p).files.children (d ++ [name] ++ r) ≠ [] := by
  by_cases hreach : faults.Reach p r
  · obtain ⟨gs, step, hv⟩ := exists_deletion_of_reach hm h hi hreach
    rw [(deletion_outcome hm h hv hi).2]
    split_ifs with htakes
    · have hgone := Faults.takes_iff.1 htakes
      simp only [Option.isSome_none, Bool.false_eq_true, false_iff]
      tauto
    · rw [Faults.takes_iff] at htakes
      simp only [Option.isSome_some, true_iff]
      tauto
  · have hunvisited : (tree faults fs p).files.item? (d ++ [name] ++ r) = some item := by
      rw [item?_unvisited h fun gs step hv => hreach (reach_of_mem hm h hv), hi]
    rw [hunvisited]
    exact iff_of_true rfl (.inl hreach)

end Sweep

theorem FileSystem.walk_placeOf {followLast : Bool} (hp : p.IsPlain)
    (hroot : fs.item? (fs.placeOf p) = some .directory) (hshort : p.isTooLong = false) :
    fs.follow followLast p p.pieces = .ok (fs.placeOf p) := by
  refine follow_eq_ok_iff.2 ⟨hshort, hp.isEmpty_eq, ?_⟩
  rw [walkWithin_eq]
  exact walk_plain hp.noDots hroot

theorem removeAt_of_isPlain (faults : Faults) (hp : p.IsPlain)
    (hroot : fs.item? (fs.placeOf p) = some .directory) :
    removeAt faults fs p = if p.isTooLong then .nothing fs else .ofTree faults fs p := by
  cases hlong : p.isTooLong with
  | true => exact removeAt_unoccupied faults (FileSystem.unoccupied_of_isTooLong hlong)
  | false =>
      have hwalk : ∀ followLast, fs.follow followLast p p.pieces = .ok (fs.placeOf p) := fun _ =>
        FileSystem.walk_placeOf hp hroot hlong
      simp [removeAt, FileSystem.isLink, FileSystem.isOccupied, FileSystem.isDirectory,
        FileSystem.resolveLink, FileSystem.resolve, hwalk, FileSystem.itemAt, hroot]

theorem Removal.files_ofTree (faults : Faults) (fs : FileSystem) (p : Pathname) :
    (ofTree faults fs p).files = (Sweep.tree faults fs p).files := rfl

theorem removeAt_residue (faults : Faults) (hp : p.IsPlain)
    (hroot : fs.item? (fs.placeOf p) = some .directory) :
    let gs := (removeAt faults fs p).files
    (∀ r item, fs.item? (fs.placeOf p ++ r) = some item → item ≠ .directory →
      ((gs.item? (fs.placeOf p ++ r)).isSome ↔
        faults.Bars item (p.under r) ∨ ∃ q, q <+: r ∧ q ≠ r ∧ faults.Hides (p.under q))) ∧
    (∀ r, fs.item? (fs.placeOf p ++ r) = some .directory →
      ((gs.item? (fs.placeOf p ++ r)).isSome ↔
        (∃ q, q <+: r ∧ q ≠ r ∧ faults.Hides (p.under q)) ∨
          faults.Bars .directory (p.under r) ∨
          ∃ n, (gs.item? (fs.placeOf p ++ r ++ [n])).isSome)) ∧
    FileSystem.Thinned (fs.placeOf p <+: ·) fs gs := by
  intro gs
  have hremoval := removeAt_of_isPlain faults hp hroot
  have hmarks := FileSystem.marks_of_isPlain fs hp
  obtain ⟨hsurvives, hthin⟩ : (∀ r item, fs.item? (fs.placeOf p ++ r) = some item →
      ((gs.item? (fs.placeOf p ++ r)).isSome ↔ ¬ faults.Reach p r ∨
        faults.Bars item (p.under r) ∨ gs.children (fs.placeOf p ++ r) ≠ [])) ∧
      FileSystem.Thinned (fs.placeOf p <+: ·) fs gs := by
    cases hlong : p.isTooLong with
    | true =>
        have hsame : gs = fs := by simp [gs, hremoval, hlong, Removal.nothing]
        rw [hsame]
        refine ⟨fun r item hi => ?_, .refl ..⟩
        refine iff_of_true (by rw [hi]; rfl) (.inr (.inl (.inl ?_)))
        exact Pathname.isTooLong_foldl_child hlong r
    | false =>
        have hsame : gs = (Sweep.tree faults fs p).files := by
          simp [gs, hremoval, hlong, Removal.files_ofTree]
        rw [FileSystem.placeOf_eq hp] at hroot ⊢
        have hlead := hmarks.leadsTo rfl hroot hlong
        rw [hsame]
        exact ⟨fun r item hi => Sweep.tree_survives_iff faults hmarks hlead hi,
          Sweep.tree_thinned hlead⟩
  refine ⟨fun r item hi hitem => ?_, fun r hi => ?_, hthin⟩
  · have hempty : gs.children (fs.placeOf p ++ r) = [] := by
      refine FileSystem.children_eq_nil_of_ne fun hdir => hitem ?_
      rw [hthin.eq_some hdir] at hi
      exact (Option.some.inj hi).symm
    rw [hsurvives r item hi, hempty, Faults.not_reach_iff]
    simp only [ne_eq, not_true_eq_false, or_false]
    exact or_comm
  · rw [hsurvives r .directory hi, Faults.not_reach_iff, FileSystem.children_ne_nil_iff]

def heldFiles : FileSystem :=
  ((((FileSystem.empty.including ⟨["", "d"]⟩ .directory).including ⟨["", "d", "kept"]⟩
    (.file [])).including ⟨["", "d", "loose"]⟩ (.file [])).including ⟨["", "d", "shut"]⟩
    .directory).including ⟨["", "d", "shut", "x"]⟩ (.link ⟨["", "d"]⟩)

def holding : Faults :=
  { Faults.never with
    unlink := fun p => if p = ⟨["d", "kept"]⟩ then some (.deny ⟨13⟩) else none
    list := fun p => if p = ⟨["d", "shut"]⟩ then some .vanish else none }

theorem heldFiles_residue :
    let gs := (removeAt holding heldFiles ⟨["d"]⟩).files
    (gs.item? ["d", "kept"]).isSome ∧ gs.item? ["d", "loose"] = none ∧
      (gs.item? ["d", "shut", "x"]).isSome ∧ (gs.item? ["d", "shut"]).isSome ∧
      (gs.item? ["d"]).isSome := by
  intro gs
  have hd : heldFiles.item? (heldFiles.placeOf ⟨["d"]⟩) = some .directory := by decide +kernel
  obtain ⟨hothers, hdirectories, -⟩ := removeAt_residue holding ⟨by decide, by decide⟩ hd
  have hkept := (hothers ["kept"] (.file []) (by decide +kernel) (by decide)).2
    (.inl (.inr ⟨⟨13⟩, by decide +kernel⟩))
  have hx := (hothers ["shut", "x"] (.link ⟨["", "d"]⟩) (by decide +kernel) (by decide)).2
    (.inr ⟨["shut"], by decide, by decide, .inr (by decide +kernel)⟩)
  have hshut := (hdirectories ["shut"] (by decide +kernel)).2 (.inr (.inr ⟨"x", hx⟩))
  have hroot := (hdirectories [] (by decide +kernel)).2 (.inr (.inr ⟨"shut", hshut⟩))
  have hloose : gs.item? ["d", "loose"] = none := by decide +kernel
  exact ⟨hkept, hloose, hx, hshut, hroot⟩

def slashed : Pathname := ⟨"p" :: List.replicate 4092 "" ++ ["a"]⟩

def slashedFiles : FileSystem :=
  ((FileSystem.empty.including ⟨["", "p"]⟩ .directory).including ⟨["", "p", "a"]⟩
    .directory).including ⟨["", "p", "a", "b"]⟩ .directory

theorem isPlain_slashed : slashed.IsPlain where
  last := by decide +kernel
  noDots s hs := by
    simp only [slashed, List.cons_append, List.mem_cons, List.mem_append, List.mem_replicate,
      List.not_mem_nil, or_false] at hs
    rcases hs with rfl | ⟨-, rfl⟩ | rfl <;> decide

theorem placeOf_slashed : slashedFiles.placeOf slashed = ["p", "a"] := by
  have hnames : slashed.names = ["p", "a"] := by
    rw [Pathname.names, slashed, List.cons_append, List.filter_cons_of_pos (by decide),
      List.filter_append, List.filter_replicate_of_neg (by decide)]
    rfl
  rw [FileSystem.placeOf, hnames]
  rfl

theorem slashedFiles_left :
    let gs := (removeAt .never slashedFiles slashed).files
    let loc := slashedFiles.placeOf slashed
    slashed.IsPlain ∧ slashedFiles.item? loc = some .directory ∧
      slashedFiles.item? (loc ++ ["b"]) = some .directory ∧
      ¬ ((gs.item? (loc ++ ["b"])).isSome ↔
        (∃ q, q <+: ["b"] ∧ q ≠ ["b"] ∧ Faults.never.refusedListing (slashed.under q) ≠ none) ∨
          (∃ e, Faults.never.rmdir (slashed.under ["b"]) = some (.deny e)) ∨
          ∃ n, (gs.item? (loc ++ ["b"] ++ [n])).isSome) := by
  intro gs loc
  have hp := isPlain_slashed
  have hshort : slashed.isTooLong = false := by decide +kernel
  have hlong : (slashed.under ["b"]).isTooLong = true := by decide +kernel
  have hlisted : Faults.never.refusedListing slashed = none := by
    rw [Faults.refusedListing, hshort]
    rfl
  obtain ⟨hroot, hb, hchildren⟩ : slashedFiles.item? loc = some .directory ∧
      slashedFiles.item? (loc ++ ["b"]) = some .directory ∧
      slashedFiles.children (loc ++ ["b"]) = [] := by
    simp only [loc, placeOf_slashed]
    decide +kernel
  have hgs : gs = (Sweep.tree .never slashedFiles slashed).files := by
    have hremoval := removeAt_of_isPlain .never hp hroot
    rw [hshort, if_neg Bool.false_ne_true] at hremoval
    change (removeAt .never slashedFiles slashed).files = _
    rw [hremoval, Removal.files_ofTree]
  have hplace : loc = slashedFiles.startOf slashed ++ slashed.pieces.dropLast.filter (· != "") ++
      [slashed.lastPiece] := FileSystem.placeOf_eq hp
  have hmarks := FileSystem.marks_of_isPlain slashedFiles hp
  rw [hplace] at hroot hb hchildren ⊢
  have hlead := hmarks.leadsTo rfl hroot hshort
  refine ⟨hp, hroot, hb, fun hiff => ?_⟩
  rw [hgs] at hiff
  have hleft := (Sweep.tree_survives_iff .never hmarks hlead hb).2 (.inr (.inl (.inl hlong)))
  rcases hiff.1 hleft with ⟨q, hq, hne, hrefused⟩ | ⟨e, he⟩ | ⟨n, hn⟩
  · rcases List.prefix_cons_iff.1 hq with rfl | ⟨t, rfl, ht⟩
    · exact hrefused hlisted
    · obtain rfl := List.prefix_nil.1 ht
      exact hne rfl
  · cases he
  · obtain ⟨item, hitem⟩ := Option.isSome_iff_exists.1 hn
    have hmem := FileSystem.mem_children.2 (Option.isSome_iff_exists.2
      ⟨item, (Sweep.tree_thinned hlead).eq_some hitem⟩)
    rw [hchildren] at hmem
    cases hmem

end ArtifactCache
