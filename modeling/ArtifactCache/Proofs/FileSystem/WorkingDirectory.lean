import ArtifactCache.FileSystem.Update
import ArtifactCache.Proofs.FileSystem.Walk

namespace ArtifactCache.FileSystem

variable {fs gs : FileSystem} {followLast : Bool} {base dir d l : Location} {m n name : String}
  {rest qs : List String} {budget : Nat}
  {again after : Location → List String → Except Errno Location}

theorem workingDirectory?_eq_some_iff :
    fs.workingDirectory? = some d ↔ fs.here = d ∧ fs.item? d = some .directory := by
  unfold workingDirectory?
  split_ifs with h
  · simp only [Option.some.injEq]
    exact ⟨fun heq => ⟨heq, heq ▸ h⟩, And.left⟩
  · refine iff_of_false nofun ?_
    rintro ⟨rfl, hd⟩
    exact h hd

theorem workingDirectory?_eq_none_iff :
    fs.workingDirectory? = none ↔ fs.item? fs.here ≠ some .directory := by
  unfold workingDirectory?
  split_ifs with h <;> simp [h]

theorem item?_of_empty_mem (h : "" ∈ l) : fs.item? l = none := by
  rw [← Option.not_isSome_iff_eq_none]
  intro hi
  cases isName_of_mem hi h

theorem displace_cases (dir : Location) (name : String) (here : Location) :
    (∃ rest, here = dir ++ name :: rest ∧ displace (dir ++ [name]) here = dir ++ "" :: rest) ∨
      (¬ dir ++ [name] <+: here ∧ displace (dir ++ [name]) here = here) := by
  by_cases hp : dir ++ [name] <+: here
  · obtain ⟨rest, rfl⟩ := hp
    refine .inl ⟨rest, (List.append_cons ..).symm, ?_⟩
    rw [displace, if_pos (List.prefix_append ..), List.dropLast_concat, List.drop_left]
  · exact .inr ⟨hp, if_neg hp⟩

theorem relocate_cases (dir : Location) (m n : String) (here : Location) :
    (∃ rest, here = dir ++ m :: rest ∧
        relocate (dir ++ [m]) (dir ++ [n]) here = dir ++ n :: rest) ∨
      (∃ rest, here = dir ++ n :: rest ∧
        relocate (dir ++ [m]) (dir ++ [n]) here = dir ++ "" :: rest) ∨
      relocate (dir ++ [m]) (dir ++ [n]) here = here := by
  by_cases hp : dir ++ [m] <+: here
  · obtain ⟨rest, rfl⟩ := hp
    refine .inl ⟨rest, (List.append_cons ..).symm, ?_⟩
    rw [relocate, if_pos (List.prefix_append ..), List.drop_left, ← List.append_cons]
  · rw [relocate, if_neg hp]
    rcases displace_cases dir n here with hgone | ⟨-, hsame⟩
    · exact .inr (.inl hgone)
    · exact .inr (.inr hsame)

-- The induction is on the pieces. Nothing is found from where nothing is but by going up first.
theorem walk_aside (hgone : fs.item? (base ++ [n]) = none)
    (hless : ∀ l, fs.item? l = gs.item? l ∨ fs.item? l = none)
    (hlink : ∀ dir ps, again dir ps = .ok d → after dir ps = .ok d)
    (hd : (fs.item? d).isSome) (h : fs.walk again followLast (base ++ n :: rest) qs = .ok d) :
    gs.walk after followLast (base ++ m :: rest) qs = .ok d := by
  have hbeneath : ∀ r, fs.item? (base ++ n :: r) = none := fun r =>
    eq_none_of_above hgone ⟨r, (List.append_cons ..).symm⟩
  induction qs generalizing rest with
  | nil =>
      rw [← Except.ok.inj h, hbeneath] at hd
      cases hd
  | cons piece qs ih =>
      rcases step_or_name piece with hp | rfl | hp
      · rw [walk_skip hp] at h ⊢
        exact ih h
      · rw [walk_up] at h ⊢
        rcases List.eq_nil_or_concat rest with rfl | ⟨r, x, rfl⟩
        · rw [List.dropLast_concat] at h ⊢
          exact walk_of_less hless hlink hd h
        · simp only [List.concat_eq_append, ← List.cons_append, ← List.append_assoc,
            List.dropLast_concat] at h ⊢
          exact ih h
      · have hnone : fs.item? (base ++ n :: rest ++ [piece]) = none := by
          rw [List.append_assoc, List.cons_append]
          exact hbeneath _
        rcases walk_name_found hp hd h with ⟨hi, -⟩ | ⟨-, -, c, hi⟩ | ⟨t, hi, -⟩ <;>
          rw [hi] at hnone <;> cases hnone

theorem walkWithin_aside (hgone : fs.item? (base ++ [n]) = none)
    (hless : ∀ l, fs.item? l = gs.item? l ∨ fs.item? l = none) (hd : (fs.item? d).isSome)
    (h : fs.walkWithin followLast budget (base ++ n :: rest) qs = .ok d) :
    gs.walkWithin followLast budget (base ++ m :: rest) qs = .ok d := by
  cases budget with
  | zero => exact walk_aside hgone hless (fun _ _ hps => hps) hd h
  | succ budget =>
      exact walk_aside hgone hless (fun _ _ hps => walkWithin_of_less hless hd hps) hd h

end ArtifactCache.FileSystem
