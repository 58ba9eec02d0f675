import ArtifactCache.Proofs.FileSystem.Above
import ArtifactCache.Proofs.FileSystem.Trace
import ArtifactCache.Proofs.FileSystem.WorkingDirectory

namespace ArtifactCache

variable {faults : Faults} {fs gs hs : FileSystem} {p : Pathname} {level : Nat}
  {name : String} {d l : Location}

namespace FileSystem

/-- There is nothing less than before, and nothing more but directories. What a removed working
directory still leads up to, it leads up to as before. -/
structure Grown (fs gs : FileSystem) : Prop where
  workingDirectory : gs.workingDirectory? = fs.workingDirectory?
  walk : ∀ {followLast n pieces l}, (fs.item? l).isSome →
    fs.walkWithin followLast n fs.here pieces = .ok l →
      gs.walkWithin followLast n gs.here pieces = .ok l
  item : ∀ l, gs.item? l = fs.item? l ∨ fs.item? l = none ∧ gs.item? l = some .directory

namespace Grown

theorem refl (fs : FileSystem) : Grown fs fs := ⟨rfl, fun _ h => h, fun _ => .inl rfl⟩

theorem less (h : Grown fs gs) (l : Location) : fs.item? l = gs.item? l ∨ fs.item? l = none :=
  (h.item l).imp Eq.symm And.left

theorem kept (h : Grown fs gs) (hi : (fs.item? l).isSome) : gs.item? l = fs.item? l :=
  (h.item l).resolve_right fun hnew => by simp [hnew.1] at hi

theorem trans (h : Grown fs gs) (h' : Grown gs hs) : Grown fs hs := by
  refine ⟨h'.workingDirectory.trans h.workingDirectory, fun hi hwalk => ?_, fun l => ?_⟩
  · exact h'.walk (by rwa [h.kept hi]) (h.walk hi hwalk)
  · rcases h'.item l with heq | ⟨hnone, hdir⟩
    · rw [heq]
      exact h.item l
    · refine (h.item l).elim (fun heq => ?_) fun hnew => .inr ⟨hnew.1, hdir⟩
      exact .inr ⟨heq ▸ hnone, hdir⟩

end Grown

structure Made (dir : Location) (name : String) (fs gs : FileSystem) : Prop where
  here : gs.here = displace (dir ++ [name]) fs.here
  free : fs.item? (dir ++ [name]) = none
  items : ∀ k, gs.item? k = if k = dir ++ [name] then some .directory else fs.item? k

theorem Made.less (h : Made d name fs gs) (l : Location) :
    fs.item? l = gs.item? l ∨ fs.item? l = none := by
  rw [h.items]
  split_ifs with hl
  · exact .inr (hl ▸ h.free)
  · exact .inl rfl

theorem Made.workingDirectory? (h : Made d name fs gs) :
    gs.workingDirectory? = fs.workingDirectory? := by
  rcases displace_cases d name fs.here with ⟨rest, hhere, hgone⟩ | ⟨hnot, hsame⟩
  · have hlost : fs.item? fs.here = none :=
      eq_none_of_above h.free ⟨rest, by rw [hhere, ← List.append_cons]⟩
    have hlost' : gs.item? gs.here = none :=
      item?_of_empty_mem (by rw [h.here, hgone]; simp)
    rw [workingDirectory?_eq_none_iff.2 (by simp [hlost']),
      workingDirectory?_eq_none_iff.2 (by simp [hlost])]
  · have hne : fs.here ≠ d ++ [name] := fun heq => hnot (heq ▸ List.prefix_rfl)
    rw [FileSystem.workingDirectory?, FileSystem.workingDirectory?, h.here, hsame, h.items,
      if_neg hne]

theorem Made.grown (h : Made d name fs gs) : Grown fs gs where
  workingDirectory := h.workingDirectory?
  walk hi hwalk := by
    rw [h.here]
    rcases displace_cases d name fs.here with ⟨rest, hhere, hgone⟩ | ⟨-, hsame⟩
    · rw [hgone]
      rw [hhere] at hwalk
      exact walkWithin_aside h.free h.less hi hwalk
    · rw [hsame]
      exact walkWithin_of_less h.less hi hwalk
  item l := by
    rw [h.items]
    split_ifs with hl
    · exact .inr ⟨hl ▸ h.free, rfl⟩
    · exact .inl rfl

theorem made_of_mkdir (h : fs.mkdir p = .ok gs) :
    ∃ (dir : fs.Holder) (name : String), fs.resolveEntry p = .ok (dir, name) ∧
      isName name = true ∧ Made dir.1 name fs gs := by
  unfold mkdir at h
  cases hr : fs.resolveEntry p with
  | error e => rw [hr] at h; cases h
  | ok entry =>
      obtain ⟨dir, name⟩ := entry
      simp only [hr] at h
      split_ifs at h with hname hnew
      obtain rfl := Except.ok.inj h
      exact ⟨dir, name, rfl, hname, rfl, hnew, item?_put⟩

theorem grown_of_mkdir (h : fs.mkdir p = .ok gs) : Grown fs gs := by
  obtain ⟨dir, name, -, -, hmade⟩ := made_of_mkdir h
  exact hmade.grown

end FileSystem

namespace Making

theorem one_cases (faults : Faults) (fs : FileSystem) (p : Pathname) :
    (one faults fs p).files = fs ∨ fs.mkdir p = .ok (one faults fs p).files := by
  unfold one
  split_ifs
  · exact .inl rfl
  · exact faults.perform_cases fs (.mkdir p)

def Passed (m : Making) : Prop :=
  m.result = .ok () ∨ ∃ e, m.result = .error e ∧ e.isAlreadyExists = true

inductive Onward (faults : Faults) (p : Pathname) (above : Making) : Making → Prop
  | halted : ¬ above.Passed → Onward faults p above above
  | dot : above.Passed → p.entryParts.2 = "." →
      Onward faults p above { above with result := .ok () }
  | next : above.Passed → p.entryParts.2 ≠ "." →
      Onward faults p above ((one faults above.files p).afterSteps above.steps)

theorem upTo_succ (faults : Faults) (level : Nat) (fs : FileSystem) (p : Pathname) :
    upTo faults (level + 1) fs p =
      if p.above.isEmpty = true ∨ p.entryParts.2 = "" ∨ fs.isPresent p.above = true then
        one faults fs p
      else
        let above := upTo faults level fs p.above
        match above.result with
        | .error e =>
            if !e.isAlreadyExists then above
            else if p.entryParts.2 = "." then { above with result := .ok () }
            else (one faults above.files p).afterSteps above.steps
        | .ok () =>
            if p.entryParts.2 = "." then above
            else (one faults above.files p).afterSteps above.steps := by
  rw [← p.snd_cut]
  rfl

theorem upTo_cases (faults : Faults) (level : Nat) (fs : FileSystem) (p : Pathname) :
    upTo faults (level + 1) fs p = one faults fs p ∨
      (p.entryParts.2 ≠ "" ∧ p.above.isEmpty = false ∧ fs.isPresent p.above = false) ∧
        Onward faults p (upTo faults level fs p.above) (upTo faults (level + 1) fs p) := by
  rw [upTo_succ]
  by_cases hone : p.above.isEmpty = true ∨ p.entryParts.2 = "" ∨ fs.isPresent p.above = true
  · exact .inl (if_pos hone)
  rw [if_neg hone]
  simp only [not_or, Bool.not_eq_true] at hone
  refine .inr ⟨⟨hone.2.1, hone.1, hone.2.2⟩, ?_⟩
  generalize upTo faults level fs p.above = above
  obtain ⟨files, steps, result⟩ := above
  cases result with
  | ok u =>
      have hpassed : Passed ⟨files, steps, .ok ()⟩ := .inl rfl
      simp only
      split_ifs with hdot
      · exact .dot hpassed hdot
      · exact .next hpassed hdot
  | error e =>
      simp only
      split_ifs with hother hdot
      · refine .halted fun hpassed => ?_
        rcases hpassed with h | ⟨e', h, hexists⟩
        · cases h
        · obtain rfl := Except.error.inj h
          simp [hexists] at hother
      · exact .dot (.inr ⟨e, rfl, by simpa using hother⟩) hdot
      · exact .next (.inr ⟨e, rfl, by simpa using hother⟩) hdot

end Making

theorem files_makeDirectories (faults : Faults) (fs : FileSystem) (p : Pathname) :
    (makeDirectories faults fs p).files = (Making.upTo faults p.pieces.length fs p).files := by
  unfold makeDirectories
  simp only
  split
  · split_ifs <;> rfl
  · rfl

theorem makeDirectories_eq_ok_iff {faults : Faults} {fs : FileSystem} {p : Pathname} :
    (makeDirectories faults fs p).result = .ok () ↔
      (Making.upTo faults p.pieces.length fs p).Passed := by
  unfold makeDirectories Making.Passed
  simp only
  split
  · next e he =>
      split_ifs with hexists
      · simp [he, hexists]
      · simp [he, hexists]
  · next he => simp [he]

end ArtifactCache
