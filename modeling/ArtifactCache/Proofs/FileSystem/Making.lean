import ArtifactCache.CacheStore.Basic
import ArtifactCache.Proofs.FileSystem.Growth

namespace ArtifactCache

variable {faults : Faults} {fs gs hs : FileSystem} {p q : Pathname} {name : String}
  {d l : Location} {level : Nat} {tail : List String}

namespace FileSystem

theorem Grown.follow {pieces : List String} {followLast : Bool} (h : Grown fs gs)
    (hl : (fs.item? l).isSome) (hf : fs.follow followLast p pieces = .ok l) :
    gs.follow followLast p pieces = .ok l := by
  obtain ⟨hlong, hempty, hwalk⟩ := follow_eq_ok_iff.1 hf
  refine follow_eq_ok_iff.2 ⟨hlong, hempty, ?_⟩
  unfold startOf at hwalk ⊢
  split_ifs at hwalk ⊢
  · exact walkWithin_of_less h.less hl hwalk
  · exact h.walk hl hwalk

theorem LeadsTo.of_grown (h : fs.LeadsTo p d) (hgrown : Grown fs gs) : gs.LeadsTo p d := by
  have hsome : (fs.item? d).isSome := by rw [h.2]; rfl
  exact ⟨hgrown.follow hsome h.1, (hgrown.kept hsome).trans h.2⟩

theorem Grown.resolveEntry {dir : fs.Holder} (h : Grown fs gs)
    (he : fs.resolveEntry p = .ok (dir, name)) :
    ∃ hd, gs.resolveEntry p = .ok (⟨dir.1, hd⟩, name) := by
  obtain ⟨hfollow, hname⟩ := resolveEntry_eq_ok_iff.1 he
  have hsome : (fs.item? dir.1).isSome := by rw [dir.2]; rfl
  refine ⟨(h.kept hsome).trans dir.2, resolveEntry_eq_ok_iff.2 ⟨?_, hname⟩⟩
  exact h.follow hsome hfollow

structure Added (fs gs : FileSystem) (p : Pathname) : Prop extends Grown fs gs where
  named : ∀ l, gs.item? l ≠ fs.item? l → ∃ q, q.pieces <+: p.pieces ∧ gs.LeadsTo q l

namespace Added

theorem refl (fs : FileSystem) (p : Pathname) : Added fs fs p :=
  ⟨.refl fs, fun _ h => absurd rfl h⟩

theorem trans (h : Added fs gs p) (h' : Added gs hs p) : Added fs hs p := by
  refine ⟨h.toGrown.trans h'.toGrown, fun l hl => ?_⟩
  by_cases hnew : hs.item? l = gs.item? l
  · rw [hnew] at hl
    obtain ⟨q, hq, hleads⟩ := h.named l hl
    exact ⟨q, hq, hleads.of_grown h'.toGrown⟩
  · exact h'.named l hnew

theorem of_begins (h : Added fs gs q) (hq : q.pieces <+: p.pieces) : Added fs gs p :=
  ⟨h.toGrown, fun l hl => (h.named l hl).imp fun _ hr => ⟨hr.1.trans hq, hr.2⟩⟩

end Added

theorem added_of_mkdir (h : fs.mkdir p = .ok gs) : Added fs gs p := by
  have hgrown := grown_of_mkdir h
  obtain ⟨dir, name, he, hname, hmade⟩ := made_of_mkdir h
  refine ⟨hgrown, fun l hl => ⟨p, List.prefix_rfl, ?_⟩⟩
  rw [hmade.items] at hl
  split_ifs at hl with hnew
  · subst hnew
    obtain ⟨hd, he'⟩ := hgrown.resolveEntry he
    refine leadsTo_of_resolveEntry he' (isStep_eq_false_of_isName hname) ?_
    rw [hmade.items, if_pos rfl]
  · exact absurd rfl hl

end FileSystem

namespace Making

open FileSystem

theorem one_added (faults : Faults) (fs : FileSystem) (p : Pathname) :
    Added fs (one faults fs p).files p := by
  rcases one_cases faults fs p with h | h
  · rw [h]
    exact .refl fs p
  · exact added_of_mkdir h

theorem upTo_slashes (h : ∀ piece ∈ p.pieces, piece = "") :
    upTo faults level fs p = one faults fs p := by
  cases level with
  | zero => rfl
  | succ level =>
      refine (upTo_cases faults level fs p).resolve_right fun honward => ?_
      exact honward.1.1 (p.snd_cut ▸ Pathname.cut_of_slashes h)

theorem mkdir_absent_slashes (h : ∀ piece ∈ p.pieces, piece = "") (hp : p.isEmpty = false)
    (habsent : fs.isPresent p = false) : fs.mkdir p = .error .nameTooLong := by
  have hlong : p.isTooLong = true := by
    by_contra hshort
    rw [(leadsTo_of_slashes h hp (Bool.not_eq_true _ ▸ hshort)).isPresent] at habsent
    cases habsent
  rw [mkdir, resolveEntry_of_isTooLong hlong]

theorem files_upTo_absent_slashes (h : ∀ piece ∈ p.pieces, piece = "") (hp : p.isEmpty = false)
    (habsent : fs.isPresent p = false) : (upTo faults level fs p).files = fs := by
  rw [upTo_slashes h]
  refine (one_cases faults fs p).resolve_right fun hmade => ?_
  rw [mkdir_absent_slashes h hp habsent] at hmade
  cases hmade

-- The induction is on the levels of directories above that may be missing.
theorem upTo_added (faults : Faults) (level : Nat) (fs : FileSystem) (p : Pathname) :
    Added fs (upTo faults level fs p).files p := by
  induction level generalizing p with
  | zero => exact one_added faults fs p
  | succ level ih =>
      rcases upTo_cases faults level fs p with hone | ⟨⟨hlast, hempty, habsent⟩, honward⟩
      · rw [hone]
        exact one_added faults fs p
      have habove : Added fs (upTo faults level fs p.above).files p := by
        rcases Pathname.exists_above_tail hlast hempty with ⟨j, k, hpieces⟩ | hslashes
        · exact (ih p.above).of_begins ⟨_, hpieces.symm⟩
        · rw [files_upTo_absent_slashes hslashes hempty habsent]
          exact .refl fs p
      generalize upTo faults (level + 1) fs p = made at honward ⊢
      cases honward with
      | halted => exact habove
      | dot => exact habove
      | next => exact habove.trans (one_added ..)

end Making

theorem makeDirectories_added (faults : Faults) (fs : FileSystem) (p : Pathname) :
    FileSystem.Added fs (makeDirectories faults fs p).files p := by
  rw [files_makeDirectories]
  exact Making.upTo_added faults p.pieces.length fs p

theorem makeDirectories_grown (faults : Faults) (fs : FileSystem) (p : Pathname) :
    FileSystem.Grown fs (makeDirectories faults fs p).files :=
  (makeDirectories_added faults fs p).toGrown

theorem CacheStore.makeEntry_grown (faults : Faults) (fs : FileSystem) (s : CacheStore)
    (c : Coordinate) (hash : String) : FileSystem.Grown fs (makeEntry faults fs s c hash).files := by
  unfold makeEntry
  split
  · exact .refl fs
  · exact makeDirectories_grown faults fs _

structure Stands (fs : FileSystem) (p : Pathname) : Prop where
  noNul : p.hasNul = false
  refused : fs.mkdir p = .error .alreadyExists

def Settled (fs : FileSystem) (p : Pathname) : Prop :=
  ∃ q tail, p.pieces = q.pieces ++ tail ∧ FileSystem.Idle tail ∧ Stands fs q

theorem Stands.settled (h : Stands fs p) : Settled fs p :=
  ⟨p, [], p.pieces.append_nil.symm, FileSystem.idle_nil, h⟩

theorem Settled.of_tail (h : Settled fs q) (hpieces : p.pieces = q.pieces ++ tail)
    (htail : FileSystem.Idle tail) : Settled fs p := by
  obtain ⟨r, rest, hq, hrest, hstands⟩ := h
  refine ⟨r, rest ++ tail, ?_, hrest.append htail, hstands⟩
  rw [hpieces, hq, List.append_assoc]

namespace FileSystem

theorem mkdir_again (h : fs.mkdir p = .ok gs) : gs.mkdir p = .error .alreadyExists := by
  obtain ⟨dir, name, he, hname, hmade⟩ := made_of_mkdir h
  obtain ⟨hd, he'⟩ := (grown_of_mkdir h).resolveEntry he
  have hthere : gs.item? (dir.1 ++ [name]) ≠ none := by
    rw [hmade.items, if_pos rfl]
    simp
  simp only [mkdir, he', dif_pos hname, dif_neg hthere]

end FileSystem

namespace Making

open FileSystem

theorem one_never (fs : FileSystem) (hnul : p.hasNul = false) :
    one .never fs p =
      match fs.mkdir p with
      | .ok gs => ⟨gs, [⟨.mkdir p, none, gs⟩], .ok ()⟩
      | .error e => ⟨fs, [⟨.mkdir p, some ⟨e, [p]⟩, fs⟩], .error (.failed ⟨e, [p]⟩)⟩ := by
  have hstep : Faults.never.perform fs (.mkdir p) =
      match fs.mkdir p with
      | .ok gs => ⟨.mkdir p, none, gs⟩
      | .error e => ⟨.mkdir p, some ⟨e, [p]⟩, fs⟩ := by
    unfold Faults.perform
    simp only [Call.fault?, Faults.never, Call.run, Call.paths]
    cases fs.mkdir p <;> rfl
  rw [one, if_neg (by simp [hnul]), hstep]
  cases fs.mkdir p <;> rfl

theorem one_stands (h : (one .never fs p).Passed) : Stands (one .never fs p).files p := by
  by_cases hnul : p.hasNul = true
  · rw [one, if_pos hnul] at h
    rcases h with h | ⟨e, h, hexists⟩
    · cases h
    · obtain rfl := Except.error.inj h
      cases hexists
  rw [Bool.not_eq_true] at hnul
  refine ⟨hnul, ?_⟩
  rw [one_never fs hnul] at h ⊢
  cases hrun : fs.mkdir p with
  | ok gs => exact mkdir_again hrun
  | error e =>
      rw [hrun] at h
      rcases h with h | ⟨e', h, hexists⟩
      · cases h
      · obtain rfl := Except.error.inj h
        simp only [CallError.isAlreadyExists, beq_iff_eq] at hexists
        rw [hrun, hexists]

theorem upTo_stands (hdot : p.entryParts.2 ≠ ".") (h : (upTo .never level fs p).Passed) :
    Stands (upTo .never level fs p).files p := by
  cases level with
  | zero => exact one_stands h
  | succ level =>
      rcases upTo_cases .never level fs p with hone | ⟨-, honward⟩
      · rw [hone] at h ⊢
        exact one_stands h
      · generalize upTo .never (level + 1) fs p = made at honward h ⊢
        cases honward with
        | halted hnot => exact absurd h hnot
        | dot _ hlast => exact absurd hlast hdot
        | next => exact one_stands h

-- The induction is on the levels of directories above that may be missing.
theorem upTo_settles (h : (upTo .never level fs p).Passed) :
    Settled (upTo .never level fs p).files p := by
  induction level generalizing p with
  | zero => exact (one_stands h).settled
  | succ level ih =>
      by_cases hdot : p.entryParts.2 ≠ "."
      · exact (upTo_stands hdot h).settled
      rw [not_not] at hdot
      rcases upTo_cases .never level fs p with hone | ⟨⟨hlast, hempty, habsent⟩, honward⟩
      · rw [hone] at h ⊢
        exact (one_stands h).settled
      generalize upTo .never (level + 1) fs p = made at honward h ⊢
      cases honward with
      | halted hnot => exact absurd h hnot
      | next _ hnot => exact absurd hdot hnot
      | dot hpassed =>
          rcases Pathname.exists_above_tail hlast hempty with ⟨j, k, hpieces⟩ | hslashes
          · rw [hdot] at hpieces
            exact (ih hpassed).of_tail hpieces
              ((idle_slashes j).append (idle_dot k))
          · have hnone : p.above.entryParts.2 ≠ "." := by
              rw [← p.above.snd_cut, Pathname.cut_of_slashes hslashes]
              decide
            have hstands := upTo_stands hnone hpassed
            rw [files_upTo_absent_slashes hslashes hempty habsent] at hstands
            cases (mkdir_absent_slashes hslashes hempty habsent).symm.trans hstands.refused

end Making

end ArtifactCache
