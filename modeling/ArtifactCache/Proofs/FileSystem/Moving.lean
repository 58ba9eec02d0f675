import ArtifactCache.Proofs.FileSystem.Outcome
import ArtifactCache.Proofs.FileSystem.Thinning

namespace ArtifactCache.FileSystem

variable {fs gs : FileSystem} {p : Pathname} {a b : String} {d l : Location} {item : Item}

/-- The item at `src` lies at `dst` now, with everything beneath it, and what it took the place of
was such that it could. -/
structure Moved (src dst : Location) (item : Item) (fs gs : FileSystem) : Prop where
  here : gs.here = relocate src dst fs.here
  found : fs.item? src = some item
  items : ∀ l, gs.item? l = (origin src dst l).bind fs.item?
  allowed : fs.refusal? item dst = none

theorem replaceable_of_allowed {old : Item} (hold : fs.item? l = some old)
    (h : fs.refusal? item l = none) :
    (old = .directory ∧ item = .directory ∧ fs.children l = []) ∨
      (old ≠ .directory ∧ item ≠ .directory) := by
  rw [refusal?, hold] at h
  cases old with
  | directory =>
      simp only at h
      split_ifs at h with hitem hchildren
      exact .inl ⟨rfl, not_not.1 hitem, not_not.1 hchildren⟩
  | file c => exact .inr ⟨by simp, by simpa using h⟩
  | link t => exact .inr ⟨by simp, by simpa using h⟩

theorem moved_of_rename (hp : p.isEmpty = false) (ha : isStep a = false) (hb : isStep b = false)
    (hne : a ≠ b) (h : fs.rename (p.child a) (p.child b) = .ok gs) :
    ∃ d item, fs.LeadsTo p d ∧ Moved (d ++ [a]) (d ++ [b]) item fs gs ∧
      (p.child b).isTooLong = false := by
  unfold rename at h
  cases hra : fs.resolveEntry (p.child a) with
  | error e => simp [hra] at h
  | ok x =>
      cases hrb : fs.resolveEntry (p.child b) with
      | error e => simp [hra, hrb] at h
      | ok y =>
          obtain ⟨⟨d, hdir⟩, a'⟩ := x
          obtain ⟨⟨d', hdir'⟩, b'⟩ := y
          obtain ⟨hd, rfl⟩ := resolveEntry_child hp ha hra
          obtain ⟨hd', rfl⟩ := resolveEntry_child hp hb hrb
          obtain rfl : d' = d := hd.leadsOnlyTo _ hd'
          cases hi : fs.item? (d' ++ [a']) with
          | none =>
              simp only [hra, hrb, ha, hb, hi] at h
              split_ifs at h
          | some item =>
              simp only [hra, hrb, ha, hb, hi, Bool.or_self, Bool.false_eq_true, if_false] at h
              split_ifs at h with hlong hname hfile heq hsrc hdst
              · exact absurd (List.append_cancel_left heq) (by simpa using hne)
              · cases hr : fs.refusal? item (d' ++ [b']) with
                | some e => simp [hr] at h
                | none =>
                    simp only [hr] at h
                    obtain rfl := Except.ok.inj h
                    exact ⟨d', item, hd, ⟨rfl, hi, fun l => item?_move l, hr⟩,
                      notTooLong_of_resolveEntry hrb⟩

theorem LeadsTo.rename_child (h : fs.LeadsTo p d) (hi : fs.item? (d ++ [a]) = some item)
    (hfree : fs.item? (d ++ [b]) = none) (hname : isName b = true)
    (hshort : (p.child a).isTooLong = false) (hshort' : (p.child b).isTooLong = false) :
    ∃ gs, fs.rename (p.child a) (p.child b) = .ok gs := by
  have ha : isName a = true := isName_of_isSome (by rw [hi]; rfl)
  have hstep := isStep_eq_false_of_isName ha
  have hstep' := isStep_eq_false_of_isName hname
  have hne : a ≠ b := by
    rintro rfl
    rw [hi] at hfree
    cases hfree
  have hlong : isTooLong a = false := by
    simp only [isName, Bool.and_eq_true, Bool.not_eq_true'] at ha
    exact ha.2
  have hpieces : a ≠ "" ∧ b ≠ "" := by
    constructor <;> rintro rfl
    · cases hstep
    · cases hstep'
  have hsrc : ¬ d ++ [a] <+: d ++ [b] := not_prefix_sibling hne
  have hdst : ¬ d ++ [b] <+: d ++ [a] := not_prefix_sibling hne.symm
  have hallowed : fs.refusal? item (d ++ [b]) = none := by rw [refusal?, hfree]
  unfold rename
  simp only [h.resolveEntry_child hstep hshort, h.resolveEntry_child hstep' hshort', hstep, hstep',
    hlong, hi, hname, hallowed, Pathname.lastPiece_child, hpieces.1, hpieces.2, Bool.or_self]
  simp [hsrc, hdst, hne]

theorem LeadsTo.leadsOnlyTo_of_concordant (h : fs.LeadsTo p d) (hp : p.isAbsolute = true)
    (hc : Concordant fs gs) : gs.LeadsOnlyTo p d := by
  intro e he
  have hwalk := (follow_eq_ok_iff.1 h.1).2.2
  have hwalk' := (follow_eq_ok_iff.1 he.1).2.2
  rw [startOf, if_pos hp] at hwalk hwalk'
  exact (walkWithin_unique hc h.2 he.2 hwalk hwalk').symm

namespace Moved

variable {src dst : Location} (h : Moved (d ++ [a]) (d ++ [b]) item fs gs) (hne : a ≠ b)

theorem outside (h : Moved src dst item fs gs) (hsrc : ¬ src <+: l) (hdst : ¬ dst <+: l) :
    gs.item? l = fs.item? l := by
  rw [h.items, origin, if_neg hdst, if_neg hsrc, Option.bind_some]

include h hne

theorem gone (hl : d ++ [a] <+: l) : gs.item? l = none := by
  have hdst : ¬ d ++ [b] <+: l := by
    intro hb
    have := List.prefix_of_prefix_length_le hb hl (by simp)
    exact not_prefix_sibling (Ne.symm hne) this
  rw [h.items, origin, if_neg hdst, if_pos hl, Option.bind_none]

-- On a way that the move leaves open it changes nothing, unless one link takes another's place.
theorem concordant (hlinks : ∀ t u, fs.item? (d ++ [a]) = some (.link t) →
    fs.item? (d ++ [b]) = some (.link u) → t = u) : Concordant fs gs := by
  intro l i j hi hj
  by_cases hdst : d ++ [b] <+: l
  · obtain ⟨below, rfl⟩ := hdst
    rw [h.items, origin, if_pos (List.prefix_append ..), List.drop_left, Option.bind_some] at hj
    rcases eq_or_ne below [] with rfl | hbelow
    · rw [List.append_nil] at hi hj
      rw [h.found] at hj
      obtain rfl := Option.some.inj hj
      rcases replaceable_of_allowed hi h.allowed with ⟨rfl, rfl, -⟩ | ⟨hold, hnew⟩
      · exact .inl rfl
      · cases i with
        | directory => exact absurd rfl hold
        | file c => exact .inr (.inl ⟨c, rfl⟩)
        | link u =>
            cases item with
            | directory => exact absurd rfl hnew
            | file c => exact .inr (.inr ⟨c, rfl⟩)
            | link t => exact .inl (by rw [hlinks t u h.found hi])
    · have hdir := isSome_item?_append (by rw [hi]; rfl) hbelow
      have hchildren : fs.children (d ++ [b]) ≠ [] := children_ne_nil (by rw [hi]; rfl) hbelow
      rcases replaceable_of_allowed hdir h.allowed with ⟨-, -, hempty⟩ | ⟨hold, -⟩
      · exact absurd hempty hchildren
      · exact absurd rfl hold
  · by_cases hsrc : d ++ [a] <+: l
    · rw [h.gone hne hsrc] at hj
      cases hj
    · rw [h.outside hsrc hdst, hi] at hj
      exact .inl (Option.some.inj hj)

end Moved

def including (fs : FileSystem) (p : Pathname) : Item → FileSystem
  | .directory => (fs.mkdir p).toOption.getD fs
  | .file content => (fs.write p content).toOption.getD fs
  | .link target => (fs.symlink p target).toOption.getD fs

end ArtifactCache.FileSystem
