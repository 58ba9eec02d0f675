import ArtifactCache.CommandLine.Request
import ArtifactCache.Proofs.Steps
import ArtifactCache.Proofs.Text.Joined

namespace ArtifactCache.CommandLine

variable {known : List Switch} {arg name text : String} {args : List String} {s : Switch}
  {ts : List (String × Token)} {p q : Preamble} {r : Request}

def Attaches (arg text : String) : Prop := '=' :: text.toList <:+ arg.toList

instance (arg text : String) : Decidable (Attaches arg text) :=
  inferInstanceAs (Decidable (_ <:+ _))

theorem attaches_of_splitAttached (h : splitAttached arg = (name, some text)) :
    Attaches arg text := by
  have hjoin := Text.join_split '=' arg
  unfold splitAttached at h
  cases hsplit : Text.split '=' arg with
  | nil => rw [hsplit] at h; cases h
  | cons first rest =>
      cases rest with
      | nil => rw [hsplit] at h; cases h
      | cons second others =>
          rw [hsplit] at h hjoin
          cases h
          refine ⟨name.toList, ?_⟩
          rw [← hjoin]
          simp [Text.join, Text.glue_cons_cons]

theorem unresolved_ne_switch : unresolved arg ≠ .switch s (some text) := by
  unfold unresolved
  split_ifs <;> nofun

theorem attaches_of_classify (h : classify known arg = .ok (.switch s (some text))) :
    s = .help ∨ Attaches arg text := by
  unfold classify at h
  split at h
  · cases hsplit : splitAttached arg with
    | mk name attached =>
        rw [hsplit] at h
        simp only at h
        split at h
        · cases h
          exact .inr (attaches_of_splitAttached hsplit)
        · split at h
          · exact absurd (Except.ok.inj h) unresolved_ne_switch
          · cases h
            exact .inr (attaches_of_splitAttached hsplit)
          · cases h
  · simp only [Except.ok.injEq, Token.switch.injEq] at h
    exact .inl h.1.symm
  · exact absurd (Except.ok.inj h) unresolved_ne_switch
  · cases h

theorem attaches_of_classifyAll (h : classifyAll known args = .ok ts) {t : String × Token}
    (ht : t ∈ ts) (hswitch : t.2 = .switch s (some text)) :
    s = .help ∨ ∃ a ∈ args, Attaches a text := by
  induction args generalizing ts with
  | nil => cases h; cases ht
  | cons arg args ih =>
      unfold classifyAll at h
      split_ifs at h with hsep
      · cases h
        rcases List.mem_cons.1 ht with rfl | ht
        · cases hswitch
        · obtain ⟨a, -, rfl⟩ := List.mem_map.1 ht
          cases hswitch
      · cases hclass : classify known arg with
        | error u => rw [hclass] at h; cases h
        | ok token =>
            cases hall : classifyAll known args with
            | error u => rw [hclass, hall] at h; cases h
            | ok tokens =>
                rw [hclass, hall] at h
                cases h
                rcases List.mem_cons.1 ht with rfl | ht
                · cases hswitch
                  exact (attaches_of_classify hclass).imp_right fun ha =>
                    ⟨arg, List.mem_cons_self, ha⟩
                · exact (ih hall ht).imp_right fun ⟨a, ha, hat⟩ =>
                    ⟨a, List.mem_cons_of_mem arg ha, hat⟩

def Preamble.Valued (p : Preamble) : Prop := p.cacheDir ≠ some .nothing ∧ p.level ≠ some .nothing

def Request.Valued (r : Request) : Prop := r.cacheDir ≠ some .nothing ∧ r.level ≠ some .nothing

theorem Preamble.Valued.set (h : p.Valued) {given : Given String} (hgiven : given ≠ .nothing)
    (hset : p.set given s = .ok q) : q.Valued := by
  obtain ⟨hcache, hlevel⟩ := h
  cases s with
  | config =>
      cases hset
      exact ⟨hcache, hlevel⟩
  | cacheDir =>
      cases hset
      exact ⟨fun hnone => hgiven (Option.some.inj hnone), hlevel⟩
  | level =>
      cases given with
      | nothing => exact absurd rfl hgiven
      | value text =>
          simp only [Preamble.set] at hset
          split at hset
          · cases hset
            exact ⟨hcache, by simp⟩
          · cases hset
  | _ => cases hset

theorem ofText_ne_nothing (h : text ≠ separatorText) : Given.ofText text ≠ .nothing := by
  simp [Given.ofText, h]

theorem Preamble.Valued.parse (h : p.Valued)
    (hts : ∀ t ∈ ts, ∀ s, t.2 = .switch s (some separatorText) → s = .help)
    (hparse : p.parse ts = .ok r) : r.Valued := by
  fun_induction Preamble.parse p ts with
  | case1 => cases hparse
  | case2 p arg s text ts ih =>
      obtain ⟨q, hset, hrest⟩ := bind_eq_ok_iff.1 hparse
      have hgiven : Given.ofText text ≠ .nothing := by
        refine ofText_ne_nothing ?_
        rintro rfl
        cases hts (arg, .switch s (some separatorText)) List.mem_cons_self s rfl
        cases hset
      exact ih q (h.set hgiven hset) (fun t ht => hts t (List.mem_cons_of_mem _ ht)) hrest
  | case3 p arg s text ts hs ih =>
      obtain ⟨q, hset, hrest⟩ := bind_eq_ok_iff.1 hparse
      have hgiven : Given.value text ≠ .nothing := nofun
      exact ih q (h.set hgiven hset)
        (fun t ht => hts t (List.mem_cons_of_mem _ (List.mem_cons_of_mem _ ht))) hrest
  | case4 p arg ts ih => exact ih h (fun t ht => hts t (List.mem_cons_of_mem _ ht)) hparse
  | case5 p name ts =>
      obtain ⟨goal, -, hgoal⟩ := bind_eq_ok_iff.1 hparse
      split_ifs at hgoal
      cases hgoal
      exact h
  | case6 => cases hparse

theorem valued_of_parse (hparse : Request.parse args = .ok r)
    (hargs : ∀ arg ∈ args, ¬ Attaches arg separatorText) : r.Valued := by
  obtain ⟨ts, hall, hrest⟩ := bind_eq_ok_iff.1 hparse
  have hstart : Preamble.start.Valued := ⟨nofun, nofun⟩
  refine hstart.parse (fun t ht s hs => ?_) hrest
  refine (attaches_of_classifyAll hall ht hs).resolve_right ?_
  rintro ⟨arg, harg, hat⟩
  exact hargs arg harg hat

end ArtifactCache.CommandLine
