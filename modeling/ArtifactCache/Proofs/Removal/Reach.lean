import ArtifactCache.Proofs.Removal.Found

namespace ArtifactCache

variable {faults : Faults} {fs gs : FileSystem} {p : Pathname} {here d loc q r : Location}
  {entries : List (String × Item)} {e : String × Item} {v : Visit} {name n : String} {item : Item}
  {step : Step} {result : Except Failure (List (String × Item))}

namespace Pathname

theorem Marks.at_under (h : p.Marks here d name) (hr : ∀ n ∈ r, ArtifactCache.isStep n = false) :
    ∃ c n, c ++ [n] = d ++ [name] ++ r ∧ (p.under r).Marks here c n := by
  cases r using List.reverseRecOn with
  | nil => exact ⟨d, name, by simp, h⟩
  | append_singleton q n => exact ⟨d ++ name :: q, n, by simp, h.under hr⟩

end Pathname

def Faults.Reach (faults : Faults) (p : Pathname) (r : Location) : Prop :=
  ∀ q, q <+: r → q ≠ r → faults.refusedListing (p.under q) = none

theorem Faults.reach_concat :
    faults.Reach p (r ++ [n]) ↔ faults.Reach p r ∧ faults.refusedListing (p.under r) = none := by
  constructor
  · intro h
    refine ⟨fun q hq hne => h q (hq.trans (List.prefix_append ..)) ?_,
      h r (List.prefix_append ..) ?_⟩
    · rintro rfl
      exact absurd hq.length_le (by simp)
    · simp
  · rintro ⟨h, hr⟩ q hq hne
    rcases List.prefix_concat_iff.1 hq with rfl | hq
    · exact absurd rfl hne
    · rcases eq_or_ne q r with rfl | hqr
      · exact hr
      · exact h q hq hqr

namespace Sweep

section

variable (hm : p.Marks fs.here d name) (h : fs.LeadsTo p (d ++ [name]))

include hm h

theorem result_of_listing (hv : .listing r gs result ∈ treeVisits faults fs p) :
    result = match faults.refusedListing (p.under r) with
      | some e => .error ⟨e, [p.under r]⟩
      | none => .ok (fs.entriesOf (d ++ [name] ++ r)) := by
  have hwalks := tree_walks faults fs p
  have hhere := (hwalks.chained.found_thinned hwalks.isMade hv).here
  have hmade : result = faults.listing gs (p.under r) := hwalks.isMade _ hv
  obtain ⟨item, hitem, hdir⟩ := exists_item_of_mem h hv
  obtain rfl := hdir rfl
  have hfound := (item?_found h hv).trans hitem
  have hsame : gs.entriesOf (d ++ [name] ++ r) = fs.entriesOf (d ++ [name] ++ r) :=
    FileSystem.entriesOf_congr fun n => item?_listed (r := [n]) h hv rfl
  obtain ⟨c, n, hplace, hmarks⟩ :
      ∃ c n, c ++ [n] = d ++ [name] ++ r ∧ (p.under r).Marks fs.here c n :=
    hm.at_under (isSpelled_of_mem h hv)
  rw [hmade, ← hsame]
  refine faults.listing_of_leadsTo fun hshort => ?_
  rw [← hplace]
  refine hmarks.leadsTo hhere ?_ hshort
  rw [hplace]
  exact hfound

theorem reach_of_mem (hv : v ∈ treeVisits faults fs p) : faults.Reach p v.place := by
  induction hplace : v.place using List.reverseRecOn generalizing v with
  | nil => exact fun q hq hne => absurd (List.prefix_nil.1 hq) hne
  | append_singleton q n ih =>
      obtain ⟨q', gs, entries, e, -, hplace', hlisting, -⟩ :=
        exists_listing_of_mem_treeVisits hv (by simp [hplace])
      obtain ⟨rfl, -⟩ := List.append_inj' (hplace'.symm.trans hplace) rfl
      refine Faults.reach_concat.2 ⟨ih hlisting rfl, ?_⟩
      have hresult := result_of_listing hm h hlisting
      cases hrefused : faults.refusedListing (p.under q') with
      | none => rfl
      | some errno => rw [hrefused] at hresult; cases hresult

theorem exists_visit_of_entry (hl : .listing r gs result ∈ treeVisits faults fs p)
    (hlisted : faults.refusedListing (p.under r) = none)
    (hi : fs.item? (d ++ [name] ++ r ++ [n]) = some item) :
    (∃ gs step, .deletion (r ++ [n]) gs step ∈ treeVisits faults fs p) ∧
    (item = .directory → ∃ gs result, .listing (r ++ [n]) gs result ∈ treeVisits faults fs p) := by
  obtain rfl : result = .ok (fs.entriesOf (d ++ [name] ++ r)) := by
    rw [result_of_listing hm h hl, hlisted]
  have hmem : (n, item) ∈ fs.entriesOf (d ++ [name] ++ r) := FileSystem.mem_entriesOf.2 hi
  have hlower : .listing ([] ++ r) gs (.ok (fs.entriesOf (d ++ [name] ++ r))) ∈
      visits faults p (fs.height + 1) [] (start fs) :=
    (mem_treeVisits_cases hl).resolve_right fun heq => by cases heq
  obtain ⟨⟨found, step, hdeletion⟩, hlisting⟩ := mem_visits_of_listing hlower hmem
  refine ⟨⟨found, step, List.mem_append_left _ hdeletion⟩, fun hdir => ?_⟩
  have hheight : (d ++ [name] ++ r ++ [n]).length ≤ fs.height :=
    FileSystem.length_le_height (FileSystem.mem_entries_iff.2 ⟨by simp, by rw [hi]; rfl⟩)
  simp only [List.length_append, List.length_singleton] at hheight
  obtain ⟨found, result, hvisit⟩ := hlisting hdir (by omega)
  exact ⟨found, result, List.mem_append_left _ hvisit⟩

theorem exists_listing_of_reach (hi : fs.item? (d ++ [name] ++ r) = some .directory)
    (hr : faults.Reach p r) : ∃ gs result, .listing r gs result ∈ treeVisits faults fs p := by
  induction r using List.reverseRecOn with
  | nil => exact ⟨_, _, List.mem_append_left _ (listing_mem_visits ..)⟩
  | append_singleton r n ih =>
      rw [← List.append_assoc] at hi
      obtain ⟨hr, hlisted⟩ := Faults.reach_concat.1 hr
      obtain ⟨gs, result, hl⟩ := ih (FileSystem.item?_dir_of_isSome (by rw [hi]; rfl)) hr
      exact (exists_visit_of_entry hm h hl hlisted hi).2 rfl

theorem exists_deletion_of_reach (hi : fs.item? (d ++ [name] ++ r) = some item)
    (hr : faults.Reach p r) : ∃ gs step, .deletion r gs step ∈ treeVisits faults fs p := by
  cases r using List.reverseRecOn with
  | nil => exact ⟨_, _, List.mem_append_right _ (List.mem_singleton.2 rfl)⟩
  | append_singleton r n =>
      rw [← List.append_assoc] at hi
      obtain ⟨hr, hlisted⟩ := Faults.reach_concat.1 hr
      obtain ⟨gs, result, hl⟩ := exists_listing_of_reach hm h
        (FileSystem.item?_dir_of_isSome (by rw [hi]; rfl)) hr
      exact (exists_visit_of_entry hm h hl hlisted hi).1

omit hm in
theorem taking_eq {leads : Bool} (hthin : FileSystem.Thinned (fun _ => True) fs gs)
    (hlead : (p.under (r ++ [n])).isTooLong = false → gs.LeadsTo (p.under r) (d ++ [name] ++ r))
    (hi : gs.item? (d ++ [name] ++ r ++ [n]) = some item)
    (hdir : item = .directory → leads = true) (hfile : ∀ c, item = .file c → leads = false)
    (hlong : leads = true → item ≠ .directory → (p.under (r ++ [n])).isTooLong = false) :
    taking gs leads (p.under (r ++ [n])) = .removing item (p.under (r ++ [n])) := by
  have hlink : gs.isLink ((p.under r).child n) = true ↔
      (∃ t, item = .link t) ∧ ((p.under r).child n).isTooLong = false := by
    rw [← Pathname.child_under] at hlead
    have hholder : fs.item? (d ++ [name] ++ r) = some .directory :=
      hthin.eq_some (FileSystem.item?_dir_of_isSome (by rw [hi]; rfl))
    have honly := hthin.leadsOnlyTo (h.leadsOnlyTo.under h.notEmpty hholder)
    refine honly.isLink_child hlead (Pathname.isEmpty_under h.notEmpty fun m hm => ?_) hi
    have hfound : (fs.item? (d ++ [name] ++ r)).isSome := by rw [hholder]; rfl
    exact FileSystem.isStep_of_mem hfound (List.mem_append_right _ hm)
  rw [Pathname.child_under] at hlink
  unfold taking
  cases item with
  | directory =>
      have hno : gs.isLink (p.under (r ++ [n])) = false := by
        rw [← Bool.not_eq_true, hlink]
        simp
      simp [hdir rfl, hno, Call.removing]
  | file c => simp [hfile c rfl, Call.removing]
  | link t =>
      cases leads with
      | false => rfl
      | true => simp [hlink.2 ⟨⟨t, rfl⟩, hlong rfl (by simp)⟩, Call.removing]

theorem step_of_deletion (hv : .deletion r gs step ∈ treeVisits faults fs p)
    (hi : fs.item? (d ++ [name] ++ r) = some item) :
    step = faults.perform gs (.removing item (p.under r)) := by
  have hwalks := tree_walks faults fs p
  have hthin : FileSystem.Thinned (fun _ => True) fs gs :=
    hwalks.chained.found_thinned hwalks.isMade hv
  have hstill : gs.item? (d ++ [name] ++ r) = some item := (item?_found h hv).trans hi
  cases r using List.reverseRecOn with
  | nil =>
      rw [List.append_nil, h.2] at hi
      obtain rfl := Option.some.inj hi
      rcases mem_treeVisits_cases hv with hv | heq
      · exact absurd rfl ((place_of_mem_visits hv).2 rfl)
      · injection heq with _ hfound hstep
        rw [hstep, hfound]
        rfl
  | append_singleton q n =>
      obtain ⟨q', fs', entries, ⟨m, item'⟩, he, hplace, hlisting, hdue⟩ :=
        exists_listing_of_mem_treeVisits hv (by simp [Visit.place])
      obtain ⟨rfl, hn⟩ := List.append_inj' hplace rfl
      obtain rfl : n = m := by simpa using hn
      rw [← List.append_assoc] at hi hstill
      have hq := FileSystem.item?_dir_of_isSome (by rw [hi]; rfl)
      obtain rfl : item' = item := by
        have hentry := item?_of_listing h hlisting hq he
        rw [hi] at hentry
        exact (Option.some.inj hentry).symm
      have hstep : step = faults.perform gs (taking gs _ (p.under (q ++ [n]))) := hdue
      rw [hstep]
      refine congrArg (faults.perform gs) (taking_eq h hthin (fun hshort => ?_) hstill ?_ ?_ ?_)
      · have habove : (p.under q).isTooLong = false := by
          rw [← Pathname.child_under] at hshort
          exact Pathname.notTooLong_of_child hshort
        obtain ⟨c, m, hplace, hmarks⟩ := hm.at_under fun m hm =>
          isSpelled_of_mem h hv m (List.mem_append_left _ hm)
        rw [← hplace]
        refine hmarks.leadsTo hthin.here ?_ habove
        rw [hplace]
        exact FileSystem.item?_dir_of_isSome (by rw [hstill]; rfl)
      · rintro rfl
        rfl
      · rintro c rfl
        rfl
      · intro hleads hne
        cases item' with
        | directory => exact absurd rfl hne
        | file c => cases hleads
        | link t =>
            rw [← Pathname.child_under]
            obtain ⟨l, hl⟩ := FileSystem.isDirectory_iff.1 hleads
            exact hl.notTooLong

theorem deletion_outcome (hv : .deletion r gs step ∈ treeVisits faults fs p)
    (hi : fs.item? (d ++ [name] ++ r) = some item) :
    let o := faults.outcome (tree faults fs p).files item (p.under r) (d ++ [name] ++ r)
    step.failure = o.errno.map (fun e => ⟨e, [p.under r]⟩) ∧
      (tree faults fs p).files.item? (d ++ [name] ++ r) = if o.takes then none else some item := by
  have hwalks := tree_walks faults fs p
  have hthin : FileSystem.Thinned (fun _ => True) fs gs :=
    hwalks.chained.found_thinned hwalks.isMade hv
  have hstill : gs.item? (d ++ [name] ++ r) = some item := (item?_found h hv).trans hi
  have hchildren : (tree faults fs p).files.children (d ++ [name] ++ r) =
      gs.children (d ++ [name] ++ r) := by
    refine FileSystem.children_congr fun n => ?_
    have hentry : _ = gs.item? (d ++ [name] ++ r ++ [n]) := item?_entry h hv rfl n
    rw [← hentry]
    rfl
  have hsame : faults.outcome (tree faults fs p).files item (p.under r) (d ++ [name] ++ r) =
      faults.outcome gs item (p.under r) (d ++ [name] ++ r) := by
    rw [Faults.outcome, Faults.outcome, FileSystem.hindrance, FileSystem.hindrance, hchildren]
  have hleft : (tree faults fs p).files.item? (d ++ [name] ++ r) =
      step.files.item? (d ++ [name] ++ r) := item?_left h hv rfl
  obtain ⟨c, n, hplace, hmarks⟩ :
      ∃ c n, c ++ [n] = d ++ [name] ++ r ∧ (p.under r).Marks fs.here c n :=
    hm.at_under (isSpelled_of_mem h hv)
  rw [hsame, hleft, step_of_deletion hm h hv hi]
  rw [← hplace] at hstill ⊢
  have hholder := FileSystem.item?_dir_of_isSome (by rw [hstill]; rfl)
  obtain ⟨hfailure, hleaves⟩ := faults.perform_entry
    (fun hshort => hmarks.entry gs hholder hthin.here hshort) hmarks.last hstill
  refine ⟨hfailure, ?_⟩
  unfold Outcome.Leaves at hleaves
  split_ifs at hleaves ⊢ with htakes
  · rw [hleaves.items, if_pos rfl]
  · rw [hleaves, hstill]

end

end Sweep

end ArtifactCache
