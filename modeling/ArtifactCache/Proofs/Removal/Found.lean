import ArtifactCache.Proofs.Removal.Order

namespace ArtifactCache

variable {faults : Faults} {fs gs : FileSystem} {p : Pathname} {loc q r : Location} {level : Nat}
  {entries : List (String × Item)} {e : String × Item} {v w : Visit} {xs ys vs : List Visit}
  {n : String} {call : Call}

namespace Visit

def left : Visit → FileSystem
  | listing _ fs _ => fs
  | deletion _ _ step => step.files

def IsMade (faults : Faults) (p : Pathname) : Visit → Prop
  | listing r found result => result = faults.listing found (p.under r)
  | deletion r found step =>
      ∃ call : Call, call.Deletes (p.under r) ∧ step = faults.perform found call

theorem IsMade.thinned (h : v.IsMade faults p) :
    FileSystem.Thinned (fun _ => True) v.found v.left := by
  cases v with
  | listing r found result => exact .refl ..
  | deletion r found step =>
      obtain ⟨call, hdel, rfl⟩ := h
      have hclear : Clearing faults (fun _ => True) (fun _ => True) found _ _ :=
        .perform hdel trivial fun _ _ _ => trivial
      exact hclear.thinned

def IsConfined (loc : Location) (v : Visit) : Prop :=
  v.left = v.found ∨ v.isListing = false ∧ FileSystem.Lost (loc ++ v.place) v.found v.left

theorem IsConfined.thinned (h : v.IsConfined loc) :
    FileSystem.Thinned (fun l => v.isListing = false ∧ l = loc ++ v.place) v.found v.left := by
  rcases h with heq | ⟨hdeletion, hlost⟩
  · rw [heq]
    exact .refl ..
  · refine ⟨hlost.here, fun l => ?_⟩
    rw [hlost.items]
    split_ifs with hl
    · exact .inr ⟨⟨hdeletion, hl⟩, rfl⟩
    · exact .inl rfl

def Chained : FileSystem → List Visit → FileSystem → Prop
  | fs, [], gs => gs = fs
  | fs, v :: vs, gs => v.found = fs ∧ Chained v.left vs gs

theorem chained_append :
    Chained fs (xs ++ ys) gs ↔ ∃ hs, Chained fs xs hs ∧ Chained hs ys gs := by
  induction xs generalizing fs with
  | nil => simp [Chained]
  | cons x xs ih => simp only [List.cons_append, Chained, ih]; tauto

theorem Chained.thinned {region : Visit → Location → Prop} (h : Chained fs vs gs)
    (hvs : ∀ v ∈ vs, FileSystem.Thinned (region v) v.found v.left) :
    FileSystem.Thinned (fun l => ∃ v ∈ vs, region v l) fs gs := by
  induction vs generalizing fs with
  | nil => rw [h]; exact .refl ..
  | cons v vs ih =>
      obtain ⟨rfl, hrest⟩ := h
      have hfirst := hvs v (by simp)
      refine (hfirst.mono fun l hl => ⟨v, by simp, hl⟩).trans ?_
      refine (ih hrest fun w hw => hvs w (by simp [hw])).mono ?_
      rintro l ⟨w, hw, hl⟩
      exact ⟨w, by simp [hw], hl⟩

theorem Chained.found_thinned (h : Chained fs vs gs) (hvs : ∀ v ∈ vs, v.IsMade faults p)
    (hv : v ∈ vs) : FileSystem.Thinned (fun _ => True) fs v.found := by
  obtain ⟨xs, ys, rfl⟩ := List.append_of_mem hv
  obtain ⟨hs, hxs, hfound, -⟩ := chained_append.1 h
  rw [hfound]
  exact (hxs.thinned fun w hw => (hvs w (by simp [hw])).thinned).mono fun _ _ => trivial

theorem Chained.around (h : Chained fs vs gs) (hconfined : ∀ v ∈ vs, v.IsConfined loc)
    (horder : vs.Pairwise Precedes) (hv : v ∈ vs) :
    FileSystem.Thinned (fun l => ∃ x, l = loc ++ x ∧ ¬ x <+: v.place ∧
        (v.isListing = true → ¬ v.place <+: x)) fs v.found ∧
      FileSystem.Thinned (fun l => ∃ x, l = loc ++ x ∧
        (v.isListing = false → ¬ v.place <+: x)) v.left gs := by
  obtain ⟨xs, ys, rfl⟩ := List.append_of_mem hv
  obtain ⟨hs, hxs, hfound, hys⟩ := chained_append.1 h
  obtain ⟨-, hlater, hearlier⟩ := List.pairwise_append.1 horder
  rw [hfound]
  constructor
  · refine (hxs.thinned fun w hw => (hconfined w (by simp [hw])).thinned).mono ?_
    rintro l ⟨w, hw, hdeletion, rfl⟩
    have hprecedes := hearlier w hw v (by simp)
    exact ⟨w.place, rfl, hprecedes.deletion hdeletion, hprecedes.listing⟩
  · refine (hys.thinned fun w hw => (hconfined w (by simp [hw])).thinned).mono ?_
    rintro l ⟨w, hw, -, rfl⟩
    exact ⟨w.place, rfl, ((List.pairwise_cons.1 hlater).1 w hw).deletion⟩

end Visit

namespace Sweep

variable {s t : Sweep} {vs : List Visit}

theorem files_record (s : Sweep) (p : Pathname) (f : Failure) : (s.record p f).files = s.files := by
  unfold record
  split_ifs <;> rfl

theorem Walks.chained (h : Walks faults p s vs t) : Visit.Chained s.files vs t.files := by
  induction h with
  | nil s => rfl
  | listed _ _ ih => exact ⟨rfl, ih⟩
  | refused _ _ ih =>
      rw [files_record] at ih
      exact ⟨rfl, ih⟩
  | unlink _ ih =>
      rw [(files_unlink ..).1] at ih
      exact ⟨rfl, ih⟩
  | rmdir _ ih =>
      rw [(files_rmdir ..).1] at ih
      exact ⟨rfl, ih⟩

theorem Walks.isMade (h : Walks faults p s vs t) : ∀ v ∈ vs, v.IsMade faults p := by
  induction h with
  | nil s => simp
  | listed hl _ ih => exact List.forall_mem_cons.2 ⟨hl.symm, ih⟩
  | refused hl _ ih => exact List.forall_mem_cons.2 ⟨hl.symm, ih⟩
  | unlink _ ih => exact List.forall_mem_cons.2 ⟨⟨_, .inl rfl, rfl⟩, ih⟩
  | rmdir _ ih => exact List.forall_mem_cons.2 ⟨⟨_, .inr rfl, rfl⟩, ih⟩

theorem mem_treeVisits_cases (hv : v ∈ treeVisits faults fs p) :
    v ∈ visits faults p (fs.height + 1) [] (start fs) ∨
      v = .deletion [] (below faults (fs.height + 1) p (start fs)).files
        (faults.perform (below faults (fs.height + 1) p (start fs)).files (.rmdir p)) :=
  (List.mem_append.1 hv).imp_right List.mem_singleton.1

theorem treeVisits_precede (faults : Faults) (fs : FileSystem) (p : Pathname) :
    (treeVisits faults fs p).Pairwise Visit.Precedes := by
  refine List.pairwise_append.2 ⟨visits_precede .., List.pairwise_singleton .., fun v hv w hw => ?_⟩
  rw [List.mem_singleton.1 hw]
  refine ⟨fun hdeletion hprefix => ?_, by simp [Visit.isListing]⟩
  exact (place_of_mem_visits hv).2 hdeletion (List.prefix_nil.1 hprefix)

theorem exists_listing_of_mem_treeVisits (hv : v ∈ treeVisits faults fs p) (hne : v.place ≠ []) :
    ∃ q found entries, ∃ e ∈ entries, v.place = q ++ [e.1] ∧
      .listing q found (.ok entries) ∈ treeVisits faults fs p ∧ v.IsDueTo faults p found q e := by
  rcases mem_treeVisits_cases hv with hv | rfl
  · obtain ⟨q, found, entries, e, he, hplace, hlisting, hdue⟩ :=
      exists_listing_of_mem_visits hv hne
    exact ⟨q, found, entries, e, he, hplace, List.mem_append_left _ hlisting, hdue⟩
  · exact absurd rfl hne

section

variable (h : fs.LeadsTo p loc)

include h

theorem item?_of_listing (hl : .listing q gs (.ok entries) ∈ treeVisits faults fs p)
    (hq : fs.item? (loc ++ q) = some .directory) (he : e ∈ entries) :
    fs.item? (loc ++ q ++ [e.1]) = some e.2 := by
  have hwalks := tree_walks faults fs p
  have hthin := hwalks.chained.found_thinned hwalks.isMade hl
  have hmade : .ok entries = faults.listing gs (p.under q) := hwalks.isMade _ hl
  obtain ⟨d, hd, rfl⟩ := FileSystem.leadsTo_of_list (list_of_listing hmade.symm)
  obtain rfl := hthin.leadsOnlyTo (h.leadsOnlyTo.under h.notEmpty hq) d hd
  exact hthin.eq_some (FileSystem.mem_entriesOf.1 he)

theorem exists_item_of_mem (hv : v ∈ treeVisits faults fs p) :
    ∃ item, fs.item? (loc ++ v.place) = some item ∧ (v.isListing = true → item = .directory) := by
  induction hplace : v.place using List.reverseRecOn generalizing v with
  | nil => exact ⟨.directory, by rw [List.append_nil, h.2], fun _ => rfl⟩
  | append_singleton q n ih =>
      obtain ⟨q', gs, entries, e, he, hplace', hlisting, hdue⟩ :=
        exists_listing_of_mem_treeVisits hv (by simp [hplace])
      obtain ⟨rfl, hn⟩ := List.append_inj' (hplace'.symm.trans hplace) rfl
      obtain ⟨item, hitem, hdir⟩ := ih hlisting rfl
      obtain rfl := hdir rfl
      rw [← hplace, hplace', ← List.append_assoc]
      refine ⟨e.2, item?_of_listing h hlisting hitem he, fun hv => ?_⟩
      cases v with
      | listing => exact hdue
      | deletion => cases hv

theorem isSpelled_of_mem (hv : v ∈ treeVisits faults fs p) : v.IsSpelled := by
  obtain ⟨item, hitem, -⟩ := exists_item_of_mem h hv
  intro n hn
  exact FileSystem.isStep_of_mem (by rw [hitem]; rfl) (List.mem_append_right loc hn)

theorem isConfined_of_mem (hv : v ∈ treeVisits faults fs p) : v.IsConfined loc := by
  have hwalks := tree_walks faults fs p
  have hthin := hwalks.chained.found_thinned hwalks.isMade hv
  obtain ⟨item, hitem, -⟩ := exists_item_of_mem h hv
  have hspelled := isSpelled_of_mem h hv
  have hmade := hwalks.isMade v hv
  cases v with
  | listing => exact .inl rfl
  | deletion r found step =>
      obtain ⟨call, hdel, rfl⟩ := hmade
      rcases faults.perform_cases found call with heq | hrun
      · exact .inl heq
      · refine .inr ⟨rfl, ?_⟩
        cases r using List.reverseRecOn with
        | nil =>
            rcases mem_treeVisits_cases hv with hv | hlast
            · exact absurd rfl ((place_of_mem_visits hv).2 rfl)
            · injection hlast with _ hfound hstep
              rw [← hfound] at hstep
              have hcall : call = .rmdir p := by
                simpa using congrArg Step.call hstep
              subst hcall
              have honly := hthin.leadsOnlyTo h.leadsOnlyTo
              rw [Visit.place, List.append_nil]
              exact (honly.lost_of_rmdir hrun).2.2
        | append_singleton q n =>
            rw [Visit.place, ← List.append_assoc] at hitem ⊢
            rw [← Pathname.child_under] at hdel
            have hdir : fs.item? (loc ++ q) = some .directory :=
              FileSystem.item?_dir_of_isSome (by rw [hitem]; rfl)
            have honly := hthin.leadsOnlyTo (h.leadsOnlyTo.under h.notEmpty hdir)
            refine honly.lost_of_removes ?_ (hspelled n (by simp [Visit.place]))
              (Faults.removes_of_run hdel hrun)
            exact Pathname.isEmpty_under h.notEmpty fun m hm =>
              hspelled m (by simp [Visit.place, hm])

theorem tree_around (hv : v ∈ treeVisits faults fs p) :
    FileSystem.Thinned (fun l => ∃ x, l = loc ++ x ∧ ¬ x <+: v.place ∧
        (v.isListing = true → ¬ v.place <+: x)) fs v.found ∧
      FileSystem.Thinned (fun l => ∃ x, l = loc ++ x ∧
        (v.isListing = false → ¬ v.place <+: x)) v.left (tree faults fs p).files :=
  (tree_walks faults fs p).chained.around (fun _ hw => isConfined_of_mem h hw)
    (treeVisits_precede faults fs p) hv

theorem item?_found (hv : v ∈ treeVisits faults fs p) :
    v.found.item? (loc ++ v.place) = fs.item? (loc ++ v.place) := by
  refine (tree_around h hv).1.outside ?_
  rintro ⟨x, hx, hbefore, -⟩
  obtain rfl := List.append_cancel_left hx
  exact hbefore List.prefix_rfl

theorem item?_listed (hv : v ∈ treeVisits faults fs p) (hlisting : v.isListing = true) :
    v.found.item? (loc ++ v.place ++ r) = fs.item? (loc ++ v.place ++ r) := by
  refine (tree_around h hv).1.outside ?_
  rintro ⟨x, hx, -, hbefore⟩
  rw [List.append_assoc] at hx
  obtain rfl := List.append_cancel_left hx
  exact hbefore hlisting (List.prefix_append ..)

theorem item?_left (hv : v ∈ treeVisits faults fs p) (hdeletion : v.isListing = false) :
    (tree faults fs p).files.item? (loc ++ v.place) = v.left.item? (loc ++ v.place) := by
  refine (tree_around h hv).2.outside ?_
  rintro ⟨x, hx, hafter⟩
  obtain rfl := List.append_cancel_left hx
  exact hafter hdeletion List.prefix_rfl

theorem item?_entry (hv : v ∈ treeVisits faults fs p) (hdeletion : v.isListing = false)
    (n : String) :
    (tree faults fs p).files.item? (loc ++ v.place ++ [n]) =
      v.found.item? (loc ++ v.place ++ [n]) := by
  have hleft := (isConfined_of_mem h hv).thinned.outside (l := loc ++ v.place ++ [n])
    (by rintro ⟨-, heq⟩; simp at heq)
  rw [← hleft]
  refine (tree_around h hv).2.outside ?_
  rintro ⟨x, hx, hafter⟩
  rw [List.append_assoc] at hx
  obtain rfl := List.append_cancel_left hx
  exact hafter hdeletion (List.prefix_append ..)

theorem item?_unvisited
    (hr : ∀ found step, .deletion r found step ∉ treeVisits faults fs p) :
    (tree faults fs p).files.item? (loc ++ r) = fs.item? (loc ++ r) := by
  have hchained := (tree_walks faults fs p).chained
  refine (hchained.thinned fun v hv => (isConfined_of_mem h hv).thinned).outside ?_
  rintro ⟨v, hv, hdeletion, hplace⟩
  obtain rfl := List.append_cancel_left hplace
  cases v with
  | listing => cases hdeletion
  | deletion r found step => exact hr found step hv

theorem tree_thinned :
    FileSystem.Thinned (loc <+: ·) fs (tree faults fs p).files := by
  have hchained := (tree_walks faults fs p).chained
  refine (hchained.thinned fun v hv => (isConfined_of_mem h hv).thinned).mono ?_
  rintro l ⟨v, -, -, rfl⟩
  exact List.prefix_append ..

end

end Sweep

end ArtifactCache
