import ArtifactCache.Proofs.FileSystem.Listing
import ArtifactCache.Proofs.Removal.Visits

namespace ArtifactCache

variable {faults : Faults} {fs : FileSystem} {p : Pathname} {q r : Location} {level : Nat}
  {entries : List (String × Item)} {e : String × Item} {v w : Visit}

namespace Visit

structure Precedes (v w : Visit) : Prop where
  deletion : v.isListing = false → ¬ v.place <+: w.place
  listing : w.isListing = true → ¬ w.place <+: v.place

theorem precedes_of_listing (hv : v.isListing = true)
    (hw : w.isListing = true → ¬ w.place <+: v.place) : v.Precedes w :=
  ⟨fun h => absurd (hv.symm.trans h) (by simp), hw⟩

theorem precedes_of_entries {m n : String} (hmn : m ≠ n) (hv : r ++ [m] <+: v.place)
    (hw : r ++ [n] <+: w.place) : v.Precedes w := by
  have hapart : ∀ {a b : String} {x y : Location}, a ≠ b → r ++ [a] <+: x → r ++ [b] <+: y →
      ¬ x <+: y := by
    intro a b x y hab hx hy hxy
    have heq := List.prefix_of_prefix_length_le (hx.trans hxy) hy (by simp)
    exact hab (by simpa using heq.eq_of_length (by simp))
  exact ⟨fun _ => hapart hmn hv hw, fun _ => hapart hmn.symm hw hv⟩

def IsDueTo (faults : Faults) (p : Pathname) (fs : FileSystem) (q : Location)
    (e : String × Item) : Visit → Prop
  | listing _ _ _ => e.2 = .directory
  | deletion _ found step =>
      step = faults.perform found
        (Sweep.taking found (Sweep.leadsToDirectory fs (p.under q) e) (p.under (q ++ [e.1])))

end Visit

namespace Sweep

variable {s : Sweep} {vs : List Visit}

theorem mem_along {α : Type} {turn : Sweep → α → Sweep} {visits : Sweep → α → List Visit}
    {es : List α} (h : v ∈ along turn visits s es) :
    ∃ x ∈ es, ∃ u, v ∈ visits u x ∧ visits u x ⊆ along turn visits s es := by
  induction es generalizing s with
  | nil => cases h
  | cons x es ih =>
      rcases List.mem_append.1 h with h | h
      · exact ⟨x, by simp, s, h, List.subset_append_left ..⟩
      · obtain ⟨y, hy, u, hv, hsub⟩ := ih h
        exact ⟨y, by simp [hy], u, hv, List.Subset.trans hsub (List.subset_append_right ..)⟩

theorem exists_subset_along {α : Type} (turn : Sweep → α → Sweep)
    (visits : Sweep → α → List Visit) {es : List α} {x : α} (hx : x ∈ es) (s : Sweep) :
    ∃ u, visits u x ⊆ along turn visits s es := by
  induction es generalizing s with
  | nil => cases hx
  | cons y es ih =>
      rcases List.mem_cons.1 hx with rfl | hx
      · exact ⟨s, List.subset_append_left ..⟩
      · obtain ⟨u, hu⟩ := ih hx (turn s y)
        exact ⟨u, List.Subset.trans hu (List.subset_append_right ..)⟩

theorem pairwise_along {α : Type} {turn : Sweep → α → Sweep} {visits : Sweep → α → List Visit}
    {es : List α} {R : Visit → Visit → Prop} (hself : ∀ u, ∀ x ∈ es, (visits u x).Pairwise R)
    (hothers : es.Pairwise fun x y => ∀ u u', ∀ v ∈ visits u x, ∀ w ∈ visits u' y, R v w) :
    (along turn visits s es).Pairwise R := by
  induction es generalizing s with
  | nil => exact .nil
  | cons x es ih =>
      rw [List.pairwise_cons] at hothers
      refine List.pairwise_append.2 ⟨hself s x (by simp),
        ih (fun u y hy => hself u y (by simp [hy])) hothers.2, fun v hv w hw => ?_⟩
      obtain ⟨y, hy, u, hw, -⟩ := mem_along hw
      exact hothers.1 y hy s u v hv w hw

theorem mem_visits_cases (hv : v ∈ visits faults p (level + 1) r s) :
    v = .listing r s.files (faults.listing s.files (p.under r)) ∨
    ∃ entries, faults.listing s.files (p.under r) = .ok entries ∧
      ((∃ e ∈ entries, e.2 = .directory ∧ ∃ u, v ∈ visits faults p level (r ++ [e.1]) u ∧
        visits faults p level (r ++ [e.1]) u ⊆ visits faults p (level + 1) r s) ∨
      ∃ e ∈ entries, ∃ found, v = .deletion (r ++ [e.1]) found (faults.perform found
        (taking found (leadsToDirectory s.files (p.under r) e) (p.under (r ++ [e.1]))))) := by
  rw [visits] at hv ⊢
  rcases List.mem_cons.1 hv with hv | hv
  · exact .inl hv
  · right
    cases hl : faults.listing s.files (p.under r) with
    | error f => rw [hl] at hv; cases hv
    | ok entries =>
        rw [hl] at hv
        refine ⟨entries, rfl, ?_⟩
        rcases List.mem_append.1 hv with hv | hv
        · obtain ⟨e, he, u, hv, hsub⟩ := mem_along hv
          obtain ⟨hmem, hkind⟩ := List.mem_filter.1 he
          refine .inl ⟨e, hmem, by simpa using hkind, u, hv, List.Subset.trans hsub ?_⟩
          exact List.Subset.trans (List.subset_append_left ..) (List.subset_cons_self ..)
        · obtain ⟨e, he, u, hv, -⟩ := mem_along hv
          rw [List.mem_singleton, Pathname.child_under] at hv
          exact .inr ⟨e, (ordered_perm _ _).mem_iff.1 he, u.files, hv⟩

theorem listing_mem_visits (faults : Faults) (p : Pathname) (level : Nat) (r : Location)
    (s : Sweep) : .listing r s.files (faults.listing s.files (p.under r)) ∈
      visits faults p (level + 1) r s := by
  rw [visits]
  exact List.mem_cons_self

theorem subset_visits_of_entry (level : Nat) (hl : faults.listing s.files (p.under r) = .ok entries)
    (he : e ∈ entries) (hdir : e.2 = .directory) :
    ∃ u, visits faults p level (r ++ [e.1]) u ⊆ visits faults p (level + 1) r s := by
  rw [visits, hl]
  have hmem : e ∈ directoriesOf entries := List.mem_filter.2 ⟨he, by simp [hdir]⟩
  obtain ⟨u, hu⟩ := exists_subset_along (descend faults level (p.under r))
    (fun s e => visits faults p level (r ++ [e.1]) s) hmem s
  refine ⟨u, List.Subset.trans hu ?_⟩
  exact List.Subset.trans (List.subset_append_left ..) (List.subset_cons_self ..)

theorem deletion_mem_visits (hl : faults.listing s.files (p.under r) = .ok entries)
    (he : e ∈ entries) :
    ∃ found step, .deletion (r ++ [e.1]) found step ∈ visits faults p (level + 1) r s := by
  rw [visits, hl]
  have hmem := (ordered_perm (leadsToDirectory s.files (p.under r)) entries).mem_iff.2 he
  obtain ⟨u, hu⟩ := exists_subset_along
    (take faults (leadsToDirectory s.files (p.under r)) (p.under r))
    (fun u x => [Visit.deletion (r ++ [x.1]) u.files (faults.perform u.files
      (taking u.files (leadsToDirectory s.files (p.under r) x) ((p.under r).child x.1)))])
    hmem ((directoriesOf entries).foldl (descend faults level (p.under r)) s)
  exact ⟨_, _, List.mem_cons_of_mem _ (List.mem_append_right _ (hu List.mem_cons_self))⟩

theorem place_of_mem_visits (hv : v ∈ visits faults p level r s) :
    r <+: v.place ∧ (v.isListing = false → v.place ≠ r) := by
  induction level generalizing r s with
  | zero => cases hv
  | succ level ih =>
      rcases mem_visits_cases hv with rfl | ⟨entries, -, ⟨e, -, -, u, hv, -⟩ | ⟨e, -, found, rfl⟩⟩
      · exact ⟨List.prefix_rfl, by simp [Visit.isListing]⟩
      · have hbeneath := (ih hv).1
        refine ⟨(List.prefix_append r [e.1]).trans hbeneath, ?_⟩
        rintro - rfl
        exact absurd hbeneath.length_le (by simp)
      · simp [Visit.place]

theorem exists_listing_of_mem_visits (hv : v ∈ visits faults p level r s) (hne : v.place ≠ r) :
    ∃ q fs entries, ∃ e ∈ entries, v.place = q ++ [e.1] ∧
      .listing q fs (.ok entries) ∈ visits faults p level r s ∧ v.IsDueTo faults p fs q e := by
  induction level generalizing r s with
  | zero => cases hv
  | succ level ih =>
      have hown : ∀ entries, faults.listing s.files (p.under r) = .ok entries →
          .listing r s.files (.ok entries) ∈ visits faults p (level + 1) r s := fun entries hl =>
        hl ▸ listing_mem_visits faults p level r s
      rcases mem_visits_cases hv with
        rfl | ⟨entries, hl, ⟨e, he, hdir, u, hv, hsub⟩ | ⟨e, he, found, rfl⟩⟩
      · exact absurd rfl hne
      · by_cases hplace : v.place = r ++ [e.1]
        · refine ⟨r, s.files, entries, e, he, hplace, hown entries hl, ?_⟩
          cases v with
          | listing => exact hdir
          | deletion => exact absurd hplace ((place_of_mem_visits hv).2 rfl)
        · obtain ⟨q, fs, others, x, hx, hq, hlisting, hdue⟩ := ih hv hplace
          exact ⟨q, fs, others, x, hx, hq, hsub hlisting, hdue⟩
      · exact ⟨r, s.files, entries, e, he, rfl, hown entries hl, rfl⟩

theorem mem_visits_of_listing (h : .listing (r ++ q) fs (.ok entries) ∈ visits faults p level r s)
    (he : e ∈ entries) :
    (∃ found step, .deletion (r ++ q ++ [e.1]) found step ∈ visits faults p level r s) ∧
    (e.2 = .directory → q.length + 1 < level →
      ∃ found result, .listing (r ++ q ++ [e.1]) found result ∈ visits faults p level r s) := by
  induction level generalizing r q s with
  | zero => cases h
  | succ level ih =>
      rcases mem_visits_cases h with
        heq | ⟨found, hl, ⟨x, hx, hdir, u, hv, hsub⟩ | ⟨x, hx, found, heq⟩⟩
      · injection heq with hplace _ hl
        obtain rfl : q = [] := by simpa using hplace
        rw [List.append_nil]
        refine ⟨deletion_mem_visits hl.symm he, fun hdir hlevel => ?_⟩
        obtain ⟨u, hu⟩ := subset_visits_of_entry level hl.symm he hdir
        obtain ⟨level, rfl⟩ : ∃ n, level = n + 1 := ⟨level - 1, by simp at hlevel; omega⟩
        exact ⟨_, _, hu (listing_mem_visits faults p level _ u)⟩
      · obtain ⟨y, hy⟩ := (place_of_mem_visits hv).1
        obtain rfl : x.1 :: y = q := by simpa [Visit.place] using hy
        have hplace : r ++ x.1 :: y = r ++ [x.1] ++ y := List.append_cons ..
        rw [hplace] at hv ⊢
        obtain ⟨⟨found, step, hdeletion⟩, hlisting⟩ := ih hv
        refine ⟨⟨found, step, hsub hdeletion⟩, fun hdir hlevel => ?_⟩
        obtain ⟨found, result, hmem⟩ := hlisting hdir (by simpa using hlevel)
        exact ⟨found, result, hsub hmem⟩
      · cases heq

theorem distinct_of_listing (hl : faults.listing fs p = .ok entries) :
    entries.Pairwise fun e e' => e.1 ≠ e'.1 := by
  obtain ⟨d, -, rfl⟩ := FileSystem.leadsTo_of_list (list_of_listing hl)
  exact List.pairwise_map.1 (FileSystem.nodup_entriesOf fs d)

-- Beneath different entries nothing is in the way of anything; beneath one entry it is by
-- induction on the levels, and only the deletion of the entry itself comes after that.
theorem visits_precede (faults : Faults) (p : Pathname) (level : Nat) (r : Location) (s : Sweep) :
    (visits faults p level r s).Pairwise Visit.Precedes := by
  induction level generalizing r s with
  | zero => exact .nil
  | succ level ih =>
      rw [visits]
      cases hl : faults.listing s.files (p.under r) with
      | error f => exact List.pairwise_singleton ..
      | ok entries =>
          have hdistinct := distinct_of_listing hl
          refine List.pairwise_cons.2 ⟨fun w hw => ?_, List.pairwise_append.2 ⟨?_, ?_, ?_⟩⟩
          · refine Visit.precedes_of_listing rfl fun hlisting hprefix => ?_
            rcases List.mem_append.1 hw with hw | hw
            · obtain ⟨e, -, u, hw, -⟩ := mem_along hw
              have habove := (place_of_mem_visits hw).1.trans hprefix
              exact absurd habove.length_le (by simp [Visit.place])
            · obtain ⟨e, -, u, hw, -⟩ := mem_along hw
              rw [List.mem_singleton.1 hw] at hlisting
              cases hlisting
          · refine pairwise_along (fun u e _ => ih (r ++ [e.1]) u) ?_
            refine (hdistinct.sublist List.filter_sublist).imp fun hne u u' v hv w hw => ?_
            exact Visit.precedes_of_entries hne (place_of_mem_visits hv).1
              (place_of_mem_visits hw).1
          · refine pairwise_along (fun u e _ => List.pairwise_singleton ..) ?_
            have hordered : (ordered (leadsToDirectory s.files (p.under r)) entries).Pairwise
                fun e e' => e.1 ≠ e'.1 :=
              (ordered_perm _ entries).pairwise_iff (fun h => h.symm) |>.2 hdistinct
            refine hordered.imp fun hne u u' v hv w hw => ?_
            rw [List.mem_singleton.1 hv, List.mem_singleton.1 hw]
            exact Visit.precedes_of_entries hne List.prefix_rfl List.prefix_rfl
          · intro v hv w hw
            obtain ⟨e, -, u, hv, -⟩ := mem_along hv
            obtain ⟨e', -, u', hw, -⟩ := mem_along hw
            obtain ⟨hbeneath, hstrict⟩ := place_of_mem_visits hv
            rw [List.mem_singleton.1 hw]
            refine ⟨fun hdeletion hprefix => hstrict hdeletion ?_, by simp [Visit.isListing]⟩
            refine (hbeneath.eq_of_length_le ?_).symm
            simpa [Visit.place] using hprefix.length_le

end Sweep

end ArtifactCache
