import Mathlib.Data.List.Basic
import ArtifactCache.Proofs.FileSystem.Straight
import ArtifactCache.Proofs.Removal

namespace ArtifactCache

variable {faults : Faults} {fs : FileSystem} {p : Pathname} {r : Location} {level : Nat}
  {entries : List (String × Item)}

inductive Visit where
  | listing (place : Location) (found : FileSystem)
      (result : Except Failure (List (String × Item)))
  | deletion (place : Location) (found : FileSystem) (step : Step)

namespace Visit

variable {v w : Visit} {before xs ys vs : List Visit}

def place : Visit → Location
  | listing r _ _ => r
  | deletion r _ _ => r

def found : Visit → FileSystem
  | listing _ fs _ => fs
  | deletion _ fs _ => fs

def failure : Visit → Option Failure
  | listing _ _ (.error f) => some f
  | listing _ _ (.ok _) => none
  | deletion _ _ step => step.failure

def step? : Visit → Option Step
  | listing _ _ _ => none
  | deletion _ _ step => some step

def isListing : Visit → Bool
  | listing _ _ _ => true
  | deletion _ _ _ => false

def isRmdir : Visit → Bool
  | listing _ _ _ => false
  | deletion _ _ step =>
      match step.call with
      | .rmdir _ => true
      | _ => false

def fails (v : Visit) : Bool := v.failure.any fun f => !f.isNoEntry

def IsSpelled (v : Visit) : Prop := ∀ n ∈ v.place, isStep n = false

def report (p : Pathname) (v : Visit) : Option (Pathname × Failure) :=
  v.failure.map fun f => (p.under v.place, f)

/-- Whether a visit is reported after those that have been. A directory that is left because of an
earlier failure is not a failure of its own. -/
def isReported (before : List Visit) (v : Visit) : Bool :=
  v.fails && !(v.isRmdir && before.any fun w => v.place.isPrefixOf w.place)

def newly (before : List Visit) (v : Visit) : List Visit :=
  if v.isReported before then [v] else []

def reported : List Visit → List Visit → List Visit
  | _, [] => []
  | before, v :: vs => v.newly before ++ reported (before ++ v.newly before) vs

theorem exists_failure (h : v.fails = true) : ∃ f, v.failure = some f ∧ f.isNoEntry = false := by
  unfold fails at h
  cases hf : v.failure with
  | none => rw [hf] at h; cases h
  | some f => exact ⟨f, rfl, by simpa [hf] using h⟩

theorem fails_of_mem_newly (h : w ∈ v.newly before) : w = v ∧ v.fails = true := by
  unfold newly isReported at h
  split_ifs at h with hreported
  · exact ⟨List.mem_singleton.1 h, (Bool.and_eq_true_iff.1 hreported).1⟩
  · cases h

theorem reported_sublist (before vs : List Visit) : (reported before vs).Sublist vs := by
  induction vs generalizing before with
  | nil => exact .slnil
  | cons v vs ih =>
      simp only [reported, newly]
      split_ifs
      · exact (ih _).cons_cons v
      · rw [List.nil_append]
        exact (ih _).cons v

end Visit

namespace Sweep

variable {s t u : Sweep} {xs ys vs : List Visit}

def ordered (leads : String × Item → Bool) (entries : List (String × Item)) :
    List (String × Item) :=
  entries.filter (fun e => !leads e) ++ entries.filter leads

theorem ordered_perm (leads : String × Item → Bool) (entries : List (String × Item)) :
    (ordered leads entries).Perm entries :=
  List.perm_append_comm.trans (List.filter_append_perm _ _)

def directoriesOf (entries : List (String × Item)) : List (String × Item) :=
  entries.filter fun e => e.2 == .directory

def descend (faults : Faults) (level : Nat) (dir : Pathname) (s : Sweep) (e : String × Item) :
    Sweep :=
  below faults level (dir.child e.1) s

def taking (fs : FileSystem) (leads : Bool) (p : Pathname) : Call :=
  if leads && !fs.isLink p then .rmdir p else .unlink p

def take (faults : Faults) (leads : String × Item → Bool) (dir : Pathname) (s : Sweep)
    (e : String × Item) : Sweep :=
  if leads e then s.removeDirectory faults (dir.child e.1) else s.unlink faults (dir.child e.1)

theorem below_succ (faults : Faults) (level : Nat) (dir : Pathname) (s : Sweep) :
    below faults (level + 1) dir s =
      match faults.listing s.files dir with
      | .error f => s.record dir f
      | .ok entries =>
          (ordered (leadsToDirectory s.files dir) entries).foldl
            (take faults (leadsToDirectory s.files dir) dir)
            ((directoriesOf entries).foldl (descend faults level dir) s) := by
  rw [below]
  cases faults.listing s.files dir with
  | error f => rfl
  | ok entries =>
      have hdirectories : (entries.filter (leadsToDirectory s.files dir)).filter
          (fun e => e.2 == .directory) = directoriesOf entries := by
        rw [List.filter_filter]
        refine List.filter_congr fun e _ => ?_
        obtain ⟨n, item⟩ := e
        cases item <;> simp [leadsToDirectory]
      simp only [List.partition_eq_filter_filter, hdirectories, ordered, List.foldl_append]
      have hlast : ∀ u : Sweep, (entries.filter (leadsToDirectory s.files dir)).foldl
          (fun s e => s.removeDirectory faults (dir.child e.1)) u =
            (entries.filter (leadsToDirectory s.files dir)).foldl
              (take faults (leadsToDirectory s.files dir) dir) u := fun u =>
        List.foldl_ext _ _ _ fun v e he => (if_pos (List.mem_filter.1 he).2).symm
      have hfirst : ∀ u : Sweep, (entries.filter (not ∘ leadsToDirectory s.files dir)).foldl
          (fun s e => s.unlink faults (dir.child e.1)) u =
            (entries.filter (fun e => !leadsToDirectory s.files dir e)).foldl
              (take faults (leadsToDirectory s.files dir) dir) u := fun u =>
        List.foldl_ext _ _ _ fun v e he => (if_neg (by simpa using (List.mem_filter.1 he).2)).symm
      rw [hlast, hfirst]
      rfl

def along {α : Type} (turn : Sweep → α → Sweep) (visits : Sweep → α → List Visit) :
    Sweep → List α → List Visit
  | _, [] => []
  | s, e :: es => visits s e ++ along turn visits (turn s e) es

def visits (faults : Faults) (p : Pathname) : Nat → Location → Sweep → List Visit
  | 0, _, _ => []
  | level + 1, r, s =>
      let result := faults.listing s.files (p.under r)
      let leads := leadsToDirectory s.files (p.under r)
      .listing r s.files result ::
        match result with
        | .error _ => []
        | .ok entries =>
            along (descend faults level (p.under r))
                (fun s e => visits faults p level (r ++ [e.1]) s) s (directoriesOf entries) ++
              along (take faults leads (p.under r))
                (fun s e =>
                  let call := taking s.files (leads e) ((p.under r).child e.1)
                  [.deletion (r ++ [e.1]) s.files (faults.perform s.files call)])
                ((directoriesOf entries).foldl (descend faults level (p.under r)) s)
                (ordered leads entries)

def treeVisits (faults : Faults) (fs : FileSystem) (p : Pathname) : List Visit :=
  let s := below faults (fs.height + 1) p (start fs)
  visits faults p (fs.height + 1) [] (start fs) ++
    [.deletion [] s.files (faults.perform s.files (.rmdir p))]

inductive Walks (faults : Faults) (p : Pathname) : Sweep → List Visit → Sweep → Prop where
  | nil (s : Sweep) : Walks faults p s [] s
  | listed {s t : Sweep} {r : Location} {entries : List (String × Item)} {vs : List Visit}
      (h : faults.listing s.files (p.under r) = .ok entries) (hvs : Walks faults p s vs t) :
      Walks faults p s (.listing r s.files (.ok entries) :: vs) t
  | refused {s t : Sweep} {r : Location} {f : Failure} {vs : List Visit}
      (h : faults.listing s.files (p.under r) = .error f)
      (hvs : Walks faults p (s.record (p.under r) f) vs t) :
      Walks faults p s (.listing r s.files (.error f) :: vs) t
  | unlink {s t : Sweep} {r : Location} {vs : List Visit}
      (hvs : Walks faults p (s.unlink faults (p.under r)) vs t) :
      Walks faults p s
        (.deletion r s.files (faults.perform s.files (.unlink (p.under r))) :: vs) t
  | rmdir {s t : Sweep} {r : Location} {vs : List Visit}
      (hvs : Walks faults p (s.rmdir faults (p.under r)) vs t) :
      Walks faults p s
        (.deletion r s.files (faults.perform s.files (.rmdir (p.under r))) :: vs) t

namespace Walks

theorem append (h : Walks faults p s xs t) (h' : Walks faults p t ys u) :
    Walks faults p s (xs ++ ys) u := by
  induction h with
  | nil s => exact h'
  | listed hl _ ih => exact .listed hl (ih h')
  | refused hl _ ih => exact .refused hl (ih h')
  | unlink _ ih => exact .unlink (ih h')
  | rmdir _ ih => exact .rmdir (ih h')

theorem along {α : Type} {turn : Sweep → α → Sweep} {visits : Sweep → α → List Visit}
    {es : List α} (h : ∀ u, ∀ e ∈ es, Walks faults p u (visits u e) (turn u e)) :
    Walks faults p s (Sweep.along turn visits s es) (es.foldl turn s) := by
  induction es generalizing s with
  | nil => exact .nil s
  | cons e es ih => exact (h s e (by simp)).append (ih fun u x hx => h u x (by simp [hx]))

theorem take (faults : Faults) (leads : String × Item → Bool) (r : Location) (s : Sweep)
    (e : String × Item) :
    Walks faults p s [.deletion (r ++ [e.1]) s.files
      (faults.perform s.files (taking s.files (leads e) ((p.under r).child e.1)))]
      (Sweep.take faults leads (p.under r) s e) := by
  rw [Sweep.take, removeDirectory, taking, Pathname.child_under]
  cases leads e with
  | false => exact .unlink (.nil _)
  | true =>
      cases s.files.isLink (p.under (r ++ [e.1])) with
      | true => exact .unlink (.nil _)
      | false => exact .rmdir (.nil _)

end Walks

theorem below_walks (faults : Faults) (p : Pathname) (level : Nat) (r : Location) (s : Sweep) :
    Walks faults p s (visits faults p level r s) (below faults level (p.under r) s) := by
  induction level generalizing r s with
  | zero => exact .nil s
  | succ level ih =>
      rw [below_succ, visits]
      cases hl : faults.listing s.files (p.under r) with
      | error f => exact .refused hl (.nil _)
      | ok entries =>
          refine .listed hl (.append (.along fun u e _ => ?_) (.along fun u e _ => ?_))
          · rw [descend, Pathname.child_under]
            exact ih (r ++ [e.1]) u
          · exact .take faults _ r u e

theorem tree_walks (faults : Faults) (fs : FileSystem) (p : Pathname) :
    Walks faults p (start fs) (treeVisits faults fs p) (tree faults fs p) :=
  (below_walks faults p (fs.height + 1) [] (start fs)).append (.rmdir (.nil _))

theorem Walks.steps (h : Walks faults p s vs t) :
    t.steps = s.steps ++ vs.filterMap Visit.step? := by
  induction h with
  | nil s => simp
  | listed _ _ ih => exact ih
  | refused _ _ ih =>
      rw [ih, record]
      split_ifs <;> rfl
  | unlink _ ih =>
      rw [ih, (files_unlink ..).2, List.append_assoc]
      rfl
  | rmdir _ ih =>
      rw [ih, (files_rmdir ..).2, List.append_assoc]
      rfl

def noted (p : Pathname) : Option Failure → List (Pathname × Failure)
  | some f => if f.isNoEntry then [] else [(p, f)]
  | none => []

theorem failures_record (s : Sweep) (p : Pathname) (f : Failure) :
    (s.record p f).failures = s.failures ++ noted p (some f) := by
  cases hgone : f.isNoEntry <;> simp [record, noted, hgone]

theorem failures_unlink (faults : Faults) (s : Sweep) (p : Pathname) :
    (s.unlink faults p).failures =
      s.failures ++ noted p (faults.perform s.files (.unlink p)).failure := by
  cases hf : (faults.perform s.files (.unlink p)).failure with
  | none => simp [Sweep.unlink, hf, noted, took]
  | some f => simp [Sweep.unlink, hf, failures_record, took]

theorem failures_rmdir (faults : Faults) (s : Sweep) (p : Pathname) :
    (s.rmdir faults p).failures =
      s.failures ++ if s.hasFailedWithin p then []
        else noted p (faults.perform s.files (.rmdir p)).failure := by
  cases hf : (faults.perform s.files (.rmdir p)).failure with
  | none => simp [Sweep.rmdir, hf, noted, took]
  | some f =>
      cases hfailed : s.hasFailedWithin p <;>
        simp [Sweep.rmdir, hf, hfailed, failures_record, took]

theorem mem_noted {o : Option Failure} {x : Pathname × Failure} :
    x ∈ noted p o ↔ ∃ f, o = some f ∧ f.isNoEntry = false ∧ x = (p, f) := by
  cases o with
  | none => simp [noted]
  | some f => cases hgone : f.isNoEntry <;> simp [noted, hgone]

theorem Walks.failures_prefix (h : Walks faults p s vs t) : s.failures <+: t.failures := by
  induction h with
  | nil s => exact List.prefix_rfl
  | listed _ _ ih => exact ih
  | refused _ _ ih => exact (failures_record .. ▸ List.prefix_append ..).trans ih
  | unlink _ ih => exact (failures_unlink .. ▸ List.prefix_append ..).trans ih
  | rmdir _ ih => exact (failures_rmdir .. ▸ List.prefix_append ..).trans ih

theorem Walks.listing_reported {f : Failure} (h : Walks faults p s vs t)
    (hv : .listing r fs (.error f) ∈ vs) (hf : f.isNoEntry = false) :
    (p.under r, f) ∈ t.failures := by
  induction h with
  | nil s => cases hv
  | listed _ _ ih => exact ih ((List.mem_cons.1 hv).resolve_left fun heq => by cases heq)
  | unlink _ ih => exact ih ((List.mem_cons.1 hv).resolve_left fun heq => by cases heq)
  | rmdir _ ih => exact ih ((List.mem_cons.1 hv).resolve_left fun heq => by cases heq)
  | refused _ hvs ih =>
      rcases List.mem_cons.1 hv with heq | hv
      · cases heq
        refine hvs.failures_prefix.subset ?_
        rw [failures_record]
        exact List.mem_append_right _ (mem_noted.2 ⟨f, rfl, hf, rfl⟩)
      · exact ih hv

theorem Walks.exists_visit {x : Pathname × Failure} (h : Walks faults p s vs t)
    (hx : x ∈ t.failures) :
    x ∈ s.failures ∨ ∃ v ∈ vs, v.failure = some x.2 ∧ x.2.isNoEntry = false ∧
      x.1 = p.under v.place := by
  have hnoted : ∀ (v : Visit) (vs : List Visit), x ∈ noted (p.under v.place) v.failure →
      ∃ w ∈ v :: vs, w.failure = some x.2 ∧ x.2.isNoEntry = false ∧ x.1 = p.under w.place := by
    intro v vs hx
    obtain ⟨f, hf, hreal, rfl⟩ := mem_noted.1 hx
    exact ⟨v, by simp, hf, hreal, rfl⟩
  have hlater : ∀ {v : Visit} {vs : List Visit},
      (∃ w ∈ vs, w.failure = some x.2 ∧ x.2.isNoEntry = false ∧ x.1 = p.under w.place) →
      ∃ w ∈ v :: vs, w.failure = some x.2 ∧ x.2.isNoEntry = false ∧ x.1 = p.under w.place := by
    rintro v vs ⟨w, hw, hrest⟩
    exact ⟨w, by simp [hw], hrest⟩
  induction h with
  | nil s => exact .inl hx
  | listed _ _ ih => exact (ih hx).imp_right hlater
  | refused _ _ ih =>
      rcases ih hx with hx | hv
      · rw [failures_record] at hx
        exact (List.mem_append.1 hx).imp_right (hnoted _ _)
      · exact .inr (hlater hv)
  | unlink _ ih =>
      rcases ih hx with hx | hv
      · rw [failures_unlink] at hx
        exact (List.mem_append.1 hx).imp_right (hnoted _ _)
      · exact .inr (hlater hv)
  | rmdir _ ih =>
      rcases ih hx with hx | hv
      · rw [failures_rmdir] at hx
        refine (List.mem_append.1 hx).imp_right fun hx => hnoted _ _ ?_
        split_ifs at hx
        · cases hx
        · exact hx
      · exact .inr (hlater hv)

theorem filterMap_newly {before : List Visit} {v : Visit} :
    (v.newly before).filterMap (Visit.report p) =
      if (v.isRmdir && before.any fun w => v.place.isPrefixOf w.place) = true then []
      else noted (p.under v.place) v.failure := by
  unfold Visit.newly Visit.isReported Visit.fails
  rcases Option.eq_none_or_eq_some v.failure with hf | ⟨f, hf⟩
  · simp [hf, noted]
  · cases hgone : f.isNoEntry <;> split_ifs <;> simp_all [noted, Visit.report]

theorem hasFailedWithin_under {before : List Visit}
    (hbefore : ∀ v ∈ before, v.IsSpelled ∧ v.fails = true)
    (hs : s.failures = before.filterMap (Visit.report p)) (hr : ∀ n ∈ r, isStep n = false)
    (hne : r ≠ [] ∨ p.lastPiece ≠ "") :
    s.hasFailedWithin (p.under r) = before.any fun w => r.isPrefixOf w.place := by
  rw [hasFailedWithin, hs, Bool.eq_iff_iff, List.any_eq_true, List.any_eq_true]
  constructor
  · rintro ⟨f, hf, hcovers⟩
    obtain ⟨w, hw, hreport⟩ := List.mem_filterMap.1 hf
    obtain ⟨e, -, rfl⟩ := Option.map_eq_some_iff.1 hreport
    rw [Pathname.covers_under hr (hbefore w hw).1 hne] at hcovers
    exact ⟨w, hw, List.isPrefixOf_iff_prefix.2 hcovers⟩
  · rintro ⟨w, hw, hprefix⟩
    obtain ⟨hspelled, hfails⟩ := hbefore w hw
    obtain ⟨e, he, -⟩ := Visit.exists_failure hfails
    refine ⟨(p.under w.place, e), List.mem_filterMap.2 ⟨w, hw, by rw [Visit.report, he]; rfl⟩, ?_⟩
    exact (Pathname.covers_under hr hspelled hne).2 (List.isPrefixOf_iff_prefix.1 hprefix)

def Reportable (p : Pathname) (v : Visit) : Prop :=
  v.IsSpelled ∧ (v.isRmdir = true → v.place ≠ [] ∨ p.lastPiece ≠ "")

theorem spelled_newly {before : List Visit} {v : Visit}
    (hbefore : ∀ v ∈ before, v.IsSpelled ∧ v.fails = true) (hv : v.IsSpelled) :
    ∀ w ∈ before ++ v.newly before, w.IsSpelled ∧ w.fails = true := by
  intro w hw
  rcases List.mem_append.1 hw with hw | hw
  · exact hbefore w hw
  · obtain ⟨rfl, hfails⟩ := Visit.fails_of_mem_newly hw
    exact ⟨hv, hfails⟩

theorem Walks.failures (h : Walks faults p s vs t) (hvs : ∀ v ∈ vs, Reportable p v)
    {before : List Visit} (hbefore : ∀ v ∈ before, v.IsSpelled ∧ v.fails = true)
    (hs : s.failures = before.filterMap (Visit.report p)) :
    t.failures = (before ++ Visit.reported before vs).filterMap (Visit.report p) := by
  induction h generalizing before with
  | nil s => simpa [Visit.reported] using hs
  | listed _ _ ih =>
      obtain ⟨⟨hspelled, -⟩, hrest⟩ := List.forall_mem_cons.1 hvs
      rw [Visit.reported, ← List.append_assoc]
      refine ih hrest (spelled_newly hbefore hspelled) ?_
      rw [List.filterMap_append, ← hs, filterMap_newly]
      simp [Visit.failure, noted]
  | refused _ _ ih =>
      obtain ⟨⟨hspelled, -⟩, hrest⟩ := List.forall_mem_cons.1 hvs
      rw [Visit.reported, ← List.append_assoc]
      refine ih hrest (spelled_newly hbefore hspelled) ?_
      rw [List.filterMap_append, ← hs, filterMap_newly, failures_record]
      simp [Visit.isRmdir, Visit.place, Visit.failure]
  | unlink _ ih =>
      obtain ⟨⟨hspelled, -⟩, hrest⟩ := List.forall_mem_cons.1 hvs
      rw [Visit.reported, ← List.append_assoc]
      refine ih hrest (spelled_newly hbefore hspelled) ?_
      rw [List.filterMap_append, ← hs, filterMap_newly, failures_unlink]
      simp [Visit.isRmdir, Visit.place, Visit.failure]
  | @rmdir s _ r _ _ ih =>
      obtain ⟨⟨hspelled, hne⟩, hrest⟩ := List.forall_mem_cons.1 hvs
      rw [Visit.reported, ← List.append_assoc]
      refine ih hrest (spelled_newly hbefore hspelled) ?_
      have hwithin : s.hasFailedWithin (p.under r) = before.any fun w => r.isPrefixOf w.place :=
        hasFailedWithin_under hbefore hs hspelled (hne (by simp [Visit.isRmdir]))
      rw [List.filterMap_append, ← hs, filterMap_newly, failures_rmdir, hwithin]
      simp [Visit.isRmdir, Visit.place, Visit.failure]

end Sweep

end ArtifactCache
