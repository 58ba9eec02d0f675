import ArtifactCache.Proofs.FileSystem.Outcome
import ArtifactCache.Proofs.FileSystem.Thinning

namespace ArtifactCache

variable {faults : Faults} {fs gs : FileSystem} {d e : Location} {a : Path} {m n : String}

namespace FileSystem

theorem compare_concat (d : Location) (m n : String) :
    compare (d ++ [m]) (d ++ [n]) = compare m n := by
  induction d with
  | nil =>
      rw [List.nil_append, List.nil_append, List.compare_cons_cons]
      cases compare m n <;> rfl
  | cons x d ih =>
      rw [List.cons_append, List.cons_append, List.compare_cons_cons, ih,
        Std.LawfulEqOrd.compare_eq_iff_eq.2 rfl]
      rfl

theorem children_ordered (fs : FileSystem) (d : Location) :
    (fs.children d).Pairwise fun m n => compare m n = .lt := by
  refine List.Pairwise.filterMap _ ?_ Std.ExtTreeMap.ordered_keys
  intro k l hkl m hm n hn
  obtain rfl := Location.childName?_eq_some_iff.1 hm
  obtain rfl := Location.childName?_eq_some_iff.1 hn
  rwa [compare_concat] at hkl

theorem children_nodup (fs : FileSystem) (d : Location) : (fs.children d).Nodup := by
  refine (fs.children_ordered d).imp fun {m n} hmn heq => ?_
  subst heq
  rw [Std.LawfulEqOrd.compare_eq_iff_eq.2 rfl] at hmn
  cases hmn

theorem children_congr (h : ∀ n, (fs.item? (d ++ [n])).isSome ↔ (gs.item? (e ++ [n])).isSome) :
    fs.children d = gs.children e := by
  have hperm : (fs.children d).Perm (gs.children e) := by
    refine (List.perm_ext_iff_of_nodup (children_nodup fs d) (children_nodup gs e)).2 fun n => ?_
    rw [mem_children, mem_children]
    exact h n
  refine hperm.eq_of_pairwise ?_ (children_ordered fs d) (children_ordered gs e)
  intro m n _ _ hmn hnm
  rw [Std.OrientedOrd.eq_swap, hnm] at hmn
  cases hmn

theorem entriesOf_congr (h : ∀ n, fs.item? (d ++ [n]) = gs.item? (e ++ [n])) :
    fs.entriesOf d = gs.entriesOf e := by
  have hchildren : fs.children d = gs.children e := children_congr fun n => by rw [h]
  rw [entriesOf, entriesOf, hchildren]
  refine congrArg (fun f => List.filterMap f (gs.children e)) (funext fun n => ?_)
  rw [h]

theorem names_entriesOf (fs : FileSystem) (d : Location) :
    (fs.entriesOf d).map (·.1) = fs.children d := by
  have hfound : ∀ names : List String, (∀ n ∈ names, (fs.item? (d ++ [n])).isSome) →
      (names.filterMap fun n => (fs.item? (d ++ [n])).map fun i => (n, i)).map (·.1) = names := by
    intro names hnames
    induction names with
    | nil => rfl
    | cons n names ih =>
        obtain ⟨item, hitem⟩ := Option.isSome_iff_exists.1 (hnames n (by simp))
        rw [List.filterMap_cons_some (by rw [hitem]; rfl), List.map_cons,
          ih fun m hm => hnames m (List.mem_cons_of_mem n hm)]
  exact hfound _ fun n hn => mem_children.1 hn

theorem nodup_entriesOf (fs : FileSystem) (d : Location) : ((fs.entriesOf d).map (·.1)).Nodup := by
  rw [names_entriesOf]
  exact children_nodup fs d

end FileSystem

def Faults.refusedListing (faults : Faults) (p : Pathname) : Option Errno :=
  (Outcome.of (faults.list p) (if p.isTooLong then some .nameTooLong else none)).errno

theorem Faults.notTooLong_of_listed {p : Pathname} (h : faults.refusedListing p = none) :
    p.isTooLong = false := by
  rw [← Bool.not_eq_true]
  intro hlong
  rw [refusedListing, if_pos hlong] at h
  rcases hlist : faults.list p with _ | ⟨errno⟩ | _ <;> rw [hlist] at h <;> cases h

theorem Faults.listing_of_leadsTo (faults : Faults) {p : Pathname}
    (h : p.isTooLong = false → fs.LeadsTo p d) :
    faults.listing fs p =
      match faults.refusedListing p with
      | some e => .error ⟨e, [p]⟩
      | none => .ok (fs.entriesOf d) := by
  have hlist : fs.list p =
      if p.isTooLong then .error .nameTooLong else .ok (fs.entriesOf d) := by
    cases hlong : p.isTooLong with
    | true => simp [FileSystem.list, FileSystem.resolve, FileSystem.follow, hlong]
    | false => simpa using (h hlong).list
  simp only [listing, refusedListing, hlist]
  rcases faults.list p with _ | ⟨errno⟩ | _ <;> cases p.isTooLong <;> rfl

theorem Faults.listing_eq (faults : Faults) (ha : a.anchor ≠ .relative)
    (h : fs.item? a.parts = some .directory) :
    faults.listing fs a.toPathname =
      match faults.refusedListing a.toPathname with
      | some e => .error ⟨e, [a.toPathname]⟩
      | none => .ok (fs.entriesOf a.parts) :=
  faults.listing_of_leadsTo (FileSystem.leadsTo_of_item? ha h)

end ArtifactCache
