import ArtifactCache.Proofs.FileSystem.Moving
import ArtifactCache.Proofs.FileSystem.Thinning
import ArtifactCache.Proofs.Path.NormalForm
import ArtifactCache.Proofs.UniqueList.Firsts
import ArtifactCache.SourceRoots.Present

namespace ArtifactCache.SourceRoots

variable {fs : FileSystem} {k : Kind} {d : Descriptor} {p : Path} {ps sources resources : List Path}
  {u v : UniqueList Path} {e : Failure} {base : String}

def LeftOpen (fs : FileSystem) (p : Path) : Prop :=
  p.toPathname.hasNul = false ∧ fs.resolve p.toPathname = .error .nameTooLong

def leads (fs : FileSystem) (p : Path) : Bool := fs.isDirectory p.toPathname

theorem leads_iff : leads fs p = true ↔ ∃ loc, fs.LeadsTo p.toPathname loc :=
  FileSystem.isDirectory_iff

theorem isThere_of_leftOpen (h : LeftOpen fs p) :
    isThere fs p = .error ⟨.nameTooLong, [p.toPathname]⟩ := by
  rw [isThere, FileSystem.isDirectory?, h.2]
  simp only [h.1, Bool.false_eq_true, if_false]
  rfl

theorem isThere_of_not_leftOpen (h : ¬ LeftOpen fs p) :
    isThere fs p = .ok (leads fs p) := by
  unfold isThere FileSystem.isDirectory? leads FileSystem.isDirectory
  split
  · next hlong =>
      have hnul : ¬ p.toPathname.hasNul = false := fun hnul => h ⟨hnul, hlong⟩
      rw [if_pos (Bool.not_eq_false _ ▸ hnul), hlong]
      rfl
  · rfl

inductive FirstOpen (fs : FileSystem) (p : Path) : List Path → Prop
  | here (ps : List Path) (h : LeftOpen fs p) : FirstOpen fs p (p :: ps)
  | later (q : Path) {ps : List Path} (hq : ¬ LeftOpen fs q) (h : FirstOpen fs p ps) :
      FirstOpen fs p (q :: ps)

theorem thoseThere_eq (fs : FileSystem) (ps : List Path) :
    (∃ p, FirstOpen fs p ps ∧ thoseThere fs ps = .error ⟨.nameTooLong, [p.toPathname]⟩) ∨
      (∀ p ∈ ps, ¬ LeftOpen fs p) ∧
        thoseThere fs ps = .ok (ps.filter (leads fs)) := by
  induction ps with
  | nil => exact .inr ⟨by simp, rfl⟩
  | cons p ps ih =>
      rw [thoseThere]
      by_cases hopen : LeftOpen fs p
      · exact .inl ⟨p, .here ps hopen, by rw [isThere_of_leftOpen hopen]; rfl⟩
      rw [isThere_of_not_leftOpen hopen]
      rcases ih with ⟨q, hq, herror⟩ | ⟨hnone, hfound⟩
      · exact .inl ⟨q, .later p hopen hq, by rw [herror]; rfl⟩
      · refine .inr ⟨List.forall_mem_cons.2 ⟨hopen, hnone⟩, ?_⟩
        rw [hfound, List.filter_cons]
        cases leads fs p <;> rfl

theorem FirstOpen.not_forall (h : FirstOpen fs p ps) : ¬ ∀ q ∈ ps, ¬ LeftOpen fs q := by
  intro hnone
  induction h with
  | here ps hp => exact hnone p List.mem_cons_self hp
  | later q hq h ih => exact ih fun r hr => hnone r (List.mem_cons_of_mem q hr)

theorem FirstOpen.unique {q : Path} (hp : FirstOpen fs p ps) (hq : FirstOpen fs q ps) : p = q := by
  induction hp with
  | here ps hp =>
      cases hq with
      | here => rfl
      | later _ hnot => exact absurd hp hnot
  | later r hr _ ih =>
      cases hq with
      | here _ hr' => exact absurd hr' hr
      | later _ _ h => exact ih h

structure Lists (fs : FileSystem) (sources resources : List Path) (u : UniqueList Path) : Prop where
  mem_iff : ∀ p, p ∈ u.items ↔ p ∈ sources ++ resources ∧ ∃ loc, fs.LeadsTo p.toPathname loc
  order : u.items.Pairwise fun p q =>
    (sources ++ resources).idxOf p < (sources ++ resources).idxOf q
  cut : ∃ front back, u.items = front ++ back ∧ (∀ p ∈ front, p ∈ sources) ∧
    ∀ p ∈ back, p ∉ sources

theorem Lists.nodup (h : Lists fs sources resources u) : u.items.Nodup := by
  refine h.order.imp fun {p q} hlt => ?_
  rintro rfl
  exact Nat.lt_irrefl _ hlt

theorem lists_ofList (fs : FileSystem) (sources resources : List Path) :
    Lists fs sources resources (.ofList ((sources ++ resources).filter (leads fs))) where
  mem_iff p := by rw [UniqueList.mem_ofList, List.mem_filter, leads_iff]
  order := UniqueList.pairwise_ofList_filter _ _
  cut := by
    have horder := UniqueList.pairwise_ofList_filter (leads fs) (sources ++ resources)
    have hfront : (UniqueList.ofList (sources.filter (leads fs))).items <+:
        (UniqueList.ofList ((sources ++ resources).filter (leads fs))).items := by
      rw [List.filter_append, UniqueList.ofList, UniqueList.ofList, UniqueList.extend_append]
      exact UniqueList.items_prefix_extend _ _
    obtain ⟨back, hback⟩ := hfront
    refine ⟨_, back, hback.symm, fun p hp => List.mem_of_mem_filter (UniqueList.mem_ofList.1 hp),
      fun p hp hsource => ?_⟩
    have hmem := UniqueList.mem_ofList.1 (hback ▸ List.mem_append_right _ hp)
    have hfirst := UniqueList.mem_ofList.2 (List.mem_filter.2 ⟨hsource, List.of_mem_filter hmem⟩)
    rw [← hback] at horder
    exact Nat.lt_irrefl _ ((List.pairwise_append.1 horder).2.2 p hfirst p hp)

theorem Lists.unique (hu : Lists fs sources resources u) (hv : Lists fs sources resources v) :
    u = v := by
  have hperm : u.items.Perm v.items := (List.perm_ext_iff_of_nodup hu.nodup hv.nodup).2 fun p =>
    (hu.mem_iff p).trans (hv.mem_iff p).symm
  exact UniqueList.eq_of_items (hperm.eq_of_pairwise
    (fun p q _ _ hpq hqp => absurd hpq (Nat.lt_asymm hqp)) hu.order hv.order)

def seenFrom (base : String) (roots : List String) : List Path :=
  roots.map fun root => .ofText (Path.joined base root)

theorem candidates_eq (k : Kind) (d : Descriptor) (base : String) :
    candidates k d (.ofText base) =
      seenFrom base (d.sources k) ++ seenFrom base (d.resources k) := by
  rw [seenFrom, seenFrom, ← List.map_append]
  exact List.map_congr_left fun root _ => Path.append_ofText base root

theorem present_eq_ok_iff :
    present fs k d (.ofText base) = .ok u ↔
      (∀ p ∈ seenFrom base (d.sources k) ++ seenFrom base (d.resources k), ¬ LeftOpen fs p) ∧
        Lists fs (seenFrom base (d.sources k)) (seenFrom base (d.resources k)) u := by
  rw [present, candidates_eq]
  rcases thoseThere_eq fs (seenFrom base (d.sources k) ++ seenFrom base (d.resources k)) with
    ⟨p, hp, herror⟩ | ⟨hnone, hfound⟩
  · rw [herror]
    exact ⟨nofun, fun h => absurd h.1 hp.not_forall⟩
  · rw [hfound]
    constructor
    · rintro ⟨⟩
      exact ⟨hnone, lists_ofList ..⟩
    · rintro ⟨-, hlists⟩
      exact congrArg Except.ok ((lists_ofList ..).unique hlists)

theorem present_eq_error_iff :
    present fs k d (.ofText base) = .error e ↔
      ∃ p, FirstOpen fs p (seenFrom base (d.sources k) ++ seenFrom base (d.resources k)) ∧
        e = ⟨.nameTooLong, [p.toPathname]⟩ := by
  rw [present, candidates_eq]
  rcases thoseThere_eq fs (seenFrom base (d.sources k) ++ seenFrom base (d.resources k)) with
    ⟨p, hp, herror⟩ | ⟨hnone, hfound⟩
  · rw [herror]
    constructor
    · rintro ⟨⟩
      exact ⟨p, hp, rfl⟩
    · rintro ⟨q, hq, rfl⟩
      rw [hp.unique hq]
      rfl
  · rw [hfound]
    refine ⟨nofun, ?_⟩
    rintro ⟨p, hp, -⟩
    exact absurd hnone hp.not_forall

theorem present_lists (fs : FileSystem) (k : Kind) (d : Descriptor) (base : String) :
    (∀ u, present fs k d (.ofText base) = .ok u ↔
      (∀ p ∈ seenFrom base (d.sources k) ++ seenFrom base (d.resources k), ¬ LeftOpen fs p) ∧
        Lists fs (seenFrom base (d.sources k)) (seenFrom base (d.resources k)) u) ∧
    (∀ e, present fs k d (.ofText base) = .error e ↔
      ∃ p, FirstOpen fs p (seenFrom base (d.sources k) ++ seenFrom base (d.resources k)) ∧
        e = ⟨.nameTooLong, [p.toPathname]⟩) ∧
    (∀ s t, Path.ofText s = .ofText t ↔ Path.normalForm s = Path.normalForm t) ∧
    ∀ other : Descriptor, other.sources k = d.sources k → other.resources k = d.resources k →
      present fs k other (.ofText base) = present fs k d (.ofText base) := by
  refine ⟨fun u => present_eq_ok_iff, fun e => present_eq_error_iff, fun s t => Path.ofText_eq_iff,
    fun other hsources hresources => ?_⟩
  rw [present, present, candidates, candidates, hsources, hresources]

def linkedModule : FileSystem :=
  (((FileSystem.empty.including ⟨["", "m"]⟩ .directory).including ⟨["", "m", "s"]⟩
    .directory).including ⟨["", "m", "r"]⟩ .directory).including ⟨["", "m", "l"]⟩ (.link ⟨["s"]⟩)

def oddRoots : Descriptor := ⟨["./s/", "gone", "l", "../m/s"], ["r"], ["r", "s//.", "/m/r"], []⟩

theorem oddRoots_listed :
    ∃ u, present linkedModule .main oddRoots (.ofText "m") = .ok u ∧
      u.items.map Path.toText = ["m/s", "m/l", "m/../m/s", "m/r", "/m/r"] ∧
      Lists linkedModule (seenFrom "m" oddRoots.mainSources) (seenFrom "m" oddRoots.mainResources)
        u := by
  have hodd : (present linkedModule .main oddRoots (.ofText "m")).toOption.map
      (fun u => u.items.map Path.toText) = some ["m/s", "m/l", "m/../m/s", "m/r", "/m/r"] := by
    decide +kernel
  obtain ⟨hok, -⟩ := present_lists linkedModule .main oddRoots "m"
  generalize present linkedModule .main oddRoots (.ofText "m") = found at hodd hok ⊢
  cases found with
  | error e => cases hodd
  | ok u => exact ⟨u, rfl, Option.some.inj hodd, ((hok u).1 rfl).2⟩

end ArtifactCache.SourceRoots
