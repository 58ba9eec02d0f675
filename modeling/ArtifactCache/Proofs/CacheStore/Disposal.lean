import ArtifactCache.CacheStore.Wipe
import ArtifactCache.Proofs.Path
import ArtifactCache.Proofs.Removal

namespace ArtifactCache.CacheStore

variable {faults : Faults} {fs : FileSystem} {dir : Path} {names : List String} {loc : Location}

def Named (p : Pathname) (names : List String) (q : Pathname) : Prop :=
  ∃ n ∈ names, (p.child n).Within q

def Doomed (p : Pathname) (names : List String) (loc l : Location) : Prop :=
  ∃ n ∈ names, (p.child n).isTooLong = false ∧ loc ++ [n] <+: l

def Removable (p : Pathname) (names : List String) (loc l : Location) : Prop :=
  p.Finds loc l ∧ ∃ n ∈ names, loc ++ [n] <+: l

theorem Removable.doomed {p : Pathname} {l : Location} (h : Removable p names loc l) :
    Doomed p names loc l := by
  obtain ⟨hfinds, n, hn, hl⟩ := h
  exact ⟨n, hn, hfinds.notTooLong_child hl, hl⟩

theorem not_doomed_dir {p : Pathname} : ¬ Doomed p names loc loc := by
  rintro ⟨n, -, -, hp⟩
  exact FileSystem.not_prefix_dir hp

theorem dispose_cons (faults : Faults) (fs : FileSystem) (target : Path) (targets : List Path) :
    let r := removeAt faults fs target.toPathname
    let rest := dispose faults r.files targets
    let d := dispose faults fs (target :: targets)
    ((∃ e, r.result = .error (.call e)) ∧ d.files = r.files ∧ d.steps = r.steps ∧
      d.aborted ≠ none) ∨
    ((¬ ∃ e, r.result = .error (.call e)) ∧ d.files = rest.files ∧ d.steps = r.steps ++ rest.steps ∧
      d.aborted = rest.aborted ∧
      (d.failedPaths = [] ↔ r.result = .ok () ∧ rest.failedPaths = [])) := by
  simp only [dispose]
  cases hr : (removeAt faults fs target.toPathname).result with
  | ok u => right; simp [Disposal.after]
  | error e =>
      cases e with
      | call e => left; simp
      | incomplete e => right; simp [Disposal.after, removeAt_incomplete hr]

section

variable (ha : dir.anchor ≠ .relative) (hsteps : ∀ part ∈ dir.parts, isStep part = false)

include ha hsteps

theorem toPathname_child (name : String) :
    (dir.child name).toPathname = dir.toPathname.child name := by
  refine Path.toPathname_child ha (fun part hpart => ?_) name
  rintro rfl
  cases hsteps "" hpart

variable (hnames : ∀ n ∈ names, isStep n = false)

include hnames

theorem dispose_removable (faults : Faults) (h : fs.LeadsOnlyTo dir.toPathname loc) :
    Clearing faults (Named dir.toPathname names) (Removable dir.toPathname names loc) fs
      (dispose faults fs (names.map dir.child)).steps
      (dispose faults fs (names.map dir.child)).files := by
  induction names generalizing fs with
  | nil => exact .nil ..
  | cons n names ih =>
      have hfirst : Clearing faults (Named dir.toPathname (n :: names))
          (Removable dir.toPathname (n :: names) loc) fs
          (removeAt faults fs (dir.child n).toPathname).steps
          (removeAt faults fs (dir.child n).toPathname).files := by
        rw [toPathname_child ha hsteps]
        exact (removeAt_clearing (Path.isEmpty_toPathname ha) (hnames n (by simp)) faults h).mono
          (fun q hq => ⟨n, by simp, hq⟩) fun l hl => ⟨hl.1, n, by simp, hl.2⟩
      rw [List.map_cons]
      rcases dispose_cons faults fs (dir.child n) (names.map dir.child) with
        ⟨-, hfiles, hstep, -⟩ | ⟨-, hfiles, hstep, -, -⟩
      · rw [hfiles, hstep]
        exact hfirst
      · rw [hfiles, hstep]
        refine hfirst.append ((ih (fun m hm => hnames m (by simp [hm])) ?_).mono ?_ ?_)
        · exact hfirst.thinned.leadsOnlyTo h
        · exact fun q hq => hq.imp fun m hm => ⟨by simp [hm.1], hm.2⟩
        · exact fun l hl => ⟨hl.1, hl.2.imp fun m hm => ⟨by simp [hm.1], hm.2⟩⟩

theorem dispose_clearing (faults : Faults) (h : fs.LeadsOnlyTo dir.toPathname loc) :
    Clearing faults (Named dir.toPathname names) (Doomed dir.toPathname names loc) fs
      (dispose faults fs (names.map dir.child)).steps
      (dispose faults fs (names.map dir.child)).files :=
  (dispose_removable ha hsteps hnames faults h).mono (fun _ hq => hq) fun _ hl => hl.doomed

theorem dispose_thinned (faults : Faults) (fs : FileSystem) :
    FileSystem.Thinned (fun _ => True) fs (dispose faults fs (names.map dir.child)).files := by
  obtain ⟨loc, h⟩ := fs.exists_leadsOnlyTo dir.toPathname
  exact (dispose_clearing ha hsteps hnames faults h).thinned.mono fun _ _ => trivial

-- Every target has its turn, and whatever comes after it only takes more away.
theorem dispose_turn (haborted : (dispose faults fs (names.map dir.child)).aborted = none)
    {n : String} (hn : n ∈ names) :
    ∃ gs, (∀ step ∈ (removeAt faults gs (dir.toPathname.child n)).steps,
        step ∈ (dispose faults fs (names.map dir.child)).steps) ∧
      ((dispose faults fs (names.map dir.child)).failedPaths = [] →
        (removeAt faults gs (dir.toPathname.child n)).result = .ok ()) ∧
      FileSystem.Thinned (fun _ => True) (removeAt faults gs (dir.toPathname.child n)).files
        (dispose faults fs (names.map dir.child)).files := by
  induction names generalizing fs with
  | nil => cases hn
  | cons m names ih =>
      have hrest : ∀ m ∈ names, isStep m = false := fun m hm => hnames m (by simp [hm])
      rw [List.map_cons] at haborted ⊢
      rcases dispose_cons faults fs (dir.child m) (names.map dir.child) with
        ⟨-, -, -, hab⟩ | ⟨-, hfiles, hstep, hab, hfail⟩
      · exact absurd haborted hab
      · rw [hfiles, hstep, hfail]
        rcases List.mem_cons.1 hn with rfl | hn
        · refine ⟨fs, ?_, ?_, ?_⟩ <;> rw [← toPathname_child ha hsteps]
          · exact fun step hs => List.mem_append_left _ hs
          · exact fun hok => hok.1
          · exact dispose_thinned ha hsteps hrest faults _
        · obtain ⟨gs, hturn, hok, hthin⟩ := ih hrest (hab ▸ haborted) hn
          exact ⟨gs, fun step hs => List.mem_append_right _ (hturn step hs),
            fun hfailed => hok hfailed.2, hthin⟩

theorem dispose_ok (haborted : (dispose faults fs (names.map dir.child)).aborted = none)
    (hfailed : (dispose faults fs (names.map dir.child)).failedPaths = [])
    (htrue : ∀ step ∈ (dispose faults fs (names.map dir.child)).steps, step.isTruthful = true) :
    ∀ n ∈ names, (dispose faults fs (names.map dir.child)).files.isOccupied
      (dir.toPathname.child n) = false := by
  intro n hn
  obtain ⟨gs, hturn, hok, hthin⟩ := dispose_turn ha hsteps hnames haborted hn
  refine hthin.unoccupied (removeAt_ok (Path.isEmpty_toPathname ha) (hnames n hn) (hok hfailed) ?_)
  exact fun step hs => htrue step (hturn step hs)

theorem dispose_unhindered (haborted : (dispose faults fs (names.map dir.child)).aborted = none)
    {n : String} (hn : n ∈ names)
    (hclean : ∀ step ∈ (dispose faults fs (names.map dir.child)).steps,
      step.call.Deletes (dir.toPathname.child n) → step.failure = none) :
    (dispose faults fs (names.map dir.child)).files.isOccupied
      (dir.toPathname.child n) = false := by
  obtain ⟨gs, hturn, -, hthin⟩ := dispose_turn ha hsteps hnames haborted hn
  refine hthin.unoccupied (removeAt_unhindered (Path.isEmpty_toPathname ha) (hnames n hn) ?_)
  exact fun step hs => hclean step (hturn step hs)

theorem mem_of_refuses {n : String} {step : Step}
    (hstep : step ∈ (dispose faults fs (names.map dir.child)).steps)
    (hrefuses : step.Refuses (dir.toPathname.child n)) : n ∈ names := by
  obtain ⟨loc, honly⟩ := fs.exists_leadsOnlyTo dir.toPathname
  obtain ⟨q, hq, m, hm, hwithin⟩ :=
    (dispose_clearing ha hsteps hnames faults honly).deletes step hstep
  obtain rfl := Call.Deletes.unique (.inl hrefuses.1) hq
  obtain rfl := hwithin.eq_of_child (hnames m hm)
  exact hm

theorem dispose_aborted_iff :
    (dispose faults fs (names.map dir.child)).aborted ≠ none ↔
      ∃ step ∈ (dispose faults fs (names.map dir.child)).steps,
        ∃ n ∈ names, step.Refuses (dir.toPathname.child n) := by
  induction names generalizing fs with
  | nil => simp [dispose, Disposal.nothing]
  | cons n names ih =>
      have hempty := Path.isEmpty_toPathname ha
      have hn : isStep n = false := hnames n (by simp)
      have hrest : ∀ m ∈ names, isStep m = false := fun m hm => hnames m (by simp [hm])
      have hrefused := removeAt_refused_iff hempty hn faults fs
      rw [← toPathname_child ha hsteps] at hrefused
      rw [List.map_cons]
      rcases dispose_cons faults fs (dir.child n) (names.map dir.child) with
        ⟨hbroken, -, hstep, hab⟩ | ⟨hwhole, -, hstep, hab, -⟩
      · obtain ⟨step, hs, href⟩ := hrefused.1 hbroken
        rw [toPathname_child ha hsteps] at href
        exact iff_of_true hab ⟨step, by rwa [hstep], n, by simp, href⟩
      · rw [hab, hstep, ih hrest]
        constructor
        · rintro ⟨step, hs, m, hm, href⟩
          exact ⟨step, List.mem_append_right _ hs, m, by simp [hm], href⟩
        · rintro ⟨step, hs, m, hm, href⟩
          rcases List.mem_append.1 hs with hs | hs
          · obtain ⟨loc, honly⟩ := fs.exists_leadsOnlyTo dir.toPathname
            rw [toPathname_child ha hsteps] at hs hrefused hwhole
            obtain ⟨q, hq, hwithin⟩ :=
              (removeAt_clearing hempty hn faults honly).deletes step hs
            obtain rfl := Call.Deletes.unique (.inl href.1) hq
            obtain rfl := hwithin.eq_of_child hn
            exact absurd (hrefused.2 ⟨step, hs, href⟩) hwhole
          · exact ⟨step, hs, m, mem_of_refuses ha hsteps hrest hs href, href⟩

theorem dispose_unoccupied (faults : Faults)
    (hocc : ∀ n ∈ names, fs.isOccupied (dir.toPathname.child n) = false) :
    (dispose faults fs (names.map dir.child)).files = fs ∧
      (dispose faults fs (names.map dir.child)).aborted = none ∧
      (dispose faults fs (names.map dir.child)).failedPaths = [] := by
  induction names generalizing fs with
  | nil => exact ⟨rfl, rfl, rfl⟩
  | cons n names ih =>
      have hnothing : removeAt faults fs (dir.child n).toPathname = .nothing fs := by
        rw [toPathname_child ha hsteps]
        exact removeAt_unoccupied faults (hocc n (by simp))
      have hrest := ih (fun m hm => hnames m (by simp [hm])) fun m hm => hocc m (by simp [hm])
      rw [List.map_cons]
      rcases dispose_cons faults fs (dir.child n) (names.map dir.child) with
        ⟨⟨e, he⟩, -⟩ | ⟨-, hfiles, -, hab, hfail⟩
      · rw [hnothing] at he; cases he
      · rw [hnothing] at hfiles hab hfail
        exact ⟨hfiles.trans hrest.1, hab.trans hrest.2.1, hfail.2 ⟨rfl, hrest.2.2⟩⟩

end

end ArtifactCache.CacheStore
