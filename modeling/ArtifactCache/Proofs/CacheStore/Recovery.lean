import ArtifactCache.Proofs.CacheStore.Completeness
import ArtifactCache.Proofs.CacheStore.EntryName
import ArtifactCache.Proofs.CacheStore.Frame
import ArtifactCache.Proofs.CacheStore.Reporting
import ArtifactCache.Proofs.FileSystem.Making
import ArtifactCache.Proofs.Removal.Faultless

namespace ArtifactCache.CacheStore

variable {faults : Faults} {fs gs hs : FileSystem} {serial : Nat} {s : CacheStore} {dir : Path}
  {names : List String} {name : String} {P : Location}

/-- Something else is beneath a root now. The working directory may have been removed. -/
structure Rewritten (root : Path) (fs gs : FileSystem) : Prop where
  here : gs.workingDirectory? = none ∨ gs.workingDirectory? = fs.workingDirectory?
  outside : ∀ l, ¬ root.parts <+: l → gs.item? l = fs.item? l

inductive Reached (s : CacheStore) (fs : FileSystem) : FileSystem → Prop
  | start : Reached s fs fs
  | made {gs : FileSystem} (h : Reached s fs gs) (faults : Faults) (c : Coordinate)
      (hash : String) : Reached s fs (makeEntry faults gs s c hash).files
  | written {gs hs : FileSystem} (h : Reached s fs gs) (hw : Rewritten (s.place gs) gs hs) :
      Reached s fs hs
  | wiped {gs : FileSystem} (h : Reached s fs gs) (faults : Faults) (serial : Nat) :
      Reached s fs (s.wipe faults gs serial).files

theorem NoLinkOn.congr {loc : Location} (h : fs.NoLinkOn loc)
    (hsame : ∀ q, q <+: loc → gs.isLinkAt q = true → fs.isLinkAt q = true) : gs.NoLinkOn loc := by
  intro k hk
  by_contra hlink
  have hbefore := hsame _ (List.take_prefix k loc) (Bool.not_eq_false _ ▸ hlink)
  rw [h k hk] at hbefore
  cases hbefore

theorem wipe_above (h : s.Placed fs) (hlinks : fs.NoLinkOn (s.place fs).parent.parts)
    (faults : Faults) (serial : Nat) {q : Location} (hq : q <+: (s.place fs).parent.parts) :
    (s.wipe faults fs serial).files.item? q = fs.item? q := by
  by_cases hP : ∃ P, fs.LeadsTo (s.beside fs) P
  · obtain ⟨P, hP⟩ := hP
    obtain rfl := hlinks.leadsOnlyTo (Placed.anchor s fs) h.isStep_parent P hP
    have hlead := leadsTo_beside h hlinks hP (start_dir h hP faults serial)
    refine wipe_outside h hP hlead.leadsOnlyTo fun n _ hn => ?_
    exact FileSystem.not_prefix_dir (hn.trans hq)
  · rw [wipe_nowhere h fun P hP' => hP ⟨P, hP'⟩]

structure Settled (s : CacheStore) (fs : FileSystem) : Prop where
  placed : s.Placed fs
  noLink : fs.NoLinkOn (s.place fs).parent.parts

theorem Anchored.of_workingDirectory (h : s.Anchored gs)
    (hhere : gs.workingDirectory? = none ∨ gs.workingDirectory? = fs.workingDirectory?) :
    s.Anchored fs ∧ (s.root.anchor = .relative → gs.here = fs.here) := by
  by_cases hrelative : s.root.anchor = .relative
  · have hsome := FileSystem.workingDirectory?_eq_some_iff.2 ⟨rfl, h hrelative⟩
    rcases hhere with hnone | hsame
    · rw [hsome] at hnone
      cases hnone
    · obtain ⟨hfs, hdir⟩ := FileSystem.workingDirectory?_eq_some_iff.1 (hsame.symm.trans hsome)
      exact ⟨fun _ => hfs ▸ hdir, fun _ => hfs.symm⟩
  · exact ⟨fun hrel => absurd hrel hrelative, fun hrel => absurd hrel hrelative⟩

theorem Settled.of_same_parent (h : Settled s fs) (hanchored : s.Anchored gs)
    (hbelow : (s.place gs).parts ≠ []) (hparent : (s.place gs).parent = (s.place fs).parent)
    (hlinks : ∀ q, q <+: (s.place fs).parent.parts → gs.isLinkAt q = true → fs.isLinkAt q = true) :
    Settled s gs := by
  refine ⟨⟨hanchored, h.placed.normal, hbelow⟩, ?_⟩
  rw [hparent]
  exact NoLinkOn.congr h.noLink hlinks

theorem Settled.of_same_place (h : Settled s fs) (hanchored : s.Anchored gs)
    (hhere : s.root.anchor = .relative → gs.here = fs.here)
    (hlinks : ∀ q, q <+: (s.place fs).parent.parts → gs.isLinkAt q = true → fs.isLinkAt q = true) :
    Settled s gs := by
  have hplace : s.place gs = s.place fs := place_congr hhere
  exact h.of_same_parent hanchored (by rw [hplace]; exact h.placed.below) (by rw [hplace]) hlinks

theorem place_of_relative (hrelative : s.root.anchor = .relative)
    (hhere : ∀ part ∈ fs.here, isStep part = false) :
    s.place fs = ⟨.root, Path.collapse fs.here s.root.parts⟩ := by
  have hup : ".." ∉ fs.here := fun hmem => by cases hhere _ hmem
  rw [place, Path.absolute_relative hrelative, Path.collapse_append hup, List.nil_append]

theorem place_of_moved (h : s.Placed fs) (hrelative : s.root.anchor = .relative)
    (hname : isStep name = false) {r : List String}
    (hhere : fs.here = (s.place fs).parent.parts ++ (s.place fs).name :: r)
    (hmoved : gs.here = (s.place fs).parent.parts ++ name :: r) :
    s.place gs = s.place fs ∨ s.place gs = (s.place fs).parent.child name := by
  have hsteps : ∀ part ∈ fs.here, isStep part = false := fun part hpart =>
    FileSystem.isStep_of_mem (by rw [h.anchored hrelative]; rfl) hpart
  have hsteps' : ∀ part ∈ gs.here, isStep part = false := by
    rw [hhere] at hsteps
    rw [hmoved]
    simp only [List.forall_mem_append, List.forall_mem_cons] at hsteps ⊢
    exact ⟨hsteps.1, hname, hsteps.2.2⟩
  have hplace := place_of_relative hrelative hsteps
  have hparts : Path.collapse fs.here s.root.parts =
      (s.place fs).parent.parts ++ [(s.place fs).name] := by
    rw [← h.parts_place, hplace]
  rw [place_of_relative hrelative hsteps', hmoved]
  rcases Path.collapse_swap (s.place fs).parent.parts (s.place fs).name name r s.root.parts with
    ⟨q, hold, hnew⟩ | hsame
  · obtain rfl : q = [] := by
      rw [← hhere, hparts] at hold
      simpa using List.append_cancel_left hold
    refine .inr ?_
    rw [hnew, hplace]
    rfl
  · rw [← hsame, ← hhere, ← hplace]
    exact .inl rfl

theorem Settled.made (h : Settled s fs) (faults : Faults) (c : Coordinate) (hash : String)
    (hanchored : s.Anchored (makeEntry faults fs s c hash).files) :
    Settled s (makeEntry faults fs s c hash).files := by
  have hgrown := makeEntry_grown faults fs s c hash
  obtain ⟨-, hhere⟩ := hanchored.of_workingDirectory (.inr hgrown.workingDirectory)
  refine h.of_same_place hanchored hhere fun q _ hlink => ?_
  rcases hgrown.item q with heq | ⟨-, hdir⟩
  · simpa only [FileSystem.isLinkAt, heq] using hlink
  · simp [FileSystem.isLinkAt, hdir] at hlink

theorem Settled.written (h : Settled s fs) (hw : Rewritten (s.place fs) fs gs)
    (hanchored : s.Anchored gs) : Settled s gs := by
  obtain ⟨-, hhere⟩ := hanchored.of_workingDirectory hw.here
  refine h.of_same_place hanchored hhere fun q hq hlink => ?_
  have hout : ¬ (s.place fs).parts <+: q := by
    intro hp
    have hlength := (hp.trans hq).length_le
    have hpos := List.length_pos_of_ne_nil h.placed.below
    simp only [Path.parent, List.length_dropLast] at hlength
    omega
  simpa only [FileSystem.isLinkAt, hw.outside q hout] using hlink

theorem Settled.wiped (h : Settled s fs) (faults : Faults) (serial : Nat)
    (hanchored : s.Anchored (s.wipe faults fs serial).files) :
    Settled s (s.wipe faults fs serial).files := by
  have hlinks : ∀ q, q <+: (s.place fs).parent.parts →
      (s.wipe faults fs serial).files.isLinkAt q = true → fs.isLinkAt q = true := by
    intro q hq hlink
    simpa only [FileSystem.isLinkAt, wipe_above h.placed h.noLink faults serial hq] using hlink
  by_cases hrelative : s.root.anchor = .relative
  case neg => exact h.of_same_place hanchored (fun hrel => absurd hrel hrelative) hlinks
  rcases wipe_here h.placed faults serial with
    hsame | ⟨P, r, hP, ⟨hhere, hmoved, -⟩ | ⟨-, hmoved⟩⟩
  · exact h.of_same_place hanchored (fun _ => hsame) hlinks
  · obtain rfl := h.noLink.leadsOnlyTo (Placed.anchor s fs) h.placed.isStep_parent P hP
    have htrash := isStep_of_isTrashName (isTrashName_trashName (s.place fs) (serial + 1))
    rcases place_of_moved h.placed hrelative htrash hhere hmoved with hplace | hplace
    · refine h.of_same_parent hanchored ?_ (by rw [hplace]) hlinks
      rw [hplace]
      exact h.placed.below
    · exact h.of_same_parent hanchored (by rw [hplace]; simp [Path.child])
        (by rw [hplace]; simp [Path.child, Path.parent]) hlinks
  · have hgone := hanchored hrelative
    rw [hmoved, FileSystem.item?_of_empty_mem (by simp)] at hgone
    cases hgone

-- No step makes a link above the root: what is made are directories, and the rest lies elsewhere.
theorem Settled.reached (h : Settled s fs) (hreached : Reached s fs gs)
    (hanchored : s.Anchored gs) : Settled s gs := by
  induction hreached with
  | start => exact h
  | @made gs _ faults c hash ih =>
      have hgrown := makeEntry_grown faults gs s c hash
      refine (ih ?_).made faults c hash hanchored
      exact (hanchored.of_workingDirectory (.inr hgrown.workingDirectory)).1
  | @written gs hs _ hw ih =>
      exact (ih (hanchored.of_workingDirectory hw.here).1).written hw hanchored
  | @wiped gs _ faults serial ih =>
      by_cases hbefore : s.Anchored gs
      · exact (ih hbefore).wiped faults serial hanchored
      · rw [wipe_of_not_anchored hbefore] at hanchored
        exact absurd hanchored hbefore

section

variable (ha : dir.anchor ≠ .relative) (hnames : ∀ n ∈ names, isStep n = false)
  (hdir : fs.item? dir.parts = some .directory)

include ha hdir

theorem dispose_never_cons (hn : isStep name = false) (targets : List Path) :
    let r := removeAt .never fs (dir.child name).toPathname
    let rest := dispose .never r.files targets
    let d := dispose .never fs (dir.child name :: targets)
    r.files.item? dir.parts = some .directory ∧ d.files = rest.files ∧ d.aborted = rest.aborted ∧
      (d.failedPaths = [] ↔ r.result = .ok () ∧ rest.failedPaths = []) := by
  have hthin := removeAt_thinned ha .never hdir hn
  have hstill : (removeAt .never fs (dir.child name).toPathname).files.item? dir.parts =
      some .directory := by
    rw [hthin.outside FileSystem.not_prefix_dir, hdir]
  rcases dispose_cons .never fs (dir.child name) targets with
    ⟨⟨e, he⟩, -⟩ | ⟨-, hfiles, -, habort, hfail⟩
  · rcases removeAt_never_cases ha hdir hn with ⟨hok, -⟩ | ⟨e', he'⟩
    · rw [he] at hok; cases hok
    · rw [he] at he'; cases he'
  · exact ⟨hstill, hfiles, habort, hfail⟩

include hnames

theorem dispose_never_failedPaths
    (hshort : ∀ n ∈ names, ∀ r, (fs.item? (dir.parts ++ n :: r)).isSome →
      (dir.below (n :: r)).toPathname.isTooLong = false) :
    (dispose .never fs (names.map dir.child)).failedPaths = [] := by
  induction names generalizing fs with
  | nil => rfl
  | cons n names ih =>
      have hn := hnames n (by simp)
      have hthin := removeAt_thinned ha .never hdir hn
      obtain ⟨hstill, -, -, hfail⟩ := dispose_never_cons ha hdir hn (names.map dir.child)
      refine hfail.2 ⟨(removeAt_never ha hdir hn (hshort n (by simp))).1, ?_⟩
      refine ih (fun m hm => hnames m (by simp [hm])) hstill fun m hm r hr => ?_
      obtain ⟨item, hitem⟩ := Option.isSome_iff_exists.1 hr
      exact hshort m (by simp [hm]) r (by rw [hthin.eq_some hitem]; rfl)

theorem dispose_never_gone :
    (dispose .never fs (names.map dir.child)).aborted = none ∧
      ((dispose .never fs (names.map dir.child)).failedPaths = [] →
        ∀ n ∈ names, (dir.child n).toPathname.isTooLong = false →
          (dispose .never fs (names.map dir.child)).files.item? (dir.parts ++ [n]) = none) := by
  induction names generalizing fs with
  | nil => exact ⟨rfl, by simp⟩
  | cons n names ih =>
      have hn := hnames n (by simp)
      have hrest : ∀ m ∈ names, isStep m = false := fun m hm => hnames m (by simp [hm])
      obtain ⟨hstill, hfiles, habort, hfail⟩ :=
        dispose_never_cons ha hdir hn (names.map dir.child)
      obtain ⟨hab, hall⟩ := ih hrest hstill
      have hsteps : ∀ part ∈ dir.parts, isStep part = false := fun part hpart =>
        FileSystem.isStep_of_mem (by rw [hdir]; rfl) hpart
      have hlater := dispose_thinned ha hsteps hrest .never
        (removeAt .never fs (dir.child n).toPathname).files
      rw [List.map_cons, hfiles, habort, hfail]
      refine ⟨hab, fun ⟨hok, hfailed⟩ m hm hshort => ?_⟩
      rcases List.mem_cons.1 hm with rfl | hm
      · rcases removeAt_never_cases ha hdir hn with ⟨-, hgone⟩ | ⟨e, he⟩
        · exact hlater.eq_none (hgone hshort)
        · rw [hok] at he; cases he
      · exact hall hfailed m hm hshort

end

def Cleared (fs : FileSystem) (root : Path) : Prop :=
  ∀ n, IsTarget root n → fs.item? (root.parent.parts ++ [n]) = none

def Fits (fs : FileSystem) (serial : Nat) (s : CacheStore) : Prop :=
  ∀ n r, IsTarget (s.place fs) n →
    ((plan .never fs serial s).start.item? ((s.place fs).parent.parts ++ n :: r)).isSome →
    ((s.place fs).parent.below (n :: r)).toPathname.isTooLong = false

theorem toPathname_below {r : Location} (ha : dir.anchor ≠ .relative)
    (h : (fs.item? (dir.parts ++ r)).isSome) :
    (dir.below r).toPathname = r.foldl Pathname.child dir.toPathname := by
  induction r generalizing dir with
  | nil => rw [Path.below_nil]; rfl
  | cons n r ih =>
      have hrest : (fs.item? ((dir.child n).parts ++ r)).isSome := by simpa [Path.child] using h
      have habove := FileSystem.isSome_of_above (d := dir.parts ++ [n]) h ⟨r, by simp⟩
      have hchild : ((dir.child n).below r).toPathname =
          r.foldl Pathname.child (dir.child n).toPathname := ih ha hrest
      rw [List.foldl_cons, ← FileSystem.toPathname_entry ha habove, ← hchild]
      simp [Path.child_eq_below]

section

variable (h : s.Placed fs) (hP : fs.LeadsTo (s.beside fs) (s.place fs).parent.parts)

include h hP

theorem mem_names_of_target (hname : IsTarget (s.place fs) name)
    (hi : ((plan faults fs serial s).start.item? ((s.place fs).parent.parts ++ [name])).isSome)
    (hshort : ((s.place fs).parent.child name).toPathname.isTooLong = false) :
    name ∈ (plan faults fs serial s).names := by
  rcases hname with rfl | htrash
  · rcases root_cases h hP faults serial with hroot | ⟨hocc, hsame⟩ | hgone
    · exact hroot
    · rw [hsame] at hi
      have hoccupied := FileSystem.isOccupied_entry (Placed.anchor s fs) hi
      rw [hshort, Path.child_parent h.below, hocc] at hoccupied
      cases hoccupied
    · rw [hgone _ List.prefix_rfl] at hi
      cases hi
  · exact mem_names_of_isTrashName h hP htrash hi

theorem wipe_never_ok (hfits : Fits fs serial s) : (s.wipe .never fs serial).result = .ok () := by
  obtain ⟨-, hresult⟩ := wipe_found h hP .never serial
  have hnames := isStep_of_mem_names h .never serial
  have hstart := start_dir h hP .never serial
  rw [hresult]
  refine disposalResult_ok (dispose_never_gone (Placed.anchor s fs) hnames hstart).1 ?_
  refine dispose_never_failedPaths (Placed.anchor s fs) hnames hstart fun n hn r hr => ?_
  exact hfits n r (isTarget_of_mem_names h hn) hr

variable (hlinks : fs.NoLinkOn (s.place fs).parent.parts)

include hlinks

theorem wipe_never_cleared
    (hshort : ∀ n, IsTarget (s.place fs) n →
      ((plan .never fs serial s).start.item? ((s.place fs).parent.parts ++ [n])).isSome →
      ((s.place fs).parent.child n).toPathname.isTooLong = false)
    (hok : (s.wipe .never fs serial).result = .ok ()) :
    Cleared (s.wipe .never fs serial).files (s.place fs) := by
  obtain ⟨hfiles, hresult⟩ := wipe_found h hP .never serial
  rw [hresult] at hok
  have hlead := leadsTo_beside h hlinks hP (start_dir h hP .never serial)
  intro n hn
  by_contra hne
  obtain ⟨item, hitem⟩ := Option.ne_none_iff_exists'.1 hne
  have hstart := (wipe_thinned h hlead.leadsOnlyTo).eq_some hitem
  have hn' := hshort n hn (by rw [hstart]; rfl)
  have hmem := mem_names_of_target h hP hn (by rw [hstart]; rfl) hn'
  have hgone := (dispose_never_gone (Placed.anchor s fs) (isStep_of_mem_names h .never serial)
    (start_dir h hP .never serial)).2 (ok_of_disposalResult hok).2 n hmem hn'
  rw [hfiles, disposal, hgone] at hitem
  cases hitem

theorem wipe_stays {r : Location} (faults : Faults) (serial : Nat)
    (hi : ((plan faults fs serial s).start.item? ((s.place fs).parent.parts ++ r)).isSome)
    (hlong : ((s.place fs).parent.below r).toPathname.isTooLong = true) :
    (s.wipe faults fs serial).files.item? ((s.place fs).parent.parts ++ r) =
      (plan faults fs serial s).start.item? ((s.place fs).parent.parts ++ r) := by
  have hlead := leadsTo_beside h hlinks hP (start_dir h hP faults serial)
  rcases (wipe_removable h hlead.leadsOnlyTo).item ((s.place fs).parent.parts ++ r) with
    heq | ⟨⟨⟨names, -, hnames, hshort⟩, -⟩, -⟩
  · exact heq
  · obtain rfl := List.append_cancel_left hnames
    rw [beside] at hshort
    rw [toPathname_below (Placed.anchor s fs) hi, hshort] at hlong
    cases hlong

theorem fits_of_cleared (hcleared : Cleared (s.wipe .never fs serial).files (s.place fs)) :
    Fits fs serial s := by
  intro n r hn hi
  have hgone : (s.wipe .never fs serial).files.item? ((s.place fs).parent.parts ++ n :: r) = none :=
    FileSystem.eq_none_of_above (hcleared n hn) ⟨r, by simp⟩
  by_contra hlong
  rw [← wipe_stays h hP hlinks .never serial hi (Bool.not_eq_false _ ▸ hlong), hgone] at hi
  cases hi

end

/-- A wipe without faults succeeds and leaves nothing exactly if every pathname is short enough.
Otherwise it says so, unless the pathname of a target itself is too long. -/
structure Recovers (fs : FileSystem) (serial : Nat) (s : CacheStore) : Prop where
  cleared : ((s.wipe .never fs serial).result = .ok () ∧
    Cleared (s.wipe .never fs serial).files (s.place fs)) ↔ Fits fs serial s
  reported : ¬ Fits fs serial s →
    (∀ n, IsTarget (s.place fs) n →
      ((plan .never fs serial s).start.item? ((s.place fs).parent.parts ++ [n])).isSome →
      ((s.place fs).parent.child n).toPathname.isTooLong = false) →
    ∃ e, (s.wipe .never fs serial).result = .error (.removal (.incomplete e)) ∧
      e.root = s.root.toPathname

theorem wipe_recovers_nowhere {b : Bool} (h : s.Placed fs)
    (hb : fs.isDirectory? (s.beside fs) = .ok b) (hP : ∀ P, ¬ fs.LeadsTo (s.beside fs) P) :
    Recovers fs serial s := by
  have hnone : ∀ n r, fs.item? ((s.place fs).parent.parts ++ n :: r) = none := fun n r =>
    FileSystem.eq_none_of_above (item?_of_nowhere hb hP) ⟨r, by rw [List.append_assoc]; rfl⟩
  have hfits : Fits fs serial s := by
    intro n r _ hi
    rw [plan_nowhere h hP, hnone] at hi
    cases hi
  obtain ⟨hok, hsame⟩ := wipe_idle h hb (unoccupied_of_nowhere h hP)
    (fun n hn => absurd (mem_trashNames.1 hn).choose_spec.1 (hP _)) .never serial
  refine ⟨⟨fun _ => hfits, fun _ => ⟨hok, fun n _ => ?_⟩⟩, fun hnot => absurd hfits hnot⟩
  rw [hsame]
  exact hnone n []

theorem wipe_recovers {b : Bool} (h : Settled s fs) (hreached : Reached s fs gs)
    (hanchored : s.Anchored gs) (hb : gs.isDirectory? (s.beside gs) = .ok b) :
    Recovers gs serial s := by
  obtain ⟨hplaced, hlinks⟩ := h.reached hreached hanchored
  by_cases hP : ∃ P, gs.LeadsTo (s.beside gs) P
  · obtain ⟨P, hP⟩ := hP
    obtain rfl := hlinks.leadsOnlyTo (Placed.anchor s gs) hplaced.isStep_parent P hP
    refine ⟨⟨fun hall => fits_of_cleared hplaced hP hlinks hall.2, fun hfits => ?_⟩, ?_⟩
    · have hok := wipe_never_ok hplaced hP hfits
      exact ⟨hok, wipe_never_cleared hplaced hP hlinks (fun n hn hi => hfits n [] hn hi) hok⟩
    · intro hfits hshort
      obtain ⟨-, hresult⟩ := wipe_found hplaced hP .never serial
      have hab := (dispose_never_gone (Placed.anchor s gs)
        (isStep_of_mem_names hplaced .never serial) (start_dir hplaced hP .never serial)).1
      refine ((isReported_iff hresult).2 hab).resolve_left fun hok => hfits ?_
      exact fits_of_cleared hplaced hP hlinks (wipe_never_cleared hplaced hP hlinks hshort hok)
  · exact wipe_recovers_nowhere hplaced hb fun P hP' => hP ⟨P, hP'⟩

def stuck : Faults :=
  { Faults.never with unlink := fun _ => some (.deny ⟨13⟩), rename := some ⟨16⟩ }

def stuckFiles : FileSystem :=
  (topStore.wipe stuck (makeEntry .never abandonedFiles topStore release "af03").files 0).files

theorem stuckFiles_recover : Settled topStore abandonedFiles ∧
    Reached topStore abandonedFiles stuckFiles ∧
    stuckFiles.isDirectory? (topStore.beside stuckFiles) = .ok true ∧
    stuckFiles.item? ["cache", "entry"] ≠ none ∧
    (topStore.wipe .never stuckFiles 1).files.item? ["cache"] = none := by
  have hsettled : Settled topStore abandonedFiles :=
    ⟨⟨by decide +kernel, by decide +kernel, by decide +kernel⟩, by decide +kernel⟩
  have hreached : Reached topStore abandonedFiles stuckFiles :=
    .wiped (.made .start .never release "af03") stuck 0
  have hb : stuckFiles.isDirectory? (topStore.beside stuckFiles) = .ok true := by decide +kernel
  refine ⟨hsettled, hreached, hb, by decide +kernel, ?_⟩
  have hrecovers : Recovers stuckFiles 1 topStore := wipe_recovers hsettled hreached nofun hb
  have hfits : Fits stuckFiles 1 topStore := by
    have hkeys : ∀ l ∈ (plan .never stuckFiles 1 topStore).start.entries.keys,
        (⟨.root, l⟩ : Path).toPathname.isTooLong = false := by decide +kernel
    intro n r _ hi
    refine hkeys (n :: r) (Std.ExtTreeMap.mem_keys.2 ?_)
    exact FileSystem.mem_entries_iff.2 ⟨by simp, hi⟩
  exact (hrecovers.cleared.2 hfits).2 "cache" (.inl (by decide +kernel))

def longName : String := String.ofList (List.replicate 203 'd')

theorem isName_longName : isName longName = true := by decide +kernel

def deepFiles : Nat → FileSystem
  | 0 => FileSystem.empty.including ⟨["", "cache"]⟩ .directory
  | level + 1 =>
      if h : (deepFiles level).item? ("cache" :: List.replicate level longName) =
            some .directory ∧
          (deepFiles level).item? ("cache" :: List.replicate level longName ++ [longName]) =
            none then
        (deepFiles level).put ("cache" :: List.replicate level longName) longName .directory h.1
          isName_longName (by rw [h.2]; simp)
      else deepFiles level

theorem item?_deepFiles (level k : Nat) :
    (deepFiles level).item? ("cache" :: List.replicate k longName) =
      if k ≤ level then some .directory else none := by
  have hconcat : ∀ k, "cache" :: List.replicate k longName ++ [longName] =
      "cache" :: List.replicate (k + 1) longName := fun k => by
    rw [List.replicate_succ', List.cons_append]
  induction level generalizing k with
  | zero =>
      cases k with
      | zero => decide +kernel
      | succ k =>
          have hnone : (deepFiles 0).item? ["cache", longName] = none := by decide +kernel
          exact FileSystem.eq_none_of_above hnone ⟨List.replicate k longName, rfl⟩
  | succ level ih =>
      have hnew : (deepFiles level).item? ("cache" :: List.replicate level longName) =
            some .directory ∧
          (deepFiles level).item? ("cache" :: List.replicate level longName ++ [longName]) =
            none := by
        rw [hconcat, ih, ih, if_pos (Nat.le_refl level), if_neg (Nat.not_succ_le_self level)]
        exact ⟨rfl, rfl⟩
      rw [deepFiles, dif_pos hnew, FileSystem.item?_put, hconcat, ih]
      have hlocation : "cache" :: List.replicate k longName =
          "cache" :: List.replicate (level + 1) longName ↔ k = level + 1 := by
        constructor
        · intro heq
          simpa using congrArg List.length heq
        · rintro rfl
          rfl
      simp only [hlocation]
      split_ifs <;> first | rfl | omega

theorem eq_of_mem_deepFiles {level : Nat} {l : Location} (h : ((deepFiles level).item? l).isSome) :
    l = [] ∨ ∃ k ≤ level, l = "cache" :: List.replicate k longName := by
  induction level with
  | zero =>
      have hkeys : ∀ l ∈ (deepFiles 0).entries.keys, l = ["cache"] := by decide +kernel
      refine or_iff_not_imp_left.2 fun hl => ⟨0, Nat.le_refl 0, ?_⟩
      exact hkeys l (Std.ExtTreeMap.mem_keys.2 (FileSystem.mem_entries_iff.2 ⟨hl, h⟩))
  | succ level ih =>
      have hold : ((deepFiles level).item? l).isSome →
          l = [] ∨ ∃ k ≤ level + 1, l = "cache" :: List.replicate k longName := fun hl =>
        (ih hl).imp_right fun ⟨k, hk, heq⟩ => ⟨k, Nat.le_succ_of_le hk, heq⟩
      rw [deepFiles] at h
      split_ifs at h
      · rw [FileSystem.item?_put] at h
        split_ifs at h with hnew
        · refine .inr ⟨level + 1, Nat.le_refl _, ?_⟩
          rw [hnew, List.replicate_succ', List.cons_append]
        · exact hold h
      · exact hold h

theorem byteSize_deep (name : String) (level : Nat) :
    ((⟨.root, []⟩ : Path).below (name :: List.replicate level longName)).toPathname.byteSize =
      name.utf8ByteSize + 1 + 204 * level := by
  have hsum : ∀ k, (List.replicate k longName).foldr (fun s n => s.utf8ByteSize + 1 + n) 0 =
      204 * k := by
    intro k
    induction k with
    | zero => rfl
    | succ k ih =>
        have hbyte : longName.utf8ByteSize = 203 := by decide +kernel
        rw [List.replicate_succ, List.foldr_cons, ih, hbyte]
        omega
  have htop : "".utf8ByteSize = 0 := rfl
  rw [Pathname.byteSize]
  change List.foldr _ 0 ("" :: name :: List.replicate level longName) - 1 = _
  rw [List.foldr_cons, List.foldr_cons, hsum, htop]
  omega

theorem isTooLong_deep_iff (name : String) (level : Nat) :
    ((⟨.root, []⟩ : Path).below (name :: List.replicate level longName)).toPathname.isTooLong =
      true ↔ 4096 ≤ name.utf8ByteSize + 1 + 204 * level := by
  rw [Pathname.isTooLong, decide_eq_true_eq, byteSize_deep]
  rfl

theorem deepFiles_settled (level : Nat) :
    topStore.place (deepFiles level) = ⟨.root, ["cache"]⟩ ∧ Settled topStore (deepFiles level) ∧
      (deepFiles level).LeadsTo (topStore.beside (deepFiles level)) [] := by
  have hplace : topStore.place (deepFiles level) = ⟨.root, ["cache"]⟩ := rfl
  have hparent : (topStore.place (deepFiles level)).parent = ⟨.root, []⟩ := by rw [hplace]; rfl
  have hplaced : topStore.Placed (deepFiles level) := by
    refine ⟨nofun, by decide +kernel, ?_⟩
    rw [hplace]
    simp
  refine ⟨hplace, ⟨hplaced, ?_⟩, ?_⟩
  · rw [hparent]
    intro k _
    rw [List.take_nil]
    rfl
  · rw [beside, hparent]
    exact FileSystem.leadsTo_of_item? (a := ⟨.root, []⟩) (by simp) rfl (by decide)

-- Wherever the root is when its removal begins, something beneath it lies too deep.
theorem deepFiles_not_fits {level : Nat} (h : 21 ≤ level) :
    ¬ Fits (deepFiles level) 0 topStore := by
  intro hfits
  obtain ⟨hplace, ⟨hplaced, -⟩, hP⟩ := deepFiles_settled level
  have hparent : (topStore.place (deepFiles level)).parent = ⟨.root, []⟩ := by rw [hplace]; rfl
  have hname : (topStore.place (deepFiles level)).name = "cache" := by rw [hplace]; rfl
  have hdeep : (deepFiles level).item? ("cache" :: List.replicate level longName) =
      some .directory := by
    rw [item?_deepFiles, if_pos (Nat.le_refl level)]
  obtain ⟨n, hn, hi⟩ : ∃ n, IsTarget (topStore.place (deepFiles level)) n ∧
      (plan .never (deepFiles level) 0 topStore).start.item? (n :: List.replicate level longName) =
        some .directory := by
    rcases plan_cases hplaced .never 0 with
      ⟨-, heq⟩ | ⟨-, -, heq⟩ | ⟨-, ⟨P, item, hP', hmoved⟩, -, heq⟩ <;> rw [heq]
    · exact ⟨"cache", .inl hname.symm, hdeep⟩
    · exact ⟨"cache", .inl hname.symm, hdeep⟩
    · obtain rfl := hP.leadsOnlyTo P hP'
      refine ⟨_, .inr (isTrashName_trashName (topStore.place (deepFiles level)) 1), ?_⟩
      rw [hmoved.items, FileSystem.origin, if_pos ⟨List.replicate level longName, rfl⟩]
      simpa [hname] using hdeep
  have hshort := hfits n (List.replicate level longName) hn
    (by rw [hparent, List.nil_append, hi]; rfl)
  have hlong := (isTooLong_deep_iff n level).2 (by omega)
  rw [hparent, hlong] at hshort
  cases hshort

def hereStore : CacheStore := ⟨⟨.relative, []⟩⟩

def enteredFiles : FileSystem :=
  { FileSystem.empty.including ⟨["", "cache"]⟩ .directory with here := ["cache"] }

def leftFiles : FileSystem := (hereStore.wipe .never enteredFiles 0).files

-- The second state is that of a root that has been removed with the working directory in it.
theorem deepFiles_leftFiles_not_recovered :
    (Settled topStore (deepFiles 21) ∧
      ¬ ((topStore.wipe .never (deepFiles 21) 0).result = .ok () ∧
        Cleared (topStore.wipe .never (deepFiles 21) 0).files (topStore.place (deepFiles 21)))) ∧
    Settled hereStore enteredFiles ∧ Reached hereStore enteredFiles leftFiles ∧
      (hereStore.wipe .never leftFiles 1).result =
        .error (.removal (.call (.failed ⟨.noEntry, []⟩))) := by
  obtain ⟨hplace, ⟨hplaced, hlinks⟩, hP⟩ := deepFiles_settled 21
  refine ⟨⟨⟨hplaced, hlinks⟩, fun hall => deepFiles_not_fits (Nat.le_refl 21) ?_⟩, ?_⟩
  · have hparent : (topStore.place (deepFiles 21)).parent.parts = [] := by rw [hplace]; rfl
    rw [← hparent] at hP
    exact fits_of_cleared hplaced hP hlinks hall.2
  · refine ⟨⟨⟨?_, ?_, ?_⟩, ?_⟩, .wiped .start .never 0, ?_⟩ <;> decide +kernel

end ArtifactCache.CacheStore
