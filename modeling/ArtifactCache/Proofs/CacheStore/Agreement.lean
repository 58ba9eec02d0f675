import ArtifactCache.Proofs.CacheStore.Abreast
import ArtifactCache.Proofs.CacheStore.Recovery

namespace ArtifactCache

theorem Sweep.below_rename (faults : Faults) (rename : Option Errno) (level : Nat) :
    below { faults with rename } level = below faults level := by
  induction level with
  | zero => rfl
  | succ level ih =>
      funext dir s
      simp only [below, ih]
      rfl

theorem removeAt_rename (faults : Faults) (rename : Option Errno) (fs : FileSystem) (p : Pathname) :
    removeAt { faults with rename } fs p = removeAt faults fs p := by
  simp only [removeAt, Removal.ofTree, Sweep.tree, Sweep.below_rename]
  rfl

theorem CacheStore.dispose_rename (faults : Faults) (rename : Option Errno) (fs : FileSystem)
    (targets : List Path) :
    dispose { faults with rename } fs targets = dispose faults fs targets := by
  induction targets generalizing fs with
  | nil => rfl
  | cons target targets ih => simp only [dispose, removeAt_rename, ih]

namespace CacheStore

variable {fs gs : FileSystem} {t : NamedFaults} {ordered : Prop} {s : CacheStore} {serial : Nat}

inductive SameEnd (ordered : Prop) (change : Pathname → Pathname) :
    Except WipeError Unit → Except WipeError Unit → Prop
  | done : SameEnd ordered change (.ok ()) (.ok ())
  | incomplete {root : Pathname} {ps qs : List Pathname} {cause cause' : Option Failure}
      (hperm : qs.Perm (ps.map change)) (horder : ordered → qs = ps.map change) :
      SameEnd ordered change (.error (.removal (.incomplete ⟨root, ps, cause⟩)))
        (.error (.removal (.incomplete ⟨root, qs, cause'⟩)))
  | refused (e : CallError) :
      SameEnd ordered change (.error (.removal (.call e))) (.error (.removal (.call e)))

theorem Disposal.Agrees.sameEnd {change : Pathname → Pathname} {d d' : Disposal}
    (h : d.Agrees ordered change d') (root : Path) :
    SameEnd ordered change (disposalResult root d) (disposalResult root d') := by
  unfold disposalResult
  rw [h.aborted]
  cases d.aborted with
  | some e => exact .refused e
  | none =>
      have hnone : d'.failedPaths = [] ↔ d.failedPaths = [] := by
        rw [← List.length_eq_zero_iff, h.perm.length_eq, List.length_map, List.length_eq_zero_iff]
      simp only [hnone]
      split_ifs
      · exact .done
      · exact .incomplete h.perm h.order

def trashPath (s : CacheStore) (fs : FileSystem) (serial : Nat) : Path :=
  (s.place fs).parent.child (trashName (s.place fs) (serial + 1))

def TrashFits (s : CacheStore) (fs : FileSystem) (serial : Nat) : Prop :=
  ∀ r, (fs.item? ((s.place fs).parts ++ r)).isSome →
    ((s.trashPath fs serial).below r).toPathname.isTooLong =
      ((s.place fs).below r).toPathname.isTooLong

def LinksStay (s : CacheStore) (fs : FileSystem) (serial : Nat) (gs : FileSystem) : Prop :=
  ∀ x y, isTrashName (s.place fs) x = true →
    FileSystem.Renamed (trashName (s.place fs) (serial + 1)) (s.place fs).name x y →
      LinksKeep (s.place fs).parent x y gs fs

theorem wipe_absent (hocc : fs.isOccupied (s.place fs).toPathname = false)
    (e : Errno) : s.wipe (t.faults (some e)) fs serial = s.wipe (t.faults none) fs serial := by
  have hdispose : ∀ targets, dispose (t.faults (some e)) fs targets =
      dispose (t.faults none) fs targets := dispose_rename (t.faults none) (some e) fs
  by_cases hanchored : s.Anchored fs
  · rw [wipe_of_anchored hanchored, wipe_of_anchored hanchored]
    cases leftovers fs (s.place fs) with
    | error f => rfl
    | ok old => simp only [wipeWith, wipeTargets, hocc, hdispose, Bool.false_eq_true, if_false]
  · rw [wipe_of_not_anchored hanchored, wipe_of_not_anchored hanchored]

def targetNames (s : CacheStore) (fs : FileSystem) (serial : Nat) : List (String × String) :=
  (trashNames fs (s.place fs)).map (fun x => (x, x)) ++
    [(trashName (s.place fs) (serial + 1), (s.place fs).name)]

theorem disposal_eq {faults : Faults} (hocc : fs.isOccupied (s.place fs).toPathname = true) :
    let step := faults.perform fs (aside (s.place fs) serial)
    disposal faults fs serial s = dispose faults step.files
      ((trashNames fs (s.place fs) ++ [finalName (s.place fs) serial step.failure]).map
        (s.place fs).parent.child) := by
  simp only [disposal, plan, hocc, if_true]

section

variable (h : s.Placed fs) (hlinks : fs.NoLinkOn (s.place fs).parent.parts)
  (hfree : fs.item? (s.trashPath fs serial).parts = none)

include h hlinks hfree

theorem mem_targetNames {k : String × String} (hk : k ∈ s.targetNames fs serial) :
    isTrashName (s.place fs) k.1 = true ∧
      FileSystem.Renamed (trashName (s.place fs) (serial + 1)) (s.place fs).name k.1 k.2 ∧
        isStep k.1 = false ∧ isStep k.2 = false := by
  rcases List.mem_append.1 hk with hold | hroot
  · obtain ⟨x, hx, rfl⟩ := List.mem_map.1 hold
    obtain ⟨Q, hQ, hsome, htrash⟩ := mem_trashNames.1 hx
    obtain rfl := hlinks.leadsOnlyTo (Placed.anchor s fs) h.isStep_parent Q hQ
    have hstep := isStep_of_isTrashName htrash
    refine ⟨htrash, .inr ⟨rfl, ?_, ne_name_of_isTrashName htrash⟩, hstep, hstep⟩
    rintro rfl
    have hnone : fs.item? ((s.place fs).parent.parts ++ [trashName (s.place fs) (serial + 1)]) =
      none := hfree
    rw [hnone] at hsome
    cases hsome
  · obtain rfl := List.mem_singleton.1 hroot
    have htrash := isTrashName_trashName (s.place fs) (serial + 1)
    exact ⟨htrash, .inl ⟨rfl, rfl⟩, isStep_of_isTrashName htrash, h.isStep_name⟩

variable (hspared : t.Spares (s.place fs).name)
  (hspared' : t.Spares (trashName (s.place fs) (serial + 1))) (hfits : s.TrashFits fs serial)

include hspared hspared' hfits

theorem abreast_of_moved (hmoved : (aside (s.place fs) serial).run fs = .ok gs) :
    fs.isOccupied (s.place fs).toPathname = true ∧
      Abreast t (s.place fs).parent (trashName (s.place fs) (serial + 1)) (s.place fs).name
        gs fs gs fs := by
  obtain ⟨P, item, hP, hmove, hshort⟩ := moved_of_aside h hmoved
  obtain rfl := hlinks.leadsOnlyTo (Placed.anchor s fs) h.isStep_parent P hP
  have hne : (s.place fs).name ≠ trashName (s.place fs) (serial + 1) :=
    (ne_name_of_isTrashName (isTrashName_trashName ..)).symm
  have hshift := hmove.shifted hne hfree
  have hself : (s.place fs).parent.child (s.place fs).name = s.place fs := Path.child_parent h.below
  have hfound : (fs.item? ((s.place fs).parent.parts ++ [(s.place fs).name])).isSome := by
    rw [hmove.found]
    rfl
  constructor
  · have hlong := hfits [] (by rw [List.append_nil, ← hself]; exact hfound)
    rw [Path.below_nil, Path.below_nil, trashPath, h.toPathname_child, hshort] at hlong
    rw [h.toPathname_place] at hlong ⊢
    exact hP.isOccupied_child h.isStep_name hfound hlong.symm
  · refine ⟨Placed.anchor s fs, hspared', hspared, hshift, fun r hr => ?_, ?_, hshift, .refl ..,
      .refl ..⟩
    · rw [hself]
      refine hfits r ?_
      rw [← hself]
      rwa [hshift.across _ _ (.within ..)] at hr
    · rw [hshift.across _ _ (.same FileSystem.not_prefix_dir FileSystem.not_prefix_dir)]
      exact hP.2

theorem wipe_of_moved (e : Errno) (hmoved : (aside (s.place fs) serial).run fs = .ok gs) :
    let quick := s.wipe (t.faults none) fs serial
    let slow := s.wipe (t.faults (some e)) fs serial
    FileSystem.Shifted (s.place fs).parent.parts (trashName (s.place fs) (serial + 1))
        (s.place fs).name quick.files slow.files ∧
      SameEnd (s.LinksStay fs serial gs)
        (.transplant (s.trashPath fs serial).toPathname (s.place fs).toPathname)
        quick.result slow.result := by
  obtain ⟨hocc, habreast⟩ := abreast_of_moved h hlinks hfree hspared hspared' hfits hmoved
  have hself : (s.place fs).parent.child (s.place fs).name = s.place fs := Path.child_parent h.below
  have hquick : disposal (t.faults none) fs serial s = dispose (t.faults none) gs
      ((s.targetNames fs serial).map fun k => (s.place fs).parent.child k.1) := by
    have hstep : (t.faults none).perform fs (aside (s.place fs) serial) =
        ⟨aside (s.place fs) serial, none, gs⟩ := by
      simp only [Faults.perform, hmoved]
      rfl
    rw [disposal_eq hocc, hstep]
    simp [targetNames, finalName, Function.comp_def]
  have hslow : disposal (t.faults (some e)) fs serial s = dispose (t.faults (some e)) fs
      ((s.targetNames fs serial).map fun k => (s.place fs).parent.child k.2) := by
    have hstep : (t.faults (some e)).perform fs (aside (s.place fs) serial) =
        ⟨aside (s.place fs) serial, some ⟨e, []⟩, fs⟩ := rfl
    rw [disposal_eq hocc, hstep]
    simp [targetNames, finalName, Function.comp_def]
  obtain ⟨hafter, hagrees⟩ := habreast.dispose none (some e)
    (fun k hk => (mem_targetNames h hlinks hfree hk).2)
    fun (hstay : s.LinksStay fs serial gs) k hk =>
      hstay k.1 k.2 (mem_targetNames h hlinks hfree hk).1 (mem_targetNames h hlinks hfree hk).2.1
  obtain ⟨P, -, hP, -⟩ := moved_of_aside h hmoved
  obtain ⟨hfiles, hresult⟩ := wipe_found h hP (t.faults none) serial
  obtain ⟨hfiles', hresult'⟩ := wipe_found h hP (t.faults (some e)) serial
  rw [hself, ← hquick, ← hslow] at hagrees
  rw [← hquick, ← hslow, ← hfiles, ← hfiles'] at hafter
  refine ⟨hafter.shifted, ?_⟩
  rw [hresult, hresult']
  exact hagrees.sameEnd s.root

end

structure Comparable (t : NamedFaults) (fs : FileSystem) (serial : Nat) (s : CacheStore) :
    Prop where
  placed : s.Placed fs
  noLink : fs.NoLinkOn (s.place fs).parent.parts
  unused : fs.item? (s.trashPath fs serial).parts = none
  spared : t.Spares (s.place fs).name
  spared' : t.Spares (trashName (s.place fs) (serial + 1))

structure Agree (t : NamedFaults) (fs : FileSystem) (serial : Nat) (s : CacheStore) (e : Errno) :
    Prop where
  absent : fs.isOccupied (s.place fs).toPathname = false →
    s.wipe (t.faults (some e)) fs serial = s.wipe (t.faults none) fs serial
  files : ∀ gs, (aside (s.place fs) serial).run fs = .ok gs →
    FileSystem.Shifted (s.place fs).parent.parts (trashName (s.place fs) (serial + 1))
      (s.place fs).name (s.wipe (t.faults none) fs serial).files
      (s.wipe (t.faults (some e)) fs serial).files
  ends : ∀ gs, (aside (s.place fs) serial).run fs = .ok gs →
    SameEnd (s.LinksStay fs serial gs)
      (.transplant (s.trashPath fs serial).toPathname (s.place fs).toPathname)
      (s.wipe (t.faults none) fs serial).result (s.wipe (t.faults (some e)) fs serial).result

theorem wipe_agrees (h : Comparable t fs serial s) (hfits : s.TrashFits fs serial) (e : Errno) :
    Agree t fs serial s e where
  absent hocc := wipe_absent hocc e
  files _ hmoved :=
    (wipe_of_moved h.placed h.noLink h.unused h.spared h.spared' hfits e hmoved).1
  ends _ hmoved :=
    (wipe_of_moved h.placed h.noLink h.unused h.spared h.spared' hfits e hmoved).2

def keptFiles : FileSystem :=
  ((((FileSystem.empty.including ⟨["", ".cache.trash-a"]⟩ .directory).including
    ⟨["", ".cache.trash-a", "x"]⟩ (.file [])).including ⟨["", "cache"]⟩ .directory).including
    ⟨["", "cache", "x"]⟩ (.file [])).including ⟨["", "cache", "y"]⟩ (.file [])

def xKept : NamedFaults where
  unlink name := if name = "x" then some (.deny ⟨13⟩) else none
  rmdir _ := none
  list _ := none

theorem trashFits_of_keys (hkeys : ∀ l ∈ fs.entries.keys, (s.place fs).parts <+: l →
      ((s.trashPath fs serial).below (l.drop (s.place fs).parts.length)).toPathname.isTooLong =
        ((s.place fs).below (l.drop (s.place fs).parts.length)).toPathname.isTooLong)
    (hbelow : (s.place fs).parts ≠ []) : s.TrashFits fs serial := by
  intro r hr
  have hmem : (s.place fs).parts ++ r ∈ fs.entries := by
    rw [FileSystem.mem_entries_iff]
    exact ⟨by simp [hbelow], hr⟩
  have hkey := hkeys _ (Std.ExtTreeMap.mem_keys.2 hmem) (List.prefix_append ..)
  rwa [List.drop_left] at hkey

theorem keptFiles_agree : Agree xKept keptFiles 0 topStore ⟨18⟩ ∧
    (topStore.wipe (xKept.faults none) keptFiles 0).files.item?
      [trashName (topStore.place keptFiles) 1, "x"] = some (.file []) := by
  have hcomparable : Comparable xKept keptFiles 0 topStore :=
    ⟨⟨by decide +kernel, by decide +kernel, by decide +kernel⟩, by decide +kernel,
      by decide +kernel, ⟨by decide +kernel, rfl, rfl⟩, ⟨by decide +kernel, rfl, rfl⟩⟩
  have hfits : topStore.TrashFits keptFiles 0 :=
    trashFits_of_keys (by decide +kernel) hcomparable.placed.below
  have hagree : Agree xKept keptFiles 0 topStore ⟨18⟩ := wipe_agrees hcomparable hfits ⟨18⟩
  have hmoved : (Faults.never.perform keptFiles (aside (topStore.place keptFiles) 0)).failure =
      none := by decide +kernel
  have hparent : (topStore.place keptFiles).parent.parts = [] := by decide +kernel
  have hname : (topStore.place keptFiles).name = "cache" := by decide +kernel
  have hstays := (hagree.files _ (Faults.perform_ok hmoved)).across _ _ (.within _ ["x"] _ _)
  rw [hparent, hname] at hstays
  refine ⟨hagree, hstays.trans ?_⟩
  decide +kernel

def selfLinkedFiles : FileSystem :=
  ((FileSystem.empty.including ⟨["", "cache"]⟩ .directory).including ⟨["", "cache", "d"]⟩
    .directory).including ⟨["", "cache", "m"]⟩ (.link ⟨["", "cache", "d"]⟩)

def bothKept : NamedFaults where
  unlink name := if name = "m" then some (.deny ⟨13⟩) else none
  rmdir name := if name = "d" then some (.deny ⟨13⟩) else none
  list _ := none

theorem selfLinkedFiles_order :
    ¬ SameEnd True (.transplant (topStore.trashPath selfLinkedFiles 0).toPathname
        (topStore.place selfLinkedFiles).toPathname)
      (topStore.wipe (bothKept.faults none) selfLinkedFiles 0).result
      (topStore.wipe (bothKept.faults (some ⟨18⟩)) selfLinkedFiles 0).result := by
  have hquick : (topStore.wipe (bothKept.faults none) selfLinkedFiles 0).result =
      .error (.removal (.incomplete ⟨⟨["", "cache"]⟩,
        [⟨["", trashName ⟨.root, ["cache"]⟩ 1, "m"]⟩, ⟨["", trashName ⟨.root, ["cache"]⟩ 1, "d"]⟩],
        some ⟨⟨13⟩, [⟨["", trashName ⟨.root, ["cache"]⟩ 1, "m"]⟩]⟩⟩)) := by decide +kernel
  have hslow : (topStore.wipe (bothKept.faults (some ⟨18⟩)) selfLinkedFiles 0).result =
      .error (.removal (.incomplete ⟨⟨["", "cache"]⟩,
        [⟨["", "cache", "d"]⟩, ⟨["", "cache", "m"]⟩],
        some ⟨⟨13⟩, [⟨["", "cache", "d"]⟩]⟩⟩)) := by decide +kernel
  intro hend
  rw [hquick, hslow] at hend
  cases hend with
  | incomplete hperm horder =>
      revert horder
      decide +kernel

def noneKept : NamedFaults where
  unlink _ := none
  rmdir _ := none
  list _ := none

section

variable {level : Nat}

theorem trashNames_deepFiles (level : Nat) :
    trashNames (deepFiles level) (topStore.place (deepFiles level)) = [] := by
  obtain ⟨hplace, -, hP⟩ := deepFiles_settled level
  rw [List.eq_nil_iff_forall_not_mem]
  intro name hname
  obtain ⟨P, hP', hsome, htrash⟩ := mem_trashNames.1 hname
  obtain rfl := hP.leadsOnlyTo P hP'
  rcases eq_of_mem_deepFiles hsome with heq | ⟨k, -, heq⟩
  · cases heq
  · refine ne_name_of_isTrashName htrash ?_
    rw [hplace]
    exact (List.cons.inj heq).1

theorem deepFiles_unused (level : Nat) :
    (deepFiles level).item? [trashName ⟨.root, ["cache"]⟩ 1] = none := by
  rw [← Option.not_isSome_iff_eq_none]
  intro hsome
  rcases eq_of_mem_deepFiles hsome with heq | ⟨k, -, heq⟩
  · cases heq
  · have hne : trashName ⟨.root, ["cache"]⟩ 1 ≠ "cache" := by decide +kernel
    exact hne (List.cons.inj heq).1

theorem deepFiles_moved (level : Nat) :
    (deepFiles level).isOccupied (topStore.place (deepFiles level)).toPathname = true ∧
      ∃ gs, (aside (topStore.place (deepFiles level)) 0).run (deepFiles level) = .ok gs ∧
        gs.item? (trashName (topStore.place (deepFiles level)) 1 :: List.replicate level longName) =
          some .directory := by
  obtain ⟨hplace, ⟨hplaced, -⟩, hP⟩ := deepFiles_settled level
  have hbeside : topStore.beside (deepFiles level) = (⟨.root, []⟩ : Path).toPathname := by
    rw [beside, hplace]
    rfl
  have hroot : (deepFiles level).item? ([] ++ ["cache"]) = some .directory := by
    have hself := item?_deepFiles level 0
    rwa [if_pos (Nat.zero_le level)] at hself
  rw [hbeside] at hP
  obtain ⟨gs, hgs⟩ := hP.rename_child hroot (deepFiles_unused level) (by decide +kernel)
    (by decide +kernel) (by decide +kernel)
  have hmoved : (aside (topStore.place (deepFiles level)) 0).run (deepFiles level) = .ok gs := by
    rw [hplace]
    exact hgs
  refine ⟨?_, gs, hmoved, ?_⟩
  · rw [hplace]
    exact hP.isOccupied_child (by decide) (by rw [hroot]; rfl) (by decide +kernel)
  · obtain ⟨P, item, hP', hmove, -⟩ := moved_of_aside hplaced hmoved
    rw [hbeside] at hP'
    obtain rfl := hP.leadsOnlyTo P hP'
    have hdeep := item?_deepFiles level level
    rw [if_pos (Nat.le_refl level)] at hdeep
    rw [hmove.items, FileSystem.origin, if_pos ⟨List.replicate level longName, rfl⟩, hplace]
    exact hdeep

theorem deepFiles_slow (hfits : level ≤ 20) (e : Errno) :
    (topStore.wipe (noneKept.faults (some e)) (deepFiles level) 0).files.item? ["cache"] = none := by
  obtain ⟨hplace, ⟨hplaced, -⟩, hP⟩ := deepFiles_settled level
  obtain ⟨hocc, -⟩ := deepFiles_moved level
  have hparent : (topStore.place (deepFiles level)).parent = ⟨.root, []⟩ := by rw [hplace]; rfl
  have hname : (topStore.place (deepFiles level)).name = "cache" := by rw [hplace]; rfl
  have hslow : disposal (noneKept.faults (some e)) (deepFiles level) 0 topStore =
      dispose .never (deepFiles level) (["cache"].map (⟨.root, []⟩ : Path).child) := by
    have hrename := dispose_rename .never (some e) (deepFiles level)
      (["cache"].map (⟨.root, []⟩ : Path).child)
    have hstep : (noneKept.faults (some e)).perform (deepFiles level)
        (aside (topStore.place (deepFiles level)) 0) =
          ⟨aside (topStore.place (deepFiles level)) 0, some ⟨e, []⟩, deepFiles level⟩ := rfl
    rw [disposal_eq hocc, hstep, trashNames_deepFiles, hparent, ← hrename, finalName, hname]
    rfl
  have hshort : ∀ n ∈ ["cache"], ∀ r, ((deepFiles level).item? ([] ++ n :: r)).isSome →
      ((⟨.root, []⟩ : Path).below (n :: r)).toPathname.isTooLong = false := by
    intro n hn r hr
    rcases eq_of_mem_deepFiles hr with heq | ⟨k, hk, heq⟩
    · cases heq
    · obtain ⟨rfl, rfl⟩ := List.cons.inj heq
      have hbyte : "cache".utf8ByteSize = 5 := by decide +kernel
      rw [← Bool.not_eq_true, isTooLong_deep_iff, hbyte]
      omega
  have hnames : ∀ n ∈ ["cache"], isStep n = false := by decide
  have hroot : (⟨.root, []⟩ : Path).anchor ≠ .relative := by simp
  have hgone := (dispose_never_gone hroot hnames rfl).2
    (dispose_never_failedPaths hroot hnames rfl hshort) "cache" (by simp) (by decide)
  rw [(wipe_found hplaced hP (noneKept.faults (some e)) 0).1, hslow]
  exact hgone

theorem deepFiles_quick (htoo : 20 ≤ level) :
    (topStore.wipe (noneKept.faults none) (deepFiles level) 0).files.item?
      (trashName (topStore.place (deepFiles level)) 1 :: List.replicate level longName) =
        some .directory := by
  obtain ⟨hplace, ⟨hplaced, hlinks⟩, hP⟩ := deepFiles_settled level
  obtain ⟨hocc, gs, hmoved, hdeep⟩ := deepFiles_moved level
  have hparent : (topStore.place (deepFiles level)).parent = ⟨.root, []⟩ := by rw [hplace]; rfl
  have hstart : (plan (noneKept.faults none) (deepFiles level) 0 topStore).start = gs := by
    simp only [plan, hocc, if_true, Faults.perform, hmoved]
    rfl
  have hlong : ((⟨.root, []⟩ : Path).below (trashName (topStore.place (deepFiles level)) 1 ::
      List.replicate level longName)).toPathname.isTooLong = true := by
    have hbyte : (trashName ⟨.root, ["cache"]⟩ 1).utf8ByteSize = 45 := by decide +kernel
    rw [isTooLong_deep_iff, hplace, hbyte]
    omega
  have hP' : (deepFiles level).LeadsTo (topStore.beside (deepFiles level))
      (topStore.place (deepFiles level)).parent.parts := by
    rw [hparent]
    exact hP
  rw [← hparent] at hlong
  have hstays := wipe_stays hplaced hP' hlinks (noneKept.faults none) 0
    (by rw [hstart, hparent, List.nil_append, hdeep]; rfl) hlong
  rw [hstart, hparent] at hstays
  exact hstays.trans hdeep

theorem deepFiles_comparable (level : Nat) : Comparable noneKept (deepFiles level) 0 topStore := by
  obtain ⟨hplace, ⟨hplaced, hlinks⟩, -⟩ := deepFiles_settled level
  have hunused : (deepFiles level).item? (topStore.trashPath (deepFiles level) 0).parts = none := by
    rw [trashPath, hplace]
    exact deepFiles_unused level
  exact ⟨hplaced, hlinks, hunused, ⟨rfl, rfl, rfl⟩, ⟨rfl, rfl, rfl⟩⟩

theorem deepFiles_not_shifted (hfits : level ≤ 20) (htoo : 20 ≤ level) (e : Errno) :
    ¬ FileSystem.Shifted (topStore.place (deepFiles level)).parent.parts
      (trashName (topStore.place (deepFiles level)) 1) (topStore.place (deepFiles level)).name
      (topStore.wipe (noneKept.faults none) (deepFiles level) 0).files
      (topStore.wipe (noneKept.faults (some e)) (deepFiles level) 0).files := by
  intro hshift
  obtain ⟨hplace, -, -⟩ := deepFiles_settled level
  have hgone := FileSystem.eq_none_of_above (deepFiles_slow hfits e)
    ⟨List.replicate level longName, rfl⟩
  have hdeep := deepFiles_quick htoo
  have hsame := hshift.across _ _ (.within _ (List.replicate level longName) _ _)
  rw [hplace] at hdeep hsame
  rw [show (⟨.root, ["cache"]⟩ : Path).parent.parts = [] from rfl] at hsame
  exact absurd (hdeep.symm.trans (hsame.trans hgone)) (by simp)

end

theorem selfLinkedFiles_deepFiles_disagree :
    (Comparable bothKept selfLinkedFiles 0 topStore ∧
      (∃ gs, (aside (topStore.place selfLinkedFiles) 0).run selfLinkedFiles = .ok gs) ∧
      ¬ SameEnd True (.transplant (topStore.trashPath selfLinkedFiles 0).toPathname
          (topStore.place selfLinkedFiles).toPathname)
        (topStore.wipe (bothKept.faults none) selfLinkedFiles 0).result
        (topStore.wipe (bothKept.faults (some ⟨18⟩)) selfLinkedFiles 0).result) ∧
    Comparable noneKept (deepFiles 20) 0 topStore ∧
      (∃ gs, (aside (topStore.place (deepFiles 20)) 0).run (deepFiles 20) = .ok gs) ∧
      ¬ FileSystem.Shifted (topStore.place (deepFiles 20)).parent.parts
        (trashName (topStore.place (deepFiles 20)) 1) (topStore.place (deepFiles 20)).name
        (topStore.wipe (noneKept.faults none) (deepFiles 20) 0).files
        (topStore.wipe (noneKept.faults (some ⟨18⟩)) (deepFiles 20) 0).files := by
  have hcomparable : Comparable bothKept selfLinkedFiles 0 topStore :=
    ⟨⟨by decide +kernel, by decide +kernel, by decide +kernel⟩, by decide +kernel,
      by decide +kernel, ⟨by decide +kernel, by decide +kernel, rfl⟩,
      ⟨by decide +kernel, by decide +kernel, rfl⟩⟩
  have hmoved : (Faults.never.perform selfLinkedFiles
      (aside (topStore.place selfLinkedFiles) 0)).failure = none := by decide +kernel
  obtain ⟨-, gs, hdeep, -⟩ := deepFiles_moved 20
  exact ⟨⟨hcomparable, ⟨_, Faults.perform_ok hmoved⟩, selfLinkedFiles_order⟩,
    deepFiles_comparable 20, ⟨gs, hdeep⟩,
    deepFiles_not_shifted (Nat.le_refl 20) (Nat.le_refl 20) ⟨18⟩⟩

end CacheStore

end ArtifactCache
