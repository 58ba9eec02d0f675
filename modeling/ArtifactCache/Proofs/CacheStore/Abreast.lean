import ArtifactCache.Proofs.CacheStore.Disposal
import ArtifactCache.Proofs.FileSystem.Shifted
import ArtifactCache.Proofs.Removal.Twin

namespace ArtifactCache

structure NamedFaults where
  unlink : String → Option Fault
  rmdir : String → Option Fault
  list : String → Option Fault

namespace NamedFaults

def faults (t : NamedFaults) (rename : Option Errno) : Faults where
  unlink p := t.unlink p.lastPiece
  rmdir p := t.rmdir p.lastPiece
  mkdir _ := none
  list p := t.list p.lastPiece
  rename := rename

structure Spares (t : NamedFaults) (name : String) : Prop where
  unlink : t.unlink name = none
  rmdir : t.rmdir name = none
  list : t.list name = none

theorem same_of_renamed {f : String → Option Fault} {m n x y : String}
    (h : FileSystem.Renamed m n x y) (hm : f m = none) (hn : f n = none) (r : Location) :
    f (r.getLast?.getD x) = f (r.getLast?.getD y) := by
  rcases h with ⟨rfl, rfl⟩ | ⟨rfl, -, -⟩
  · cases r.getLast? with
    | none => rw [Option.getD_none, Option.getD_none, hm, hn]
    | some c => rfl
  · rfl

end NamedFaults

def Pathname.transplant (a b p : Pathname) : Pathname :=
  if a.covers p then ⟨b.pieces ++ p.pieces.drop a.pieces.length⟩ else p

namespace Path

variable {a b dir : Path} {m n x y : String}

theorem pieces_below (ha : a.parts ≠ []) (r : Location) :
    (a.below r).toPathname.pieces = a.toPathname.pieces ++ r := by
  obtain ⟨anchor, parts⟩ := a
  obtain ⟨q, qs, rfl⟩ := List.exists_cons_of_ne_nil ha
  cases anchor <;> rfl

theorem lastPiece_below (dir : Path) (x : String) (r : Location) :
    ((dir.child x).below r).toPathname.lastPiece = r.getLast?.getD x := by
  rw [Pathname.lastPiece, pieces_below (by simp [child]), List.getLast?_append]
  have hself : (dir.child x).toPathname.pieces.getLast? = some x := by
    obtain ⟨anchor, parts⟩ := dir
    cases anchor <;> rcases parts with _ | ⟨q, qs⟩ <;> simp [child, toPathname, List.getLast?_cons]
  rw [hself]
  cases r.getLast? <;> rfl

theorem transplant_below (ha : a.parts ≠ []) (hb : b.parts ≠ []) (r : Location) :
    Pathname.transplant a.toPathname b.toPathname (a.below r).toPathname =
      (b.below r).toPathname := by
  have hcovers : a.toPathname.covers (a.below r).toPathname = true := by
    rw [Pathname.covers, pieces_below ha, List.isPrefixOf_iff_prefix]
    exact List.prefix_append ..
  rw [Pathname.transplant, if_pos hcovers, pieces_below ha, List.drop_left, ← pieces_below hb]

theorem transplant_renamed (h : FileSystem.Renamed m n x y) (r : Location) :
    Pathname.transplant (dir.child m).toPathname (dir.child n).toPathname
      ((dir.child x).below r).toPathname = ((dir.child y).below r).toPathname := by
  rcases h with ⟨rfl, rfl⟩ | ⟨rfl, hm, -⟩
  · exact transplant_below (by simp [child]) (by simp [child]) r
  · rw [Pathname.transplant, if_neg]
    have hcovers := covers_toPathname (a := dir.child m) (b := (dir.child x).below r) rfl
      (by simp [child]) (by simp [child])
    rw [hcovers]
    intro hp
    exact FileSystem.not_prefix_sibling hm.symm
      (List.prefix_of_prefix_length_le hp (List.prefix_append _ r) (by simp))

end Path

namespace CacheStore

variable {fs gs fs₀ gs₀ : FileSystem} {t : NamedFaults} {ordered : Prop} {dir : Path}
  {m n x y : String}

structure Abreast (t : NamedFaults) (dir : Path) (m n : String)
    (fs₀ gs₀ fs gs : FileSystem) : Prop where
  anchor : dir.anchor ≠ .relative
  spares : t.Spares m
  spares' : t.Spares n
  start : FileSystem.Shifted dir.parts m n fs₀ gs₀
  long : ∀ r, (fs₀.item? (dir.parts ++ [m] ++ r)).isSome →
    ((dir.child m).below r).toPathname.isTooLong = ((dir.child n).below r).toPathname.isTooLong
  directory : fs.item? dir.parts = some .directory
  shifted : FileSystem.Shifted dir.parts m n fs gs
  thinned : FileSystem.Thinned (fun _ => True) fs₀ fs
  thinned' : FileSystem.Thinned (fun _ => True) gs₀ gs

def LinksKeep (dir : Path) (x y : String) (fs gs : FileSystem) : Prop :=
  ∀ r ≠ [], fs.isLinkAt (dir.parts ++ [x] ++ r) = true →
    fs.isDirectory ((dir.child x).below r).toPathname =
      gs.isDirectory ((dir.child y).below r).toPathname

theorem Abreast.alike (rename rename' : Option Errno) (h : Abreast t dir m n fs₀ gs₀ fs gs)
    (hxy : FileSystem.Renamed m n x y) (hlinks : ordered → LinksKeep dir x y fs₀ gs₀) :
    Alike ordered (t.faults rename) (t.faults rename') fs gs (dir.child x) (dir.child y) where
  anchor := h.anchor
  anchor' := h.anchor
  below := by simp [Path.child]
  below' := by simp [Path.child]
  long r hr := by
    rcases hxy with ⟨rfl, rfl⟩ | ⟨rfl, -, -⟩
    · obtain ⟨item, hi⟩ := Option.isSome_iff_exists.1 hr
      have hfound : fs₀.item? (dir.parts ++ [x] ++ r) = some item := h.thinned.eq_some hi
      exact h.long r (by rw [hfound]; rfl)
    · rfl
  unlink r := by
    simp only [NamedFaults.faults, Path.lastPiece_below]
    exact NamedFaults.same_of_renamed hxy h.spares.unlink h.spares'.unlink r
  rmdir r := by
    simp only [NamedFaults.faults, Path.lastPiece_below]
    exact NamedFaults.same_of_renamed hxy h.spares.rmdir h.spares'.rmdir r
  list r := by
    simp only [NamedFaults.faults, Path.lastPiece_below]
    exact NamedFaults.same_of_renamed hxy h.spares.list h.spares'.list r
  -- Links are asked about when some of the entries have gone. That at the start a link led to
  -- directories in both shows that its way avoids both names, and then it leads to the same place.
  links hordered fs' gs' hthin hthin' hitems r c target hi := by
    have hshift := h.shifted.thinned hxy hthin hthin' hitems
    have ha : ((dir.child x).below r).anchor ≠ .relative := h.anchor
    have hb : ((dir.child y).below r).anchor ≠ .relative := h.anchor
    have hdir : FileSystem.Across dir.parts m n ((dir.child x).below r).parts
        ((dir.child y).below r).parts := .of_renamed hxy dir.parts r
    have hchild : FileSystem.Across dir.parts m n (((dir.child x).below r).parts ++ [c])
        (((dir.child y).below r).parts ++ [c]) := by
      have hwhole := FileSystem.Across.of_renamed hxy dir.parts (r ++ [c])
      rwa [← List.append_assoc, ← List.append_assoc] at hwhole
    have hwhole : FileSystem.Thinned (fun _ => True) fs₀ fs' :=
      h.thinned.trans (hthin.mono fun _ _ => trivial)
    have hwhole' : FileSystem.Thinned (fun _ => True) gs₀ gs' :=
      h.thinned'.trans (hthin'.mono fun _ _ => trivial)
    have hi' : gs'.item? (((dir.child y).below r).parts ++ [c]) = some (.link target) := by
      rw [← hshift.across _ _ hchild]
      exact hi
    have hlink : fs₀.isLinkAt (dir.parts ++ [x] ++ (r ++ [c])) = true := by
      have hfound : fs₀.item? (dir.parts ++ [x] ++ r ++ [c]) = some (.link target) :=
        hwhole.eq_some hi
      rw [← List.append_assoc, FileSystem.isLinkAt, hfound]
    have hstart := hlinks hordered (r ++ [c]) (by simp) hlink
    rw [← Path.child_below, ← Path.child_below] at hstart
    rw [Bool.eq_iff_iff]
    constructor
    · intro hleads
      exact hshift.isDirectory_link hwhole'.less h.start.free' ha hb hdir hchild hi hleads
        (hstart ▸ hwhole.isDirectory hleads)
    · intro hleads
      exact hshift.symm.isDirectory_link hwhole.less h.start.free hb ha hdir.symm
        hchild.symm hi' hleads (hstart ▸ hwhole'.isDirectory hleads)

theorem Abreast.removeAt (rename rename' : Option Errno) (h : Abreast t dir m n fs₀ gs₀ fs gs)
    (hxy : FileSystem.Renamed m n x y) (hx : isStep x = false) (hy : isStep y = false)
    (hlinks : ordered → LinksKeep dir x y fs₀ gs₀) :
    let r := removeAt (t.faults rename) fs (dir.child x).toPathname
    let r' := removeAt (t.faults rename') gs (dir.child y).toPathname
    Abreast t dir m n fs₀ gs₀ r.files r'.files ∧
      Removal.Same (t.faults rename) ordered (dir.child x) (dir.child y) r.result r'.result := by
  have hdir' : gs.item? dir.parts = some .directory := by
    rw [← h.shifted.across _ _ (.same FileSystem.not_prefix_dir FileSystem.not_prefix_dir)]
    exact h.directory
  have hitems : ∀ r, fs.item? ((dir.child x).parts ++ r) = gs.item? ((dir.child y).parts ++ r) :=
    fun r => h.shifted.across _ _ (.of_renamed hxy dir.parts r)
  obtain ⟨hafter, hsame⟩ := removeAt_twin (h.alike rename rename' hxy hlinks)
    hitems hx hy h.directory hdir' h.shifted.height_eq
  have hthin := removeAt_thinned h.anchor (t.faults rename) h.directory hx
  have hthin' := removeAt_thinned h.anchor (t.faults rename') hdir' hy
  refine ⟨{ h with
    directory := ?_
    shifted := h.shifted.thinned hxy hthin hthin' hafter
    thinned := h.thinned.trans (hthin.mono fun _ _ => trivial)
    thinned' := h.thinned'.trans (hthin'.mono fun _ _ => trivial) }, hsame⟩
  rw [hthin.outside FileSystem.not_prefix_dir, h.directory]

structure Disposal.Agrees (ordered : Prop) (change : Pathname → Pathname) (d d' : Disposal) :
    Prop where
  aborted : d'.aborted = d.aborted
  perm : d'.failedPaths.Perm (d.failedPaths.map change)
  order : ordered → d'.failedPaths = d.failedPaths.map change

theorem Disposal.Agrees.after {change : Pathname → Pathname} {d d' : Disposal}
    {steps steps' : List Step} {log log' : List Log.Record} {ps qs : List Pathname}
    {cause cause' : Option Failure} (h : d.Agrees ordered change d')
    (hperm : qs.Perm (ps.map change)) (horder : ordered → qs = ps.map change) :
    (d.after steps log ps cause).Agrees ordered change (d'.after steps' log' qs cause') where
  aborted := h.aborted
  perm := by
    simp only [Disposal.after, List.map_append]
    exact hperm.append h.perm
  order hordered := by
    simp only [Disposal.after, List.map_append]
    rw [horder hordered, h.order hordered]

theorem Abreast.dispose {ks : List (String × String)} (rename rename' : Option Errno)
    (h : Abreast t dir m n fs₀ gs₀ fs gs)
    (hks : ∀ k ∈ ks, FileSystem.Renamed m n k.1 k.2 ∧ isStep k.1 = false ∧ isStep k.2 = false)
    (hlinks : ordered → ∀ k ∈ ks, LinksKeep dir k.1 k.2 fs₀ gs₀) :
    let d := dispose (t.faults rename) fs (ks.map fun k => dir.child k.1)
    let d' := dispose (t.faults rename') gs (ks.map fun k => dir.child k.2)
    Abreast t dir m n fs₀ gs₀ d.files d'.files ∧
      d.Agrees ordered (.transplant (dir.child m).toPathname (dir.child n).toPathname) d' := by
  induction ks generalizing fs gs with
  | nil => exact ⟨h, rfl, .nil, fun _ => rfl⟩
  | cons k ks ih =>
      obtain ⟨hxy, hx, hy⟩ := hks k (by simp)
      obtain ⟨hafter, hsame⟩ := h.removeAt rename rename' hxy hx hy
        fun hordered => hlinks hordered k (by simp)
      simp only [List.map_cons, CacheStore.dispose]
      generalize ArtifactCache.removeAt (t.faults rename) fs (dir.child k.1).toPathname = r at *
      generalize ArtifactCache.removeAt (t.faults rename') gs (dir.child k.2).toPathname = r' at *
      obtain ⟨files, steps, log, result⟩ := r
      obtain ⟨files', steps', log', result'⟩ := r'
      obtain ⟨hrest, hagrees⟩ := ih hafter (fun k' hk' => hks k' (by simp [hk']))
        fun hordered k' hk' => hlinks hordered k' (by simp [hk'])
      have hchange : ∀ xs : List Location,
          (xs.map fun q => ((dir.child k.1).below q).toPathname).map
            (.transplant (dir.child m).toPathname (dir.child n).toPathname) =
              xs.map fun q => ((dir.child k.2).below q).toPathname := by
        intro xs
        rw [List.map_map]
        exact List.map_congr_left fun q _ => Path.transplant_renamed hxy q
      cases hsame with
      | done => exact ⟨hrest, hagrees.after .nil fun _ => rfl⟩
      | incomplete hxs hperm horder =>
          refine ⟨hrest, hagrees.after ?_ fun hordered => ?_⟩
          · rw [hchange]
            exact (hperm.map _).symm
          · rw [hchange, horder hordered]
      | refused hfault =>
          rcases hxy with ⟨hm, hn⟩ | ⟨heq, -, -⟩
          · have hnone : (t.faults rename).unlink (dir.child k.1).toPathname = none := by
              rw [hm, ← Path.below_nil (dir.child m)]
              simp only [NamedFaults.faults, Path.lastPiece_below]
              exact h.spares.unlink
            rw [hnone] at hfault
            cases hfault
          · refine ⟨hafter, ?_, .nil, fun _ => rfl⟩
            rw [heq]

end CacheStore

end ArtifactCache
