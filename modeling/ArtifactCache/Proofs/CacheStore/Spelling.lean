import ArtifactCache.Proofs.CacheStore.Course
import ArtifactCache.Proofs.FileSystem.Way

namespace ArtifactCache.CacheStore

variable {faults : Faults} {fs : FileSystem} {serial : Nat} {s : CacheStore} {name : String}
  {p : Path}

theorem isOccupied_top (fs : FileSystem) {anchor : Anchor} (h : anchor ≠ .relative) :
    fs.isOccupied (⟨anchor, []⟩ : Path).toPathname = true := by
  cases anchor <;> first | exact absurd rfl h | rfl

theorem wipe_top (faults : Faults) (serial : Nat) (hnil : (s.place fs).parts = []) :
    (∃ p, (s.wipe faults fs serial).result = .error (.nameless p)) ∨
      ∃ e, (s.wipe faults fs serial).result = .error (.removal (.call e)) := by
  have hplace : s.place fs = ⟨(s.place fs).anchor, []⟩ := by rw [← hnil]
  have hname : (s.place fs).name = "" := by rw [hplace]; rfl
  have hocc : fs.isOccupied (s.place fs).toPathname = true := by
    rw [hplace]
    exact isOccupied_top fs (Path.anchor_absolute s.root fs.here)
  by_cases hanchored : s.Anchored fs
  · rw [wipe_of_anchored hanchored]
    split
    · exact .inl ⟨s.place fs, by simp [wipeWith, hocc, hname]⟩
    · exact .inr ⟨_, rfl⟩
  · rw [wipe_of_not_anchored hanchored]
    exact .inr ⟨_, rfl⟩

theorem parts_ne_nil_of_ok (hok : (s.wipe faults fs serial).result = .ok ()) :
    (s.place fs).parts ≠ [] := by
  intro hnil
  rcases wipe_top faults serial hnil with ⟨p, h⟩ | ⟨e, h⟩ <;> rw [hok] at h <;> cases h

def baseOf (fs : FileSystem) (p : Path) : Location :=
  match p.anchor with
  | .relative => fs.here
  | _ => []

theorem follow_parts (fs : FileSystem) (hne : p.parts ≠ [])
    (hparts : ∀ part ∈ p.parts, part ≠ "") (n : Nat) :
    fs.walkWithin true n (fs.startOf p.toPathname) p.toPathname.pieces =
        fs.walkWithin true n (baseOf fs p) p.parts ∧
      fs.wayWithin true n (fs.startOf p.toPathname) p.toPathname.pieces =
        fs.wayWithin true n (baseOf fs p) p.parts := by
  obtain ⟨anchor, parts⟩ := p
  obtain ⟨q, qs, rfl⟩ := List.exists_cons_of_ne_nil hne
  have hq : q ≠ "" := hparts q (by simp)
  rw [FileSystem.walkWithin_eq, FileSystem.wayWithin_eq]
  cases anchor with
  | relative =>
      have hrelative : Pathname.isAbsolute ⟨q :: qs⟩ = false := by
        cases qs with
        | nil => simp [Pathname.isAbsolute]
        | cons r qs => rw [Pathname.isAbsolute_cons (by simp)]; simpa using hq
      rw [FileSystem.startOf, Path.toPathname]
      simp [hrelative, baseOf]
  | root =>
      have habsolute := Path.isAbsolute_toPathname (a := ⟨.root, q :: qs⟩) (by simp)
      rw [FileSystem.startOf, if_pos habsolute, Path.toPathname]
      simp [FileSystem.walk_skip, FileSystem.walkWay_skip, baseOf]
  | doubleRoot =>
      have habsolute := Path.isAbsolute_toPathname (a := ⟨.doubleRoot, q :: qs⟩) (by simp)
      rw [FileSystem.startOf, if_pos habsolute, Path.toPathname]
      simp [FileSystem.walk_skip, FileSystem.walkWay_skip, baseOf]

theorem place_of_spelled (h : s.Placed fs) (hup : ".." ∉ s.root.parts) :
    (s.place fs).parts = baseOf fs s.root ++ s.root.parts := by
  cases ha : s.root.anchor with
  | relative =>
      have hnames : ∀ n ∈ fs.here, isName n = true := fun n hn =>
        FileSystem.isName_of_mem (by rw [h.anchored ha]; rfl) hn
      rw [place, Path.absolute_of_relative ha hup hnames, baseOf, ha]
  | root => rw [place, Path.absolute_of_absolute (by simp [ha]) hup, baseOf, ha]; rfl
  | doubleRoot => rw [place, Path.absolute_of_absolute (by simp [ha]) hup, baseOf, ha]; rfl

section

variable (h : s.Placed fs) (hup : ".." ∉ s.root.parts) (hn : isStep name = false)
  (hp : fs.isPresent (s.root.child name).toPathname = true)

include h

theorem isStep_spelled (hup : ".." ∉ s.root.parts) :
    ∀ part ∈ s.root.parts, isStep part = false := by
  intro part hpart
  exact Path.isStep_of_isPart (h.normal part hpart) fun heq => hup (heq ▸ hpart)

include hup hn hp

theorem present_parts : ∃ d,
    fs.walkWithin true FileSystem.mostLinks (baseOf fs s.root) (s.root.parts ++ [name]) = .ok d ∧
      fs.way (s.root.child name).toPathname =
        fs.wayWithin true FileSystem.mostLinks (baseOf fs s.root) (s.root.parts ++ [name]) := by
  have hparts : ∀ part ∈ (s.root.child name).parts, part ≠ "" := by
    rintro part hpart rfl
    rcases List.mem_append.1 hpart with hpart | hpart
    · cases isStep_spelled h hup "" hpart
    · rw [← List.mem_singleton.1 hpart] at hn
      cases hn
  obtain ⟨hfollow, hway⟩ := follow_parts fs (p := s.root.child name) (by simp [Path.child]) hparts
    FileSystem.mostLinks
  rw [FileSystem.isPresent_iff] at hp
  cases hr : fs.resolve (s.root.child name).toPathname with
  | error e => rw [hr] at hp; cases hp
  | ok d =>
      have hwalk := (FileSystem.follow_eq_ok_iff.1 hr).2.2
      rw [hfollow] at hwalk
      exact ⟨d, hwalk, hway⟩

theorem base_directory : fs.item? (baseOf fs s.root) = some .directory := by
  obtain ⟨d, -, hway⟩ := present_parts h hup hn hp
  obtain ⟨x, xs, hcons, hx⟩ : ∃ x xs, s.root.parts ++ [name] = x :: xs ∧ isStep x = false := by
    cases hparts : s.root.parts with
    | nil => exact ⟨name, [], rfl, hn⟩
    | cons x xs => exact ⟨x, xs ++ [name], rfl, isStep_spelled h hup x (by simp [hparts])⟩
  have hmem : baseOf fs s.root ++ [x] ∈ fs.way (s.root.child name).toPathname := by
    rw [hway, hcons, FileSystem.wayWithin_eq]
    exact FileSystem.mem_walkWay_name hx
  exact FileSystem.item?_dir_of_isSome (FileSystem.isSome_of_mem_way hp hmem)

theorem root_on_way (hlong : (s.place fs).toPathname.isTooLong = false) :
    ∃ P, fs.LeadsTo (s.beside fs) P ∧
      (P ++ [(s.place fs).name] ∈ fs.way (s.root.child name).toPathname ∨
        (fs.item? (s.place fs).parent.parts = some .directory ∧
          ∃ l ∈ fs.way (s.root.child name).toPathname, P ++ [(s.place fs).name] <+: l)) := by
  have hbase := base_directory h hup hn hp
  obtain ⟨loc, hwalk, hway⟩ := present_parts h hup hn hp
  have hplace := place_of_spelled h hup
  have hshort := h.notTooLong_beside hlong
  have hself := h.parts_place.symm
  rcases List.eq_nil_or_concat s.root.parts with hnil | ⟨init, last, hconcat⟩
  · rw [hnil, List.append_nil] at hplace
    rw [hnil, List.nil_append] at hway
    have hdir : fs.item? (s.place fs).parent.parts = some .directory := by
      have hroot : (fs.item? ((s.place fs).parent.parts ++ [(s.place fs).name])).isSome := by
        rw [hself, hplace, hbase]
        rfl
      exact FileSystem.item?_dir_of_isSome hroot
    -- The root is where its parts are looked up from, so that all that is looked for is beneath it.
    refine ⟨_, FileSystem.leadsTo_of_item? (Placed.anchor s fs) hdir hshort, .inr ⟨hdir,
      baseOf fs s.root ++ [name], ?_, ?_⟩⟩
    · rw [hway, FileSystem.wayWithin_eq]
      exact FileSystem.mem_walkWay_name hn
    · rw [hself, hplace]
      exact List.prefix_append ..
  · rw [List.concat_eq_append] at hconcat
    have hlast : isStep last = false := isStep_spelled h hup last (by simp [hconcat])
    rw [hconcat, List.append_assoc, List.singleton_append] at hwalk hway
    -- The last part is looked for where those before it lead, which the absolute root's parent does
    -- too: without steps up it has the same parts.
    obtain ⟨d, hd, hmem⟩ := FileSystem.walkWithin_name_on_way hlast hwalk
    rw [← hway] at hmem
    have hsome := FileSystem.isSome_of_mem_way hp hmem
    rw [hconcat, ← List.append_assoc, ← hself] at hplace
    obtain ⟨hparent, hname⟩ := List.append_inj' hplace rfl
    obtain rfl := (List.cons.inj hname).1
    refine ⟨d, ⟨?_, FileSystem.item?_dir_of_isSome hsome⟩, .inl hmem⟩
    rw [beside, FileSystem.resolve_toPathname (Placed.anchor s fs), hparent]
    rw [FileSystem.walkWithin_eq] at hd
    have hnames : fs.walk (fs.afterLink true FileSystem.mostLinks) true []
        (baseOf fs s.root ++ init) = _ := FileSystem.walk_names hbase
    rw [hnames, List.nil_append, hd]
    exact if_neg (by rw [← beside, hshort]; simp)

end

end ArtifactCache.CacheStore
