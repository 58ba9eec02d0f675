import ArtifactCache.Coordinate.Parse
import ArtifactCache.Proofs.CacheStore.EntryName
import ArtifactCache.Proofs.CacheStore.Spelling

namespace ArtifactCache

namespace FileSystem

variable {fs : FileSystem} {a : Path} {name : String} {d l : Location}

theorem walkWithin_entry {n : Nat} (hn : isStep name = false)
    (hl : (fs.item? l).isSome) (h : fs.walkWithin false n d [name] = .ok l) : l = d ++ [name] := by
  rw [walkWithin_eq] at h
  rcases walk_name_found hn hl h with ⟨-, hend⟩ | ⟨-, hend, -⟩ | ⟨t, -, hend⟩
  · exact (Except.ok.inj hend).symm
  · exact hend.symm
  · exact (Except.ok.inj hend).symm

theorem leadsTo_here (h : fs.item? fs.here = some .directory) :
    fs.LeadsTo (⟨.relative, []⟩ : Path).toPathname fs.here := by
  refine ⟨follow_eq_ok_iff.2 ⟨by decide, rfl, ?_⟩, h⟩
  rw [walkWithin_eq]
  exact walk_skip (.inr rfl)

theorem leadsTo_of_occupied_child (hparts : ∀ part ∈ a.parts, part ≠ "")
    (hn : isStep name = false) (h : fs.isOccupied (a.child name).toPathname = true) :
    ∃ d, fs.LeadsTo a.toPathname d ∧
      fs.resolveLink (a.child name).toPathname = .ok (d ++ [name]) := by
  obtain ⟨l, hl, hsome⟩ := isOccupied_iff.1 h
  by_cases ha : a = ⟨.relative, []⟩
  · subst ha
    have hstart : fs.startOf (Path.child ⟨.relative, []⟩ name).toPathname = fs.here := by
      simp [startOf, Path.toPathname, Path.child, Pathname.isAbsolute]
    obtain rfl := walkWithin_entry hn hsome (follow_eq_ok_iff.1 hl).2.2
    rw [hstart] at hl hsome
    exact ⟨_, leadsTo_here (item?_dir_of_isSome hsome), hl⟩
  · have hchild := Path.toPathname_child_of_ne ha hparts name
    rw [hchild] at hl
    obtain ⟨d, hd, rfl⟩ := resolveLink_child (Path.isEmpty_toPathname_of_parts hparts) hn hl hsome
    exact ⟨d, hd, hchild ▸ hl⟩

section

variable (hnormal : ∀ part ∈ a.parts, Path.isPart part = true) (hup : ".." ∉ a.parts)
  (hrelative : a.anchor = .relative) (h : fs.LeadsTo a.toPathname d)

include hnormal hrelative h

theorem LeadsTo.walk_parts : fs.walkWithin true mostLinks fs.here a.parts = .ok d := by
  have hwalk := (follow_eq_ok_iff.1 h.1).2.2
  obtain ⟨anchor, parts⟩ := a
  obtain rfl : anchor = .relative := hrelative
  rcases parts with _ | ⟨q, qs⟩
  · rw [walkWithin_eq]
    rw [walkWithin_eq] at hwalk
    exact (walk_skip (.inr rfl)).symm.trans hwalk
  · have hparts := Path.parts_ne_empty hnormal
    exact (CacheStore.follow_parts fs (by simp) hparts mostLinks).1.symm.trans hwalk

include hup

theorem LeadsTo.here_directory : fs.item? fs.here = some .directory := by
  have hwalk := h.walk_parts hnormal hrelative
  rw [walkWithin_eq] at hwalk
  cases hparts : a.parts with
  | nil =>
      rw [hparts] at hwalk
      rw [Except.ok.inj hwalk]
      exact h.2
  | cons q qs =>
      have hq : isStep q = false := by
        refine Path.isStep_of_isPart (hnormal q (by simp [hparts])) ?_
        rintro rfl
        exact hup (by simp [hparts])
      rw [hparts] at hwalk
      suffices hfound : (fs.item? (fs.here ++ [q])).isSome from item?_dir_of_isSome hfound
      rcases walk_name_cases hq h.2 hwalk with ⟨hdir, -⟩ | ⟨t, hlink, -⟩
      · rw [hdir]; rfl
      · rw [hlink]; rfl

end

theorem LeadsTo.absolute_leadsOnlyTo (hnormal : ∀ part ∈ a.parts, Path.isPart part = true)
    (hup : ".." ∉ a.parts) (h : fs.LeadsTo a.toPathname d) :
    fs.LeadsOnlyTo (a.absolute fs.here).toPathname d := by
  by_cases hrelative : a.anchor = .relative
  · rintro e ⟨he, -⟩
    have hhere := h.here_directory hnormal hup hrelative
    have hnames : ∀ n ∈ fs.here, isName n = true := fun n hn =>
      isName_of_mem (by rw [hhere]; rfl) hn
    have hwalk := h.walk_parts hnormal hrelative
    rw [walkWithin_eq] at hwalk
    rw [resolve_toPathname (Path.anchor_absolute a fs.here),
      Path.absolute_of_relative hrelative hup hnames] at he
    split_ifs at he
    have hsame : fs.walk (fs.afterLink true mostLinks) true [] (fs.here ++ a.parts) =
        fs.walk (fs.afterLink true mostLinks) true ([] ++ fs.here) a.parts := walk_names hhere
    rw [hsame, List.nil_append, hwalk] at he
    exact (Except.ok.inj he).symm
  · rw [Path.absolute_of_absolute hrelative hup]
    exact h.leadsOnlyTo

end FileSystem

namespace CacheStore

variable {s : CacheStore} {c : Coordinate} {hash name : String} {q : Path}

def IsComponent (t : String) : Prop := isStep t = false ∧ '/' ∉ t.toList

theorem mem_withoutColons {x : Char} {t : String} (hx : x ∈ t.toList) (hne : x ≠ ':') :
    x ∈ (Coordinate.withoutColons t).toList := by
  rw [Coordinate.withoutColons, String.toList_ofList, List.mem_flatMap]
  exact ⟨x, hx, by simp [hne]⟩

theorem slash_mem_directoryName :
    '/' ∈ c.directoryName.toList ↔ ∃ part ∈ c.nameComponents, '/' ∈ part.toList := by
  rw [Coordinate.directoryName, Text.join, String.toList_ofList]
  constructor
  · intro hmem
    rcases Text.mem_glue hmem with hdash | ⟨t, ht, hmem⟩
    · cases hdash
    · simp only [List.map_map, List.mem_map] at ht
      obtain ⟨part, hpart, rfl⟩ := ht
      exact ⟨part, hpart, (mem_of_mem_withoutColons hmem).resolve_left (by decide)⟩
  · rintro ⟨part, hpart, hmem⟩
    refine Text.mem_glue_of_mem (p := (Coordinate.withoutColons part).toList) ?_ ?_
    · exact List.mem_map_of_mem (List.mem_map_of_mem hpart)
    · exact mem_withoutColons hmem (by decide)

theorem dash_mem_directoryName (c : Coordinate) : '-' ∈ c.directoryName.toList := by
  simp [Coordinate.directoryName, Coordinate.nameComponents, Text.join, Text.glue]

theorem isComponent_directoryName :
    IsComponent c.directoryName ↔ ∀ part ∈ c.nameComponents, '/' ∉ part.toList := by
  rw [IsComponent, slash_mem_directoryName, and_iff_right (isStep_of_dash
    (dash_mem_directoryName c))]
  push Not
  rfl

def StepsDown (root q : Path) : Prop :=
  if q.anchor = .relative then q.parts.length = 1 else q.parent = root

instance (root q : Path) : Decidable (StepsDown root q) :=
  inferInstanceAs (Decidable (if q.anchor = .relative then q.parts.length = 1 else q.parent = root))

theorem parent_append_iff {root : Path} (hne : q.parts ≠ []) :
    (root ++ q).parent = root ↔ StepsDown root q := by
  change (Path.append root q).parent = root ↔ StepsDown root q
  unfold Path.append StepsDown
  split
  · next hanchor =>
      obtain ⟨init, last, hparts⟩ := (List.eq_nil_or_concat q.parts).resolve_left hne
      obtain ⟨anchor, parts⟩ := root
      simp [hanchor, Path.parent, hparts, ← List.append_assoc]
  · next hanchor => rw [if_neg hanchor]

theorem ofText_parts_ne_nil {t : String} (h : '-' ∈ t.toList) : (Path.ofText t).parts ≠ [] := by
  rw [← Text.glue_piecesAt '/' t.toList] at h
  rcases Text.mem_glue h with hslash | ⟨piece, hpiece, hdash⟩
  · cases hslash
  · refine List.ne_nil_of_mem (a := String.ofList piece) (List.mem_filter.2 ⟨?_, ?_⟩)
    · exact List.mem_map_of_mem hpiece
    · exact isPart_of_dash (by rwa [String.toList_ofList])

structure RightBeneath (s : CacheStore) (name : String) (p : Path) : Prop where
  component : IsComponent name
  ends : p.name = name
  parent : p.parent = s.root
  absolute : ∀ here, p.absolute here = (s.root.absolute here).child name
  found : ∀ fs : FileSystem, fs.isOccupied p.toPathname = true → ∃ d,
    fs.LeadsTo s.root.toPathname d ∧ fs.resolveLink p.toPathname = .ok (d ++ [name]) ∧
      (".." ∉ s.root.parts → fs.LeadsOnlyTo (s.place fs).toPathname d)

theorem rightBeneath_child (hnormal : ∀ part ∈ s.root.parts, Path.isPart part = true)
    (hname : IsComponent name) : RightBeneath s name (s.root.child name) where
  component := hname
  ends := by simp [Path.name, Path.child]
  parent := by simp [Path.parent, Path.child]
  absolute here := by
    refine Path.absolute_child ?_
    rintro rfl
    cases hname.1
  found fs hocc := by
    obtain ⟨d, hd, hl⟩ :=
      FileSystem.leadsTo_of_occupied_child (Path.parts_ne_empty hnormal) hname.1 hocc
    exact ⟨d, hd, hl, fun hup => hd.absolute_leadsOnlyTo hnormal hup⟩

theorem entryPath_right_beneath (s : CacheStore) (c : Coordinate) (hhash : hash ≠ "")
    (hnormal : ∀ part ∈ s.root.parts, Path.isPart part = true) :
    (IsComponent c.directoryName ↔ ∀ part ∈ c.nameComponents, '/' ∉ part.toList) ∧
      ∃ p, s.entryPath c hash = .ok p ∧
        (p.parent = s.root ↔ StepsDown s.root (Path.ofText (entryName c hash))) ∧
        (Without '/' c hash → RightBeneath s (entryName c hash) p) := by
  refine ⟨isComponent_directoryName, s.root ++ Path.ofText (entryName c hash), if_neg hhash,
    parent_append_iff (ofText_parts_ne_nil (dash_mem_entryName c hash)), fun hslash => ?_⟩
  rw [ofText_entryName hslash]
  exact rightBeneath_child hnormal ⟨entryName_isStep c hash, slash_not_mem_entryName hslash⟩

def strayed : Coordinate :=
  { release with group := "../com.example", group_visible := by decide }

def strayedMade : FileSystem := (makeEntry .never .empty workStore strayed "af03").files

theorem release_right_beneath :
    (∃ p, workStore.entryPath release "af03" = .ok p ∧
      (makeEntry .never .empty workStore release "af03").files.isOccupied p.toPathname = true ∧
      RightBeneath workStore (entryName release "af03") p) ∧
    Coordinate.parse "../com.example:js-lib:1.0" = .ok strayed ∧
    ¬ IsComponent strayed.directoryName ∧
    (∃ p, workStore.entryPath strayed "af03" = .ok p ∧ p.parent ≠ workStore.root) ∧
    (workStore.wipe .never strayedMade 0).result = .ok () ∧
    (workStore.wipe .never strayedMade 0).files.item? ["com.example-js-lib-jar-1.0-af03"] =
      some .directory := by
  have hnormal : ∀ part ∈ workStore.root.parts, Path.isPart part = true := by decide +kernel
  have hslash : Without '/' release "af03" := by decide +kernel
  have hhash : "af03" ≠ "" := by decide
  obtain ⟨-, p, hp, -, hbeneath⟩ := entryPath_right_beneath workStore release hhash hnormal
  obtain ⟨hcomponent, q, hq, hparent, -⟩ :=
    entryPath_right_beneath workStore strayed hhash hnormal
  refine ⟨⟨p, hp, ?_, hbeneath hslash⟩, by decide +kernel, ?_, ⟨q, hq, ?_⟩, by decide +kernel,
    by decide +kernel⟩
  · rw [entryPath_eq workStore hhash hslash] at hp
    rw [← Except.ok.inj hp]
    decide +kernel
  · rw [hcomponent]
    decide +kernel
  · rw [Ne, hparent]
    decide +kernel

end CacheStore

end ArtifactCache
