import ArtifactCache.CommandLine.Supplies
import ArtifactCache.Proofs.FileSystem.Moving
import ArtifactCache.Proofs.FileSystem.WorkingDirectory
import ArtifactCache.Proofs.Settings.Roots

namespace ArtifactCache

open Settings (outline TemplateIn)
open Settings.Outline (placed)

variable {fs : FileSystem} {home template : String}

namespace CommandLine

theorem toList_workingDirectory (h : fs.here ≠ []) :
    (workingDirectory fs).toList = Path.trail fs.here := by
  obtain ⟨n, ns, hhere⟩ := List.exists_cons_of_ne_nil h
  simp [workingDirectory, hhere, Path.toText, Path.toPathname, Pathname.toText, Text.join,
    Text.glue_cons, Path.trail, List.flatMap_map]

theorem here_of_isFile (h : fs.isFile (.ofText defaultFile) = true) :
    fs.item? fs.here = some .directory := by
  obtain ⟨loc, hloc, hitem⟩ : ∃ loc, fs.resolve (.ofText defaultFile) = .ok loc ∧
      (fs.item? loc).isSome := by
    unfold FileSystem.isFile FileSystem.itemAt at h
    cases hloc : fs.resolve (.ofText defaultFile) with
    | error e => simp [hloc] at h
    | ok loc =>
        refine ⟨loc, rfl, ?_⟩
        cases hitem : fs.item? loc with
        | none => simp [hloc, hitem] at h
        | some item => rfl
  have hpieces : (Pathname.ofText defaultFile).pieces = [defaultFile] := by decide +kernel
  have hstart : fs.startOf (.ofText defaultFile) = fs.here := by
    rw [FileSystem.startOf, Pathname.isAbsolute, hpieces]
    rfl
  have hwalk := (FileSystem.follow_eq_ok_iff.1 hloc).2.2
  rw [FileSystem.walkWithin_eq, hpieces, hstart] at hwalk
  have hentry : (fs.item? (fs.here ++ [defaultFile])).isSome := by
    rcases FileSystem.walk_name_found (by decide) hitem hwalk with
      ⟨hfound, -⟩ | ⟨-, -, _, hfound⟩ | ⟨_, hfound, -⟩
    all_goals
      rw [hfound]
      rfl
  exact FileSystem.item?_dir_of_isSome hentry

theorem currentDirectory_of_isFile (h : fs.isFile (.ofText defaultFile) = true) :
    currentDirectory fs = .ok (workingDirectory fs) := by
  rw [currentDirectory, FileSystem.workingDirectory?_eq_some_iff.2 ⟨rfl, here_of_isFile h⟩]

/-- A template without the build root has one place. With it, the two places are the same if it is
the first part and nothing else, and unless there are steps up, only then. -/
structure SamePlace (fs : FileSystem) (home template : String) (p q : Path) : Prop where
  unopened : ¬ Template.Occurs "buildroot" template.toList → p = q
  based : fs.here ≠ [] → (outline home template).IsBased →
    p.absolute fs.here = q.absolute fs.here
  only : fs.here ≠ [] → ".." ∉ p.parts → ".." ∉ q.parts →
    p.absolute fs.here = q.absolute fs.here →
      ¬ Template.Occurs "buildroot" template.toList ∨ (outline home template).IsBased

theorem samePlace_placed (hhere : ∀ n ∈ fs.here, isName n = true) (home template : String) :
    SamePlace fs home template (placed ['.'] (outline home template))
      (placed (workingDirectory fs).toList (outline home template)) := by
  have hopen : none ∉ outline home template ↔ ¬ Template.Occurs "buildroot" template.toList :=
    not_congr Settings.none_mem_outline_iff
  refine ⟨fun hnone => ?_, fun hne hbased => ?_, fun hne hdot hnames heq => ?_⟩
  · exact Settings.Outline.placed_congr (hopen.2 hnone) _ _
  · rw [toList_workingDirectory hne]
    exact hbased.absolute_eq hhere hne
  · rw [toList_workingDirectory hne] at hnames heq
    rw [← hopen]
    exact (Settings.Outline.absolute_placed_iff hhere hne hdot hnames).1 heq

theorem defaultFile_named_or_found (h : fs.isFile (.ofText defaultFile) = true)
    (reader : Settings.Reader)
    (home : String) (r : Request) :
    fileSettings reader fs home { r with config := some (.value defaultFile) } =
      (Settings.load reader fs home (.ofText defaultFile) none).result ∧
    fileSettings reader fs home { r with config := none } =
      (Settings.load reader fs home (.ofText defaultFile) (some (workingDirectory fs))).result ∧
    Both (fun s t => s.level = t.level ∧ s.excludes = t.excludes ∧
        ∃ template, TemplateIn reader fs (.ofText defaultFile) template ∧
          SamePlace fs home template s.cacheDir t.cacheDir)
      (Settings.load reader fs home (.ofText defaultFile) none).result
      (Settings.load reader fs home (.ofText defaultFile) (some (workingDirectory fs))).result := by
  refine ⟨rfl, ?_, ?_⟩
  · simp only [fileSettings, namedFile?, currentDirectory_of_isFile h, h, if_true]
    rfl
  · have hboth := Settings.load_both reader fs home (.ofText defaultFile) none
      (some (workingDirectory fs))
    refine hboth.imp fun s t hst => ?_
    obtain ⟨hlevel, hexcludes, template, htemplate, hs, ht⟩ := hst
    refine ⟨hlevel, hexcludes, template, htemplate, ?_⟩
    rw [hs, ht]
    refine samePlace_placed (fun n hn => ?_) home template
    exact FileSystem.isName_of_mem (by rw [here_of_isFile h]; rfl) hn

example : (outline "/home" Settings.defaultCacheDir).IsBased :=
  .inr ⟨"target/j2clbuild-cache".toList.map some, by cbv, by simp⟩

def scatteredFiles : FileSystem :=
  { (FileSystem.empty.including ⟨["", "T"]⟩ .directory).including ⟨["", "T", "j2clbuild.toml"]⟩
      (.file "[GLOBAL]\ncache_dir = \"%(homedir)s/caches/%(buildroot)s\"\n".toUTF8.toList) with
    here := ["T"] }

theorem scatteredFiles_apart :
    ∃ s t, (Settings.load Toml.parse scatteredFiles "/home/user" (.ofText defaultFile)
        none).result = .ok s ∧
      (Settings.load Toml.parse scatteredFiles "/home/user" (.ofText defaultFile)
        (some (workingDirectory scatteredFiles))).result = .ok t ∧
      s.level = t.level ∧ s.excludes = t.excludes ∧ s.cacheDir.toText = "/home/user/caches" ∧
      t.cacheDir.toText = "/home/user/caches/T" := by
  obtain ⟨-, -, hboth⟩ := @defaultFile_named_or_found scatteredFiles (by decide +kernel)
    Toml.parse "/home/user" ⟨none, none, none, .clean⟩
  have hs : (Settings.load Toml.parse scatteredFiles "/home/user" (.ofText defaultFile)
      none).result.toOption.map (·.cacheDir.toText) = some "/home/user/caches" := by
    decide +kernel
  have ht : (Settings.load Toml.parse scatteredFiles "/home/user" (.ofText defaultFile)
      (some (workingDirectory scatteredFiles))).result.toOption.map (·.cacheDir.toText) =
        some "/home/user/caches/T" := by
    decide +kernel
  generalize (Settings.load Toml.parse scatteredFiles "/home/user" (.ofText defaultFile)
    none).result = x
    at hboth hs ⊢
  generalize (Settings.load Toml.parse scatteredFiles "/home/user" (.ofText defaultFile)
    (some (workingDirectory scatteredFiles))).result = y at hboth ht ⊢
  cases hboth with
  | fail e => cases hs
  | succeed hst =>
      obtain ⟨hlevel, hexcludes, -⟩ := hst
      exact ⟨_, _, rfl, rfl, hlevel, hexcludes, Option.some.inj hs, Option.some.inj ht⟩

end CommandLine

end ArtifactCache
