import ArtifactCache.Proofs.CacheStore.EntryPlace
import ArtifactCache.Proofs.FileSystem.Standing

namespace ArtifactCache

variable {fs : FileSystem} {s : CacheStore} {c : Coordinate} {hash root : String} {dir : Path}

namespace CacheStore

theorem isPart_lastPiece_entryPath (h : s.entryPath c hash = .ok dir) :
    Path.isPart dir.toPathname.lastPiece = true := by
  unfold entryPath at h
  split_ifs at h
  have hdir : s.root ++ Path.ofText (entryName c hash) = dir := Except.ok.inj h
  have hne := ofText_parts_ne_nil (dash_mem_entryName c hash)
  obtain ⟨hparts, hname⟩ := Path.name_append hne
  rw [← hdir, Path.lastPiece_toPathname hparts, hname]
  exact Path.isPart_of_mem_ofText (Path.name_mem hne)

theorem noSlash_of_mem_entryPath (h : entryPath ⟨.ofText root⟩ c hash = .ok dir) :
    ∀ piece ∈ dir.toPathname.pieces, '/' ∉ piece.toList := by
  intro piece hpiece
  unfold entryPath at h
  split_ifs at h
  have hdir : Path.ofText root ++ Path.ofText (entryName c hash) = dir := Except.ok.inj h
  rcases Path.mem_toPathname hpiece with rfl | rfl | hpart
  · simp
  · simp
  · rw [← hdir] at hpart
    rcases Path.mem_append hpart with hmem | hmem <;> exact Path.noSlash_of_mem_ofText hmem

theorem makeEntry_eq (faults : Faults) (fs : FileSystem) (h : s.entryPath c hash = .ok dir) :
    (makeEntry faults fs s c hash).files = (makeDirectories faults fs dir.toPathname).files ∧
      ∀ path, (makeEntry faults fs s c hash).result = .ok path ↔
        path = dir ∧ (makeDirectories faults fs dir.toPathname).result = .ok () := by
  simp only [makeEntry, h, true_and]
  intro path
  cases (makeDirectories faults fs dir.toPathname).result with
  | error e => simp
  | ok u => simp [eq_comm]

theorem makeDirectories_stands (h : s.entryPath c hash = .ok dir)
    (hok : (makeDirectories .never fs dir.toPathname).result = .ok ()) :
    Stands (makeDirectories .never fs dir.toPathname).files dir.toPathname := by
  have hpart := isPart_lastPiece_entryPath h
  have hlast : dir.toPathname.lastPiece ≠ "" ∧ dir.toPathname.lastPiece ≠ "." := by
    simpa [Path.isPart] using hpart
  rw [makeDirectories_eq_ok_iff] at hok
  rw [files_makeDirectories]
  refine Making.upTo_stands ?_ hok
  rw [Pathname.entryParts_of_lastPiece hlast.1]
  exact hlast.2

theorem makeEntry_adds (fs : FileSystem) (s : CacheStore) (c : Coordinate) (hhash : hash ≠ "") :
    ∃ dir, s.entryPath c hash = .ok dir ∧
      (∀ faults, FileSystem.Added fs (makeEntry faults fs s c hash).files dir.toPathname) ∧
      ∀ path, (makeEntry .never fs s c hash).result = .ok path →
        (makeEntry .never (makeEntry .never fs s c hash).files s c hash).result = .ok path ∧
        (makeEntry .never (makeEntry .never fs s c hash).files s c hash).files =
          (makeEntry .never fs s c hash).files := by
  obtain ⟨dir, hentry⟩ : ∃ dir, s.entryPath c hash = .ok dir := ⟨_, if_neg hhash⟩
  refine ⟨dir, hentry, fun faults => ?_, fun path hpath => ?_⟩
  · rw [(makeEntry_eq faults fs hentry).1]
    exact makeDirectories_added faults fs dir.toPathname
  · obtain ⟨hfiles, hresult⟩ := makeEntry_eq .never fs hentry
    obtain ⟨rfl, hok⟩ := (hresult path).1 hpath
    obtain ⟨hsame, hagain⟩ := (makeDirectories_stands hentry hok).makeDirectories_again
    rw [← hfiles] at hsame hagain
    obtain ⟨hfiles', hresult'⟩ := makeEntry_eq .never (makeEntry .never fs s c hash).files hentry
    exact ⟨(hresult' path).2 ⟨rfl, hagain⟩, hfiles'.trans hsame⟩

def releaseEntry : Path := workStore.root.child (entryName release "af03")

theorem entryPath_release : workStore.entryPath release "af03" = .ok releaseEntry :=
  entryPath_eq workStore (by decide) (by decide +kernel)

theorem release_made_once : "af03" ≠ "" ∧
    FileSystem.Added .empty (makeEntry .never .empty workStore release "af03").files
      releaseEntry.toPathname ∧
    (makeEntry .never .empty workStore release "af03").result = .ok releaseEntry ∧
    (makeEntry .never (makeEntry .never .empty workStore release "af03").files workStore release
        "af03").files = (makeEntry .never .empty workStore release "af03").files := by
  have hhash : "af03" ≠ "" := by decide
  obtain ⟨dir, hdir, hadded, hagain⟩ := makeEntry_adds .empty workStore release hhash
  obtain rfl : releaseEntry = dir := Except.ok.inj (entryPath_release.symm.trans hdir)
  have hmade : (makeEntry .never .empty workStore release "af03").result = .ok releaseEntry :=
    ((makeEntry_eq .never .empty hdir).2 releaseEntry).2 ⟨rfl, by decide +kernel⟩
  exact ⟨hhash, hadded .never, hmade, (hagain releaseEntry hmade).2⟩

theorem present_unless_blocked (fs : FileSystem) :
    (∀ text, (makeDirectories .never fs (.ofText text)).result = .ok () →
      ((makeDirectories .never fs (.ofText text)).files.isDirectory (.ofText text) = true ↔
        (Pathname.ofText text).isTooLong = false ∧
          ¬ FileSystem.Blocked fs (makeDirectories .never fs (.ofText text)).files
            (Pathname.ofText text).stem)) ∧
    ∀ root c hash dir, (makeEntry .never fs ⟨.ofText root⟩ c hash).result = .ok dir →
      ((makeEntry .never fs ⟨.ofText root⟩ c hash).files.isDirectory dir.toPathname = true ↔
        ¬ FileSystem.Blocked fs (makeEntry .never fs ⟨.ofText root⟩ c hash).files
          dir.toPathname) := by
  constructor
  · intro text hok
    exact makeDirectories_isDirectory_iff (fun piece => Text.not_mem_of_mem_split) hok
  · intro root c hash dir hmade
    have hentry : entryPath ⟨.ofText root⟩ c hash = .ok dir := by
      cases he : entryPath ⟨.ofText root⟩ c hash with
      | error e => simp [makeEntry, he] at hmade
      | ok path => rw [((makeEntry_eq .never fs he).2 dir).1 hmade |>.1]
    obtain ⟨hfiles, hresult⟩ := makeEntry_eq .never fs hentry
    obtain ⟨-, hok⟩ := (hresult dir).1 hmade
    obtain ⟨top, he⟩ := (makeDirectories_stands hentry hok).exists_resolveEntry
    rw [hfiles, makeDirectories_isDirectory_iff (noSlash_of_mem_entryPath hentry) hok,
      Pathname.stem_eq_self (isPart_lastPiece_entryPath hentry),
      and_iff_right (FileSystem.notTooLong_of_resolveEntry he)]

def barredFiles : FileSystem :=
  ((FileSystem.empty.including ⟨["", "l"]⟩ (.link ⟨["gone"]⟩)).including ⟨["", "cache"]⟩
    .directory).including ⟨["", "cache", "com.example-js-lib-jar-1.0-af03"]⟩ (.file [])

theorem barredFiles_blocked :
    ((makeDirectories .never barredFiles (.ofText "l/.")).result = .ok () ∧
      FileSystem.Blocked barredFiles (makeDirectories .never barredFiles (.ofText "l/.")).files
        ⟨["l"]⟩) ∧
    (makeEntry .never barredFiles ⟨.ofText "cache"⟩ release "af03").result = .ok releaseEntry ∧
      FileSystem.Blocked barredFiles
        (makeEntry .never barredFiles ⟨.ofText "cache"⟩ release "af03").files
        releaseEntry.toPathname := by
  obtain ⟨hpath, hentry⟩ := present_unless_blocked barredFiles
  have hlink : (makeDirectories .never barredFiles (.ofText "l/.")).result = .ok () := by
    decide +kernel
  have hfile : (makeEntry .never barredFiles ⟨.ofText "cache"⟩ release "af03").result =
      .ok releaseEntry := by
    have hroot : (⟨.ofText "cache"⟩ : CacheStore) = workStore := by decide +kernel
    rw [hroot]
    exact ((makeEntry_eq .never barredFiles entryPath_release).2 _).2 ⟨rfl, by decide +kernel⟩
  have hlinkStays : (makeDirectories .never barredFiles (.ofText "l/.")).files.isDirectory
      (.ofText "l/.") = false := by
    decide +kernel
  have hfileStays : (makeEntry .never barredFiles ⟨.ofText "cache"⟩ release
      "af03").files.isDirectory releaseEntry.toPathname = false := by
    decide +kernel
  refine ⟨⟨hlink, ?_⟩, hfile, ?_⟩
  · by_contra hfree
    have hthere := (hpath "l/." hlink).2 ⟨by decide +kernel, hfree⟩
    rw [hlinkStays] at hthere
    cases hthere
  · by_contra hfree
    have hthere := (hentry "cache" release "af03" releaseEntry hfile).2 hfree
    rw [hfileStays] at hthere
    cases hthere

end CacheStore

end ArtifactCache
