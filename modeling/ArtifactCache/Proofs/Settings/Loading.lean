import Mathlib.Data.Set.List
import ArtifactCache.Proofs.FileSystem.Moving
import ArtifactCache.Proofs.Settings.Reading
import ArtifactCache.Toml.Document

namespace ArtifactCache.Settings

variable {names : List String} {v : Value} {vs : List Value} {buildroot home source : String}

def IsSettled : Except LoadError Settings → Prop
  | .ok _ => True
  | .error (.config _) => True
  | .error (.fault _) => False

instance : DecidablePred IsSettled
  | .ok _ => isTrue trivial
  | .error (.config _) => isTrue trivial
  | .error (.fault _) => isFalse id

/-- A table can be asked for its options. Anything else is refused only for naming something that is
no option, as every character of a text does. -/
def Settles : Value → Prop
  | .table es => ¬ Unshowable es
  | .text s => s ≠ ""
  | .list vs => (∀ v ∈ vs, ∃ s, v = .text s) ∧ ∃ s, .text s ∈ vs ∧ s ∉ optionNames
  | _ => False

theorem singleton_not_mem_optionNames (c : Char) : String.singleton c ∉ optionNames := by
  intro hc
  have hlong : ∀ n ∈ optionNames, n.length ≠ 1 := by decide
  exact hlong _ hc (by simp)

theorem mapM_text?_map (names : List String) : (names.map Value.text).mapM text? = some names := by
  induction names with
  | nil => rfl
  | cons n names ih => simp [text?, ih]

theorem map_of_mapM_text? (h : vs.mapM text? = some names) : names.map .text = vs := by
  induction vs generalizing names with
  | nil =>
      obtain rfl : [] = names := Option.some.inj h
      rfl
  | cons v vs ih =>
      simp only [List.mapM_cons, Option.bind_eq_bind, Option.bind_eq_some_iff] at h
      obtain ⟨n, hn, ns, hns, hnames⟩ := h
      obtain rfl : n :: ns = names := Option.some.inj hnames
      cases v with
      | text s =>
          obtain rfl : s = n := Option.some.inj hn
          rw [List.map_cons, ih hns]
      | _ => cases hn

theorem mapM_text?_eq_some_iff : vs.mapM text? = some names ↔ names.map .text = vs := by
  constructor
  · exact map_of_mapM_text?
  · rintro rfl
    exact mapM_text?_map names

theorem exists_map_text_iff :
    (∃ names : List String, names.map .text = vs) ↔ ∀ v ∈ vs, ∃ s, v = .text s := by
  have hrange := Set.ext_iff.1 (Set.range_list_map Value.text) vs
  simpa [eq_comm] using hrange

theorem ofSection_table_settled_iff {es : List (String × Value)} :
    IsSettled (ofSection (.table es) buildroot home source) ↔ ¬ Unshowable es := by
  rw [← @ofValues_eq_overlong_iff es buildroot home ⟨⟩, ofSection]
  rcases ofValues es buildroot home with (d | o) | s <;>
    simp [Except.mapError, LoadError.ofRefusal, IsSettled]

theorem ofSection_other (hv : ∀ es, v ≠ .table es) :
    IsSettled (ofSection v buildroot home source) ↔
      ∃ names, sectionNames? v = some names ∧ ∃ n ∈ names, n ∉ optionNames := by
  unfold ofSection
  split
  · exact absurd rfl (hv _)
  · next _ hnone => simp [IsSettled, hnone]
  · next names _ hnames =>
      have hcheck : checkNames names = .ok () ↔ _ := checkNames_eq_ok_iff
      rw [hnames]
      cases hc : checkNames names with
      | error d =>
          rw [hc] at hcheck
          simpa [IsSettled] using hcheck
      | ok u =>
          rw [hc] at hcheck
          simpa [IsSettled] using hcheck

theorem ofSection_settled_iff : IsSettled (ofSection v buildroot home source) ↔ Settles v := by
  cases v with
  | table es => exact ofSection_table_settled_iff
  | text s =>
      have hsome : (∃ c, c ∈ s.toList) ↔ s ≠ "" := by
        rw [ne_eq, ← String.toList_eq_nil_iff, List.eq_nil_iff_forall_not_mem]
        simp
      rw [ofSection_other (by simp), Settles, ← hsome]
      simp [sectionNames?, singleton_not_mem_optionNames]
  | list vs =>
      rw [ofSection_other (by simp), Settles, ← exists_map_text_iff]
      simp only [sectionNames?, mapM_text?_eq_some_iff]
      constructor
      · rintro ⟨names, rfl, n, hn, hopt⟩
        exact ⟨⟨names, rfl⟩, n, List.mem_map_of_mem hn, hopt⟩
      · rintro ⟨⟨names, rfl⟩, n, hn, hopt⟩
        exact ⟨names, rfl, n, by simpa using hn, hopt⟩
  | _ =>
      rw [ofSection_other (by simp)]
      simp [sectionNames?, Settles]

theorem load_settled_iff (reader : Reader) (fs : FileSystem) (home : String) (path : Path)
    (buildroot : Option String) :
    IsSettled (load reader fs home path buildroot).result ↔
      path.toPathname.hasNul = false ∧ ∀ bytes, fs.read path.toPathname = .ok bytes →
        ∃ text, Text.decodeLines bytes = some text ∧
          ∀ document, reader text = some document → Settles (sectionOf document) := by
  simp only [load, readDocument]
  cases hnul : path.toPathname.hasNul with
  | true => simp [IsSettled]
  | false =>
      cases hread : fs.read path.toPathname with
      | error e => simp [IsSettled]
      | ok bytes =>
          cases hdecode : Text.decodeLines bytes with
          | none => simp [IsSettled, hdecode]
          | some text =>
              cases hdocument : reader text with
              | none => simp [IsSettled, hdecode, hdocument]
              | some document => simpa [hdecode, hdocument] using ofSection_settled_iff

def numberedFile : FileSystem :=
  FileSystem.empty.including ⟨["", "j2clbuild.toml"]⟩ (.file "GLOBAL = 1\n".toUTF8.toList)

example :
    ¬ IsSettled (load Toml.parse numberedFile "/home" (.ofText "/j2clbuild.toml") none).result := by
  decide +kernel

end ArtifactCache.Settings
