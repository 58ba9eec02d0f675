import ArtifactCache.Proofs.Exclusion
import ArtifactCache.Proofs.Steps
import ArtifactCache.Proofs.Template
import ArtifactCache.Proofs.Value
import ArtifactCache.Settings.Load

namespace ArtifactCache.Settings

variable {values : List (String × Value)} {vs : List Value} {v : Value} {s : Settings}
  {name root home source default text template : String} {names : List String} {l : Log.Level}
  {t : OptionType} {o : OverlongInteger}

def Calls (text : String) (l : Log.Level) : Prop :=
  (Text.trim text).toList.map Char.toLower = l.option.toList

def IsSeed (name : String) : Prop := name = "buildroot" ∨ name = "homedir"

def given (values : List (String × Value)) (name : String) (default : Value) : Value :=
  (option? values name).getD default

def IsTemplate (v : Value) : Prop :=
  ∃ template, v = .text template ∧ ∀ name, Template.Occurs name template.toList → IsSeed name

def IsLevel (v : Value) : Prop := ∃ text l, v = .text text ∧ Calls text l

def IsExcludes (v : Value) : Prop :=
  ∃ vs, v = .list vs ∧ ∀ x ∈ vs, ∃ text, x.render = .ok text ∧ Exclusion.IsPair (Text.trim text)

def RendersAs (v : Value) (e : Exclusion) : Prop :=
  ∃ text, v.render = .ok text ∧ Exclusion.ReadFrom text e

def NamesKnown (values : List (String × Value)) : Prop :=
  ∀ entry ∈ values, entry.1 = "cache_dir" ∨ entry.1 = "excludes" ∨ entry.1 = "level"

structure Readable (values : List (String × Value)) : Prop where
  names : NamesKnown values
  cacheDir : ∀ v, option? values "cache_dir" = some v → IsTemplate v
  level : ∀ v, option? values "level" = some v → IsLevel v
  excludes : ∀ v, option? values "excludes" = some v → IsExcludes v

structure Follows (values : List (String × Value)) (root home : String) (s : Settings) : Prop where
  buildroot : s.buildroot = .ofText root
  cacheDir : ∃ template text, given values "cache_dir" (.text defaultCacheDir) = .text template ∧
    Template.Filled (seeds root home) template text ∧ s.cacheDir = .ofText text
  level : ∃ text, given values "level" (.text "info") = .text text ∧ Calls text s.level
  excludes : ∃ vs, given values "excludes" (.list []) = .list vs ∧
    List.Forall₂ RendersAs vs s.excludes

/-- The first option that is amiss has the wrong type and holds an integer that is too long to be
shown. Types are looked at in the order of the constructors, and the placeholders of `cache_dir`
right after its type. -/
inductive Unshowable (values : List (String × Value)) : Prop where
  | cacheDir : NamesKnown values →
      (given values "cache_dir" (.text defaultCacheDir)).HoldsOverlong → Unshowable values
  | level : NamesKnown values → IsTemplate (given values "cache_dir" (.text defaultCacheDir)) →
      (given values "level" (.text "info")).HoldsOverlong → Unshowable values
  | excludes : NamesKnown values → IsTemplate (given values "cache_dir" (.text defaultCacheDir)) →
      (∃ text, given values "level" (.text "info") = .text text) →
      (∀ vs, given values "excludes" (.list []) ≠ .list vs) →
      (given values "excludes" (.list [])).HoldsOverlong → Unshowable values

theorem checkNames_eq_ok_iff : checkNames names = .ok () ↔ ∀ n ∈ names, n ∈ optionNames := by
  have hnone : unknownNames names = [] ↔ ∀ n ∈ names, n ∈ optionNames := by
    simp [unknownNames, List.eq_nil_iff_forall_not_mem]
  rw [← hnone, checkNames]
  cases unknownNames names <;> simp

theorem sameWord_iff : Text.sameWord text l.option = true ↔ Calls text l := by
  unfold Text.sameWord Calls
  exact beq_iff_eq

theorem eq_of_calls {m : Log.Level} (hl : Calls text l) (hm : Calls text m) : l = m := by
  have hoption : l.option = m.option := String.toList_inj.1 (hl.symm.trans hm)
  revert hoption
  cases l <;> cases m <;> decide

theorem parse_level_eq_ok_iff : Log.Level.parse text = .ok l ↔ Calls text l := by
  have hall (l : Log.Level) : l ∈ Log.Level.all := by cases l <;> decide
  unfold Log.Level.parse
  split
  · next found hfound =>
      have hsame := List.find?_some hfound
      have hcalls := sameWord_iff.1 hsame
      refine ⟨fun h => Except.ok.inj h ▸ hcalls, fun h => ?_⟩
      rw [eq_of_calls hcalls h]
  · next hnone =>
      have hother := List.find?_eq_none.1 hnone l (hall l)
      exact ⟨nofun, fun h => absurd (sameWord_iff.2 h) hother⟩

theorem given_iff {p : Value → Prop} {d : Value} (hd : p d) :
    p (given values name d) ↔ ∀ v, option? values name = some v → p v := by
  unfold given
  cases option? values name with
  | none => exact iff_of_true hd nofun
  | some v => simp

theorem textOption_eq_ok_iff :
    textOption values name default = .ok text ↔ given values name (.text default) = .text text := by
  unfold textOption given
  cases option? values name with
  | none => simp
  | some v => cases v <;> simp

theorem listOption_eq_ok_iff :
    listOption values name = .ok vs ↔ given values name (.list []) = .list vs := by
  unfold listOption given
  cases option? values name with
  | none => simp
  | some v => cases v <;> simp

theorem misfit_eq_overlong_iff : misfit name t v = .overlong o ↔ v.HoldsOverlong := by
  rw [misfit, ← Value.describe_eq_error_iff (e := o)]
  cases v.describe <;> simp

theorem textOption_eq_overlong_iff : textOption values name default = .error (.overlong o) ↔
    (given values name (.text default)).HoldsOverlong := by
  unfold textOption given
  cases option? values name with
  | none => exact iff_of_false nofun nofun
  | some v =>
      cases v with
      | text s => exact iff_of_false nofun nofun
      | _ => simp [misfit_eq_overlong_iff]

theorem listOption_eq_overlong_iff : listOption values name = .error (.overlong o) ↔
    (∀ vs, given values name (.list []) ≠ .list vs) ∧
      (given values name (.list [])).HoldsOverlong := by
  unfold listOption given
  cases option? values name with
  | none => simp
  | some v =>
      cases v with
      | list vs => simp
      | _ => simp [misfit_eq_overlong_iff]

theorem isSome_seeds_iff : (seeds root home name).isSome = true ↔ IsSeed name := by
  unfold seeds IsSeed
  split <;> simp_all

theorem fillTemplate_eq_ok_iff : fillTemplate root home template = .ok text ↔
    (∀ name, Template.Occurs name template.toList → IsSeed name) ∧
      Template.Filled (seeds root home) template text := by
  simp only [fillTemplate, mapError_eq_ok_iff, Template.expand_eq_ok_iff, isSome_seeds_iff]

theorem readExclude_eq_ok_iff {e : Exclusion} : readExclude v = .ok e ↔ RendersAs v e := by
  unfold readExclude RendersAs
  cases v.render with
  | error o => simp
  | ok text => simp [mapError_eq_ok_iff, Exclusion.parse_eq_ok_iff]

theorem exists_rendersAs_iff : (∃ e, RendersAs v e) ↔
    ∃ text, v.render = .ok text ∧ Exclusion.IsPair (Text.trim text) := by
  simp only [RendersAs, ← Exclusion.exists_parse_iff, Exclusion.parse_eq_ok_iff]
  rw [exists_comm]
  simp only [exists_and_left]

theorem eq_buildroot_of_occurs_default (h : Template.Occurs name defaultCacheDir.toList) :
    name = "buildroot" := by
  have hroot : Template.IsName "buildroot" :=
    ⟨by decide, List.all_eq_true.1 (by decide)⟩
  have htemplate : defaultCacheDir.toList =
      (Template.Piece.placeholder "buildroot").spell ++ "/target/j2clbuild-cache".toList := rfl
  rw [htemplate, Template.occurs_spell_append_iff hroot] at h
  refine h.resolve_right fun hrest => ?_
  have hmark : '%' ∈ "/target/j2clbuild-cache".toList :=
    hrest.2.mem (by simp [Template.Piece.spell])
  revert hmark
  decide

theorem checkNames_values_iff : checkNames (values.map (·.1)) = .ok () ↔ NamesKnown values := by
  rw [checkNames_eq_ok_iff]
  simp only [NamesKnown, optionNames, List.forall_mem_map, List.mem_cons, List.not_mem_nil,
    or_false]

theorem ofValues_steps : ofValues values root home = .ok s ↔
    NamesKnown values ∧ s.buildroot = .ofText root ∧
    (∃ template text, given values "cache_dir" (.text defaultCacheDir) = .text template ∧
      (∀ name, Template.Occurs name template.toList → IsSeed name) ∧
      Template.Filled (seeds root home) template text ∧ s.cacheDir = .ofText text) ∧
    (∃ text, given values "level" (.text "info") = .text text ∧ Calls text s.level) ∧
    ∃ vs, given values "excludes" (.list []) = .list vs ∧ List.Forall₂ RendersAs vs s.excludes := by
  simp only [ofValues, bind_eq_ok_iff, mapError_eq_ok_iff, textOption_eq_ok_iff,
    listOption_eq_ok_iff, fillTemplate_eq_ok_iff, mapM_eq_ok_iff, readExclude_eq_ok_iff, readLevel,
    parse_level_eq_ok_iff]
  constructor
  · rintro ⟨u, hnames, template, htemplate, text, ⟨hknown, hfilled⟩, levelText, hlevelText, vs,
      hvs, level, hlevel, excludes, hexcludes, hs⟩
    obtain rfl := Except.ok.inj hs
    refine ⟨checkNames_values_iff.1 hnames, rfl, ⟨template, text, htemplate, hknown, hfilled, rfl⟩,
      ⟨levelText, ?_, hlevel⟩, vs, hvs, hexcludes⟩
    exact hlevelText
  · rintro ⟨hnames, hroot, ⟨template, text, htemplate, hknown, hfilled, htext⟩,
      ⟨levelText, hlevelText, hlevel⟩, vs, hvs, hexcludes⟩
    refine ⟨(), checkNames_values_iff.2 hnames, template, htemplate, text, ⟨hknown, hfilled⟩,
      levelText, hlevelText, vs, hvs, s.level, hlevel, s.excludes, hexcludes, ?_⟩
    rw [← hroot, ← htext]
    rfl

theorem readable_iff : Readable values ↔ NamesKnown values ∧
    IsTemplate (given values "cache_dir" (.text defaultCacheDir)) ∧
    IsLevel (given values "level" (.text "info")) ∧
    IsExcludes (given values "excludes" (.list [])) := by
  have htemplate : IsTemplate (.text defaultCacheDir) :=
    ⟨_, rfl, fun _ h => .inl (eq_buildroot_of_occurs_default h)⟩
  have hlevel : IsLevel (.text "info") := ⟨_, .info, rfl, sameWord_iff.1 (by decide +kernel)⟩
  have hexcludes : IsExcludes (.list []) := ⟨_, rfl, by simp⟩
  rw [given_iff htemplate, given_iff hlevel, given_iff hexcludes]
  exact ⟨fun ⟨hn, hc, hl, he⟩ => ⟨hn, hc, hl, he⟩, fun ⟨hn, hc, hl, he⟩ => ⟨hn, hc, hl, he⟩⟩

theorem ofValues_eq_ok_iff :
    ofValues values root home = .ok s ↔ Readable values ∧ Follows values root home s := by
  rw [ofValues_steps, readable_iff]
  constructor
  · rintro ⟨hnames, hroot, ⟨template, text, htemplate, hknown, hfilled, htext⟩,
      ⟨levelText, hlevelText, hlevel⟩, vs, hvs, hexcludes⟩
    have hpairs : ∀ x ∈ vs, ∃ text, x.render = .ok text ∧ Exclusion.IsPair (Text.trim text) := by
      simp only [← exists_rendersAs_iff]
      exact exists_forall₂_iff.1 ⟨_, hexcludes⟩
    exact ⟨⟨hnames, ⟨_, htemplate, hknown⟩, ⟨_, _, hlevelText, hlevel⟩, _, hvs, hpairs⟩,
      hroot, ⟨_, _, htemplate, hfilled, htext⟩, ⟨_, hlevelText, hlevel⟩, _, hvs, hexcludes⟩
  · rintro ⟨⟨hnames, ⟨other, hother, hknown⟩, -, -⟩, hroot,
      ⟨template, text, htemplate, hfilled, htext⟩, hlevel, hexcludes⟩
    obtain rfl := Value.text.inj (hother.symm.trans htemplate)
    exact ⟨hnames, hroot, ⟨_, _, htemplate, hknown, hfilled, htext⟩, hlevel, hexcludes⟩

theorem exists_follows (h : Readable values) (root home : String) :
    ∃ s, Follows values root home s := by
  obtain ⟨-, ⟨template, htemplate, -⟩, ⟨levelText, l, hlevelText, hl⟩, vs, hvs, hpairs⟩ :=
    readable_iff.1 h
  simp only [← exists_rendersAs_iff] at hpairs
  obtain ⟨es, hes⟩ := exists_forall₂_iff.2 hpairs
  obtain ⟨text, hfilled⟩ := Template.exists_filled (seeds root home) template
  exact ⟨⟨.ofText root, .ofText text, l, es⟩, rfl, ⟨_, _, htemplate, hfilled, rfl⟩,
    ⟨_, hlevelText, hl⟩, vs, hvs, hes⟩

theorem isTemplate_iff {v : Value} (root home : String) : IsTemplate v ↔
    ∃ template, v = .text template ∧ ∃ text, fillTemplate root home template = .ok text := by
  simp only [fillTemplate_eq_ok_iff, exists_and_left, IsTemplate]
  refine exists_congr fun template => and_congr_right fun _ => (and_iff_left ?_).symm
  exact Template.exists_filled (seeds root home) template

theorem ofValues_eq_overlong_iff :
    ofValues values root home = .error (.overlong o) ↔ Unshowable values := by
  simp only [ofValues, bind_eq_error_iff, mapError_eq_error_iff, mapError_eq_ok_iff,
    textOption_eq_overlong_iff, listOption_eq_overlong_iff, textOption_eq_ok_iff,
    reduceCtorEq, and_false, exists_false, false_or]
  constructor
  · rintro ⟨u, hnames, hcacheDir | ⟨template, htemplate, text, hfilled, hrest⟩⟩
    · exact .cacheDir (checkNames_values_iff.1 hnames) hcacheDir
    have hknown : NamesKnown values := checkNames_values_iff.1 hnames
    have hgiven : IsTemplate (given values "cache_dir" (.text defaultCacheDir)) :=
      (isTemplate_iff root home).2 ⟨template, htemplate, text, hfilled⟩
    rcases hrest with hlevel | ⟨levelText, hlevelText, ⟨hlist, hexcludes⟩ | hrest⟩
    · exact .level hknown hgiven hlevel
    · exact .excludes hknown hgiven ⟨levelText, hlevelText⟩ hlist hexcludes
    · obtain ⟨vs, -, level, -, excludes, -, ⟨⟩⟩ := hrest
  · intro h
    cases h with
    | cacheDir hknown hoverlong =>
        exact ⟨(), checkNames_values_iff.2 hknown, .inl hoverlong⟩
    | level hknown htemplate hoverlong =>
        obtain ⟨template, htemplate, text, hfilled⟩ := (isTemplate_iff root home).1 htemplate
        exact ⟨(), checkNames_values_iff.2 hknown, .inr ⟨template, htemplate, text, hfilled,
          .inl hoverlong⟩⟩
    | excludes hknown htemplate hlevel hlist hoverlong =>
        obtain ⟨template, htemplate, text, hfilled⟩ := (isTemplate_iff root home).1 htemplate
        obtain ⟨levelText, hlevelText⟩ := hlevel
        exact ⟨(), checkNames_values_iff.2 hknown, .inr ⟨template, htemplate, text, hfilled,
          .inr ⟨levelText, hlevelText, .inl ⟨hlist, hoverlong⟩⟩⟩⟩

theorem ofSection_table_eq_ok_iff : ofSection (.table values) root home source = .ok s ↔
    Readable values ∧ Follows values root home s := by
  rw [ofSection, mapError_eq_ok_iff, ofValues_eq_ok_iff]

theorem exists_settings_iff :
    (∃ s, ofSection (.table values) root home source = .ok s) ↔ Readable values := by
  simp only [ofSection_table_eq_ok_iff, exists_and_left]
  exact and_iff_left_of_imp fun h => exists_follows h root home

theorem ofSection_table_unshown_iff :
    ofSection (.table values) root home source = .error (.fault (.overlongInteger o)) ↔
      Unshowable values := by
  rw [← @ofValues_eq_overlong_iff values root home o, ofSection, mapError_eq_error_iff]
  constructor
  · rintro ⟨r, hr, hfault⟩
    cases r with
    | defect d => cases hfault
    | overlong o' => cases hfault; exact hr
  · intro h
    exact ⟨_, h, rfl⟩

theorem exists_defect_iff :
    (∃ d, ofSection (.table values) root home source = .error (.config (.defect source d))) ↔
      ¬ Readable values ∧ ¬ Unshowable values := by
  rw [← @exists_settings_iff values root home source,
    ← @ofSection_table_unshown_iff values root home source ⟨⟩, ofSection]
  rcases ofValues values root home with (d | o) | s <;> simp [Except.mapError, LoadError.ofRefusal]

theorem ofSection_table_reads (values : List (String × Value)) (root home source : String) :
    ((∃ s, ofSection (.table values) root home source = .ok s) ↔ Readable values) ∧
    ((∃ d, ofSection (.table values) root home source = .error (.config (.defect source d))) ↔
      ¬ Readable values ∧ ¬ Unshowable values) ∧
    (ofSection (.table values) root home source = .error (.fault (.overlongInteger ⟨⟩)) ↔
      Unshowable values) ∧
    (∀ s, ofSection (.table values) root home source = .ok s ↔
      Readable values ∧ Follows values root home s) ∧
    ∀ s : Settings, s.override none none = s :=
  ⟨exists_settings_iff, exists_defect_iff, ofSection_table_unshown_iff,
    fun _ => ofSection_table_eq_ok_iff, fun _ => rfl⟩

end ArtifactCache.Settings
