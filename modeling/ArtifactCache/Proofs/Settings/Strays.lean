import ArtifactCache.Proofs.Settings.Reading
import ArtifactCache.Proofs.Text.Trimmed
import ArtifactCache.Proofs.Value

namespace ArtifactCache

variable {text shown : String} {v : Value} {vs : List Value} {es : List (String × Value)}
  {e : Exclusion}

structure Text.Enclosed (opening closing : Char) (s : String) : Prop where
  spelled : ∃ cs, s.toList = opening :: (cs ++ [closing])
  opening_visible : Text.isBlank opening = false
  closing_visible : Text.isBlank closing = false
  opening_ne : opening ≠ ':'
  closing_ne : closing ≠ ':'

namespace Text.Enclosed

variable {opening closing : Char}

theorem trim_eq (h : Enclosed opening closing text) : Text.trim text = text := by
  obtain ⟨cs, htext⟩ := h.spelled
  refine Tight.trim_eq ⟨fun c hc => ?_, fun c hc => ?_⟩
  · rw [htext] at hc
    obtain rfl : opening = c := Option.some.inj hc
    exact h.opening_visible
  · rw [htext, ← List.cons_append, List.getLast?_concat] at hc
    obtain rfl : closing = c := Option.some.inj hc
    exact h.closing_visible

theorem isPair_iff (h : Enclosed opening closing text) :
    Exclusion.IsPair text ↔ Text.colons text = 1 := by
  refine ⟨Exclusion.IsPair.colon, fun hcount => ⟨hcount, ?_⟩⟩
  obtain ⟨cs, htext⟩ := h.spelled
  have hcolon : ':' ∈ cs := by
    have hmem : ':' ∈ text.toList := by
      rw [← List.count_pos_iff]
      exact hcount.ge
    simpa [htext, h.opening_ne.symm, h.closing_ne.symm] using hmem
  obtain ⟨front, back, rfl⟩ := List.append_of_mem hcolon
  refine ⟨String.ofList (opening :: front), String.ofList (back ++ [closing]), ?_, ?_, ?_⟩
  · refine String.toList_inj.1 ?_
    rw [htext]
    simp [String.toList_append]
  · simp [Text.isBlankText, h.opening_visible]
  · simp [Text.isBlankText, h.closing_visible]

end Text.Enclosed

namespace Value

def IsStray (v : Value) : Prop :=
  ((∃ vs, v = .list vs) ∨ ∃ es, v = .table es) ∧ v.colons = 1 ∧ ¬ v.HoldsOverlong

theorem exists_describe_iff : (∃ shown, v.describe = .ok shown) ↔ ¬ v.HoldsOverlong := by
  rw [← describe_eq_error_iff (e := ⟨⟩)]
  cases v.describe <;> simp

theorem enclosed_list (h : (Value.list vs).describe = .ok shown) : Text.Enclosed '[' ']' shown := by
  obtain ⟨texts, -, ⟨⟩⟩ := bind_eq_ok_iff.1 h
  exact ⟨⟨(String.intercalate ", " texts).toList, by simp⟩, by decide, by decide, by decide,
    by decide⟩

theorem enclosed_table (h : (Value.table es).describe = .ok shown) :
    Text.Enclosed '\x7b' '\x7d' shown := by
  obtain ⟨texts, -, ⟨⟩⟩ := bind_eq_ok_iff.1 h
  exact ⟨⟨(String.intercalate ", " texts).toList, by simp⟩, by decide, by decide, by decide,
    by decide⟩

theorem IsStray.enclosed (h : v.IsStray) (hshown : v.describe = .ok shown) :
    ∃ opening closing, Text.Enclosed opening closing shown := by
  obtain ⟨⟨vs, rfl⟩ | ⟨es, rfl⟩, -⟩ := h
  · exact ⟨_, _, enclosed_list hshown⟩
  · exact ⟨_, _, enclosed_table hshown⟩

theorem IsStray.render_eq (h : v.IsStray) : v.render = v.describe := by
  obtain ⟨⟨vs, rfl⟩ | ⟨es, rfl⟩, -⟩ := h <;> rfl

theorem IsStray.trim_eq (h : v.IsStray) (hshown : v.describe = .ok shown) :
    Text.trim shown = shown := by
  obtain ⟨opening, closing, henclosed⟩ := h.enclosed hshown
  exact henclosed.trim_eq

theorem isStray_iff (htext : ∀ text, v ≠ .text text) :
    v.IsStray ↔ ∃ shown, v.render = .ok shown ∧ Text.colons shown = 1 := by
  have hshown : (∃ shown, v.describe = .ok shown ∧ Text.colons shown = 1) ↔
      v.colons = 1 ∧ ¬ v.HoldsOverlong := by
    rw [← exists_describe_iff, ← exists_and_left]
    exact exists_congr fun shown =>
      ⟨fun ⟨h, hcount⟩ => ⟨colons_describe h ▸ hcount, h⟩,
        fun ⟨hcount, h⟩ => ⟨h, colons_describe h ▸ hcount⟩⟩
  have hplain (hrender : v.render = v.describe) (hnone : v.colons = 0) :
      v.IsStray ↔ ∃ shown, v.render = .ok shown ∧ Text.colons shown = 1 := by
    rw [hrender, hshown]
    simp [IsStray, hnone]
  have hwritten {shown : String} (hrender : v.render = .ok shown) (hnone : v.colons = 0)
      (hcount : Text.colons shown ≠ 1) :
      v.IsStray ↔ ∃ shown, v.render = .ok shown ∧ Text.colons shown = 1 := by
    simp [IsStray, hrender, hnone, hcount]
  cases v with
  | text text => exact absurd rfl (htext text)
  | list vs => simpa [IsStray, render] using hshown.symm
  | table es => simpa [IsStray, render] using hshown.symm
  | date d => exact hwritten rfl rfl (by simp [colons_date])
  | time t => exact hwritten rfl rfl (by simp [colons_time])
  | dateTime d t o =>
      refine hwritten rfl rfl ?_
      rw [Text.colons_append, Text.colons_append, colons_time]
      omega
  | _ => exact hplain rfl rfl

end Value

namespace Exclusion

inductive ReadOff : Value → Exclusion → Prop where
  | text {text : String} {e : Exclusion} : ReadFrom text e → ReadOff (.text text) e
  | stray {v : Value} {e : Exclusion} : v.IsStray →
      v.describe = .ok (e.group ++ ":" ++ e.artifact) → ReadOff v e

theorem readOff_text_iff : ReadOff (.text text) e ↔ ReadFrom text e := by
  refine ⟨fun h => ?_, .text⟩
  cases h with
  | text h => exact h
  | stray h => simp [Value.IsStray] at h

theorem readOff_iff_stray (htext : ∀ text, v ≠ .text text) :
    ReadOff v e ↔ v.IsStray ∧ v.describe = .ok (e.group ++ ":" ++ e.artifact) := by
  refine ⟨fun h => ?_, fun ⟨hstray, he⟩ => .stray hstray he⟩
  cases h with
  | text => exact absurd rfl (htext _)
  | stray hstray he => exact ⟨hstray, he⟩

end Exclusion

namespace Settings

theorem rendersAs_iff : RendersAs v e ↔ Exclusion.ReadOff v e := by
  by_cases htext : ∃ text, v = .text text
  · obtain ⟨text, rfl⟩ := htext
    simp [RendersAs, Value.render, Exclusion.readOff_text_iff]
  · rw [not_exists] at htext
    rw [Exclusion.readOff_iff_stray htext]
    constructor
    · rintro ⟨shown, hrender, h⟩
      have hstray := (Value.isStray_iff htext).2
        ⟨shown, hrender, Text.colons_trim shown ▸ h.colon⟩
      rw [hstray.render_eq] at hrender
      exact ⟨hstray, hrender.trans (congrArg _ (h.text.trans (hstray.trim_eq hrender)).symm)⟩
    · rintro ⟨hstray, he⟩
      obtain ⟨shown, hrender, hcount⟩ := (Value.isStray_iff htext).1 hstray
      refine ⟨shown, hrender, ?_⟩
      rw [hstray.render_eq] at hrender
      obtain rfl := Except.ok.inj (hrender.symm.trans he)
      exact ⟨(Text.colons_trim _).trans hcount, (hstray.trim_eq hrender).symm⟩

theorem exists_rendersAs_iff_stray (htext : ∀ text, v ≠ .text text) :
    (∃ e, RendersAs v e) ↔ v.IsStray := by
  simp only [rendersAs_iff]
  constructor
  · rintro ⟨e, h⟩
    exact ((Exclusion.readOff_iff_stray htext).1 h).1
  · intro hstray
    obtain ⟨shown, hrender, hcount⟩ := (Value.isStray_iff htext).1 hstray
    have hshown := hstray.render_eq ▸ hrender
    obtain ⟨opening, closing, henclosed⟩ := hstray.enclosed hshown
    simp only [← rendersAs_iff, exists_rendersAs_iff]
    refine ⟨shown, hrender, ?_⟩
    rwa [hstray.trim_eq hshown, henclosed.isPair_iff]

variable {values : List (String × Value)} {root home source : String} {s : Settings}

theorem renders_pair_iff : (∃ text, v.render = .ok text ∧ Exclusion.IsPair (Text.trim text)) ↔
    (∃ text, v = .text text ∧ Exclusion.IsPair (Text.trim text)) ∨ v.IsStray := by
  by_cases htext : ∃ text, v = .text text
  · obtain ⟨text, rfl⟩ := htext
    simp [Value.render, Value.IsStray]
  · have hnone : ¬ ∃ text, v = .text text ∧ Exclusion.IsPair (Text.trim text) :=
      fun ⟨text, hv, _⟩ => htext ⟨text, hv⟩
    rw [or_iff_right hnone, ← exists_rendersAs_iff_stray (not_exists.1 htext),
      exists_rendersAs_iff]

theorem Follows.readOff (h : Follows values root home s) :
    ∃ vs, given values "excludes" (.list []) = .list vs ∧
      List.Forall₂ Exclusion.ReadOff vs s.excludes := by
  obtain ⟨vs, hvs, hexcludes⟩ := h.excludes
  exact ⟨vs, hvs, hexcludes.imp fun _ _ => rendersAs_iff.1⟩

theorem readable_excludes_iff : Readable [("excludes", .list vs)] ↔
    ∀ v ∈ vs, (∃ text, v = .text text ∧ Exclusion.IsPair (Text.trim text)) ∨ v.IsStray := by
  simp only [← renders_pair_iff]
  constructor
  · intro h
    obtain ⟨us, hus, hpairs⟩ := h.excludes (.list vs) rfl
    obtain rfl := Value.list.inj hus
    exact hpairs
  · intro hpairs
    refine ⟨by simp [NamesKnown], nofun, nofun, ?_⟩
    rintro _ ⟨⟩
    exact ⟨vs, rfl, hpairs⟩

theorem not_readable_of_misread (hvs : option? values "excludes" = some (.list vs)) (hv : v ∈ vs)
    (htext : ∀ text, v ≠ .text text) (hstray : ¬ v.IsStray) : ¬ Readable values := by
  intro hreadable
  obtain ⟨us, hus, hpairs⟩ := hreadable.excludes _ hvs
  obtain rfl := Value.list.inj hus
  rcases renders_pair_iff.1 (hpairs v hv) with ⟨text, rfl, -⟩ | h
  · exact htext text rfl
  · exact hstray h

theorem excludes_read_off (values : List (String × Value)) (root home source : String) :
    (∀ s, ofSection (.table values) root home source = .ok s →
      ∃ vs, given values "excludes" (.list []) = .list vs ∧
        List.Forall₂ Exclusion.ReadOff vs s.excludes) ∧
    (∀ vs v, option? values "excludes" = some (.list vs) → v ∈ vs → (∀ text, v ≠ .text text) →
      ¬ v.IsStray →
      (¬ Unshowable values →
        ∃ d, ofSection (.table values) root home source = .error (.config (.defect source d))) ∧
      (Unshowable values →
        ofSection (.table values) root home source = .error (.fault (.overlongInteger ⟨⟩)))) ∧
    ∀ vs, (∃ s, ofSection (.table [("excludes", .list vs)]) root home source = .ok s) ↔
      ∀ v ∈ vs, (∃ text, v = .text text ∧ Exclusion.IsPair (Text.trim text)) ∨ v.IsStray := by
  refine ⟨fun s hs => ?_, fun vs v hvs hv htext hstray => ?_, fun vs => ?_⟩
  · rw [ofSection_table_eq_ok_iff] at hs
    exact hs.2.readOff
  · have hunread := not_readable_of_misread hvs hv htext hstray
    exact ⟨fun hshown => exists_defect_iff.2 ⟨hunread, hshown⟩, ofSection_table_unshown_iff.2⟩
  · rw [exists_settings_iff, readable_excludes_iff]

def strayTable : Value := .table [("a", .int 1)]

theorem strayTable_read_off : ∃ s,
    ofSection (.table [("excludes", .list [strayTable])]) "/b" "/home" "<defaults>" = .ok s ∧
      ∃ e, s.excludes = [e] ∧ e.group ++ ":" ++ e.artifact = "\x7b'a': 1\x7d" := by
  have hshown : strayTable.describe = .ok "\x7b'a': 1\x7d" := by decide +kernel
  have hstray : strayTable.IsStray :=
    ⟨.inr ⟨_, rfl⟩, by decide +kernel, Value.exists_describe_iff.1 ⟨_, hshown⟩⟩
  obtain ⟨hread, -, hgives⟩ := excludes_read_off [("excludes", .list [strayTable])] "/b" "/home"
    "<defaults>"
  obtain ⟨s, hs⟩ := (hgives [strayTable]).2 (by simp [hstray])
  obtain ⟨vs, hvs, hall⟩ := hread s hs
  obtain rfl := Value.list.inj hvs
  obtain ⟨e, _, he, hnil, hexcludes⟩ := List.forall₂_cons_left_iff.1 hall
  obtain rfl := List.forall₂_nil_left_iff.1 hnil
  cases he with
  | stray _ he => exact ⟨s, hs, e, hexcludes, Except.ok.inj (he.symm.trans hshown)⟩

end Settings

end ArtifactCache
