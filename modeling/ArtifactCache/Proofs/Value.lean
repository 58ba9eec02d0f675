import ArtifactCache.Proofs.Steps
import ArtifactCache.Proofs.Text.Colons
import ArtifactCache.Value.Basic

namespace ArtifactCache

variable {n : Nat} {cs : List Char}

open Text (colons)

theorem count_toDigits (n : Nat) : (Nat.toDigits 10 n).count ':' = 0 :=
  List.count_eq_zero.2 (Text.colon_not_mem_toDigits (by decide) (by decide) n)

@[simp] theorem colons_digitText (n : Nat) : colons (Decimal.Layout.digitText n) = 0 := by
  rw [Decimal.Layout.digitText, Text.colons_ofList, count_toDigits]

@[simp] theorem colons_zeros (n : Nat) : colons (Decimal.Layout.zeros n) = 0 := by
  rw [Decimal.Layout.zeros, Text.colons_ofList, List.count_eq_zero]
  simp

@[simp] theorem colons_padded (width n : Nat) : colons (Decimal.Layout.padded width n) = 0 := by
  simp [Decimal.Layout.padded]

theorem colons_int (i : Int) : colons (toString i) = 0 := by
  have hnat (n : Nat) : colons n.repr = 0 := colons_digitText n
  cases i with
  | ofNat n => exact hnat n
  | negSucc n =>
      change colons ("-" ++ (n + 1).repr) = 0
      rw [Text.colons_append, hnat]
      rfl

theorem count_of_sublist_toDigits (h : cs.Sublist (Nat.toDigits 10 n)) : cs.count ':' = 0 :=
  Nat.eq_zero_of_le_zero (count_toDigits n ▸ h.count_le ':')

namespace Decimal.Layout

variable {l : Layout}

theorem colons_positional (h : colons l.wholeEnding = 0) (d : Numeral) :
    colons (l.positional d) = 0 := by
  have hpoint : colons "." = 0 := rfl
  have hzero : colons "0." = 0 := rfl
  have htake (k : Nat) := count_of_sublist_toDigits (List.take_sublist k (Nat.toDigits 10 d.digits))
  have hdrop (k : Nat) := count_of_sublist_toDigits (List.drop_sublist k (Nat.toDigits 10 d.digits))
  simp only [positional]
  split_ifs <;> simp [h, hpoint, hzero, htake, hdrop, count_toDigits]

theorem colons_scientific (d : Numeral) (power : Int) : colons (l.scientific d power) = 0 := by
  have hletter : colons "e" = 0 := rfl
  have hsign : colons (if power < 0 then "-" else "+") = 0 := by split_ifs <;> rfl
  have hdigits := count_toDigits d.digits
  simp only [scientific, Text.colons_append, hletter, hsign, colons_padded, Nat.add_zero]
  split
  · rfl
  · next c hc =>
      rw [Text.colons_ofList, ← hc]
      exact hdigits
  · next c cs _ hcs =>
      rw [hcs, List.count_cons] at hdigits
      rw [Text.colons_ofList, List.count_cons, List.count_cons]
      have hpoint : (if ('.' == ':') = true then 1 else 0) = 0 := rfl
      omega

theorem colons_write (hwhole : colons l.wholeEnding = 0) (hnan : colons l.nan = 0)
    (hinfinity : colons l.infinity = 0) (x : Binary64) : colons (l.write x) = 0 := by
  have hsign (negative : Bool) : colons (if negative then "-" else "") = 0 := by
    cases negative <;> rfl
  cases x with
  | nan => exact hnan
  | infinite negative => rw [write, Text.colons_append, hsign, hinfinity]
  | finite negative m q =>
      rw [write, Text.colons_append, hsign, Nat.zero_add]
      simp only [finite]
      split_ifs
      · exact colons_positional hwhole _
      · exact colons_scientific _ _

end Decimal.Layout

theorem colons_showFields (kind : String) (ns : List Nat) (more : List String) :
    colons (Value.showFields kind ns more) = colons kind + (more.map colons).sum := by
  have hopen : colons "datetime." = 0 := rfl
  have hround : colons "(" = 0 := rfl
  have hclose : colons ")" = 0 := rfl
  have hfields : ((ns.map Decimal.Layout.digitText).map colons).sum = 0 := by
    simp [List.map_map, Function.comp_def]
  rw [Value.showFields]
  simp only [Text.colons_append, Text.colons_intercalate, List.map_append, List.sum_append, hopen,
    hround, hclose, hfields]
  omega

theorem colons_date (d : Date) : colons d.render = 0 := by
  have hdash : colons "-" = 0 := rfl
  simp [Date.render, hdash]

theorem colons_time (t : TimeOfDay) : colons t.render = 2 := by
  have hcolon : colons ":" = 1 := rfl
  have hpoint : colons "." = 0 := rfl
  simp only [TimeOfDay.render]
  split_ifs <;> simp [hcolon, hpoint]

theorem colons_offset (o : UtcOffset) : colons o.describe = 0 := by
  change colons "<toml.tz.TomlTz object>" = 0
  decide +kernel

namespace Value

mutual

def colons : Value → Nat
  | .text s => Text.colons s
  | .list vs => colonsOfAll vs
  | .table es => colonsOfEntries es
  | _ => 0

def colonsOfAll : List Value → Nat
  | [] => 0
  | v :: vs => v.colons + colonsOfAll vs

def colonsOfEntries : List (String × Value) → Nat
  | [] => 0
  | (k, v) :: es => Text.colons k + 1 + v.colons + colonsOfEntries es

end

/-- Some integer in it, however deep, is too long to be shown. -/
inductive HoldsOverlong : Value → Prop where
  | int {i : Int} : leastOverlong ≤ i.natAbs → HoldsOverlong (.int i)
  | list {vs : List Value} {v : Value} : v ∈ vs → v.HoldsOverlong → HoldsOverlong (.list vs)
  | table {es : List (String × Value)} {e : String × Value} :
      e ∈ es → e.2.HoldsOverlong → HoldsOverlong (.table es)

variable {v : Value} {vs : List Value} {es : List (String × Value)} {i : Int}

theorem holdsOverlong_int_iff : (int i).HoldsOverlong ↔ leastOverlong ≤ i.natAbs :=
  ⟨fun h => by cases h with | int h => exact h, .int⟩

theorem holdsOverlong_list_iff : (list vs).HoldsOverlong ↔ ∃ v ∈ vs, v.HoldsOverlong :=
  ⟨fun h => by cases h with | list hv h => exact ⟨_, hv, h⟩, fun ⟨_, hv, h⟩ => .list hv h⟩

theorem holdsOverlong_table_iff : (table es).HoldsOverlong ↔ ∃ e ∈ es, e.2.HoldsOverlong :=
  ⟨fun h => by cases h with | table he h => exact ⟨_, he, h⟩, fun ⟨_, he, h⟩ => .table he h⟩

theorem showInt_eq_ok_iff {text : String} :
    showInt i = .ok text ↔ i.natAbs < leastOverlong ∧ toString i = text := by
  rw [showInt]
  split
  · next h => simp [h]
  · next h => exact iff_of_false nofun fun hi => h hi.1

theorem showInt_eq_error_iff {e : OverlongInteger} :
    showInt i = .error e ↔ leastOverlong ≤ i.natAbs := by
  rw [showInt, ← Nat.not_lt]
  split <;> simp_all

theorem pair_eq_error_iff {α β γ : Type} {x : Except OverlongInteger α}
    {y : Except OverlongInteger β} {f : α → β → γ} {e : OverlongInteger} :
    (do let a ← x; return f a (← y)) = .error e ↔ x = .error e ∨ y = .error e := by
  cases x with
  | error e' => exact iff_of_true rfl (.inl rfl)
  | ok a =>
      cases y with
      | error e' => exact iff_of_true rfl (.inr rfl)
      | ok b => exact iff_of_false nofun (by simp)

mutual

theorem describe_eq_error_iff {e : OverlongInteger} :
    ∀ v : Value, v.describe = .error e ↔ v.HoldsOverlong
  | .int i => by rw [describe, showInt_eq_error_iff, holdsOverlong_int_iff]
  | .list vs => by
      rw [describe, bind_eq_error_iff, describeAll_eq_error_iff vs, holdsOverlong_list_iff]
      exact or_iff_left (by rintro ⟨_, -, ⟨⟩⟩)
  | .table es => by
      rw [describe, bind_eq_error_iff, describeEntries_eq_error_iff es, holdsOverlong_table_iff]
      exact or_iff_left (by rintro ⟨_, -, ⟨⟩⟩)
  | .null | .bool true | .bool false | .float _ | .text _ | .date _ | .time _
  | .dateTime _ _ none | .dateTime _ _ (some _) => iff_of_false nofun nofun

theorem describeAll_eq_error_iff {e : OverlongInteger} :
    ∀ vs : List Value, describeAll vs = .error e ↔ ∃ v ∈ vs, v.HoldsOverlong
  | [] => iff_of_false nofun (by simp)
  | v :: vs => by
      rw [describeAll, pair_eq_error_iff, describe_eq_error_iff v, describeAll_eq_error_iff vs,
        List.exists_mem_cons_iff]

theorem describeEntries_eq_error_iff {e : OverlongInteger} :
    ∀ es : List (String × Value), describeEntries es = .error e ↔ ∃ e ∈ es, e.2.HoldsOverlong
  | [] => iff_of_false nofun (by simp)
  | (k, v) :: es => by
      rw [describeEntries, pair_eq_error_iff, describe_eq_error_iff v,
        describeEntries_eq_error_iff es, List.exists_mem_cons_iff]

end

mutual

theorem colons_describe : ∀ {v : Value} {text : String}, v.describe = .ok text →
    Text.colons text = v.colons
  | .null, _, rfl => rfl
  | .bool true, _, rfl => rfl
  | .bool false, _, rfl => rfl
  | .int i, _, h => by
      rw [describe] at h
      obtain ⟨-, rfl⟩ := showInt_eq_ok_iff.1 h
      exact colons_int i
  | .float x, _, rfl => Decimal.Layout.colons_write rfl rfl rfl _
  | .text s, _, rfl => Text.colons_quote s
  | .date d, _, rfl => colons_showFields "date" d.fields []
  | .time t, _, rfl => colons_showFields "time" t.fields []
  | .dateTime d t none, _, rfl => colons_showFields "datetime" (d.fields ++ t.fields) []
  | .dateTime d t (some o), _, rfl => by
      have hmark : Text.colons "tzinfo=" = 0 := rfl
      rw [colons_showFields, List.map_singleton, Text.colons_append, hmark, colons_offset]
      rfl
  | .list vs, _, h => by
      have hopen : Text.colons "[" = 0 := rfl
      have hclose : Text.colons "]" = 0 := rfl
      obtain ⟨texts, htexts, ⟨⟩⟩ := bind_eq_ok_iff.1 h
      rw [Text.colons_append, Text.colons_append, Text.colons_intercalate,
        colons_describeAll htexts, hopen, hclose, colons]
      omega
  | .table es, _, h => by
      have hopen : Text.colons "\x7b" = 0 := rfl
      have hclose : Text.colons "\x7d" = 0 := rfl
      obtain ⟨texts, htexts, ⟨⟩⟩ := bind_eq_ok_iff.1 h
      rw [Text.colons_append, Text.colons_append, Text.colons_intercalate,
        colons_describeEntries htexts, hopen, hclose, colons]
      omega

theorem colons_describeAll : ∀ {vs : List Value} {texts : List String},
    describeAll vs = .ok texts → (texts.map Text.colons).sum = colonsOfAll vs
  | [], _, rfl => rfl
  | v :: vs, _, h => by
      obtain ⟨text, htext, h⟩ := bind_eq_ok_iff.1 h
      obtain ⟨texts, htexts, ⟨⟩⟩ := bind_eq_ok_iff.1 h
      rw [List.map_cons, List.sum_cons, colons_describe htext, colons_describeAll htexts,
        colonsOfAll]

theorem colons_describeEntries : ∀ {es : List (String × Value)} {texts : List String},
    describeEntries es = .ok texts → (texts.map Text.colons).sum = colonsOfEntries es
  | [], _, rfl => rfl
  | (k, v) :: es, _, h => by
      have hbetween : Text.colons ": " = 1 := rfl
      obtain ⟨text, htext, h⟩ := bind_eq_ok_iff.1 h
      obtain ⟨texts, htexts, ⟨⟩⟩ := bind_eq_ok_iff.1 h
      rw [List.map_cons, List.sum_cons, Text.colons_append, Text.colons_append,
        Text.colons_quote, colons_describe htext, colons_describeEntries htexts, hbetween,
        colonsOfEntries]

end

end Value

end ArtifactCache
