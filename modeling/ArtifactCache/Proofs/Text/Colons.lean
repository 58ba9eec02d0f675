import Mathlib.Algebra.GroupWithZero.Nat
import Mathlib.Data.List.Basic
import Mathlib.Tactic.SplitIfs
import ArtifactCache.Text.Blank
import ArtifactCache.Text.Quoted

namespace ArtifactCache.Text

variable {b n : Nat} {cs : List Char}

def colons (s : String) : Nat := s.toList.count ':'

theorem colons_eq_zero_iff {s : String} : colons s = 0 ↔ ':' ∉ s.toList := List.count_eq_zero

@[simp] theorem colons_append (s t : String) : colons (s ++ t) = colons s + colons t := by
  rw [colons, String.toList_append, List.count_append]
  rfl

@[simp] theorem colons_ofList (cs : List Char) : colons (String.ofList cs) = cs.count ':' := by
  rw [colons, String.toList_ofList]

theorem count_intercalate {sep : List Char} (hsep : sep.count ':' = 0) (ps : List (List Char)) :
    (sep.intercalate ps).count ':' = (ps.map (·.count ':')).sum := by
  induction ps with
  | nil => rfl
  | cons p ps ih =>
      cases ps with
      | nil => simp
      | cons q ps =>
          rw [List.intercalate_cons_cons, List.count_append, List.count_append, ih, hsep,
            Nat.add_zero]
          rfl

theorem colons_intercalate (ts : List String) :
    colons (String.intercalate ", " ts) = (ts.map colons).sum := by
  rw [colons, String.toList_intercalate, count_intercalate rfl, List.map_map]
  rfl

theorem colons_trim (s : String) : colons (trim s) = colons s := by
  have hstart (cs : List Char) : (cs.dropWhile isBlank).count ':' = cs.count ':' := by
    induction cs with
    | nil => rfl
    | cons c cs ih =>
        rw [List.dropWhile_cons]
        split_ifs with hc
        · have hne : c ≠ ':' := by
            rintro rfl
            exact absurd hc (by decide)
          rw [ih, List.count_cons_of_ne hne]
        · rfl
  rw [trim, colons_ofList, trimEnd, List.count_reverse, hstart, List.count_reverse, trimStart,
    hstart]
  rfl

theorem colon_not_mem_toDigits (hb : 1 < b) (hb' : b ≤ 16) (n : Nat) : ':' ∉ Nat.toDigits b n := by
  have hchar : ∀ m < 16, ':' ≠ Nat.digitChar m := by decide
  induction n using Nat.strongRecOn with
  | _ n ih =>
      rw [Nat.toDigits_eq_if hb]
      split_ifs with hn
      · exact fun hmem => hchar n (by omega) (List.mem_singleton.1 hmem)
      · have hlast := hchar (n % b) (Nat.lt_of_lt_of_le (Nat.mod_lt n (by omega)) hb')
        have hfront := ih (n / b) (Nat.div_lt_self (by omega) hb)
        rw [List.mem_append, List.mem_singleton, not_or]
        exact ⟨hfront, hlast⟩

theorem colon_not_mem_hexDigits (width n : Nat) : ':' ∉ hexDigits width n := by
  simp [hexDigits, colon_not_mem_toDigits]

theorem colon_not_mem_escapeCode (c : Char) : ':' ∉ escapeCode c := by
  simp only [escapeCode]
  split_ifs <;> simp [colon_not_mem_hexDigits]

theorem count_escape {delim : Char} (hdelim : delim ≠ ':') (c : Char) :
    (escape delim c).count ':' = [c].count ':' := by
  by_cases hc : c = ':'
  · subst hc
    have hprintable : isPrintable ':' = true := by decide +kernel
    simp [escape, hprintable, hdelim.symm]
  · have hnone : [c].count ':' = 0 := by simp [hc]
    rw [hnone, List.count_eq_zero, escape]
    split_ifs <;> simp [colon_not_mem_escapeCode, Ne.symm hc]

@[simp] theorem colons_quote (s : String) : colons (quote s) = colons s := by
  have hdelim : delimiter s.toList ≠ ':' := by
    unfold delimiter
    split_ifs <;> decide
  have hchars (cs : List Char) :
      (cs.flatMap (escape (delimiter s.toList))).count ':' = cs.count ':' := by
    induction cs with
    | nil => rfl
    | cons c cs ih =>
        rw [List.flatMap_cons, List.count_append, count_escape hdelim, ih, ← List.count_append]
        rfl
  simp [quote, hchars, hdelim, colons]

end ArtifactCache.Text
