import Mathlib.Data.List.DropRight
import ArtifactCache.Text.Blank

namespace ArtifactCache.Text

variable {cs : List Char} {c : Char} {s : String}

structure Tight (s : String) : Prop where
  first : ∀ c, s.toList.head? = some c → isBlank c = false
  last : ∀ c, s.toList.getLast? = some c → isBlank c = false

theorem trimEnd_eq_rdropWhile (cs : List Char) : trimEnd cs = cs.rdropWhile isBlank := rfl

theorem trimStart_first (h : (trimStart cs).head? = some c) : isBlank c = false := by
  have hnot := List.head?_dropWhile_not isBlank cs
  rw [trimStart] at h
  rw [h] at hnot
  simpa using hnot

theorem trimEnd_first (h : (trimEnd cs).head? = some c) : cs.head? = some c := by
  obtain ⟨rest, hrest⟩ := List.rdropWhile_prefix isBlank (l := cs)
  rw [← hrest, List.head?_append, ← trimEnd_eq_rdropWhile, h, Option.some_or]

theorem trimEnd_last (h : (trimEnd cs).getLast? = some c) : isBlank c = false := by
  rw [trimEnd, List.getLast?_reverse] at h
  exact trimStart_first h

theorem tight_trim (s : String) : Tight (trim s) where
  first c h := by
    rw [trim, String.toList_ofList] at h
    exact trimStart_first (trimEnd_first h)
  last c h := by
    rw [trim, String.toList_ofList] at h
    exact trimEnd_last h

theorem trimStart_eq_self (h : ∀ c, cs.head? = some c → isBlank c = false) :
    trimStart cs = cs := by
  cases cs with
  | nil => rfl
  | cons c cs => rw [trimStart, List.dropWhile_cons_of_neg (by simp [h c rfl])]

theorem Tight.trim_eq (h : Tight s) : trim s = s := by
  have hend : (s.toList.reverse.dropWhile isBlank) = s.toList.reverse := by
    refine trimStart_eq_self fun c hc => h.last c ?_
    rw [← List.head?_reverse, hc]
  rw [trim, trimStart_eq_self h.first, trimEnd, hend, List.reverse_reverse, String.ofList_toList]

theorem trim_eq_self_iff : trim s = s ↔ Tight s := ⟨fun h => h ▸ tight_trim s, Tight.trim_eq⟩

theorem trim_trim (s : String) : trim (trim s) = trim s := (tight_trim s).trim_eq

end ArtifactCache.Text
