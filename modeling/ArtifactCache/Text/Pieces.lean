namespace ArtifactCache.Text

def piecesAt (sep : Char) : List Char → List (List Char)
  | [] => [[]]
  | c :: cs =>
      if c = sep then [] :: piecesAt sep cs
      else match piecesAt sep cs with
        | [] => [[c]]
        | p :: ps => (c :: p) :: ps

theorem piecesAt_ne_nil (sep : Char) (cs : List Char) : piecesAt sep cs ≠ [] := by
  cases cs with
  | nil => simp [piecesAt]
  | cons c cs =>
      simp only [piecesAt]
      split
      · simp
      · split <;> simp

def glue (sep : Char) : List (List Char) → List Char
  | [] => []
  | [p] => p
  | p :: ps => p ++ sep :: glue sep ps

theorem glue_piecesAt (sep : Char) (cs : List Char) : glue sep (piecesAt sep cs) = cs := by
  induction cs with
  | nil => rfl
  | cons c cs ih =>
      simp only [piecesAt]
      cases hp : piecesAt sep cs with
      | nil => exact absurd hp (piecesAt_ne_nil sep cs)
      | cons p ps =>
          rw [hp] at ih
          split
          · next h => simp [glue, ih, h]
          · cases ps with
            | nil => simpa [glue] using ih
            | cons q qs => simpa [glue] using ih

theorem not_mem_of_mem_piecesAt {sep : Char} {cs p : List Char} (h : p ∈ piecesAt sep cs) :
    sep ∉ p := by
  induction cs generalizing p with
  | nil => simp [piecesAt] at h; simp [h]
  | cons c cs ih =>
      simp only [piecesAt] at h
      split at h
      · cases h with
        | head => simp
        | tail _ h => exact ih h
      · next hc =>
          cases hp : piecesAt sep cs with
          | nil => exact absurd hp (piecesAt_ne_nil sep cs)
          | cons q qs =>
              rw [hp] at h ih
              cases h with
              | head => simp [Ne.symm hc, ih (p := q) (by simp)]
              | tail _ h => exact ih (List.mem_cons_of_mem _ h)

def split (sep : Char) (s : String) : List String := (piecesAt sep s.toList).map String.ofList

def join (sep : Char) (ps : List String) : String := String.ofList (glue sep (ps.map String.toList))

theorem join_split (sep : Char) (s : String) : join sep (split sep s) = s := by
  have h : (split sep s).map String.toList = piecesAt sep s.toList := by
    simp [split, Function.comp_def]
  simp [join, h, glue_piecesAt]

end ArtifactCache.Text
