import ArtifactCache.Proofs.Settings.Placement

namespace ArtifactCache

variable {cs xs ys : List Char} {p : Path}

namespace Anchor

def ofSlashes : Nat → Anchor
  | 0 => .relative
  | 2 => .doubleRoot
  | _ => .root

def text : Anchor → String
  | .relative => ""
  | .root => "/"
  | .doubleRoot => "//"

end Anchor

namespace Path

def slashes (cs : List Char) : Nat := (cs.takeWhile (· = '/')).length

@[simp] theorem slashes_cons_slash (cs : List Char) : slashes ('/' :: cs) = slashes cs + 1 := by
  simp [slashes]

theorem slashes_eq_zero (h : cs.head? ≠ some '/') : slashes cs = 0 := by
  cases cs with
  | nil => rfl
  | cons c cs =>
      have hc : c ≠ '/' := fun hc => h (congrArg some hc)
      simp [slashes, hc]

theorem slashes_append (h : ys.head? ≠ some '/') : slashes (xs ++ ys) = slashes xs := by
  induction xs with
  | nil => exact slashes_eq_zero h
  | cons x xs ih =>
      by_cases hx : x = '/'
      · rw [hx, List.cons_append, slashes_cons_slash, slashes_cons_slash, ih]
      · rw [slashes_eq_zero (by simpa using hx), slashes_eq_zero (by simpa using hx)]

theorem slashes_append_of_getLast (hne : xs ≠ []) (h : xs.getLast? ≠ some '/') (ys : List Char) :
    slashes (xs ++ ys) = slashes xs := by
  have hlast : some (xs.getLast hne) ≠ some '/' := List.getLast?_eq_some_getLast hne ▸ h
  rw [← List.dropLast_append_getLast hne, List.append_assoc, slashes_append (by simpa using hlast),
    slashes_append (by simpa using hlast)]

theorem anchor_of_two_slashes (h : cs.head? ≠ some '/') :
    (ofText (String.ofList ('/' :: '/' :: cs))).anchor = .doubleRoot := by
  cases cs with
  | nil => rfl
  | cons c cs =>
      have hc : c ≠ '/' := fun hc => h (congrArg some hc)
      obtain ⟨q, qs, hq⟩ := List.exists_cons_of_ne_nil (Text.piecesAt_ne_nil '/' cs)
      have hpiece : String.ofList (c :: q) ≠ "" := by simp [← String.toList_inj]
      simp only [ofText, ofPathname, Pathname.ofText, Text.split, String.toList_ofList,
        Text.piecesAt, if_true, if_neg hc, hq, List.map_cons]
      generalize String.ofList (c :: q) = piece at hpiece
      simp [anchorOf, hpiece]

theorem anchor_of_more_slashes (cs : List Char) :
    (ofText (String.ofList ('/' :: '/' :: '/' :: cs))).anchor = .root := by
  obtain ⟨q, qs, hq⟩ := List.exists_cons_of_ne_nil (Text.piecesAt_ne_nil '/' cs)
  simp only [ofText, ofPathname, Pathname.ofText, Text.split, String.toList_ofList,
    Text.piecesAt, if_true, hq, List.map_cons]
  rfl

theorem anchor_ofText (cs : List Char) :
    (ofText (String.ofList cs)).anchor = .ofSlashes (slashes cs) := by
  by_cases hone : cs.head? = some '/'
  · obtain ⟨xs, rfl⟩ := List.head?_eq_some_iff.1 hone
    by_cases htwo : xs.head? = some '/'
    · obtain ⟨ys, rfl⟩ := List.head?_eq_some_iff.1 htwo
      by_cases hmore : ys.head? = some '/'
      · obtain ⟨zs, rfl⟩ := List.head?_eq_some_iff.1 hmore
        rw [anchor_of_more_slashes, slashes_cons_slash, slashes_cons_slash, slashes_cons_slash]
        rfl
      · rw [anchor_of_two_slashes hmore, slashes_cons_slash, slashes_cons_slash,
          slashes_eq_zero hmore]
        rfl
    · rw [slashes_cons_slash, slashes_eq_zero htwo]
      cases xs with
      | nil => rfl
      | cons c xs => exact anchor_of_root (fun hc => htwo (congrArg some hc)) xs
  · rw [anchor_of_relative hone, slashes_eq_zero hone]
    rfl

def components (s : String) : List String :=
  (Text.split '/' s).filter fun piece => piece ≠ "" ∧ piece ≠ "."

def normalForm (s : String) : String :=
  let anchor := Anchor.ofSlashes (slashes s.toList)
  if anchor = .relative ∧ components s = [] then "."
  else anchor.text ++ Text.join '/' (components s)

theorem parts_ofText (s : String) : (ofText s).parts = components s := by
  refine List.filter_congr fun piece _ => ?_
  rw [isPart, Bool.eq_iff_iff]
  simp

theorem join_empty_cons {pieces : List String} (hne : pieces ≠ []) :
    Text.join '/' ("" :: pieces) = "/" ++ Text.join '/' pieces := by
  obtain ⟨q, qs, rfl⟩ := List.exists_cons_of_ne_nil hne
  apply String.toList_injective
  simp [Text.join, Text.glue_cons_cons]

theorem toText_eq (p : Path) :
    p.toText = if p.anchor = .relative ∧ p.parts = [] then "."
      else p.anchor.text ++ Text.join '/' p.parts := by
  obtain ⟨anchor, parts⟩ := p
  rcases parts with _ | ⟨q, qs⟩
  · cases anchor <;> rfl
  · rw [if_neg (by simp)]
    cases anchor with
    | relative => exact String.empty_append.symm
    | root => exact join_empty_cons (List.cons_ne_nil q qs)
    | doubleRoot =>
        refine (join_empty_cons (List.cons_ne_nil "" (q :: qs))).trans ?_
        rw [join_empty_cons (List.cons_ne_nil q qs), ← String.append_assoc]
        rfl

theorem toText_ofText (s : String) : (ofText s).toText = normalForm s := by
  have hanchor := anchor_ofText s.toList
  rw [String.ofList_toList] at hanchor
  rw [toText_eq, parts_ofText, hanchor]
  rfl

theorem ofPathname_toPathname (h : ∀ part ∈ p.parts, isPart part = true) :
    ofPathname p.toPathname = p := by
  obtain ⟨anchor, parts⟩ := p
  have hall : parts.filter isPart = parts := List.filter_eq_self.2 h
  rcases parts with _ | ⟨q, qs⟩
  · cases anchor <;> rfl
  · have hq : q ≠ "" := parts_ne_empty h q List.mem_cons_self
    cases anchor <;> simp [toPathname, ofPathname, anchorOf, hq, hall, isPart]

theorem ofText_toText (h : ∀ part ∈ p.parts, isPart part = true)
    (hfree : ∀ part ∈ p.parts, '/' ∉ part.toList) : ofText p.toText = p := by
  have hpieces : p.toPathname.pieces ≠ [] := by
    obtain ⟨anchor, parts⟩ := p
    cases anchor <;> cases parts <;> exact List.cons_ne_nil _ _
  have hpiece : ∀ piece ∈ p.toPathname.pieces, '/' ∉ piece.toList := by
    intro piece hmem
    rcases mem_toPathname hmem with rfl | rfl | hpart
    · decide
    · decide
    · exact hfree piece hpart
  have hsplit : Pathname.ofText p.toText = p.toPathname :=
    congrArg Pathname.mk (Text.split_join_of_free hpieces hpiece)
  rw [ofText, hsplit, ofPathname_toPathname h]

theorem ofText_eq_iff {s t : String} : ofText s = ofText t ↔ normalForm s = normalForm t := by
  rw [← toText_ofText, ← toText_ofText]
  refine ⟨congrArg toText, fun h => ?_⟩
  have hback (r : String) : ofText (ofText r).toText = ofText r :=
    ofText_toText (fun _ => isPart_of_mem_ofText) (fun _ => noSlash_of_mem_ofText)
  rw [← hback s, h, hback t]

example : normalForm ".//a/./b/../" = "a/b/.." ∧ normalForm "//" = "//" ∧ normalForm "///" = "/" ∧
    normalForm "./" = "." := by
  decide +kernel

def joined (base root : String) : String :=
  if root.toList.head? = some '/' then root
  else if base = "" ∨ base.toList.getLast? = some '/' then base ++ root
  else base ++ "/" ++ root

theorem slashes_joined {base root : String} (h : root.toList.head? ≠ some '/') :
    slashes (joined base root).toList = slashes base.toList := by
  rw [joined, if_neg h]
  split_ifs with hbase
  · rw [String.toList_append, slashes_append h]
  · rw [not_or] at hbase
    have hne : base.toList ≠ [] := fun hnil => hbase.1 (String.toList_eq_nil_iff.1 hnil)
    rw [String.toList_append, String.toList_append, List.append_assoc,
      slashes_append_of_getLast hne hbase.2]

theorem parts_joined {base root : String} (h : root.toList.head? ≠ some '/') :
    (ofText (joined base root)).parts = (ofText base).parts ++ (ofText root).parts := by
  obtain ⟨bs, rfl⟩ : ∃ bs, base = String.ofList bs := ⟨_, String.ofList_toList.symm⟩
  obtain ⟨rs, rfl⟩ : ∃ rs, root = String.ofList rs := ⟨_, String.ofList_toList.symm⟩
  change _ = partsOf bs ++ partsOf rs
  rw [joined, if_neg h]
  split_ifs with hbase
  · rw [← String.ofList_append]
    change partsOf (bs ++ rs) = _
    rcases hbase with hempty | hlast
    · obtain rfl : bs = [] := by simpa using hempty
      rfl
    · obtain ⟨xs, rfl⟩ := List.getLast?_eq_some_iff.1 (by simpa using hlast)
      rw [List.append_assoc, List.singleton_append, partsOf_slash, partsOf_slash]
      simp [partsOf_of_not_mem, isPart]
  · rw [show "/" = String.ofList ['/'] from rfl, ← String.ofList_append, ← String.ofList_append,
      List.append_assoc]
    exact partsOf_slash bs rs

theorem append_ofText (base root : String) :
    ofText base ++ ofText root = ofText (joined base root) := by
  have hanchor (s : String) : (ofText s).anchor = .ofSlashes (slashes s.toList) := by
    rw [← anchor_ofText, String.ofList_toList]
  by_cases hroot : root.toList.head? = some '/'
  · obtain ⟨cs, hcs⟩ := List.head?_eq_some_iff.1 hroot
    rw [joined, if_pos hroot, append_of_absolute]
    rw [← String.ofList_toList (s := root), hcs]
    exact anchor_of_absolute cs
  · have hrel : (ofText root).anchor = .relative := by rw [hanchor, slashes_eq_zero hroot]; rfl
    rw [append_of_relative hrel, ← parts_joined hroot, hanchor, ← slashes_joined hroot, ← hanchor]

end Path

end ArtifactCache
