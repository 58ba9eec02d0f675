import ArtifactCache.Proofs.Path

namespace ArtifactCache

variable {cs xs ys : List Char} {name : String} {names : List String}

namespace Path

def partsOf (cs : List Char) : List String := (ofText (String.ofList cs)).parts

def trail (names : List String) : List Char := names.flatMap fun n => '/' :: n.toList

theorem partsOf_slash (xs ys : List Char) :
    partsOf (xs ++ '/' :: ys) = partsOf xs ++ partsOf ys := by
  simp [partsOf, ofText, ofPathname, Pathname.ofText, Text.split, Text.piecesAt_append]

theorem partsOf_of_not_mem (h : '/' ∉ cs) :
    partsOf cs = [String.ofList cs].filter isPart := by
  simp [partsOf, ofText, ofPathname, Pathname.ofText, Text.split, Text.piecesAt_of_not_mem h]

theorem length_partsOf_le (h : '/' ∉ cs) : (partsOf cs).length ≤ 1 := by
  rw [partsOf_of_not_mem h]
  exact List.length_filter_le ..

theorem eq_of_mem_partsOf (h : '/' ∉ cs) (hmem : String.ofList xs ∈ partsOf cs) : xs = cs := by
  rw [partsOf_of_not_mem h] at hmem
  exact String.ofList_injective (List.mem_singleton.1 (List.mem_of_mem_filter hmem))

theorem isPart_ofList_iff : isPart (String.ofList cs) = true ↔ cs ≠ [] ∧ cs ≠ ['.'] := by
  simp [isPart, ← String.toList_inj]

theorem partsOf_of_isPart (h : '/' ∉ cs) (hnil : cs ≠ []) (hdot : cs ≠ ['.']) :
    partsOf cs = [String.ofList cs] := by
  rw [partsOf_of_not_mem h, List.filter_cons_of_pos (isPart_ofList_iff.2 ⟨hnil, hdot⟩)]
  rfl

theorem partsOf_eq_nil_iff (h : '/' ∉ cs) : partsOf cs = [] ↔ cs = [] ∨ cs = ['.'] := by
  have hpart := @isPart_ofList_iff cs
  rw [partsOf_of_not_mem h]
  by_cases hcs : isPart (String.ofList cs) = true
  · simp only [List.filter_cons_of_pos hcs, List.cons_ne_nil, false_iff]
    rw [not_or]
    exact hpart.1 hcs
  · rw [List.filter_cons_of_neg hcs]
    have hnot := mt hpart.2 hcs
    rw [not_and_or, not_not, not_not] at hnot
    exact iff_of_true rfl hnot

theorem anchor_of_relative (h : cs.head? ≠ some '/') :
    (ofText (String.ofList cs)).anchor = .relative := by
  cases cs with
  | nil => rfl
  | cons c cs =>
      have hc : c ≠ '/' := fun hc => h (congrArg some hc)
      obtain ⟨q, qs, hq⟩ := List.exists_cons_of_ne_nil (Text.piecesAt_ne_nil '/' cs)
      simp only [ofText, ofPathname, Pathname.ofText, Text.split, String.toList_ofList,
        Text.piecesAt, if_neg hc, hq, List.map_cons]
      unfold anchorOf
      split <;> simp_all

theorem anchor_of_absolute (cs : List Char) :
    (ofText (String.ofList ('/' :: cs))).anchor ≠ .relative := by
  obtain ⟨q, qs, hq⟩ := List.exists_cons_of_ne_nil (Text.piecesAt_ne_nil '/' cs)
  simp only [ofText, ofPathname, Pathname.ofText, Text.split, String.toList_ofList,
    Text.piecesAt, if_true, hq, List.map_cons]
  unfold anchorOf
  split <;> simp_all

theorem anchor_of_root {c : Char} (hc : c ≠ '/') (cs : List Char) :
    (ofText (String.ofList ('/' :: c :: cs))).anchor = .root := by
  obtain ⟨q, qs, hq⟩ := List.exists_cons_of_ne_nil (Text.piecesAt_ne_nil '/' cs)
  simp only [ofText, ofPathname, Pathname.ofText, Text.split, String.toList_ofList,
    Text.piecesAt, if_true, if_neg hc, hq, List.map_cons]
  unfold anchorOf
  split <;> simp_all

theorem slash_not_mem_of_isName (h : isName name = true) : '/' ∉ name.toList := by
  simp only [isName, Bool.and_eq_true, Bool.not_eq_true', List.contains_eq_mem,
    decide_eq_false_iff_not] at h
  exact h.1.1.2

theorem toList_ne_of_isName (h : isName name = true) :
    name.toList ≠ [] ∧ name.toList ≠ ['.'] ∧ name.toList ≠ ['.', '.'] := by
  have hstep := FileSystem.isStep_eq_false_of_isName h
  refine ⟨?_, ?_, ?_⟩ <;>
  · intro hname
    obtain rfl := String.toList_inj.1 (hname.trans String.toList_ofList.symm)
    cases hstep

theorem partsOf_name_append (hn : isName name = true) (h : '/' ∉ ys) :
    partsOf (name.toList ++ ys) = [String.ofList (name.toList ++ ys)] := by
  obtain ⟨hnil, hdot, -⟩ := toList_ne_of_isName hn
  refine partsOf_of_isPart ?_ ?_ ?_
  · simp [slash_not_mem_of_isName hn, h]
  · simp [hnil]
  · intro hcs
    rcases List.append_eq_singleton_iff.1 hcs with ⟨hname, -⟩ | ⟨hname, -⟩
    · exact hnil hname
    · exact hdot hname

theorem partsOf_name (hn : isName name = true) : partsOf name.toList = [name] := by
  have hparts := partsOf_name_append hn (List.not_mem_nil (a := '/'))
  rwa [List.append_nil, String.ofList_toList] at hparts

theorem partsOf_name_append_ne_nil (hn : isName name = true) (ys : List Char) :
    partsOf (name.toList ++ ys) ≠ [] := by
  by_cases h : '/' ∈ ys
  · obtain ⟨front, back, rfl, hfront⟩ := List.eq_append_cons_of_mem h
    rw [← List.append_assoc, partsOf_slash, partsOf_name_append hn hfront]
    exact List.cons_ne_nil _ _
  · rw [partsOf_name_append hn h]
    exact List.cons_ne_nil _ _

theorem name_append_ne_dotted (hn : isName name = true) (hxs : '/' ∉ xs) (hnil : partsOf xs = [])
    (ys : List Char) : name.toList ++ ys ≠ xs ++ '.' :: ys := by
  obtain ⟨-, hdot, hup⟩ := toList_ne_of_isName hn
  intro h
  rw [List.append_cons xs] at h
  have hname := List.append_cancel_right h
  rcases (partsOf_eq_nil_iff hxs).1 hnil with rfl | rfl
  · exact hdot hname
  · exact hup hname

theorem partsOf_trail (hnames : ∀ n ∈ names, isName n = true) (xs ys : List Char) :
    partsOf (xs ++ trail names ++ '/' :: ys) = partsOf xs ++ names ++ partsOf ys := by
  induction names generalizing xs with
  | nil => simp [trail, partsOf_slash]
  | cons n names ih =>
      rw [List.forall_mem_cons] at hnames
      have hsplit : xs ++ trail (n :: names) ++ '/' :: ys =
          xs ++ '/' :: (n.toList ++ trail names ++ '/' :: ys) := by
        simp [trail]
      rw [hsplit, partsOf_slash, ih hnames.2, partsOf_name hnames.1]
      simp

end Path

namespace Settings

open ArtifactCache.Path (partsOf trail)

abbrev Outline : Type := List (Option Char)

namespace Outline

variable {o w : Outline} {here : Location} {root : List Char} {n : String} {ns : List String}

def fillWith (root : List Char) (o : Outline) : List Char :=
  o.flatMap fun
    | none => root
    | some c => [c]

@[simp] theorem fillWith_nil : fillWith root [] = [] := rfl

@[simp] theorem fillWith_none : fillWith root (none :: o) = root ++ fillWith root o := rfl

@[simp] theorem fillWith_some (c : Char) : fillWith root (some c :: o) = c :: fillWith root o := rfl

@[simp] theorem fillWith_append (o p : Outline) :
    fillWith root (o ++ p) = fillWith root o ++ fillWith root p := List.flatMap_append

@[simp] theorem fillWith_map_some (cs : List Char) : fillWith root (cs.map some) = cs := by
  induction cs with
  | nil => rfl
  | cons c cs ih => rw [List.map_cons, fillWith_some, ih]

@[simp] theorem length_fillWith_dot (o : Outline) : (fillWith ['.'] o).length = o.length := by
  induction o with
  | nil => rfl
  | cons m o ih => cases m <;> simp [ih]

theorem fillWith_congr (h : none ∉ o) (root other : List Char) :
    fillWith root o = fillWith other o := by
  induction o with
  | nil => rfl
  | cons m o ih =>
      rw [List.mem_cons, not_or] at h
      obtain ⟨c, rfl⟩ := Option.ne_none_iff_exists'.1 (Ne.symm h.1)
      rw [fillWith_some, fillWith_some, ih h.2]

theorem slash_not_mem_fillWith (hroot : '/' ∉ root) (h : some '/' ∉ o) : '/' ∉ fillWith root o := by
  induction o with
  | nil => simp
  | cons m o ih =>
      rw [List.mem_cons, not_or] at h
      cases m with
      | none => simp [hroot, ih h.2]
      | some c =>
          rw [fillWith_some, List.mem_cons, not_or]
          exact ⟨fun hc => h.1 (congrArg some hc), ih h.2⟩

theorem slash_induction {motive : Outline → Prop} (piece : ∀ w, some '/' ∉ w → motive w)
    (slash : ∀ w o, some '/' ∉ w → motive o → motive (w ++ some '/' :: o)) (o : Outline) :
    motive o := by
  induction h : o.length using Nat.strongRecOn generalizing o with
  | _ k ih =>
      by_cases hmem : some '/' ∈ o
      · obtain ⟨w, rest, rfl, hw⟩ := List.eq_append_cons_of_mem hmem
        refine slash w rest hw (ih rest.length ?_ rest rfl)
        simp only [← h, List.length_append, List.length_cons]
        omega
      · exact piece o hmem

theorem partsOf_slash (root : List Char) (w o : Outline) :
    partsOf (fillWith root (w ++ some '/' :: o)) =
      partsOf (fillWith root w) ++ partsOf (fillWith root o) := by
  rw [fillWith_append, fillWith_some, Path.partsOf_slash]

def dotted (o : Outline) : List String := partsOf (fillWith ['.'] o)

def rooted (names : List String) (o : Outline) : List String :=
  partsOf (fillWith (trail names) o)

def onward (ns : List String) (n : String) (o : Outline) : List String :=
  partsOf (n.toList ++ fillWith (trail (ns ++ [n])) o)

theorem dotted_slash (w o : Outline) : dotted (w ++ some '/' :: o) = dotted w ++ dotted o :=
  partsOf_slash ['.'] w o

theorem rooted_slash (w o : Outline) :
    rooted names (w ++ some '/' :: o) = rooted names w ++ rooted names o :=
  partsOf_slash (trail names) w o

theorem onward_slash (w o : Outline) :
    onward ns n (w ++ some '/' :: o) = onward ns n w ++ rooted (ns ++ [n]) o := by
  rw [onward, fillWith_append, fillWith_some, ← List.append_assoc, Path.partsOf_slash]
  rfl

theorem dotted_eq_rooted (h : none ∉ o) : dotted o = rooted names o := by
  rw [dotted, rooted, fillWith_congr h]

theorem length_dotted_piece (hw : some '/' ∉ w) : (dotted w).length ≤ 1 :=
  Path.length_partsOf_le (slash_not_mem_fillWith (by decide) hw)

def IsBased (o : Outline) : Prop := o = [none] ∨ ∃ rest, o = none :: some '/' :: rest ∧ none ∉ rest

theorem length_onward_pos (hn : isName n = true) (ns : List String) (o : Outline) :
    0 < (onward ns n o).length :=
  List.length_pos_iff.2 (Path.partsOf_name_append_ne_nil hn _)

theorem onward_piece (hn : isName n = true) (hw : some '/' ∉ w) (hnone : none ∉ w) :
    onward ns n w = [String.ofList (n.toList ++ fillWith ['.'] w)] := by
  rw [onward, fillWith_congr hnone _ ['.']]
  exact Path.partsOf_name_append hn (slash_not_mem_fillWith (by decide) hw)

section

variable (hns : ∀ m ∈ ns, isName m = true)

include hns

theorem partsOf_open (xs : List Char) (n : String) (w o : Outline) :
    partsOf (xs ++ fillWith (trail (ns ++ [n])) (w ++ none :: o)) =
      partsOf (xs ++ fillWith (trail (ns ++ [n])) w) ++ ns ++ onward ns n o := by
  have htrail : trail (ns ++ [n]) = trail ns ++ '/' :: n.toList := by simp [trail]
  rw [fillWith_append, fillWith_none, onward, ← Path.partsOf_trail hns]
  congr 1
  simp [htrail]

theorem rooted_open (n : String) (w o : Outline) :
    rooted (ns ++ [n]) (w ++ none :: o) = rooted (ns ++ [n]) w ++ ns ++ onward ns n o :=
  partsOf_open hns [] n w o

theorem onward_open (n : String) (w o : Outline) :
    onward ns n (w ++ none :: o) = onward ns n w ++ ns ++ onward ns n o :=
  partsOf_open hns n.toList n w o

variable (hn : isName n = true)

include hn

theorem not_open_of_onward (hone : (onward ns n w).length ≤ 1) : none ∉ w := by
  intro hnone
  obtain ⟨y, o, rfl, -⟩ := List.eq_append_cons_of_mem hnone
  have hfirst := length_onward_pos hn ns y
  have hlast := length_onward_pos hn ns o
  rw [onward_open hns, List.length_append, List.length_append] at hone
  omega

theorem dotted_ne_onward (hxs : '/' ∉ xs) (hnil : partsOf xs = []) (ho : some '/' ∉ o) :
    partsOf (xs ++ '.' :: fillWith ['.'] o) ≠ ns ++ onward ns n o := by
  intro heq
  have hback : '/' ∉ fillWith ['.'] o := slash_not_mem_fillWith (by decide) ho
  have hfree : '/' ∉ xs ++ '.' :: fillWith ['.'] o := by simp [hxs, hback]
  have hshort := Path.length_partsOf_le hfree
  rw [heq, List.length_append] at hshort
  have hnone : none ∉ o := not_open_of_onward hns hn (by omega)
  refine Path.name_append_ne_dotted hn hxs hnil _ (Path.eq_of_mem_partsOf hfree ?_)
  rw [heq, onward_piece hn ho hnone]
  simp

theorem dotted_ne_rooted (hw : some '/' ∉ w) (hnone : none ∈ w) :
    (dotted w).length ≤ (rooted (ns ++ [n]) w).length ∧ dotted w ≠ rooted (ns ++ [n]) w := by
  have hshort := length_dotted_piece hw
  obtain ⟨y, o, rfl, hy⟩ := List.eq_append_cons_of_mem hnone
  rw [List.mem_append, List.mem_cons, not_or, not_or] at hw
  have hlast := length_onward_pos hn ns o
  have hrooted := rooted_open hns n y o
  have hlength := congrArg List.length hrooted
  rw [List.length_append, List.length_append] at hlength
  refine ⟨by omega, fun heq => ?_⟩
  have hnil : rooted (ns ++ [n]) y = [] := by
    rw [← List.length_eq_zero_iff]
    rw [heq] at hshort
    omega
  rw [hrooted, hnil, List.nil_append, dotted, fillWith_append, fillWith_none] at heq
  rw [← dotted_eq_rooted hy] at hnil
  exact dotted_ne_onward hns hn (slash_not_mem_fillWith (by decide) hw.1) hnil hw.2.2 heq

theorem length_dotted_le (o : Outline) : (dotted o).length ≤ (rooted (ns ++ [n]) o).length := by
  have hpiece (w : Outline) (hw : some '/' ∉ w) :
      (dotted w).length ≤ (rooted (ns ++ [n]) w).length := by
    by_cases hnone : none ∈ w
    · exact (dotted_ne_rooted hns hn hw hnone).1
    · exact Nat.le_of_eq (congrArg List.length (dotted_eq_rooted hnone))
  induction o using slash_induction with
  | piece w hw => exact hpiece w hw
  | slash w o hw ih =>
      rw [dotted_slash, rooted_slash, List.length_append, List.length_append]
      exact Nat.add_le_add (hpiece w hw) ih

theorem dotted_eq_rooted_iff (o : Outline) : dotted o = rooted (ns ++ [n]) o ↔ none ∉ o := by
  refine ⟨fun h => ?_, dotted_eq_rooted⟩
  induction o using slash_induction with
  | piece w hw => exact fun hnone => (dotted_ne_rooted hns hn hw hnone).2 h
  | slash w o hw ih =>
      have hle := length_dotted_le hns hn w
      have hle' := length_dotted_le hns hn o
      have hlength := congrArg List.length h
      rw [dotted_slash, rooted_slash] at h hlength
      rw [List.length_append, List.length_append] at hlength
      obtain ⟨hfront, hback⟩ := List.append_inj h (by omega)
      rw [List.mem_append, List.mem_cons, not_or, not_or]
      exact ⟨fun hnone => (dotted_ne_rooted hns hn hw hnone).2 hfront, nofun, ih hback⟩

theorem eq_nil_of_onward {front back : List String} (hw : some '/' ∉ w)
    (hlength : front.length ≤ back.length)
    (h : n :: (dotted (none :: w) ++ front) = onward ns n w ++ back) : w = [] ∧ front = back := by
  have hempty {y : Outline} (hy : n = String.ofList (n.toList ++ fillWith ['.'] y)) : y = [] := by
    have hcount := congrArg (·.toList.length) hy
    simp only [String.toList_ofList, List.length_append, length_fillWith_dot] at hcount
    exact List.length_eq_zero_iff.1 (by omega)
  by_cases hnone : none ∈ w
  · exfalso
    obtain ⟨y, o, rfl, hy⟩ := List.eq_append_cons_of_mem hnone
    have hshort : (dotted (none :: (y ++ none :: o))).length ≤ 1 :=
      length_dotted_piece (by simpa using hw)
    have hlast := length_onward_pos hn ns o
    rw [List.mem_append, List.mem_cons, not_or, not_or] at hw
    rw [onward_open hns, onward_piece hn hw.1 hy, List.cons_append, List.cons_append,
      List.cons_append, List.nil_append] at h
    obtain ⟨hname, hrest⟩ := List.cons.inj h
    obtain rfl := hempty hname
    have hcounts := congrArg List.length hrest
    simp only [List.length_append] at hcounts
    have hparts := (List.append_inj' hrest (by omega)).1
    have hfront : partsOf ['.'] = [] := by decide
    exact dotted_ne_onward hns hn (by decide) hfront hw.2.2 hparts
  · rw [onward_piece hn hw hnone] at h
    obtain ⟨hname, hrest⟩ := List.cons.inj h
    obtain rfl := hempty hname
    exact ⟨rfl, hrest⟩

theorem opened_eq_iff :
    ns ++ [n] ++ dotted (none :: o) = rooted (ns ++ [n]) (none :: o) ↔ IsBased (none :: o) := by
  have hrooted : rooted (ns ++ [n]) (none :: o) = ns ++ onward ns n o := rooted_open hns n [] o
  have hdot : dotted [none] = [] := by decide
  have hname : onward ns n [] = [n] := by
    rw [onward, fillWith_nil, List.append_nil, Path.partsOf_name hn]
  rw [hrooted, List.append_assoc, List.append_cancel_left_eq, List.singleton_append]
  constructor
  · intro h
    by_cases hslash : some '/' ∈ o
    · obtain ⟨w, rest, rfl, hw⟩ := List.eq_append_cons_of_mem hslash
      rw [← List.cons_append, dotted_slash, onward_slash] at h
      obtain ⟨rfl, hrest⟩ := eq_nil_of_onward hns hn hw (length_dotted_le hns hn rest) h
      exact .inr ⟨rest, rfl, (dotted_eq_rooted_iff hns hn rest).1 hrest⟩
    · have hwhole : n :: (dotted (none :: o) ++ []) = onward ns n o ++ [] := by simpa using h
      obtain ⟨rfl, -⟩ := eq_nil_of_onward hns hn hslash (Nat.le_refl _) hwhole
      exact .inl rfl
  · rintro (h | ⟨rest, h, hrest⟩)
    · obtain rfl := (List.cons.inj h).2
      rw [hname, hdot]
    · obtain rfl := (List.cons.inj h).2
      have hcut : dotted ([none] ++ some '/' :: rest) = dotted [none] ++ dotted rest :=
        dotted_slash [none] rest
      have honward : onward ns n ([] ++ some '/' :: rest) =
          onward ns n [] ++ rooted (ns ++ [n]) rest := onward_slash [] rest
      rw [List.singleton_append, hdot, List.nil_append, dotted_eq_rooted hrest] at hcut
      rw [List.nil_append, hname] at honward
      rw [hcut, honward]
      rfl

end

def placed (root : List Char) (o : Outline) : Path := .ofText (String.ofList (fillWith root o))

theorem placed_congr (h : none ∉ o) (root other : List Char) : placed root o = placed other o := by
  rw [placed, placed, fillWith_congr h root other]

theorem anchor_dotted (o : Outline) : (placed ['.'] (none :: o)).anchor = .relative := by
  apply Path.anchor_of_relative
  rw [fillWith_none, List.singleton_append, List.head?_cons]
  exact fun h => absurd (Option.some.inj h) (by decide)

theorem anchor_placed_slash (root : List Char) (o : Outline) :
    (placed root (some '/' :: o)).anchor ≠ .relative :=
  Path.anchor_of_absolute _

theorem anchor_placed_some {c : Char} (hc : c ≠ '/') (root : List Char) (o : Outline) :
    (placed root (some c :: o)).anchor = .relative := by
  apply Path.anchor_of_relative
  rw [fillWith_some, List.head?_cons]
  exact fun h => hc (Option.some.inj h)

theorem anchor_rooted (hhere : ∀ m ∈ here, isName m = true) (hne : here ≠ []) (o : Outline) :
    (placed (trail here) (none :: o)).anchor = .root := by
  obtain ⟨m, ms, rfl⟩ := List.exists_cons_of_ne_nil hne
  have hm := hhere m List.mem_cons_self
  obtain ⟨c, cs, hcs⟩ := List.exists_cons_of_ne_nil (Path.toList_ne_of_isName hm).1
  have hc : c ≠ '/' := by
    rintro rfl
    exact Path.slash_not_mem_of_isName hm (hcs ▸ List.mem_cons_self)
  have htrail : trail (m :: ms) = '/' :: c :: (cs ++ trail ms) := by simp [trail, hcs]
  rw [placed, fillWith_none, htrail]
  exact Path.anchor_of_root hc _

theorem absolute_eq_of_opened {p q : Path} (hp : p.anchor = .relative) (hq : q.anchor = .root)
    (h : here ++ p.parts = q.parts) : p.absolute here = q.absolute here := by
  obtain ⟨_, ps⟩ := p
  obtain ⟨_, qs⟩ := q
  obtain rfl : _ = Anchor.relative := hp
  obtain rfl : _ = Anchor.root := hq
  obtain rfl : here ++ ps = qs := h
  rfl

section

variable (hhere : ∀ m ∈ here, isName m = true) (hne : here ≠ [])

include hhere hne

theorem opened_iff (o : Outline) : here ++ (placed ['.'] (none :: o)).parts =
    (placed (trail here) (none :: o)).parts ↔ IsBased (none :: o) := by
  obtain ⟨ns, n, rfl⟩ := (List.eq_nil_or_concat here).resolve_left hne
  rw [List.concat_eq_append, List.forall_mem_append, List.forall_mem_singleton] at hhere
  rw [List.concat_eq_append]
  exact opened_eq_iff hhere.1 hhere.2

theorem parts_placed_iff (o : Outline) :
    (placed ['.'] o).parts = (placed (trail here) o).parts ↔ none ∉ o := by
  obtain ⟨ns, n, rfl⟩ := (List.eq_nil_or_concat here).resolve_left hne
  rw [List.concat_eq_append, List.forall_mem_append, List.forall_mem_singleton] at hhere
  rw [List.concat_eq_append]
  exact dotted_eq_rooted_iff hhere.1 hhere.2 o

theorem IsBased.absolute_eq (h : IsBased o) :
    (placed ['.'] o).absolute here = (placed (trail here) o).absolute here := by
  obtain ⟨rest, rfl⟩ : ∃ rest, o = none :: rest := by
    obtain rfl | ⟨rest, rfl, -⟩ := h
    · exact ⟨_, rfl⟩
    · exact ⟨_, rfl⟩
  exact absolute_eq_of_opened (anchor_dotted rest) (anchor_rooted hhere hne rest)
    ((opened_iff hhere hne rest).2 h)

theorem absolute_placed_iff (hdot : ".." ∉ (placed ['.'] o).parts)
    (hnames : ".." ∉ (placed (trail here) o).parts) :
    (placed ['.'] o).absolute here = (placed (trail here) o).absolute here ↔
      none ∉ o ∨ IsBased o := by
  refine ⟨fun h => ?_, fun h => h.elim (fun hnone => ?_) fun hbased => hbased.absolute_eq hhere hne⟩
  · rcases o with _ | ⟨_ | c, o⟩
    · exact .inl nofun
    · right
      rw [Path.absolute_of_relative (anchor_dotted o) hdot hhere, Path.absolute_of_absolute
        (by rw [anchor_rooted hhere hne o]; nofun) hnames] at h
      exact (opened_iff hhere hne o).1 (congrArg Path.parts h)
    · left
      rw [← parts_placed_iff hhere hne]
      by_cases hc : c = '/'
      · subst hc
        rw [Path.absolute_of_absolute (anchor_placed_slash _ o) hdot,
          Path.absolute_of_absolute (anchor_placed_slash _ o) hnames] at h
        exact congrArg Path.parts h
      · rw [Path.absolute_of_relative (anchor_placed_some hc _ o) hdot hhere,
          Path.absolute_of_relative (anchor_placed_some hc _ o) hnames hhere] at h
        exact List.append_cancel_left (congrArg Path.parts h)
  · rw [placed_congr hnone]

end

end Outline

end Settings

end ArtifactCache
