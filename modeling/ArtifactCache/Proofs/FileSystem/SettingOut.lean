import Mathlib.Data.List.DropRight
import ArtifactCache.Proofs.FileSystem.Shifted
import ArtifactCache.Proofs.FileSystem.Way

namespace ArtifactCache.FileSystem

variable {fs gs : FileSystem} {p : Pathname} {followLast : Bool} {P base dir dir' d e : Location}
  {m n piece : String} {qs rs : List String} {budget : Nat}
  {again after : Location → List String → Except Errno Location}
  {hops : Location → List String → List Location}

def ups (qs : List String) : Nat := (qs.takeWhile isStep).count ".."

theorem ups_skip (h : piece = "" ∨ piece = ".") : ups (piece :: qs) = ups qs := by
  rcases h with rfl | rfl <;> simp [ups, isStep]

theorem ups_up : ups (".." :: qs) = ups qs + 1 := by simp [ups, isStep]

theorem ups_name (h : isStep piece = false) : ups (piece :: qs) = 0 := by simp [ups, h]

theorem rdrop_dropLast (dir : Location) (k : Nat) : dir.dropLast.rdrop k = dir.rdrop (k + 1) := by
  rcases List.eq_nil_or_concat dir with rfl | ⟨dir, x, rfl⟩
  · simp
  · rw [List.concat_eq_append, List.dropLast_concat, List.rdrop_concat_succ]

theorem walk_steps : fs.walk again followLast dir qs =
    fs.walk again followLast (dir.rdrop (ups qs)) (qs.dropWhile isStep) := by
  induction qs generalizing dir with
  | nil => simp [ups]
  | cons piece qs ih =>
      rcases step_or_name piece with hp | rfl | hp
      · have hstep : isStep piece = true := by rcases hp with rfl | rfl <;> rfl
        rw [walk_skip hp, ups_skip hp, List.dropWhile_cons_of_pos hstep, ih]
      · rw [walk_up, ups_up, List.dropWhile_cons_of_pos rfl, ih, rdrop_dropLast]
      · rw [ups_name hp, List.rdrop_zero, List.dropWhile_cons_of_neg (by simp [hp])]

theorem walkWay_steps : fs.walkWay hops followLast dir qs =
    fs.walkWay hops followLast (dir.rdrop (ups qs)) (qs.dropWhile isStep) := by
  induction qs generalizing dir with
  | nil => simp [ups]
  | cons piece qs ih =>
      rcases step_or_name piece with hp | rfl | hp
      · have hstep : isStep piece = true := by rcases hp with rfl | rfl <;> rfl
        rw [walkWay_skip hp, ups_skip hp, List.dropWhile_cons_of_pos hstep, ih]
      · rw [walkWay_up, ups_up, List.dropWhile_cons_of_pos rfl, ih, rdrop_dropLast]
      · rw [ups_name hp, List.rdrop_zero, List.dropWhile_cons_of_neg (by simp [hp])]

-- Going up either leaves the entry of `base` behind or does not reach it.
theorem rdrop_beneath (base rest : Location) (k : Nat) :
    (∃ r, ∀ x, (base ++ x :: rest).rdrop k = base ++ x :: r) ∨
      ∃ d, ∀ x, (base ++ x :: rest).rdrop k = d := by
  induction k generalizing rest with
  | zero => exact .inl ⟨rest, fun x => List.rdrop_zero _⟩
  | succ k ih =>
      rcases List.eq_nil_or_concat rest with rfl | ⟨rest, y, rfl⟩
      · exact .inr ⟨base.rdrop k, fun x => List.rdrop_concat_succ ..⟩
      · simp only [List.concat_eq_append, ← List.cons_append, ← List.append_assoc,
          List.rdrop_concat_succ]
        exact ih rest

/-- Where the first name of a pathname is looked for. -/
def setOut (fs : FileSystem) (p : Pathname) : Location := (fs.startOf p).rdrop (ups p.pieces)

theorem setOut_prefix (fs : FileSystem) (p : Pathname) : fs.setOut p <+: fs.startOf p :=
  List.take_prefix ..

theorem setOut_cases (p : Pathname) {x y : String} {rest : Location}
    (hx : fs.here = base ++ x :: rest) (hy : gs.here = base ++ y :: rest) :
    gs.setOut p = fs.setOut p ∨
      ∃ r, fs.setOut p = base ++ x :: r ∧ gs.setOut p = base ++ y :: r := by
  rw [setOut, setOut, startOf, startOf, hx, hy]
  split_ifs
  · exact .inl rfl
  · rcases rdrop_beneath base rest (ups p.pieces) with ⟨r, h⟩ | ⟨d, h⟩
    · exact .inr ⟨r, h x, h y⟩
    · exact .inl ((h y).trans (h x).symm)

theorem way_eq (fs : FileSystem) (p : Pathname) :
    fs.way p = fs.wayWithin true mostLinks (fs.setOut p) (p.pieces.dropWhile isStep) := by
  rw [way, wayWithin_eq, walkWay_steps]
  rfl

theorem resolve_eq_ok (h : fs.resolve p = .ok d) :
    fs.walkWithin true mostLinks (fs.setOut p) (p.pieces.dropWhile isStep) = .ok d := by
  have hwalk := (follow_eq_ok_iff.1 h).2.2
  rw [walkWithin_eq, walk_steps] at hwalk
  rwa [walkWithin_eq]

section

variable (hname : ∃ piece ∈ p.pieces, isStep piece = false)

include hname

theorem exists_first_name : ∃ piece rest, p.pieces.dropWhile isStep = piece :: rest ∧
    isStep piece = false := by
  obtain ⟨name, hmem, hstep⟩ := hname
  cases hp : p.pieces.dropWhile isStep with
  | nil =>
      rw [List.dropWhile_eq_nil_iff] at hp
      rw [hp name hmem] at hstep
      cases hstep
  | cons piece rest =>
      refine ⟨piece, rest, rfl, ?_⟩
      have hhead := List.head_dropWhile_not (p := isStep) (l := p.pieces) (by simp [hp])
      simpa [hp] using hhead

theorem exists_mem_way (fs : FileSystem) : ∃ piece, fs.setOut p ++ [piece] ∈ fs.way p := by
  obtain ⟨piece, rest, hpieces, hstep⟩ := exists_first_name hname
  refine ⟨piece, ?_⟩
  rw [way_eq, hpieces, wayWithin_eq]
  exact mem_walkWay_name hstep

theorem isPresent_iff_way (hsame : gs.setOut p = fs.setOut p) (h : fs.isPresent p = true)
    (hless : ∀ l ∈ fs.way p, gs.item? l = fs.item? l ∨ gs.item? l = none) :
    gs.isPresent p = true ↔ ∀ l ∈ fs.way p, gs.item? l = fs.item? l := by
  obtain ⟨piece, rest, hpieces, hstep⟩ := exists_first_name hname
  rw [isPresent_iff] at h ⊢
  cases hr : fs.resolve p with
  | error e => rw [hr] at h; cases h
  | ok d =>
      rw [hr] at h
      obtain ⟨hlong, hempty, -⟩ := follow_eq_ok_iff.1 hr
      have hfollow : gs.resolve p =
          gs.walkWithin true mostLinks (fs.setOut p) (p.pieces.dropWhile isStep) := by
        rw [resolve, follow, if_neg (by simp [hlong]), if_neg (by simp [hempty]), ← hsame,
          walkWithin_eq, walk_steps]
        rfl
      rw [way_eq] at hless ⊢
      rw [hfollow]
      refine walkWithin_found_iff h (resolve_eq_ok hr) (.inr ?_) hless
      exact ⟨piece, by simp [hpieces], hstep⟩

theorem absent_of_setOut (hgone : gs.item? (gs.setOut p) = none) : gs.isPresent p = false := by
  obtain ⟨piece, rest, hpieces, hstep⟩ := exists_first_name hname
  rw [← Bool.not_eq_true, isPresent_iff]
  cases hr : gs.resolve p with
  | error e => exact fun hfound => hfound
  | ok d =>
      rw [← resolve_eq_ok hr, hpieces, walkWithin_eq]
      exact walk_missing hstep (eq_none_of_above hgone (List.prefix_append ..))

end

section

variable (hacross : ∀ l k, Across P m n l k → gs.item? k = fs.item? l ∨ gs.item? k = none)
  (hfree : gs.item? (P ++ [m]) = none) (hd : (fs.item? d).isSome) (he : (gs.item? e).isSome)

include hacross hfree hd he

-- Followed beneath the entry's new name, what was found by way of its old one is found no more.
theorem walk_across_missing
    (hlink : ∀ base base' ps, Across P m n base base' → again base ps = .ok d →
      after base' ps = .ok e → P ++ [n] ∉ hops base ps → P ++ [m] ∉ hops base ps)
    (hdir : Across P m n dir dir') (h : fs.walk again followLast dir qs = .ok d)
    (h' : gs.walk after followLast dir' qs = .ok e)
    (haside : P ++ [n] ∉ fs.walkWay hops followLast dir qs) :
    P ++ [m] ∉ fs.walkWay hops followLast dir qs := by
  induction qs generalizing dir dir' with
  | nil => simp [walkWay]
  | cons piece qs ih =>
      rcases step_or_name piece with hp | rfl | hp
      · rw [walk_skip hp] at h h'
        rw [walkWay_skip hp] at haside ⊢
        exact ih hdir h h' haside
      · rw [walk_up] at h h'
        rw [walkWay_up] at haside ⊢
        exact ih hdir.dropLast h h' haside
      · have hfound := walk_name_found hp hd h
        have hfound' := walk_name_found hp he h'
        rw [walkWay_name hp] at haside ⊢
        rw [List.mem_cons, not_or] at haside ⊢
        have hsome : gs.item? (dir' ++ [piece]) ≠ none := by
          rcases hfound' with ⟨hi, -⟩ | ⟨-, -, c, hi⟩ | ⟨t, hi, -⟩ <;> rw [hi] <;> simp
        have hchild : Across P m n (dir ++ [piece]) (dir' ++ [piece]) :=
          hdir.concat (fun heq => haside.1 heq.symm) fun heq => hsome (heq ▸ hfree)
        have hsame := (hacross _ _ hchild).resolve_right hsome
        refine ⟨fun heq => hsome ?_, ?_⟩
        · obtain ⟨rfl, -⟩ := List.append_inj' heq rfl
          rw [hdir.unique (.same not_prefix_dir not_prefix_dir), ← heq, hfree]
        · replace haside := haside.2
          rw [hsame] at hfound'
          rcases hfound with ⟨hi, hrest⟩ | ⟨-, -, c, hi⟩ | ⟨t, hi, hrest⟩ <;>
            rw [hi] at hfound' haside ⊢
          · rcases hfound' with ⟨-, hrest'⟩ | ⟨-, -, c, hj⟩ | ⟨u, hj, -⟩
            · exact ih hchild hrest hrest' haside
            · cases hj
            · cases hj
          · simp
          · rcases hfound' with ⟨hj, -⟩ | ⟨-, -, c, hj⟩ | ⟨u, hj, hrest'⟩ <;> cases hj
            by_cases hlast : qs = [] ∧ followLast = false
            · simp [hlast]
            · simp only [if_neg hlast] at hrest hrest' haside ⊢
              refine hlink _ _ _ ?_ hrest hrest' haside
              split_ifs
              · exact .top
              · exact hdir

theorem walkWithin_across_missing (hdir : Across P m n dir dir')
    (h : fs.walkWithin followLast budget dir qs = .ok d)
    (h' : gs.walkWithin followLast budget dir' qs = .ok e)
    (haside : P ++ [n] ∉ fs.wayWithin followLast budget dir qs) :
    P ++ [m] ∉ fs.wayWithin followLast budget dir qs := by
  induction budget generalizing dir dir' qs with
  | zero =>
      refine walk_across_missing hacross hfree hd he ?_ hdir h h' haside
      exact fun _ _ _ _ hps => by cases hps
  | succ budget ih =>
      refine walk_across_missing hacross hfree hd he ?_ hdir h h' haside
      exact fun base base' ps hbase hps hps' => ih hbase hps hps'

end

theorem absent_across
    (hacross : ∀ l k, Across P m n l k → gs.item? k = fs.item? l ∨ gs.item? k = none)
    (hfree : gs.item? (P ++ [m]) = none) (h : fs.isPresent p = true)
    (hsets : Across P m n (fs.setOut p) (gs.setOut p)) (haside : P ++ [n] ∉ fs.way p)
    (hway : P ++ [m] ∈ fs.way p) : gs.isPresent p = false := by
  rw [← Bool.not_eq_true, isPresent_iff]
  rw [isPresent_iff] at h
  cases hr : fs.resolve p with
  | error e => rw [hr] at h; cases h
  | ok d =>
      rw [hr] at h
      cases hs : gs.resolve p with
      | error e => exact fun hfound => hfound
      | ok e =>
          intro hfound
          rw [way_eq] at haside hway
          exact walkWithin_across_missing hacross hfree h hfound hsets (resolve_eq_ok hr)
            (resolve_eq_ok hs) haside hway

end ArtifactCache.FileSystem
