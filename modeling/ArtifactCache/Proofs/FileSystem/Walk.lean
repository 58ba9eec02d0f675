import Mathlib.Data.List.Induction
import Mathlib.Tactic.SplitIfs
import Mathlib.Tactic.Tauto
import ArtifactCache.FileSystem.Resolve

namespace ArtifactCache.FileSystem

variable {fs gs : FileSystem} {followLast : Bool} {dir loc d e : Location} {piece : String}
  {pieces rest qs rs : List String} {n : Nat}
  {again after : Location → List String → Except Errno Location}

theorem step_or_name (piece : String) :
    (piece = "" ∨ piece = ".") ∨ piece = ".." ∨ isStep piece = false := by
  simp only [isStep, Bool.or_eq_false_iff, beq_eq_false_iff_ne]
  tauto

theorem isStep_eq_false_of_isName (h : isName piece = true) : isStep piece = false := by
  simp only [isName, Bool.and_eq_true, Bool.not_eq_true'] at h
  exact h.1.1.1

theorem ne_empty_of_isStep (h : isStep piece = false) : piece ≠ "" := by
  rintro rfl
  cases h

theorem noNul_of_isName (h : isName piece = true) : '\x00' ∉ piece.toList := by
  simp only [isName, Bool.and_eq_true, Bool.not_eq_true', List.contains_eq_mem,
    decide_eq_false_iff_not] at h
  exact h.1.2

theorem walk_skip (h : piece = "" ∨ piece = ".") :
    fs.walk again followLast dir (piece :: rest) = fs.walk again followLast dir rest := by
  simp [walk, h]

theorem walk_up :
    fs.walk again followLast dir (".." :: rest) = fs.walk again followLast dir.dropLast rest := by
  simp [walk]

theorem walk_name (h : isStep piece = false) :
    fs.walk again followLast dir (piece :: rest) =
      match fs.item? (dir ++ [piece]) with
      | none =>
          if isTooLong piece ∧ fs.item? dir = some .directory then .error .nameTooLong
          else if rest = [] then .ok (dir ++ [piece])
          else .error .noEntry
      | some .directory => fs.walk again followLast (dir ++ [piece]) rest
      | some (.file _) => if rest = [] then .ok (dir ++ [piece]) else .error .notDirectory
      | some (.link target) =>
          if rest = [] ∧ followLast = false then .ok (dir ++ [piece])
          else again (if target.isAbsolute then [] else dir) (target.pieces ++ rest) := by
  simp only [isStep, Bool.or_eq_false_iff, beq_eq_false_iff_ne] at h
  rw [walk, if_neg (by tauto)]
  exact if_neg h.2

theorem walk_name_found (hp : isStep piece = false) (hd : (fs.item? d).isSome)
    (h : fs.walk again followLast dir (piece :: rest) = .ok d) :
    (fs.item? (dir ++ [piece]) = some .directory ∧
      fs.walk again followLast (dir ++ [piece]) rest = .ok d) ∨
    (rest = [] ∧ dir ++ [piece] = d ∧ ∃ c, fs.item? (dir ++ [piece]) = some (.file c)) ∨
    ∃ target, fs.item? (dir ++ [piece]) = some (.link target) ∧
      (if rest = [] ∧ followLast = false then .ok (dir ++ [piece])
        else again (if target.isAbsolute then [] else dir) (target.pieces ++ rest)) = .ok d := by
  rw [walk_name hp] at h
  cases hi : fs.item? (dir ++ [piece]) with
  | none =>
      rw [hi] at h
      simp only at h
      split_ifs at h
      rw [← Except.ok.inj h, hi] at hd
      cases hd
  | some item =>
      rw [hi] at h
      cases item with
      | directory => exact .inl ⟨rfl, h⟩
      | file content =>
          simp only at h
          split_ifs at h with hlast
          exact .inr (.inl ⟨hlast, Except.ok.inj h, content, rfl⟩)
      | link target => exact .inr (.inr ⟨target, rfl, h⟩)

theorem walk_name_cases (hp : isStep piece = false) (hd : fs.item? d = some .directory)
    (h : fs.walk again true dir (piece :: rest) = .ok d) :
    (fs.item? (dir ++ [piece]) = some .directory ∧
      fs.walk again true (dir ++ [piece]) rest = .ok d) ∨
    ∃ target, fs.item? (dir ++ [piece]) = some (.link target) ∧
      again (if target.isAbsolute then [] else dir) (target.pieces ++ rest) = .ok d := by
  rcases walk_name_found hp (by rw [hd]; rfl) h with hdir | ⟨-, rfl, c, hc⟩ | ⟨target, hi, hrest⟩
  · exact .inl hdir
  · rw [hd] at hc; cases hc
  · rw [if_neg (by simp)] at hrest
    exact .inr ⟨target, hi, hrest⟩

def afterLink (fs : FileSystem) (followLast : Bool) :
    Nat → Location → List String → Except Errno Location
  | 0 => fun _ _ => .error .tooManyLinks
  | n + 1 => fs.walkWithin followLast n

theorem walkWithin_eq (fs : FileSystem) (followLast : Bool) (n : Nat) :
    fs.walkWithin followLast n = fs.walk (fs.afterLink followLast n) followLast := by
  cases n <;> rfl

def Idle (pieces : List String) : Prop := ∀ piece ∈ pieces, piece = "" ∨ piece = "."

theorem idle_nil : Idle [] := fun _ h => absurd h List.not_mem_nil

theorem Idle.append (hqs : Idle qs) (hrs : Idle rs) : Idle (qs ++ rs) :=
  List.forall_mem_append.2 ⟨hqs, hrs⟩

theorem idle_slashes (k : Nat) : Idle (List.replicate k "") := fun _ hpiece =>
  .inl (List.eq_of_mem_replicate hpiece)

theorem idle_dot (k : Nat) : Idle ("." :: List.replicate k "") :=
  List.forall_mem_cons.2 ⟨.inr rfl, idle_slashes k⟩

theorem walk_idle (h : Idle pieces) : fs.walk again followLast dir pieces = .ok dir := by
  induction pieces with
  | nil => rfl
  | cons piece pieces ih =>
      obtain ⟨hpiece, hrest⟩ := List.forall_mem_cons.1 h
      rw [walk_skip hpiece]
      exact ih hrest

-- `Q` stands for what is left to do once the first part has led to a place.
theorem walk_append {Q : Location → Prop}
    (after : Location → List String → Except Errno Location) (hrs : rs ≠ [])
    (hlink : ∀ base ps, again base (ps ++ rs) = .ok loc → ∃ d, after base ps = .ok d ∧ Q d)
    (hend : ∀ d, fs.walk again followLast d rs = .ok loc → Q d)
    (h : fs.walk again followLast dir (qs ++ rs) = .ok loc) :
    ∃ d, fs.walk after true dir qs = .ok d ∧ Q d := by
  induction qs generalizing dir with
  | nil => exact ⟨dir, rfl, hend dir h⟩
  | cons piece qs ih =>
      rw [List.cons_append] at h
      rcases step_or_name piece with hp | rfl | hp
      · rw [walk_skip hp] at h ⊢
        exact ih h
      · rw [walk_up] at h ⊢
        exact ih h
      · rw [walk_name hp] at h ⊢
        cases hi : fs.item? (dir ++ [piece]) with
        | none =>
            rw [hi] at h
            simp only [List.append_eq_nil_iff, hrs, and_false, if_false] at h
            split at h <;> cases h
        | some item =>
            rw [hi] at h
            cases item with
            | directory => exact ih h
            | file content => simp [hrs] at h
            | link target =>
                simp only [List.append_eq_nil_iff, hrs, and_false, false_and, if_false,
                  ← List.append_assoc] at h
                simpa using hlink _ _ h

theorem walkWithin_append (hrs : rs ≠ [])
    (h : fs.walkWithin followLast n dir (qs ++ rs) = .ok loc) :
    ∃ d, fs.walkWithin true n dir qs = .ok d ∧
      ∃ m, fs.walkWithin followLast m d rs = .ok loc := by
  induction n generalizing dir qs with
  | zero =>
      refine walk_append (fun _ _ => .error .tooManyLinks) hrs ?_ ?_ h
      · intro base ps hps; cases hps
      · exact fun d hd => ⟨0, hd⟩
  | succ n ih =>
      refine walk_append (fs.walkWithin true n) hrs (fun base ps hps => ih hps) ?_ h
      exact fun d hd => ⟨n + 1, hd⟩

theorem walk_append_directory {Q : Except Errno Location → Prop}
    (after : Location → List String → Except Errno Location) (hrs : rs ≠ [])
    (hd : fs.item? d = some .directory)
    (hlink : ∀ base ps, after base ps = .ok d → Q (again base (ps ++ rs)))
    (hend : Q (fs.walk again followLast d rs))
    (h : fs.walk after true dir qs = .ok d) :
    Q (fs.walk again followLast dir (qs ++ rs)) := by
  induction qs generalizing dir with
  | nil =>
      obtain rfl : dir = d := Except.ok.inj h
      exact hend
  | cons piece qs ih =>
      rw [List.cons_append]
      rcases step_or_name piece with hp | rfl | hp
      · rw [walk_skip hp] at h ⊢
        exact ih h
      · rw [walk_up] at h ⊢
        exact ih h
      · rw [walk_name hp]
        rcases walk_name_cases hp hd h with ⟨hi, hrest⟩ | ⟨target, hi, hrest⟩
        · rw [hi]
          exact ih hrest
        · rw [hi]
          simpa [hrs] using hlink _ _ hrest

theorem walkWithin_append_directory (followLast : Bool) (hrs : rs ≠ [])
    (hd : fs.item? d = some .directory)
    (h : fs.walkWithin true n dir qs = .ok d) :
    ∃ m ≤ n, fs.walkWithin followLast n dir (qs ++ rs) = fs.walkWithin followLast m d rs := by
  induction n generalizing dir qs with
  | zero =>
      refine walk_append_directory (fun _ _ => .error .tooManyLinks)
        (Q := fun r => ∃ m ≤ 0, r = fs.walkWithin followLast m d rs) hrs hd ?_ ?_ h
      · intro base ps hps; cases hps
      · exact ⟨0, Nat.le_refl 0, rfl⟩
  | succ n ih =>
      refine walk_append_directory (fs.walkWithin true n)
        (Q := fun r => ∃ m ≤ n + 1, r = fs.walkWithin followLast m d rs) hrs hd ?_ ?_ h
      · intro base ps hps
        obtain ⟨m, hm, hr⟩ := ih hps
        exact ⟨m, Nat.le_succ_of_le hm, hr⟩
      · exact ⟨n + 1, Nat.le_refl _, rfl⟩

theorem walkWithin_append_idle (hrs : Idle rs) (hd : fs.item? d = some .directory) :
    fs.walkWithin true n dir (qs ++ rs) = .ok d ↔ fs.walkWithin true n dir qs = .ok d := by
  have hstay : ∀ m (c : Location), fs.walkWithin true m c rs = .ok c := fun m c => by
    rw [walkWithin_eq]
    exact walk_idle hrs
  rcases eq_or_ne rs [] with rfl | hne
  · rw [List.append_nil]
  constructor
  · intro h
    obtain ⟨c, hc, m, hm⟩ := walkWithin_append hne h
    rw [hstay] at hm
    rw [hc, hm]
  · intro h
    obtain ⟨m, -, hm⟩ := walkWithin_append_directory true hne hd h
    rw [hm, hstay]

theorem isSome_item?_append {base : Location} (h : (fs.item? (dir ++ base)).isSome)
    (hb : base ≠ []) : fs.item? dir = some .directory := by
  induction base using List.reverseRecOn with
  | nil => exact absurd rfl hb
  | append_singleton base name ih =>
      rw [← List.append_assoc] at h
      have hdir := item?_dir_of_isSome h
      rcases eq_or_ne base [] with rfl | hne
      · rwa [List.append_nil] at hdir
      · exact ih (by rw [hdir]; rfl) hne

theorem isSome_of_above (h : (fs.item? loc).isSome) (hd : d <+: loc) : (fs.item? d).isSome := by
  obtain ⟨base, rfl⟩ := hd
  rcases eq_or_ne base [] with rfl | hne
  · rwa [List.append_nil] at h
  · rw [isSome_item?_append h hne]; rfl

theorem eq_none_of_above (h : fs.item? d = none) (hd : d <+: loc) : fs.item? loc = none := by
  rw [← Option.not_isSome_iff_eq_none]
  intro hi
  have habove := isSome_of_above hi hd
  rw [h] at habove
  cases habove

theorem children_ne_nil {base : Location} (h : (fs.item? (dir ++ base)).isSome) (hb : base ≠ []) :
    fs.children dir ≠ [] := by
  obtain ⟨name, base, rfl⟩ := List.exists_cons_of_ne_nil hb
  have hp : dir ++ [name] <+: dir ++ name :: base := ⟨base, by simp⟩
  exact List.ne_nil_of_mem (mem_children.2 (isSome_of_above h hp))

theorem isName_of_mem {name : String} (h : (fs.item? loc).isSome) (hm : name ∈ loc) :
    isName name = true := by
  obtain ⟨above, below, rfl⟩ := List.append_of_mem hm
  rcases eq_or_ne below [] with rfl | hne
  · exact isName_of_isSome h
  · rw [List.append_cons] at h
    exact isName_of_isSome (by rw [isSome_item?_append h hne]; rfl)

theorem isStep_of_mem {name : String} (h : (fs.item? loc).isSome) (hm : name ∈ loc) :
    isStep name = false :=
  isStep_eq_false_of_isName (isName_of_mem h hm)

theorem walk_names {base : Location} (h : fs.item? (dir ++ base) = some .directory) :
    fs.walk again followLast dir (base ++ rest) = fs.walk again followLast (dir ++ base) rest := by
  induction base generalizing dir with
  | nil => rw [List.nil_append, List.append_nil]
  | cons name base ih =>
      rw [List.append_cons] at h
      have hname : isName name = true :=
        isName_of_mem (by rw [h]; rfl) (by simp)
      have hdir : fs.item? (dir ++ [name]) = some .directory := by
        rcases eq_or_ne base [] with rfl | hne
        · rwa [List.append_nil] at h
        · exact isSome_item?_append (by rw [h]; rfl) hne
      rw [List.cons_append, walk_name (isStep_eq_false_of_isName hname), hdir]
      simp only
      rw [ih h, ← List.append_cons]

theorem walk_linkFree (dir : Location) (hsteps : ∀ p ∈ qs, isStep p = false)
    (hlinks : ∀ q, q <+: qs → ∀ t, fs.item? (dir ++ q) ≠ some (.link t))
    (hd : fs.item? d = some .directory)
    (h : fs.walk again true dir qs = .ok d) : d = dir ++ qs := by
  induction qs generalizing dir with
  | nil => rw [List.append_nil]; exact (Except.ok.inj h).symm
  | cons piece qs ih =>
      rcases walk_name_cases (hsteps piece (by simp)) hd h with ⟨-, hrest⟩ | ⟨target, hi, -⟩
      · rw [List.append_cons]
        refine ih (dir ++ [piece]) (fun p hp => hsteps p (by simp [hp])) (fun q hq t => ?_) hrest
        rw [← List.append_cons]
        exact hlinks (piece :: q) (List.cons_prefix_cons.2 ⟨rfl, hq⟩) t
      · exact absurd hi (hlinks [piece] (List.cons_prefix_cons.2 ⟨rfl, List.nil_prefix⟩) target)

theorem walk_noNul (hd : (fs.item? d).isSome)
    (hlink : ∀ base ps, again base ps = .ok d → ∀ p ∈ ps, '\x00' ∉ p.toList)
    (h : fs.walk again followLast dir qs = .ok d) : ∀ p ∈ qs, '\x00' ∉ p.toList := by
  induction qs generalizing dir with
  | nil => simp
  | cons piece qs ih =>
      rw [List.forall_mem_cons]
      rcases step_or_name piece with hp | rfl | hp
      · rw [walk_skip hp] at h
        exact ⟨by rcases hp with rfl | rfl <;> decide, ih h⟩
      · rw [walk_up] at h
        exact ⟨by decide, ih h⟩
      · rcases walk_name_found hp hd h with ⟨hi, hrest⟩ | ⟨rfl, -, c, hi⟩ | ⟨target, hi, hrest⟩
        · exact ⟨noNul_of_isName (isName_of_isSome (by rw [hi]; rfl)), ih hrest⟩
        · exact ⟨noNul_of_isName (isName_of_isSome (by rw [hi]; rfl)), by simp⟩
        · refine ⟨noNul_of_isName (isName_of_isSome (by rw [hi]; rfl)), ?_⟩
          by_cases hlast : qs = [] ∧ followLast = false
          · simp [hlast.1]
          · rw [if_neg hlast] at hrest
            exact fun p hp => hlink _ _ hrest p (by simp [hp])

theorem walkWithin_noNul (hd : (fs.item? d).isSome)
    (h : fs.walkWithin followLast n dir qs = .ok d) : ∀ p ∈ qs, '\x00' ∉ p.toList := by
  induction n generalizing dir qs with
  | zero => exact walk_noNul hd (fun _ _ hps => by cases hps) h
  | succ n ih => exact walk_noNul hd (fun _ _ hps => ih hps) h

theorem walk_followed {after : Location → List String → Except Errno Location}
    (hd : fs.item? d = some .directory)
    (hlink : ∀ base ps, again base ps = .ok d → after base ps = .ok d)
    (h : fs.walk again false dir qs = .ok d) : fs.walk after true dir qs = .ok d := by
  induction qs generalizing dir with
  | nil => exact h
  | cons piece qs ih =>
      rcases step_or_name piece with hp | rfl | hp
      · rw [walk_skip hp] at h ⊢
        exact ih h
      · rw [walk_up] at h ⊢
        exact ih h
      · rw [walk_name hp]
        rcases walk_name_found hp (by rw [hd]; rfl) h with
          ⟨hi, hrest⟩ | ⟨-, rfl, c, hi⟩ | ⟨target, hi, hrest⟩
        · rw [hi]
          exact ih hrest
        · rw [hd] at hi; cases hi
        · rw [hi]
          by_cases hlast : qs = []
          · rw [if_pos ⟨hlast, rfl⟩] at hrest
            obtain rfl := Except.ok.inj hrest
            rw [hd] at hi; cases hi
          · rw [if_neg fun h => hlast h.1] at hrest
            exact (if_neg (by simp)).trans (hlink _ _ hrest)

theorem walkWithin_followed (hd : fs.item? d = some .directory)
    (h : fs.walkWithin false n dir qs = .ok d) : fs.walkWithin true n dir qs = .ok d := by
  induction n generalizing dir qs with
  | zero => exact walk_followed hd (fun _ _ hps => by cases hps) h
  | succ n ih => exact walk_followed hd (fun _ _ hps => ih hps) h

theorem walk_unfollowed {after : Location → List String → Except Errno Location}
    (hd : fs.item? d = some .directory)
    (hlink : ∀ base ps, again base ps = .ok d → after base ps = .ok d ∨
      ∃ l t, after base ps = .ok l ∧ fs.item? l = some (.link t))
    (h : fs.walk again true dir qs = .ok d) :
    fs.walk after false dir qs = .ok d ∨
      ∃ l t, fs.walk after false dir qs = .ok l ∧ fs.item? l = some (.link t) := by
  induction qs generalizing dir with
  | nil => exact .inl h
  | cons piece qs ih =>
      rcases step_or_name piece with hp | rfl | hp
      · rw [walk_skip hp] at h ⊢
        exact ih h
      · rw [walk_up] at h ⊢
        exact ih h
      · rw [walk_name hp]
        rcases walk_name_cases hp hd h with ⟨hi, hrest⟩ | ⟨target, hi, hrest⟩
        · rw [hi]
          exact ih hrest
        · rw [hi]
          by_cases hlast : qs = []
          · exact .inr ⟨_, target, if_pos ⟨hlast, rfl⟩, hi⟩
          · simpa only [hlast, false_and, if_false] using hlink _ _ hrest

theorem walkWithin_unfollowed (hd : fs.item? d = some .directory)
    (h : fs.walkWithin true n dir qs = .ok d) :
    fs.walkWithin false n dir qs = .ok d ∨
      ∃ l t, fs.walkWithin false n dir qs = .ok l ∧ fs.item? l = some (.link t) := by
  induction n generalizing dir qs with
  | zero => exact walk_unfollowed hd (fun _ _ hps => by cases hps) h
  | succ n ih => exact walk_unfollowed hd (fun _ _ hps => ih hps) h

theorem walk_of_less (hless : ∀ l, gs.item? l = fs.item? l ∨ gs.item? l = none)
    (hlink : ∀ base ps, after base ps = .ok d → again base ps = .ok d)
    (hd : (gs.item? d).isSome) (h : gs.walk after followLast dir qs = .ok d) :
    fs.walk again followLast dir qs = .ok d := by
  have hsame : ∀ l item, gs.item? l = some item → fs.item? l = some item := by
    intro l item hi
    rcases hless l with heq | hnone
    · rw [← heq, hi]
    · rw [hnone] at hi; cases hi
  induction qs generalizing dir with
  | nil => exact h
  | cons piece qs ih =>
      rcases step_or_name piece with hp | rfl | hp
      · rw [walk_skip hp] at h ⊢
        exact ih h
      · rw [walk_up] at h ⊢
        exact ih h
      · rw [walk_name hp]
        rcases walk_name_found hp hd h with ⟨hi, hrest⟩ | ⟨rfl, rfl, c, hi⟩ | ⟨target, hi, hrest⟩
        · rw [hsame _ _ hi]
          exact ih hrest
        · rw [hsame _ _ hi]
          exact if_pos rfl
        · rw [hsame _ _ hi]
          by_cases hlast : qs = [] ∧ followLast = false
          · rw [if_pos hlast] at hrest
            exact (if_pos hlast).trans hrest
          · rw [if_neg hlast] at hrest
            exact (if_neg hlast).trans (hlink _ _ hrest)

theorem walkWithin_of_less (hless : ∀ l, gs.item? l = fs.item? l ∨ gs.item? l = none)
    (hd : (gs.item? d).isSome) (h : gs.walkWithin followLast n dir qs = .ok d) :
    fs.walkWithin followLast n dir qs = .ok d := by
  induction n generalizing dir qs with
  | zero => exact walk_of_less hless (fun _ _ hps => hps) hd h
  | succ n ih => exact walk_of_less hless (fun _ _ hps => ih hps) hd h

def Concordant (fs gs : FileSystem) : Prop :=
  ∀ l i j, fs.item? l = some i → gs.item? l = some j →
    i = j ∨ (∃ c, i = .file c) ∨ ∃ c, j = .file c

theorem walk_unique (hc : Concordant fs gs) (hd : fs.item? d = some .directory)
    (he : gs.item? e = some .directory)
    (hlink : ∀ base ps, again base ps = .ok d → after base ps = .ok e → d = e)
    (h : fs.walk again true dir qs = .ok d) (h' : gs.walk after true dir qs = .ok e) : d = e := by
  induction qs generalizing dir with
  | nil => rw [← Except.ok.inj h, Except.ok.inj h']
  | cons piece qs ih =>
      rcases step_or_name piece with hp | rfl | hp
      · rw [walk_skip hp] at h h'
        exact ih h h'
      · rw [walk_up] at h h'
        exact ih h h'
      · rcases walk_name_cases hp hd h with ⟨hi, hrest⟩ | ⟨t, hi, hrest⟩ <;>
          rcases walk_name_cases hp he h' with ⟨hj, hrest'⟩ | ⟨u, hj, hrest'⟩ <;>
          rcases hc _ _ _ hi hj with heq | ⟨c, heq⟩ | ⟨c, heq⟩ <;> cases heq
        · exact ih hrest hrest'
        · exact hlink _ _ hrest hrest'

theorem walkWithin_unique (hc : Concordant fs gs) (hd : fs.item? d = some .directory)
    (he : gs.item? e = some .directory) (h : fs.walkWithin true n dir qs = .ok d)
    (h' : gs.walkWithin true n dir qs = .ok e) : d = e := by
  induction n generalizing dir qs with
  | zero => exact walk_unique hc hd he (fun _ _ hps _ => by cases hps) h h'
  | succ n ih => exact walk_unique hc hd he (fun _ _ hps hps' => ih hps hps') h h'

end ArtifactCache.FileSystem
