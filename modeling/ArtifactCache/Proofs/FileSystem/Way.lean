import ArtifactCache.Proofs.FileSystem.Thinning

namespace ArtifactCache.FileSystem

variable {fs gs : FileSystem} {p : Pathname} {followLast : Bool} {dir d loc : Location}
  {piece name : String} {qs rs : List String} {n : Nat}
  {again after : Location → List String → Except Errno Location}
  {hops : Location → List String → List Location}

def walkWay (fs : FileSystem) (hops : Location → List String → List Location)
    (followLast : Bool) (dir : Location) : List String → List Location
  | [] => []
  | piece :: rest =>
      if piece = "" ∨ piece = "." then walkWay fs hops followLast dir rest
      else if piece = ".." then walkWay fs hops followLast dir.dropLast rest
      else
        let loc := dir ++ [piece]
        loc :: match fs.item? loc with
          | some .directory => walkWay fs hops followLast loc rest
          | some (.link target) =>
              if rest = [] ∧ followLast = false then []
              else hops (if target.isAbsolute then [] else dir) (target.pieces ++ rest)
          | _ => []

def wayWithin (fs : FileSystem) (followLast : Bool) :
    Nat → Location → List String → List Location
  | 0 => fs.walkWay (fun _ _ => []) followLast
  | n + 1 => fs.walkWay (wayWithin fs followLast n) followLast

def way (fs : FileSystem) (p : Pathname) : List Location :=
  fs.wayWithin true mostLinks (fs.startOf p) p.pieces

def afterHop (fs : FileSystem) (followLast : Bool) :
    Nat → Location → List String → List Location
  | 0 => fun _ _ => []
  | n + 1 => fs.wayWithin followLast n

theorem wayWithin_eq (fs : FileSystem) (followLast : Bool) (n : Nat) :
    fs.wayWithin followLast n = fs.walkWay (fs.afterHop followLast n) followLast := by
  cases n <;> rfl

theorem walkWay_skip (h : piece = "" ∨ piece = ".") :
    fs.walkWay hops followLast dir (piece :: rs) = fs.walkWay hops followLast dir rs := by
  simp [walkWay, h]

theorem walkWay_up :
    fs.walkWay hops followLast dir (".." :: rs) = fs.walkWay hops followLast dir.dropLast rs := by
  simp [walkWay]

theorem walkWay_name (h : isStep piece = false) :
    fs.walkWay hops followLast dir (piece :: rs) =
      (dir ++ [piece]) :: match fs.item? (dir ++ [piece]) with
        | some .directory => fs.walkWay hops followLast (dir ++ [piece]) rs
        | some (.link target) =>
            if rs = [] ∧ followLast = false then []
            else hops (if target.isAbsolute then [] else dir) (target.pieces ++ rs)
        | _ => [] := by
  simp only [isStep, Bool.or_eq_false_iff, beq_eq_false_iff_ne] at h
  rw [walkWay, if_neg (by tauto)]
  exact if_neg h.2

theorem mem_walkWay_name (h : isStep piece = false) :
    dir ++ [piece] ∈ fs.walkWay hops followLast dir (piece :: rs) := by
  rw [walkWay_name h]
  exact List.mem_cons_self

theorem isSome_dropLast (h : (gs.item? dir).isSome) : (gs.item? dir.dropLast).isSome :=
  isSome_of_above h (List.dropLast_prefix dir)

theorem exists_name_of_step (hp : isStep piece = true)
    (h : ∃ name ∈ piece :: qs, isStep name = false) : ∃ name ∈ qs, isStep name = false := by
  obtain ⟨name, hname, hstep⟩ := h
  refine ⟨name, (List.mem_cons.1 hname).resolve_left ?_, hstep⟩
  rintro rfl
  rw [hp] at hstep
  cases hstep

def Found (gs : FileSystem) : Except Errno Location → Prop
  | .ok l => (gs.item? l).isSome
  | .error _ => False

theorem walk_missing (hp : isStep piece = false) (h : gs.item? (dir ++ [piece]) = none) :
    ¬ gs.Found (gs.walk after followLast dir (piece :: rs)) := by
  rw [walk_name hp, h]
  simp only
  split_ifs
  · exact fun hfound => hfound
  · simp [Found, h]
  · exact fun hfound => hfound

-- The induction is on the pieces. Once a place has been looked at in vain nothing is found; as long
-- as none has, both file systems are followed along the same places.
theorem walk_found_iff (hd : (fs.item? d).isSome)
    (hlink : ∀ base ps, again base ps = .ok d → (gs.item? base).isSome →
      (∀ l ∈ hops base ps, gs.item? l = fs.item? l ∨ gs.item? l = none) →
      (gs.Found (after base ps) ↔ ∀ l ∈ hops base ps, gs.item? l = fs.item? l))
    (h : fs.walk again followLast dir qs = .ok d)
    (hstart : (gs.item? dir).isSome ∨ ∃ piece ∈ qs, isStep piece = false)
    (hless : ∀ l ∈ fs.walkWay hops followLast dir qs,
      gs.item? l = fs.item? l ∨ gs.item? l = none) :
    gs.Found (gs.walk after followLast dir qs) ↔
      ∀ l ∈ fs.walkWay hops followLast dir qs, gs.item? l = fs.item? l := by
  induction qs generalizing dir with
  | nil => simpa [walk, walkWay, Found] using hstart
  | cons piece qs ih =>
      rcases step_or_name piece with hp | rfl | hp
      · rw [walk_skip hp] at h ⊢
        rw [walkWay_skip hp] at hless ⊢
        have hstep : isStep piece = true := by rcases hp with rfl | rfl <;> rfl
        exact ih h (hstart.imp_right (exists_name_of_step hstep)) hless
      · rw [walk_up] at h ⊢
        rw [walkWay_up] at hless ⊢
        exact ih h (hstart.imp isSome_dropLast (exists_name_of_step rfl)) hless
      · have hfound := walk_name_found hp hd h
        rw [walkWay_name hp] at hless ⊢
        rw [List.forall_mem_cons] at hless ⊢
        rcases hless.1 with hsame | hnone
        · rw [and_iff_right hsame, walk_name hp]
          have hrest := hless.2
          rcases hfound with ⟨hi, hwalk⟩ | ⟨rfl, -, c, hi⟩ | ⟨target, hi, hwalk⟩
          · rw [hi] at hsame hrest ⊢
            rw [hsame]
            exact ih hwalk (.inl (by rw [hsame]; rfl)) hrest
          · rw [hi] at hsame
            simp [hsame, hi, Found]
          · rw [hi] at hsame hrest ⊢
            rw [hsame]
            simp only at hrest ⊢
            by_cases hlast : qs = [] ∧ followLast = false
            · rw [if_pos hlast, if_pos hlast]
              simp [Found, hsame]
            · rw [if_neg hlast] at hwalk hrest
              rw [if_neg hlast, if_neg hlast]
              refine hlink _ _ hwalk ?_ hrest
              have hdir := item?_dir_of_isSome (by rw [hsame]; rfl)
              split_ifs
              · rfl
              · rw [hdir]; rfl
        · refine iff_of_false (walk_missing hp hnone) fun hall => ?_
          rw [hnone] at hall
          rcases hfound with ⟨hi, -⟩ | ⟨-, -, c, hi⟩ | ⟨t, hi, -⟩ <;> rw [hi] at hall <;>
            cases hall.1

theorem walkWithin_found_iff (hd : (fs.item? d).isSome)
    (h : fs.walkWithin followLast n dir qs = .ok d)
    (hstart : (gs.item? dir).isSome ∨ ∃ piece ∈ qs, isStep piece = false)
    (hless : ∀ l ∈ fs.wayWithin followLast n dir qs,
      gs.item? l = fs.item? l ∨ gs.item? l = none) :
    gs.Found (gs.walkWithin followLast n dir qs) ↔
      ∀ l ∈ fs.wayWithin followLast n dir qs, gs.item? l = fs.item? l := by
  induction n generalizing dir qs with
  | zero => exact walk_found_iff hd (fun _ _ hps => by cases hps) h hstart hless
  | succ n ih =>
      refine walk_found_iff hd (fun base ps hps hbase => ?_) h hstart hless
      exact ih hps (.inl hbase)

theorem isPresent_iff : gs.isPresent p = true ↔ gs.Found (gs.resolve p) := by
  unfold isPresent Found
  cases gs.resolve p <;> simp [itemAt]

theorem isSome_of_mem_walkWay (hd : (fs.item? d).isSome)
    (hlink : ∀ base ps, again base ps = .ok d → ∀ l ∈ hops base ps, (fs.item? l).isSome)
    (h : fs.walk again followLast dir qs = .ok d) :
    ∀ l ∈ fs.walkWay hops followLast dir qs, (fs.item? l).isSome := by
  induction qs generalizing dir with
  | nil => simp [walkWay]
  | cons piece qs ih =>
      rcases step_or_name piece with hp | rfl | hp
      · rw [walk_skip hp] at h
        rw [walkWay_skip hp]
        exact ih h
      · rw [walk_up] at h
        rw [walkWay_up]
        exact ih h
      · rw [walkWay_name hp, List.forall_mem_cons]
        rcases walk_name_found hp hd h with ⟨hi, hwalk⟩ | ⟨-, -, c, hi⟩ | ⟨target, hi, hwalk⟩ <;>
          rw [hi]
        · exact ⟨rfl, ih hwalk⟩
        · exact ⟨rfl, by simp⟩
        · refine ⟨rfl, ?_⟩
          by_cases hlast : qs = [] ∧ followLast = false
          · simp [hlast]
          · rw [if_neg hlast] at hwalk
            simp only [if_neg hlast]
            exact hlink _ _ hwalk

theorem isSome_of_mem_wayWithin (hd : (fs.item? d).isSome)
    (h : fs.walkWithin followLast n dir qs = .ok d) :
    ∀ l ∈ fs.wayWithin followLast n dir qs, (fs.item? l).isSome := by
  induction n generalizing dir qs with
  | zero => exact isSome_of_mem_walkWay hd (fun _ _ hps => by cases hps) h
  | succ n ih => exact isSome_of_mem_walkWay hd (fun _ _ hps => ih hps) h

theorem isSome_of_mem_way (h : fs.isPresent p = true) {l : Location} (hl : l ∈ fs.way p) :
    (fs.item? l).isSome := by
  rw [isPresent_iff] at h
  cases hr : fs.resolve p with
  | error e => rw [hr] at h; cases h
  | ok d =>
      rw [hr] at h
      exact isSome_of_mem_wayWithin h (follow_eq_ok_iff.1 hr).2.2 l hl

-- Where the pieces before a name lead to, the name is looked for.
theorem walk_name_on_way (after : Location → List String → Except Errno Location)
    (hname : isStep name = false)
    (hlink : ∀ base ps, again base (ps ++ name :: rs) = .ok loc →
      ∃ d, after base ps = .ok d ∧ d ++ [name] ∈ hops base (ps ++ name :: rs))
    (h : fs.walk again followLast dir (qs ++ name :: rs) = .ok loc) :
    ∃ d, fs.walk after true dir qs = .ok d ∧
      d ++ [name] ∈ fs.walkWay hops followLast dir (qs ++ name :: rs) := by
  induction qs generalizing dir with
  | nil => exact ⟨dir, rfl, mem_walkWay_name hname⟩
  | cons piece qs ih =>
      rw [List.cons_append] at h ⊢
      rcases step_or_name piece with hp | rfl | hp
      · rw [walk_skip hp] at h ⊢
        rw [walkWay_skip hp]
        exact ih h
      · rw [walk_up] at h ⊢
        rw [walkWay_up]
        exact ih h
      · rw [walk_name hp] at h ⊢
        rw [walkWay_name hp]
        cases hi : fs.item? (dir ++ [piece]) with
        | none =>
            rw [hi] at h
            simp only [List.append_eq_nil_iff, reduceCtorEq, and_false, if_false] at h
            split at h <;> cases h
        | some item =>
            rw [hi] at h
            cases item with
            | directory =>
                obtain ⟨d, hd, hmem⟩ := ih h
                exact ⟨d, hd, List.mem_cons_of_mem _ hmem⟩
            | file content => simp at h
            | link target =>
                simp only [List.append_eq_nil_iff, reduceCtorEq, and_false, false_and, if_false,
                  ← List.append_assoc] at h ⊢
                obtain ⟨d, hd, hmem⟩ := hlink _ _ h
                exact ⟨d, by simpa using hd, List.mem_cons_of_mem _ hmem⟩

theorem walkWithin_name_on_way (hname : isStep name = false)
    (h : fs.walkWithin followLast n dir (qs ++ name :: rs) = .ok loc) :
    ∃ d, fs.walkWithin true n dir qs = .ok d ∧
      d ++ [name] ∈ fs.wayWithin followLast n dir (qs ++ name :: rs) := by
  induction n generalizing dir qs with
  | zero =>
      refine walk_name_on_way (fun _ _ => .error .tooManyLinks) hname ?_ h
      intro base ps hps
      cases hps
  | succ n ih => exact walk_name_on_way (fs.walkWithin true n) hname (fun base ps hps => ih hps) h

end ArtifactCache.FileSystem
