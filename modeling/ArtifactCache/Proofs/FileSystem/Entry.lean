import ArtifactCache.Proofs.FileSystem.Walk

namespace ArtifactCache

namespace Pathname

variable {p q : Pathname} {name : String}

def front (p : Pathname) : List String :=
  if p.lastPiece = "" then p.pieces.dropLast else p.pieces

theorem pieces_child (p : Pathname) (name : String) :
    (p.child name).pieces = p.front ++ [name] := by
  unfold child front
  split_ifs <;> rfl

theorem pieces_eq_front (p : Pathname) : p.pieces = p.front ∨ p.pieces = p.front ++ [""] := by
  unfold front
  split_ifs with h
  · rcases eq_or_ne p.pieces [] with hnil | hne
    · left; rw [hnil]; rfl
    · right
      have hlast : p.pieces.getLast hne = "" := by
        simpa [lastPiece, List.getLast?_eq_some_getLast hne] using h
      rw [← hlast, List.dropLast_concat_getLast]
  · exact .inl rfl

@[simp] theorem lastPiece_child (p : Pathname) (name : String) :
    (p.child name).lastPiece = name := by simp [lastPiece, pieces_child]

theorem entryParts_child (p : Pathname) (h : name ≠ "") :
    (p.child name).entryParts = (p.front, name) := by
  simp [entryParts, pieces_child, withoutFinalSlashes, h]

@[simp] theorem isEmpty_child (p : Pathname) (h : name ≠ "") : (p.child name).isEmpty = false := by
  unfold isEmpty
  rw [pieces_child]
  rcases p.front with _ | ⟨a, _ | ⟨b, l⟩⟩ <;> simp [h]

theorem isAbsolute_cons {a : String} {l : List String} (h : l ≠ []) :
    isAbsolute ⟨a :: l⟩ = (a == "") := by
  rcases l with _ | ⟨b, l⟩
  · exact absurd rfl h
  · by_cases ha : a = "" <;> simp [isAbsolute, ha]

theorem isAbsolute_child (name : String) (hp : p.isEmpty = false) :
    (p.child name).isAbsolute = p.isAbsolute := by
  obtain ⟨pieces⟩ := p
  rcases pieces with _ | ⟨a, _ | ⟨b, l⟩⟩
  · cases hp
  · have ha : a ≠ "" := by simpa [isEmpty] using hp
    simp [isAbsolute, child, lastPiece, ha]
  · unfold child
    split_ifs
    · rw [isAbsolute_cons (List.cons_ne_nil b l), List.dropLast_cons_cons, List.cons_append,
        isAbsolute_cons (by simp)]
    · rw [isAbsolute_cons (List.cons_ne_nil b l), List.cons_append, isAbsolute_cons (by simp)]

theorem byteSize_le_child (p : Pathname) (name : String) :
    p.byteSize ≤ (p.child name).byteSize := by
  have hsum : ∀ (l : List String) (s : String) (n : Nat),
      (l ++ [s]).foldr (fun s n => s.utf8ByteSize + 1 + n) n =
        l.foldr (fun s n => s.utf8ByteSize + 1 + n) n + (s.utf8ByteSize + 1) := by
    intro l s n
    induction l with
    | nil => simp only [List.nil_append, List.foldr_cons, List.foldr_nil]; omega
    | cons a l ih => simp only [List.cons_append, List.foldr_cons, ih]; omega
  unfold byteSize
  rw [pieces_child, hsum]
  rcases p.pieces_eq_front with h | h
  · rw [h]; omega
  · rw [h, hsum, String.utf8ByteSize_empty]; omega

theorem isTooLong_child (h : p.isTooLong = true) (name : String) :
    (p.child name).isTooLong = true := by
  have := p.byteSize_le_child name
  simp only [isTooLong, decide_eq_true_eq] at h ⊢
  omega

theorem notTooLong_of_child (h : (p.child name).isTooLong = false) : p.isTooLong = false := by
  by_contra hlong
  rw [isTooLong_child (Bool.not_eq_false _ ▸ hlong)] at h
  cases h

def Beneath (p q : Pathname) : Prop :=
  ∃ names : List String, names ≠ [] ∧ (∀ n ∈ names, isStep n = false) ∧ q.pieces = p.front ++ names

def Within (p q : Pathname) : Prop := q = p ∨ p.Beneath q

def Finds (p : Pathname) (d l : Location) : Prop :=
  ∃ names : List String, names ≠ [] ∧ l = d ++ names ∧ (names.foldl child p).isTooLong = false

theorem Finds.beneath {d l : Location} (h : p.Finds d l) : d <+: l := by
  obtain ⟨names, -, rfl, -⟩ := h
  exact List.prefix_append ..

theorem isTooLong_foldl_child (h : p.isTooLong = true) (names : List String) :
    (names.foldl child p).isTooLong = true := by
  induction names generalizing p with
  | nil => exact h
  | cons name names ih => exact ih (isTooLong_child h name)

theorem Finds.notTooLong_child {d l : Location} (h : p.Finds d l) (hl : d ++ [name] <+: l) :
    (p.child name).isTooLong = false := by
  obtain ⟨names, hne, rfl, hshort⟩ := h
  obtain ⟨first, names, rfl⟩ := List.exists_cons_of_ne_nil hne
  obtain ⟨below, hbelow⟩ := hl
  obtain rfl : name = first := by
    rw [List.append_assoc] at hbelow
    exact (List.cons.inj (List.append_cancel_left hbelow)).1
  by_contra hlong
  rw [List.foldl_cons, isTooLong_foldl_child (Bool.not_eq_false _ ▸ hlong)] at hshort
  cases hshort

theorem Finds.of_child {d l : Location} (h : (p.child name).Finds (d ++ [name]) l) :
    p.Finds d l := by
  obtain ⟨names, -, rfl, hshort⟩ := h
  exact ⟨name :: names, by simp, by simp, hshort⟩

theorem beneath_child (p : Pathname) (hn : isStep name = false) : p.Beneath (p.child name) :=
  ⟨[name], by simp, by simpa using hn, p.pieces_child name⟩

theorem front_child (hn : isStep name = false) : (p.child name).front = p.front ++ [name] := by
  have hne : name ≠ "" := by rintro rfl; cases hn
  rw [front, lastPiece_child, if_neg hne, pieces_child]

theorem Within.beneath (h : (p.child name).Within q) (hn : isStep name = false) : p.Beneath q := by
  rcases h with rfl | ⟨names, hne, hnames, hq⟩
  · exact p.beneath_child hn
  · refine ⟨name :: names, by simp, List.forall_mem_cons.2 ⟨hn, hnames⟩, ?_⟩
    rw [hq, front_child hn, List.append_assoc, List.singleton_append]

theorem Beneath.ne_child {r : Pathname} (h : (p.child name).Beneath q) (hn : isStep name = false)
    (hr : r = p.child name) : q ≠ r := by
  rintro rfl
  obtain ⟨names, hne, -, hq⟩ := h
  rw [front_child hn, ← pieces_child, hr, List.self_eq_append_right] at hq
  exact hne hq

theorem Within.covers (h : (p.child name).Within q) (hn : isStep name = false) :
    (p.child name).covers q = true := by
  rw [Pathname.covers, List.isPrefixOf_iff_prefix]
  rcases h with rfl | ⟨names, -, -, hq⟩
  · exact List.prefix_rfl
  · rw [hq, front_child hn, ← pieces_child]
    exact List.prefix_append _ _

theorem Within.eq_of_child {a b : String} (h : (p.child a).Within (p.child b))
    (ha : isStep a = false) : b = a := by
  have hcovers := h.covers ha
  rw [Pathname.covers, List.isPrefixOf_iff_prefix, pieces_child, pieces_child] at hcovers
  simpa using (hcovers.eq_of_length (by simp)).symm

end Pathname

namespace FileSystem

variable {fs : FileSystem} {p q : Pathname} {a b name : String} {d loc : Location} {n : Nat}

theorem not_prefix_sibling (hne : a ≠ b) : ¬ d ++ [a] <+: d ++ [b] := by
  intro h
  have := h.eq_of_length (by simp)
  simp [hne] at this

theorem not_prefix_dir : ¬ d ++ [a] <+: d := fun h => absurd h.length_le (by simp)

def LeadsTo (fs : FileSystem) (p : Pathname) (loc : Location) : Prop :=
  fs.resolve p = .ok loc ∧ fs.item? loc = some .directory

def LeadsOnlyTo (fs : FileSystem) (p : Pathname) (loc : Location) : Prop :=
  ∀ d, fs.LeadsTo p d → d = loc

theorem LeadsTo.leadsOnlyTo (h : fs.LeadsTo p loc) : fs.LeadsOnlyTo p loc := fun _ hd =>
  Except.ok.inj (hd.1.symm.trans h.1)

theorem exists_leadsOnlyTo (fs : FileSystem) (p : Pathname) : ∃ loc, fs.LeadsOnlyTo p loc := by
  by_cases h : ∃ loc, fs.LeadsTo p loc
  · exact h.imp fun _ hloc => hloc.leadsOnlyTo
  · exact ⟨[], fun d hd => absurd ⟨d, hd⟩ h⟩

def startOf (fs : FileSystem) (p : Pathname) : Location := if p.isAbsolute then [] else fs.here

theorem follow_eq_ok_iff {followLast : Bool} {pieces : List String} :
    fs.follow followLast p pieces = .ok loc ↔ p.isTooLong = false ∧ p.isEmpty = false ∧
      fs.walkWithin followLast mostLinks (fs.startOf p) pieces = .ok loc := by
  unfold follow startOf
  split_ifs <;> simp_all

theorem holder_eq_ok_iff {h : fs.Holder} : fs.holder loc = .ok h ↔ h.1 = loc := by
  obtain ⟨d, hd⟩ := h
  unfold holder
  constructor
  · intro hok
    split at hok
    · exact (congrArg Subtype.val (Except.ok.inj hok)).symm
    · cases hok
    · cases hok
  · rintro rfl
    split
    · rfl
    · next hne hi => rw [hd] at hi; exact absurd (Option.some.inj hi).symm hne
    · next hi => rw [hd] at hi; cases hi

theorem walkWithin_front {start : Location} (hd : fs.item? d = some .directory) :
    fs.walkWithin true n start p.front = .ok d ↔ fs.walkWithin true n start p.pieces = .ok d := by
  rcases p.pieces_eq_front with h | h
  · rw [h]
  · rw [h]
    exact (walkWithin_append_idle (idle_slashes 1) hd).symm

theorem LeadsTo.notTooLong (h : fs.LeadsTo p loc) : p.isTooLong = false :=
  (follow_eq_ok_iff.1 h.1).1

theorem LeadsTo.notEmpty (h : fs.LeadsTo p loc) : p.isEmpty = false :=
  (follow_eq_ok_iff.1 h.1).2.1

theorem startOf_child (fs : FileSystem) (name : String) (hp : p.isEmpty = false) :
    fs.startOf (p.child name) = fs.startOf p := by
  rw [startOf, startOf, Pathname.isAbsolute_child name hp]

theorem notTooLong_of_resolveEntry {entry : fs.Holder × String}
    (h : fs.resolveEntry p = .ok entry) : p.isTooLong = false := by
  unfold resolveEntry at h
  cases hf : fs.follow true p p.entryParts.1 with
  | error e => rw [hf] at h; cases h
  | ok d => exact (follow_eq_ok_iff.1 hf).1

theorem leadsTo_of_front (hp : p.isEmpty = false) (hlong : (p.child name).isTooLong = false)
    (hd : fs.item? d = some .directory)
    (h : fs.walkWithin true mostLinks (fs.startOf (p.child name)) p.front = .ok d) :
    fs.LeadsTo p d := by
  rw [startOf_child fs name hp, walkWithin_front hd] at h
  refine ⟨follow_eq_ok_iff.2 ⟨?_, hp, h⟩, hd⟩
  by_contra hlong'
  rw [Bool.not_eq_false] at hlong'
  rw [Pathname.isTooLong_child hlong'] at hlong
  cases hlong

variable (hp : p.isEmpty = false) (hn : isStep name = false)

include hp hn

theorem resolveEntry_child {entry : fs.Holder × String}
    (h : fs.resolveEntry (p.child name) = .ok entry) :
    fs.LeadsTo p entry.1.1 ∧ entry.2 = name := by
  have hne : name ≠ "" := by rintro rfl; cases hn
  rw [resolveEntry, Pathname.entryParts_child p hne] at h
  cases hf : fs.follow true (p.child name) p.front with
  | error e => rw [hf] at h; cases h
  | ok d =>
      rw [hf] at h
      obtain ⟨hlong, -, hwalk⟩ := follow_eq_ok_iff.1 hf
      cases hh : fs.holder d with
      | error e => simp only [hh] at h; cases h
      | ok dir =>
          simp only [hh] at h
          obtain rfl : (dir, name) = entry := Except.ok.inj h
          obtain rfl := holder_eq_ok_iff.1 hh
          exact ⟨leadsTo_of_front hp hlong dir.2 hwalk, rfl⟩

theorem follow_child {followLast : Bool} {l : Location}
    (h : fs.follow followLast (p.child name) (p.child name).pieces = .ok l)
    (hl : (fs.item? l).isSome) :
    ∃ d, fs.LeadsTo p d ∧ (l = d ++ [name] ∨
      followLast = true ∧ ∃ t, fs.item? (d ++ [name]) = some (.link t)) := by
  obtain ⟨hlong, -, hwalk⟩ := follow_eq_ok_iff.1 h
  rw [Pathname.pieces_child] at hwalk
  obtain ⟨d, hfront, m, hlast⟩ := walkWithin_append (by simp) hwalk
  rw [walkWithin_eq, walk_name hn] at hlast
  cases hi : fs.item? (d ++ [name]) with
  | none =>
      rw [hi] at hlast
      simp only [if_true] at hlast
      split_ifs at hlast
      rw [← Except.ok.inj hlast, hi] at hl
      cases hl
  | some item =>
      have hd : fs.item? d = some .directory := item?_dir_of_isSome (by rw [hi]; rfl)
      refine ⟨d, leadsTo_of_front hp hlong hd hfront, ?_⟩
      rw [hi] at hlast
      cases item with
      | directory => exact .inl (Except.ok.inj hlast).symm
      | file content => exact .inl (Except.ok.inj hlast).symm
      | link target =>
          cases followLast with
          | false => exact .inl (Except.ok.inj hlast).symm
          | true => exact .inr ⟨rfl, target, hi⟩

theorem resolveLink_child {l : Location} (h : fs.resolveLink (p.child name) = .ok l)
    (hl : (fs.item? l).isSome) : ∃ d, fs.LeadsTo p d ∧ l = d ++ [name] := by
  obtain ⟨d, hd, hcase⟩ := follow_child hp hn h hl
  exact ⟨d, hd, hcase.resolve_right (by simp)⟩

omit hp in
theorem LeadsTo.resolveLink_child (h : fs.LeadsTo p d) (hi : (fs.item? (d ++ [name])).isSome)
    (hlong : (p.child name).isTooLong = false) :
    fs.resolveLink (p.child name) = .ok (d ++ [name]) := by
  have hne : name ≠ "" := by rintro rfl; cases hn
  have hwalk := (follow_eq_ok_iff.1 h.1).2.2
  rw [← walkWithin_front h.2, ← startOf_child fs name h.notEmpty] at hwalk
  refine follow_eq_ok_iff.2 ⟨hlong, Pathname.isEmpty_child p hne, ?_⟩
  obtain ⟨m, -, hm⟩ := walkWithin_append_directory false (List.cons_ne_nil name []) h.2 hwalk
  rw [Pathname.pieces_child, hm, walkWithin_eq, walk_name hn]
  obtain ⟨item, hitem⟩ := Option.isSome_iff_exists.1 hi
  rw [hitem]
  cases item <;> rfl

end FileSystem

end ArtifactCache
