import ArtifactCache.Proofs.FileSystem.Moving
import ArtifactCache.Proofs.Path

namespace ArtifactCache.FileSystem

variable {fs gs hs : FileSystem} {P d e l k dir dir' : Location} {m n piece : String} {item : Item}
  {qs : List String} {again after full : Location → List String → Except Errno Location}

/-- The place `k` is what the place `l` is when the entry of `P` has the name `n` and not `m`. -/
def Across (P : Location) (m n : String) (l k : Location) : Prop :=
  (∃ r, l = P ++ [m] ++ r ∧ k = P ++ [n] ++ r) ∨
    (l = k ∧ ¬ P ++ [m] <+: l ∧ ¬ P ++ [n] <+: l)

structure Shifted (P : Location) (m n : String) (fs gs : FileSystem) : Prop where
  free : fs.item? (P ++ [n]) = none
  free' : gs.item? (P ++ [m]) = none
  across : ∀ l k, Across P m n l k → fs.item? l = gs.item? k

namespace Across

theorem within (P r : Location) (m n : String) : Across P m n (P ++ [m] ++ r) (P ++ [n] ++ r) :=
  .inl ⟨r, rfl, rfl⟩

theorem same (hm : ¬ P ++ [m] <+: l) (hn : ¬ P ++ [n] <+: l) : Across P m n l l :=
  .inr ⟨rfl, hm, hn⟩

theorem sibling {x : String} (hm : x ≠ m) (hn : x ≠ n) (r : Location) :
    Across P m n (P ++ [x] ++ r) (P ++ [x] ++ r) := by
  refine same ?_ ?_ <;> intro hp <;>
    have := List.prefix_of_prefix_length_le hp (List.prefix_append _ r) (by simp)
  · exact not_prefix_sibling hm.symm this
  · exact not_prefix_sibling hn.symm this

theorem symm (h : Across P m n l k) : Across P n m k l := by
  rcases h with ⟨r, rfl, rfl⟩ | ⟨rfl, hm, hn⟩
  · exact within ..
  · exact same hn hm

theorem top : Across P m n [] [] := same (by simp) (by simp)

theorem length_eq (h : Across P m n l k) : l.length = k.length := by
  rcases h with ⟨r, rfl, rfl⟩ | ⟨rfl, -, -⟩
  · simp
  · rfl

theorem dropLast (h : Across P m n l k) : Across P m n l.dropLast k.dropLast := by
  rcases h with ⟨r, rfl, rfl⟩ | ⟨rfl, hm, hn⟩
  · rcases List.eq_nil_or_concat r with rfl | ⟨r, x, rfl⟩
    · simp only [List.append_nil, List.dropLast_concat]
      exact same not_prefix_dir not_prefix_dir
    · simp only [List.concat_eq_append, ← List.append_assoc, List.dropLast_concat]
      exact within ..
  · exact same (fun hp => hm (hp.trans (List.dropLast_prefix l)))
      fun hp => hn (hp.trans (List.dropLast_prefix l))

theorem concat (h : Across P m n l k) (hn : l ++ [piece] ≠ P ++ [n])
    (hm : k ++ [piece] ≠ P ++ [m]) : Across P m n (l ++ [piece]) (k ++ [piece]) := by
  rcases h with ⟨r, rfl, rfl⟩ | ⟨rfl, hm', hn'⟩
  · rw [List.append_assoc (P ++ [m]), List.append_assoc (P ++ [n])]
    exact within ..
  · refine same (fun hp => ?_) fun hp => ?_
    · exact (List.prefix_concat_iff.1 hp).elim (fun heq => hm heq.symm) hm'
    · exact (List.prefix_concat_iff.1 hp).elim (fun heq => hn heq.symm) hn'

end Across

def Renamed (m n x y : String) : Prop := (x = m ∧ y = n) ∨ (x = y ∧ x ≠ m ∧ x ≠ n)

theorem Across.of_renamed {x y : String} (h : Renamed m n x y) (P r : Location) :
    Across P m n (P ++ [x] ++ r) (P ++ [y] ++ r) := by
  rcases h with ⟨rfl, rfl⟩ | ⟨rfl, hm, hn⟩
  · exact within ..
  · exact sibling hm hn r

theorem Across.unique {k' : Location} (h : Across P m n l k) (h' : Across P m n l k') : k = k' := by
  rcases h with ⟨r, rfl, rfl⟩ | ⟨rfl, hm, hn⟩
  · rcases h' with ⟨r', hr, rfl⟩ | ⟨-, hm, -⟩
    · rw [List.append_cancel_left hr]
    · exact absurd (List.prefix_append _ r) hm
  · rcases h' with ⟨r', rfl, -⟩ | ⟨rfl, -, -⟩
    · exact absurd (List.prefix_append _ r') hm
    · rfl

namespace Shifted

variable (h : Shifted P m n fs gs)

include h

theorem symm : Shifted P n m gs fs :=
  ⟨h.free', h.free, fun l k hlk => (h.across k l hlk.symm).symm⟩

theorem exists_across (hl : (fs.item? l).isSome) : ∃ k, Across P m n l k := by
  by_cases hm : P ++ [m] <+: l
  · obtain ⟨r, rfl⟩ := hm
    exact ⟨_, .within ..⟩
  · refine ⟨l, .same hm fun hn => ?_⟩
    rw [eq_none_of_above h.free hn] at hl
    cases hl

theorem height_le : fs.height ≤ gs.height := by
  have hbound : ∀ lengths : List Nat, (∀ i ∈ lengths, i ≤ gs.height) →
      lengths.foldr max 0 ≤ gs.height := by
    intro lengths hle
    induction lengths with
    | nil => exact Nat.zero_le _
    | cons i lengths ih =>
        exact Nat.max_le.2 ⟨hle i (by simp), ih fun j hj => hle j (List.mem_cons_of_mem i hj)⟩
  refine hbound _ fun i hi => ?_
  obtain ⟨l, hl, rfl⟩ := List.mem_map.1 hi
  obtain ⟨hne, hsome⟩ := mem_entries_iff.1 (Std.ExtTreeMap.mem_keys.1 hl)
  obtain ⟨k, hlk⟩ := h.exists_across hsome
  rw [hlk.length_eq]
  refine length_le_height (mem_entries_iff.2 ⟨?_, by rwa [← h.across l k hlk]⟩)
  rintro rfl
  exact hne (List.eq_nil_of_length_eq_zero hlk.length_eq)

theorem height_eq : fs.height = gs.height := Nat.le_antisymm h.height_le h.symm.height_le

theorem thinned {fs' gs' : FileSystem} {x y : String} (hxy : Renamed m n x y)
    (hthin : Thinned (P ++ [x] <+: ·) fs fs') (hthin' : Thinned (P ++ [y] <+: ·) gs gs')
    (hitems : ∀ r, fs'.item? (P ++ [x] ++ r) = gs'.item? (P ++ [y] ++ r)) :
    Shifted P m n fs' gs' where
  free := hthin.eq_none h.free
  free' := hthin'.eq_none h.free'
  across l k hlk := by
    by_cases hx : P ++ [x] <+: l
    · obtain ⟨r, rfl⟩ := hx
      rw [hlk.unique (.of_renamed hxy P r)]
      exact hitems r
    · rw [hthin.outside hx, hthin'.outside, h.across l k hlk]
      rintro ⟨r, rfl⟩
      rw [hlk.symm.unique (Across.of_renamed hxy P r).symm] at hx
      exact hx (List.prefix_append ..)

end Shifted

theorem Moved.across (h : Moved (P ++ [m]) (P ++ [n]) item fs gs) (hlk : Across P m n l k) :
    gs.item? k = fs.item? l := by
  rcases hlk with ⟨r, rfl, rfl⟩ | ⟨rfl, hm, hn⟩
  · rw [h.items, origin, if_pos (List.prefix_append ..), List.drop_left, Option.bind_some]
  · exact h.outside hm hn

theorem Moved.shifted (h : Moved (P ++ [n]) (P ++ [m]) item gs fs) (hne : n ≠ m)
    (hfree : gs.item? (P ++ [m]) = none) : Shifted P m n fs gs where
  free := h.gone hne List.prefix_rfl
  free' := hfree
  across _ _ hlk := h.across hlk.symm

-- The walk through `hs`, of which `gs` is what is left, shows that the name `m` is not on the way.
theorem walk_across (hshift : Shifted P m n fs gs)
    (hless : ∀ l, gs.item? l = hs.item? l ∨ gs.item? l = none) (hfree : hs.item? (P ++ [m]) = none)
    (hd : fs.item? d = some .directory) (he : hs.item? e = some .directory)
    (hlink : ∀ base base' ps, Across P m n base base' → again base ps = .ok d →
      full base' ps = .ok e → ∃ k, Across P m n d k ∧ after base' ps = .ok k)
    (hdir : Across P m n dir dir') (h : fs.walk again true dir qs = .ok d)
    (h' : hs.walk full true dir' qs = .ok e) :
    ∃ k, Across P m n d k ∧ gs.walk after true dir' qs = .ok k := by
  induction qs generalizing dir dir' with
  | nil =>
      obtain rfl := Except.ok.inj h
      exact ⟨dir', hdir, rfl⟩
  | cons piece qs ih =>
      rcases step_or_name piece with hp | rfl | hp
      · rw [walk_skip hp] at h h' ⊢
        exact ih hdir h h'
      · rw [walk_up] at h h' ⊢
        exact ih hdir.dropLast h h'
      · have hfound := walk_name_cases hp hd h
        have hfound' := walk_name_cases hp he h'
        have hchild : Across P m n (dir ++ [piece]) (dir' ++ [piece]) := by
          refine hdir.concat (fun heq => ?_) fun heq => ?_
          · rw [heq, hshift.free] at hfound
            simp at hfound
          · rw [heq, hfree] at hfound'
            simp at hfound'
        have hsame := hshift.across _ _ hchild
        have hsome : (gs.item? (dir' ++ [piece])).isSome := by
          rw [← hsame]
          rcases hfound with ⟨hi, -⟩ | ⟨t, hi, -⟩ <;> rw [hi] <;> rfl
        have hwhole : gs.item? (dir' ++ [piece]) = hs.item? (dir' ++ [piece]) :=
          (hless _).resolve_right fun hnone => by rw [hnone] at hsome; cases hsome
        rw [walk_name hp, ← hsame]
        rw [← hwhole, ← hsame] at hfound'
        rcases hfound with ⟨hi, hrest⟩ | ⟨t, hi, hrest⟩ <;> rw [hi] at hfound' ⊢ <;>
          rcases hfound' with ⟨hj, hrest'⟩ | ⟨u, hj, hrest'⟩ <;> cases hj
        · exact ih hchild hrest hrest'
        · simp only [Bool.true_eq_false, and_false, if_false]
          refine hlink _ _ _ ?_ hrest hrest'
          split_ifs
          · exact .top
          · exact hdir

theorem walkWithin_across {budget : Nat} (hshift : Shifted P m n fs gs)
    (hless : ∀ l, gs.item? l = hs.item? l ∨ gs.item? l = none) (hfree : hs.item? (P ++ [m]) = none)
    (hd : fs.item? d = some .directory) (he : hs.item? e = some .directory)
    (hdir : Across P m n dir dir') (h : fs.walkWithin true budget dir qs = .ok d)
    (h' : hs.walkWithin true budget dir' qs = .ok e) :
    ∃ k, Across P m n d k ∧ gs.walkWithin true budget dir' qs = .ok k := by
  induction budget generalizing dir dir' qs with
  | zero => exact walk_across hshift hless hfree hd he (fun _ _ _ _ hps => by cases hps) hdir h h'
  | succ budget ih =>
      refine walk_across hshift hless hfree hd he (fun base base' ps hbase hps hps' => ?_) hdir h h'
      exact ih hbase hps hps'

theorem afterLink_across {budget : Nat} (hshift : Shifted P m n fs gs)
    (hless : ∀ l, gs.item? l = hs.item? l ∨ gs.item? l = none) (hfree : hs.item? (P ++ [m]) = none)
    (hd : fs.item? d = some .directory) (he : hs.item? e = some .directory)
    (hdir : Across P m n dir dir') (h : fs.afterLink true budget dir qs = .ok d)
    (h' : hs.afterLink true budget dir' qs = .ok e) :
    ∃ k, Across P m n d k ∧ gs.afterLink true budget dir' qs = .ok k := by
  cases budget with
  | zero => cases h
  | succ budget => exact walkWithin_across hshift hless hfree hd he hdir h h'

theorem isDirectory_link {a : Path} {name : String} {t : Pathname} (ha : a.anchor ≠ .relative)
    (hi : fs.item? (a.parts ++ [name]) = some (.link t)) :
    fs.isDirectory (a.child name).toPathname = true ↔
      (a.child name).toPathname.isTooLong = false ∧
        ∃ d, fs.item? d = some .directory ∧
          fs.afterLink true mostLinks (if t.isAbsolute then [] else a.parts) t.pieces = .ok d := by
  have hsome : (fs.item? (a.parts ++ [name])).isSome := by rw [hi]; rfl
  have hn := isStep_eq_false_of_isName (isName_of_isSome hsome)
  have hwalk : fs.walk (fs.afterLink true mostLinks) true [] (a.parts ++ [name]) =
      fs.afterLink true mostLinks (if t.isAbsolute then [] else a.parts) t.pieces := by
    rw [walk_names (item?_dir_of_isSome hsome), List.nil_append, walk_name hn, hi]
    simp
  rw [isDirectory, resolve_toPathname (a := a.child name) ha]
  cases hlong : (a.child name).toPathname.isTooLong with
  | true => simp [itemAt]
  | false =>
      simp only [Bool.false_eq_true, if_false, true_and]
      rw [show (a.child name).parts = a.parts ++ [name] from rfl, hwalk]
      cases fs.afterLink true mostLinks (if t.isAbsolute then [] else a.parts) t.pieces with
      | error e => simp [itemAt]
      | ok d => simp [itemAt]

theorem Shifted.isDirectory_link {a b : Path} {name : String} {t : Pathname}
    (hshift : Shifted P m n fs gs) (hless : ∀ l, gs.item? l = hs.item? l ∨ gs.item? l = none)
    (hfree : hs.item? (P ++ [m]) = none) (ha : a.anchor ≠ .relative) (hb : b.anchor ≠ .relative)
    (hdir : Across P m n a.parts b.parts)
    (hchild : Across P m n (a.parts ++ [name]) (b.parts ++ [name]))
    (hi : fs.item? (a.parts ++ [name]) = some (.link t))
    (hleads : fs.isDirectory (a.child name).toPathname = true)
    (hleads' : hs.isDirectory (b.child name).toPathname = true) :
    gs.isDirectory (b.child name).toPathname = true := by
  have hi' : gs.item? (b.parts ++ [name]) = some (.link t) := by
    rw [← hshift.across _ _ hchild, hi]
  have hi'' : hs.item? (b.parts ++ [name]) = some (.link t) := by
    rw [← (hless _).resolve_right (by rw [hi']; simp), hi']
  rw [FileSystem.isDirectory_link ha hi] at hleads
  rw [FileSystem.isDirectory_link hb hi''] at hleads'
  rw [FileSystem.isDirectory_link hb hi']
  obtain ⟨-, d, hd, hwalk⟩ := hleads
  obtain ⟨hlong, e, he, hwalk'⟩ := hleads'
  have hstart : Across P m n (if t.isAbsolute then [] else a.parts)
      (if t.isAbsolute then [] else b.parts) := by
    split_ifs
    · exact .top
    · exact hdir
  obtain ⟨k, hk, hwalk''⟩ := afterLink_across hshift hless hfree hd he hstart hwalk hwalk'
  exact ⟨hlong, k, by rw [← hshift.across _ _ hk, hd], hwalk''⟩

end ArtifactCache.FileSystem
