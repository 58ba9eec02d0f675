import ArtifactCache.Proofs.CacheStore.Course

namespace ArtifactCache.CacheStore

variable {faults : Faults} {fs : FileSystem} {serial : Nat} {s : CacheStore} {P : Location}
  {name : String}

def Wipe.IsReported (w : Wipe) (s : CacheStore) : Prop :=
  w.result = .ok () ∨
    ∃ e, w.result = .error (.removal (.incomplete e)) ∧ e.root = s.root.toPathname

structure Unhindered (faults : Faults) (fs : FileSystem) (serial : Nat) (s : CacheStore)
    (name : String) : Prop where
  steps : ∀ step ∈ (s.wipe faults fs serial).steps, ∀ q, step.call.Deletes q →
    ((s.beside fs).child name).covers q = true → step.failure = none
  listings : ∀ q, ((s.beside fs).child name).covers q = true → faults.list q = none

def Overlooked (faults : Faults) (fs : FileSystem) (serial : Nat) (s : CacheStore) (P : Location)
    (name : String) : Prop :=
  ((s.wipe faults fs serial).files.item? (P ++ [name])).isSome ∧
    (((s.beside fs).child name).isTooLong = true ∨
      ¬ (s.wipe faults fs serial).files.LeadsTo (s.beside fs) P)

theorem isReported_iff {d : Disposal} {w : Wipe} (h : w.result = disposalResult s.root d) :
    w.IsReported s ↔ d.aborted = none := by
  rw [Wipe.IsReported, h, disposalResult]
  cases d.aborted with
  | some e => simp
  | none =>
      simp only [iff_true]
      split_ifs
      · exact .inl rfl
      · exact .inr ⟨_, rfl, rfl⟩

theorem not_refuses_of_mem_plan {step : Step} {p : Pathname}
    (hstep : step ∈ (plan faults fs serial s).steps) : ¬ step.Refuses p := by
  simp only [plan] at hstep
  split_ifs at hstep
  · rw [List.mem_singleton.1 hstep]
    rintro ⟨hcall, -⟩
    rw [Faults.perform_call] at hcall
    cases hcall
  · cases hstep

theorem wipe_isReported_iff (h : s.Placed fs) : (s.wipe faults fs serial).IsReported s ↔
    (∃ b, fs.isDirectory? (s.beside fs) = .ok b) ∧
      ∀ step ∈ (s.wipe faults fs serial).steps, ∀ n, IsTarget (s.place fs) n →
        ¬ step.Refuses ((s.beside fs).child n) := by
  rcases wipe_cases h faults serial with ⟨e, he, heq⟩ | ⟨hb, -, hsteps, hresult⟩
  · simp [Wipe.IsReported, heq, he]
  · have hnames := isStep_of_mem_names h faults serial
    have habort : (disposal faults fs serial s).aborted ≠ none ↔ _ :=
      dispose_aborted_iff (Placed.anchor s fs) h.isStep_parent hnames
    rw [isReported_iff hresult, hsteps]
    constructor
    · intro hab
      refine ⟨hb, fun step hstep n hn hrefuses => ?_⟩
      rcases List.mem_append.1 hstep with hstep | hstep
      · exact not_refuses_of_mem_plan hstep hrefuses
      · have hmem := mem_of_refuses (Placed.anchor s fs) h.isStep_parent hnames hstep hrefuses
        exact habort.2 ⟨step, hstep, n, hmem, hrefuses⟩ hab
    · rintro ⟨-, hnone⟩
      by_contra hab
      obtain ⟨step, hstep, n, hn, hrefuses⟩ := habort.1 hab
      exact hnone step (List.mem_append_right _ hstep) n (isTarget_of_mem_names h hn) hrefuses

theorem gone_or_overlooked (h : s.Placed fs) (hreported : (s.wipe faults fs serial).IsReported s)
    (hP : fs.LeadsTo (s.beside fs) P) (htrash : isTrashName (s.place fs) name = true)
    (hclean : Unhindered faults fs serial s name) :
    (s.wipe faults fs serial).files.item? (P ++ [name]) = none ∨
      Overlooked faults fs serial s P name := by
  rcases wipe_cases h faults serial with ⟨e, he, heq⟩ | ⟨hb, hfiles, hsteps, hresult⟩
  · simp [Wipe.IsReported, heq] at hreported
  · have hnames := isStep_of_mem_names h faults serial
    have hname := isStep_of_isTrashName htrash
    rw [or_iff_not_imp_left, ← ne_eq, ← Option.isSome_iff_ne_none]
    intro hi
    obtain ⟨item, hitem⟩ := Option.isSome_iff_exists.1 hi
    obtain ⟨loc, honly⟩ := (plan faults fs serial s).start.exists_leadsOnlyTo (s.beside fs)
    have hthin := wipe_thinned h honly
    have hmem := mem_names_of_isTrashName h hP htrash (by rw [hthin.eq_some hitem]; rfl)
    have hgone : (s.wipe faults fs serial).files.isOccupied ((s.beside fs).child name) = false := by
      rw [hfiles]
      refine dispose_unhindered (Placed.anchor s fs) h.isStep_parent hnames
        ((isReported_iff hresult).1 hreported) hmem fun step hstep hdel => ?_
      refine hclean.steps step ?_ _ hdel (Pathname.Within.covers (.inl rfl) hname)
      rw [hsteps]
      exact List.mem_append_right _ hstep
    refine ⟨hi, ?_⟩
    by_contra hfound
    rw [not_or, not_not, Bool.not_eq_true] at hfound
    rw [hfound.2.isOccupied_child hname hi hfound.1] at hgone
    cases hgone

theorem Overlooked.isTooLong (h : s.Placed fs) (hlinks : fs.NoLinkOn (s.place fs).parent.parts)
    (hP : fs.LeadsTo (s.beside fs) P) (hleft : Overlooked faults fs serial s P name) :
    ((s.beside fs).child name).isTooLong = true :=
  hleft.2.resolve_right fun hlost => hlost (wipe_leadsTo h hP hlinks faults serial)

theorem wipe_goes_on_iff (h : s.Placed fs) :
    ((s.wipe faults fs serial).IsReported s ∧
      ∀ P n, fs.LeadsTo (s.beside fs) P → isTrashName (s.place fs) n = true →
        Unhindered faults fs serial s n →
        (s.wipe faults fs serial).files.item? (P ++ [n]) = none) ↔
    (∃ b, fs.isDirectory? (s.beside fs) = .ok b) ∧
      (∀ step ∈ (s.wipe faults fs serial).steps, ∀ n, IsTarget (s.place fs) n →
        ¬ step.Refuses ((s.beside fs).child n)) ∧
      ∀ P n, fs.LeadsTo (s.beside fs) P → isTrashName (s.place fs) n = true →
        Unhindered faults fs serial s n → ¬ Overlooked faults fs serial s P n := by
  rw [← and_assoc, ← wipe_isReported_iff h]
  refine and_congr_right fun hreported => ?_
  constructor
  · intro hgone P n hP htrash hclean hleft
    rw [Overlooked, hgone P n hP htrash hclean] at hleft
    cases hleft.1
  · intro hnone P n hP htrash hclean
    exact (gone_or_overlooked h hreported hP htrash hclean).resolve_right
      (hnone P n hP htrash hclean)

def mixedFiles : FileSystem :=
  (((FileSystem.empty.including ⟨["", ".cache.trash-a"]⟩ (.file [])).including
    ⟨["", ".cache.trash-b"]⟩ .directory).including ⟨["", ".cache.trash-b", "x"]⟩
    (.file [])).including ⟨["", "cache"]⟩ .directory

def firstRefused : Faults :=
  { Faults.never with
    unlink := fun p => if p.lastPiece = ".cache.trash-a" then some (.deny ⟨13⟩) else none }

theorem mixedFiles_break_off : topStore.Placed mixedFiles ∧
    ¬ ((topStore.wipe firstRefused mixedFiles 0).IsReported topStore ∧
      ∀ P n, mixedFiles.LeadsTo (topStore.beside mixedFiles) P →
        isTrashName (topStore.place mixedFiles) n = true →
        Unhindered firstRefused mixedFiles 0 topStore n →
        (topStore.wipe firstRefused mixedFiles 0).files.item? (P ++ [n]) = none) := by
  have hplaced : topStore.Placed mixedFiles :=
    ⟨by decide +kernel, by decide +kernel, by decide +kernel⟩
  refine ⟨hplaced, fun hall => ?_⟩
  obtain ⟨-, hnone, -⟩ := (wipe_goes_on_iff hplaced).1 hall
  obtain ⟨step, hstep, hcall, hfailure⟩ : ∃ step ∈ (topStore.wipe firstRefused mixedFiles 0).steps,
      step.call = .unlink ((topStore.beside mixedFiles).child ".cache.trash-a") ∧
        step.failure = some ⟨⟨13⟩, [(topStore.beside mixedFiles).child ".cache.trash-a"]⟩ := by
    decide +kernel
  exact hnone step hstep ".cache.trash-a" (.inr (by decide +kernel)) ⟨hcall, _, hfailure, rfl⟩

end ArtifactCache.CacheStore
