import ArtifactCache.Proofs.CacheStore.Course

namespace ArtifactCache.CacheStore

variable {faults : Faults} {fs : FileSystem} {serial : Nat} {s : CacheStore} {P l : Location}

section

variable (h : s.Placed fs) (hP : fs.LeadsTo (s.beside fs) P)

include h

include hP

theorem wipe_outside (honly : (plan faults fs serial s).start.LeadsOnlyTo (s.beside fs) P)
    (hl : ∀ n, IsTarget (s.place fs) n → ¬ P ++ [n] <+: l) :
    (s.wipe faults fs serial).files.item? l = fs.item? l := by
  rw [(wipe_thinned h honly).outside]
  · exact start_outside h hP (hl _ (.inl rfl)) (hl _ (.inr (isTrashName_trashName ..)))
  · rintro ⟨n, hn, -, hp⟩
    exact hl n (isTarget_of_mem_names h hn) hp

theorem isSome_of_wipe (honly : (plan faults fs serial s).start.LeadsOnlyTo (s.beside fs) P)
    {n : String} (hi : ((s.wipe faults fs serial).files.item? (P ++ [n])).isSome) :
    (fs.item? (P ++ [n])).isSome ∨ n = trashName (s.place fs) (serial + 1) := by
  obtain ⟨item, hitem⟩ := Option.isSome_iff_exists.1 hi
  rcases eq_or_ne n (trashName (s.place fs) (serial + 1)) with heq | hne
  · exact .inr heq
  · left
    rw [start_entry h hP hne ((wipe_thinned h honly).eq_some hitem)]
    rfl

end

structure Contained (faults : Faults) (fs : FileSystem) (serial : Nat) (s : CacheStore)
    (P : Location) : Prop where
  outside : ∀ l, (∀ n, IsTarget (s.place fs) n → ¬ P ++ [n] <+: l) →
    (s.wipe faults fs serial).files.item? l = fs.item? l
  entries : ∀ n, ((s.wipe faults fs serial).files.item? (P ++ [n])).isSome →
    (fs.item? (P ++ [n])).isSome ∨ n = trashName (s.place fs) (serial + 1)

theorem wipe_contained (h : s.Placed fs)
    (hway : ∀ P, fs.LeadsTo (s.beside fs) P → s.WayStays fs serial P) :
    (∀ P, fs.LeadsTo (s.beside fs) P → Contained faults fs serial s P) ∧
      ((∀ P, ¬ fs.LeadsTo (s.beside fs) P) → (s.wipe faults fs serial).files = fs) := by
  refine ⟨fun P hP => ?_, wipe_nowhere h⟩
  have honly := start_leadsOnlyTo h hP faults (hway P hP)
  exact ⟨fun l => wipe_outside h hP honly, fun n => isSome_of_wipe h hP honly⟩

def linkedFiles : FileSystem :=
  (((FileSystem.empty.including ⟨["", "lib"]⟩ .directory).including ⟨["", "lib", "keep"]⟩
    (.file [])).including ⟨["", "cache"]⟩ (.link ⟨["lib"]⟩)).including ⟨["", ".cache.trash-old"]⟩
    (.link ⟨["lib"]⟩)

theorem linkedFiles_contained : topStore.Placed linkedFiles ∧
    (∀ P, linkedFiles.LeadsTo (topStore.beside linkedFiles) P →
      topStore.WayStays linkedFiles 0 P) ∧
    (topStore.wipe .never linkedFiles 0).files.item? ["lib", "keep"] = some (.file []) := by
  have hplaced : topStore.Placed linkedFiles :=
    ⟨by decide +kernel, by decide +kernel, by decide +kernel⟩
  have htop : linkedFiles.LeadsTo (topStore.beside linkedFiles) [] :=
    ⟨by decide +kernel, by decide +kernel⟩
  have hway : ∀ P, linkedFiles.LeadsTo (topStore.beside linkedFiles) P →
      topStore.WayStays linkedFiles 0 P := by
    intro P hP t u ht hu
    obtain rfl := htop.leadsOnlyTo P hP
    have hfree : linkedFiles.item? [trashName (topStore.place linkedFiles) 1] = none := by
      decide +kernel
    rw [List.nil_append, hfree] at hu
    cases hu
  refine ⟨hplaced, hway, ?_⟩
  rw [((wipe_contained hplaced hway).1 [] htop).outside]
  · decide +kernel
  · intro n hn hp
    obtain rfl : n = "lib" := by simpa using hp
    rcases hn with hn | hn
    · revert hn; decide +kernel
    · revert hn; decide +kernel

def crossedFiles : FileSystem :=
  (((FileSystem.empty.including ⟨["", trashName ⟨.root, ["cache"]⟩ 1]⟩ (.link ⟨["", ""]⟩)).including
    ⟨["", "lib"]⟩ .directory).including ⟨["", "lib", trashName ⟨.root, ["cache"]⟩ 1]⟩
    .directory).including ⟨["", "cache"]⟩ (.link ⟨["lib"]⟩)

def crossedStore : CacheStore := ⟨⟨.root, [trashName ⟨.root, ["cache"]⟩ 1, "cache"]⟩⟩

theorem crossedFiles_not_contained : crossedStore.Placed crossedFiles ∧
    crossedFiles.LeadsTo (crossedStore.beside crossedFiles) [] ∧
    ¬ Contained .never crossedFiles 0 crossedStore [] := by
  refine ⟨⟨by decide +kernel, by decide +kernel, by decide +kernel⟩,
    ⟨by decide +kernel, by decide +kernel⟩, fun hc => ?_⟩
  have hsame := hc.outside ["lib", trashName ⟨.root, ["cache"]⟩ 1] fun n hn hp => by
    obtain rfl : n = "lib" := by simpa using hp
    rcases hn with hn | hn
    · revert hn; decide +kernel
    · revert hn; decide +kernel
  revert hsame
  decide +kernel

end ArtifactCache.CacheStore
