import Mathlib.Data.List.Forall2
import ArtifactCache.Proofs.Classpath.Entries

namespace ArtifactCache.Classpath

variable {c : Coordinate} {cs kept placed : List Coordinate} {es : List Exclusion} {e : Exclusion}
  {sort : Bool}

def IsFirstMatch (es : List Exclusion) (c : Coordinate) (e : Exclusion) : Prop :=
  (e.group = c.group ∧ e.artifact = c.artifact) ∧
    ∃ before behind, es = before ++ e :: behind ∧ Spared before c

def Explains (es : List Exclusion) (c : Coordinate) (record : Log.Record) : Prop :=
  ∃ e, IsFirstMatch es c e ∧ record = exclusionRecord c e

def Ordered (sort : Bool) (kept placed : List Coordinate) : Prop :=
  if sort then
    placed.Perm kept ∧ placed.Pairwise (fun a b => (Coordinate.order a b).isLE = true) ∧
      ∀ c, placed.filter (· == c) = kept.filter (· == c)
  else placed = kept

theorem firstMatch_eq_some_iff : firstMatch es c = some e ↔ IsFirstMatch es c e := by
  simp only [firstMatch, List.find?_eq_some_iff_append, Exclusion.covers, IsFirstMatch, Spared,
    Bool.and_eq_true, beq_iff_eq, Bool.not_eq_true', Bool.and_eq_false_imp, beq_eq_false_iff_ne,
    ne_eq, not_and]

theorem exclusionLog_explains (es : List Exclusion) (cs : List Coordinate) :
    List.Forall₂ (Explains es) (cs.filter (¬ Spared es ·)) (exclusionLog es cs) := by
  induction cs with
  | nil => exact .nil
  | cons c cs ih =>
      cases hmatch : firstMatch es c with
      | none =>
          have hspared : Spared es c := isNone_firstMatch_iff.1 (by rw [hmatch]; rfl)
          rw [List.filter_cons_of_neg (by simpa using hspared), exclusionLog,
            List.filterMap_cons_none (by rw [hmatch]; rfl)]
          exact ih
      | some e =>
          have hnot : ¬ Spared es c := by
            rw [← isNone_firstMatch_iff, hmatch]
            simp
          rw [List.filter_cons_of_pos (by simpa using hnot), exclusionLog,
            List.filterMap_cons_some (by rw [hmatch]; rfl)]
          exact .cons ⟨e, firstMatch_eq_some_iff.1 hmatch, rfl⟩ ih

theorem log_place_append (u : UniqueList Coordinate) (cs ds : List Coordinate) :
    (place u (cs ++ ds)).log = (place u cs).log ++ (place (u.extend cs).1 ds).log := by
  induction cs generalizing u with
  | nil => rfl
  | cons c cs ih =>
      simp only [List.cons_append, place, UniqueList.extend]
      split
      · exact ih (u.add c).1
      · exact congrArg (duplicateRecord c :: ·) (ih (u.add c).1)

theorem log_place_singleton (u : UniqueList Coordinate) (c : Coordinate) :
    (place u [c]).log = if u.contains c then [duplicateRecord c] else [] := by
  cases hc : u.contains c <;> simp [place, UniqueList.add, hc]

theorem log_place (cs : List Coordinate) :
    (place .empty cs).log = (UniqueList.repeats cs).map duplicateRecord := by
  induction cs using List.reverseRecOn with
  | nil => rfl
  | append_singleton cs c ih =>
      have hcontains : (UniqueList.empty.extend cs).1.contains c = true ↔
          ∃ d ∈ cs, (d == c) = true := by
        rw [← List.any_eq_true]
        exact Bool.eq_iff_iff.1 (UniqueList.contains_ofList cs c)
      rw [log_place_append, ih, log_place_singleton, UniqueList.repeats_concat, List.map_append]
      simp only [hcontains]
      split_ifs <;> rfl

theorem ordered_survivors (es : List Exclusion) (cs : List Coordinate) (sort : Bool) :
    Ordered sort (cs.filter (Spared es ·))
      (if sort then Coordinate.sort (survivors es cs) else survivors es cs) := by
  rw [← survivors_eq_filter]
  cases sort with
  | false => rfl
  | true =>
      exact ⟨Coordinate.sort_perm _, Coordinate.pairwise_sort _, Coordinate.filter_sort _⟩

theorem Ordered.length_eq (h : Ordered sort kept placed) : placed.length = kept.length := by
  cases sort with
  | false => exact congrArg List.length h
  | true => exact h.1.length_eq

structure Accounted (es : List Exclusion) (cs : List Coordinate) (sort : Bool)
    (placed : List Coordinate) (excluded : List Log.Record) (p : Classpath) : Prop where
  explained : List.Forall₂ (Explains es) (cs.filter (¬ Spared es ·)) excluded
  ordered : Ordered sort (cs.filter (Spared es ·)) placed
  log : p.log = excluded ++ (UniqueList.repeats placed).map duplicateRecord
  entries : p.entries.items = UniqueList.firsts (fun _ => True) placed
  number : p.entries.size + p.log.length = cs.length

theorem assemble_accounts (cs : List Coordinate) (es : List Exclusion) (sort : Bool) :
    ∃ placed excluded, Accounted es cs sort placed excluded (assemble cs es sort) := by
  let placed := if sort then Coordinate.sort (survivors es cs) else survivors es cs
  have hexcluded := exclusionLog_explains es cs
  have hplaced : Ordered sort (cs.filter (Spared es ·)) placed := ordered_survivors es cs sort
  have hlog : (assemble cs es sort).log =
      exclusionLog es cs ++ (UniqueList.repeats placed).map duplicateRecord :=
    congrArg (exclusionLog es cs ++ ·) (log_place placed)
  have hentries : (assemble cs es sort).entries.items =
      UniqueList.firsts (fun _ => True) placed := by
    rw [← UniqueList.items_ofList]
    exact congrArg UniqueList.items (entries_place .empty placed)
  refine ⟨placed, exclusionLog es cs, hexcluded, hplaced, hlog, hentries, ?_⟩
  have hparts := UniqueList.length_firsts_add_length_repeats placed
  have hkept := hplaced.length_eq
  have hlost := hexcluded.length_eq
  have hall := cs.length_eq_length_filter_add (Spared es ·)
  simp only [decide_not] at hlost
  rw [UniqueList.size, hentries, hlog, List.length_append, List.length_map]
  omega

end ArtifactCache.Classpath
