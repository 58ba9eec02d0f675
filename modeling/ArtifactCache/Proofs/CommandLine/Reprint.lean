import ArtifactCache.CommandLine.Run
import ArtifactCache.Proofs.Classpath.Merging

namespace ArtifactCache.CommandLine

open Classpath

variable {ts : List String} {cs : List Coordinate}

def Reads (ts : List String) (cs : List Coordinate) : Prop :=
  List.Forall₂ (fun t c => Coordinate.parse t = .ok c) ts cs

theorem readAll_of_reads (h : Reads ts cs) : readAll ts = (cs, none) := by
  induction h with
  | nil => rfl
  | cons ht _ ih => simp only [readAll, ht, ih]

theorem Reads.render (h : Reads ts cs) {c : Coordinate} (hc : c ∈ cs) :
    Coordinate.parse c.render = .ok c := by
  induction h with
  | nil => cases hc
  | cons ht _ ih =>
      rcases List.mem_cons.1 hc with rfl | hc
      · exact Coordinate.parse_render ht
      · exact ih hc

theorem outcome_classpathRun (fs : FileSystem) (serial : Nat) (s : Settings) (sort : Bool)
    (h : Reads ts cs) :
    (classpathRun fs serial s ts sort).outcome =
      .done (printed (assemble cs s.excludes sort).entries.items) := by
  rw [classpathRun, assembleTexts, readAll_of_reads h]
  rfl

theorem classpath_reprinted (fs : FileSystem) (serial : Nat) (s : Settings) (sort : Bool)
    (h : Reads ts cs) :
    (∀ c ∈ (assemble cs s.excludes sort).entries.items, Coordinate.parse c.render = .ok c) ∧
      (assemble (assemble cs s.excludes sort).entries.items s.excludes sort).entries =
        (assemble cs s.excludes sort).entries ∧
      (classpathRun fs serial s ts sort).outcome =
        .done (printed (assemble cs s.excludes sort).entries.items) ∧
      (classpathRun fs serial s
        ((assemble cs s.excludes sort).entries.items.map Coordinate.render) sort).outcome =
          .done (printed (assemble cs s.excludes sort).entries.items) := by
  have hparse : ∀ c ∈ (assemble cs s.excludes sort).entries.items,
      Coordinate.parse c.render = .ok c := fun c hc => h.render (mem_of_mem_entries hc)
  have hreads : Reads ((assemble cs s.excludes sort).entries.items.map Coordinate.render)
      (assemble cs s.excludes sort).entries.items := by
    rw [Reads, List.forall₂_map_left_iff, List.forall₂_same]
    exact hparse
  have hagain := entries_again cs s.excludes sort
  refine ⟨hparse, hagain, outcome_classpathRun fs serial s sort h, ?_⟩
  rw [outcome_classpathRun fs serial s sort hreads, hagain]

def shelfSettings : Settings where
  buildroot := .ofText "/work"
  cacheDir := .ofText "/work/target"
  level := .info
  excludes := [ledgerExclusion]

def shelfTexts : List String :=
  ["org.example:atlas:tar:sources:2", "\tnet.example:ledger:zip:src:1.4 ",
    "org.example:atlas:jar:sources:2", "org.example:atlas::maps:2.0"]

def printedTexts : List String :=
  ["org.example:atlas:tar:sources:2", "org.example:atlas:jar:maps:2.0"]

theorem shelf_reprinted :
    Reads shelfTexts shelf ∧
      (classpathRun .empty 1 shelfSettings shelfTexts false).outcome =
        .done "org.example:atlas:tar:sources:2\norg.example:atlas:jar:maps:2.0\n" ∧
      (classpathRun .empty 1 shelfSettings printedTexts false).outcome =
        .done "org.example:atlas:tar:sources:2\norg.example:atlas:jar:maps:2.0\n" := by
  have hreads : Reads shelfTexts shelf := by
    simp only [Reads, shelfTexts, shelf, List.forall₂_cons, List.forall₂_nil_right_iff]
    decide +kernel
  have hentries : (assemble shelf shelfSettings.excludes false).entries.items =
      [.packedEdition, .minorEdition] := by decide +kernel
  have htexts : [.packedEdition, .minorEdition].map Coordinate.render = printedTexts := by
    decide +kernel
  have hprinted : printed [.packedEdition, .minorEdition] =
      "org.example:atlas:tar:sources:2\norg.example:atlas:jar:maps:2.0\n" := by decide +kernel
  obtain ⟨-, -, hfirst, hagain⟩ := classpath_reprinted .empty 1 shelfSettings false hreads
  rw [hentries, hprinted] at hfirst hagain
  rw [htexts] at hagain
  exact ⟨hreads, hfirst, hagain⟩

end ArtifactCache.CommandLine
