import ArtifactCache.CommandLine.Supplies
import ArtifactCache.Proofs.CacheStore.Account

namespace ArtifactCache.CommandLine

open Log.Routing (reaches)

variable {faults : Faults} {fs : FileSystem} {serial : Nat} {r : Request} {w : Run}
  {args₁ args₂ : List String} {record : Log.Record} {l₁ l₂ : Log.Level}

def Run.shown (w : Run) : List Log.Record :=
  match w.threshold with
  | some level => w.log.filter (level ≤ ·.level)
  | none => []

def Run.routing (w : Run) : Log.Routing :=
  match w.threshold with
  | some level => Log.Routing.fresh.configure level .standardError
  | none => .fresh

structure Run.Heard (w : Run) : Prop where
  reached : ∀ record ∈ w.log, reaches record.logger = true
  unwarned : w.threshold = none → ∀ record ∈ w.log, ¬ .warn ≤ record.level

theorem Run.stderr_eq (supplies : Supplies) (w : Run) : w.stderr supplies =
    String.join (w.shown.map Log.Record.line) ++ w.outcome.complaint supplies := by
  unfold Run.stderr Run.shownLog Run.shown
  cases w.threshold <;> rfl

theorem fresh_writes_nil (h : ¬ .warn ≤ record.level) : Log.Routing.fresh.writes record = [] := by
  simp [Log.Routing.writes, Log.Routing.fresh, Log.Routing.unhandled, h]

def onStandardError (level : Log.Level) (record : Log.Record) : List (Log.Stream × String) :=
  if level ≤ record.level then [(.standardError, record.line)] else []

theorem configured_writes (level : Log.Level) (h : reaches record.logger = true) :
    (Log.Routing.fresh.configure level .standardError).writes record =
      onStandardError level record := by
  simp [onStandardError, Log.Routing.writes, Log.Routing.configure, Log.Routing.fresh,
    Log.Handler.write, h]

theorem Run.Heard.written (h : w.Heard) : w.log.flatMap w.routing.writes =
    w.shown.map fun record => (.standardError, record.line) := by
  unfold Run.shown Run.routing
  cases hthreshold : w.threshold with
  | none =>
      refine List.flatMap_eq_nil_iff.2 fun record hrecord => ?_
      exact fresh_writes_nil (h.unwarned hthreshold record hrecord)
  | some level =>
      rw [List.flatMap_congr fun record hrecord =>
        configured_writes level (h.reached record hrecord)]
      dsimp only
      induction w.log with
      | nil => rfl
      | cons record log ih =>
          rw [List.flatMap_cons, ih, List.filter_cons, onStandardError]
          by_cases hle : level ≤ record.level <;> simp [hle]

theorem heard_of_log {log : List Log.Record} (hw : w.log = log ++ w.outcome.log)
    (hlog : w.threshold = none → log = [])
    (h : ∀ record ∈ log, reaches record.logger = true) : w.Heard := by
  have hlast : ∀ record ∈ w.outcome.log, record = failedRecord := by
    intro record hrecord
    cases houtcome : w.outcome with
    | failed e => simpa [houtcome, Outcome.log] using hrecord
    | _ => simp [houtcome, Outcome.log] at hrecord
  have hlogger : reaches failedRecord.logger = true := by decide +kernel
  refine ⟨fun record hrecord => ?_, fun hnone record hrecord => ?_⟩
  · rw [hw] at hrecord
    rcases List.mem_append.1 hrecord with hrecord | hrecord
    · exact h record hrecord
    · rw [hlast record hrecord]
      exact hlogger
  · rw [hw, hlog hnone, List.nil_append] at hrecord
    rw [hlast record hrecord]
    decide

theorem heard_idle {log : List Log.Record} {threshold : Option Log.Level} {outcome : Outcome}
    (hlog : threshold = none → log = []) (h : ∀ record ∈ log, reaches record.logger = true) :
    (Run.idle fs serial log threshold outcome).Heard :=
  heard_of_log rfl hlog h

theorem reaches_classpath : reaches Classpath.logger = true := by decide +kernel

theorem reaches_of_mem_place {u : UniqueList Coordinate} {cs : List Coordinate}
    (h : record ∈ (Classpath.place u cs).log) : reaches record.logger = true := by
  induction cs generalizing u with
  | nil => cases h
  | cons c cs ih =>
      simp only [Classpath.place] at h
      split_ifs at h
      · exact ih h
      · rcases List.mem_cons.1 h with rfl | h
        · exact reaches_classpath
        · exact ih h

theorem reaches_of_mem_exclusionLog {es : List Exclusion} {cs : List Coordinate}
    (h : record ∈ Classpath.exclusionLog es cs) : reaches record.logger = true := by
  obtain ⟨c, -, hc⟩ := List.mem_filterMap.1 h
  obtain ⟨e, -, rfl⟩ := Option.map_eq_some_iff.1 hc
  exact reaches_classpath

theorem classpathRun_heard (fs : FileSystem) (serial : Nat) (s : Settings) (ts : List String)
    (sort : Bool) : (classpathRun fs serial s ts sort).Heard := by
  unfold classpathRun Classpath.assembleTexts
  rcases Classpath.readAll ts with ⟨cs, - | e⟩
  · refine heard_idle nofun fun record hrecord => ?_
    exact (List.mem_append.1 hrecord).elim reaches_of_mem_exclusionLog reaches_of_mem_place
  · exact heard_idle nofun fun record => reaches_of_mem_exclusionLog

theorem reaches_of_mem_clean {cache : CacheStore} (h : record ∈ (clean faults fs serial cache).log) :
    reaches record.logger = true := by
  have hlogger : reaches Cleaning.logger = true := by decide +kernel
  simp only [clean] at h
  rcases List.mem_cons.1 h with rfl | h
  · exact hlogger
  · rcases List.mem_append.1 h with h | h
    · exact CacheStore.reaches_of_mem_wipe h
    · unfold Cleaning.endLog at h
      split at h
      · rw [List.mem_singleton.1 h]
        exact hlogger
      · cases h

theorem run_heard (supplies : Supplies) (faults : Faults) (fs : FileSystem) (home : String)
    (serial : Nat) (r : Request) :
    (run supplies faults fs home serial r).Heard := by
  unfold run
  cases settingsFor supplies.reader fs home r with
  | error e => rcases e with (e | f) | sw <;> exact heard_idle (fun _ => rfl) nofun
  | ok s =>
      cases r.goal with
      | clean => exact heard_of_log rfl nofun fun record => reaches_of_mem_clean
      | classpath ts sort => exact classpathRun_heard fs serial s ts sort

def Run.at (l : Log.Level) (w : Run) : Run := { w with threshold := w.threshold.map fun _ => l }

def Request.at (l : Log.Level) (r : Request) : Request := { r with level := some (.value l) }

theorem settingsFor_at (reader : Settings.Reader) (fs : FileSystem) (home : String) (r : Request)
    (l : Log.Level) :
    settingsFor reader fs home (r.at l) =
      (settingsFor reader fs home { r with level := none }).map fun s => { s with level := l } := by
  have hfile : fileSettings reader fs home (r.at l) =
      fileSettings reader fs home { r with level := none } := rfl
  unfold settingsFor
  rw [hfile]
  cases fileSettings reader fs home { r with level := none } with
  | error e => rfl
  | ok base =>
      simp only [Request.at]
      rcases r.cacheDir with - | ⟨dir⟩ | - <;> rfl

theorem goalRun_at (supplies : Supplies) (faults : Faults) (fs : FileSystem) (serial : Nat)
    (s : Settings) (goal : Goal) (l : Log.Level) :
    goalRun supplies faults fs serial { s with level := l } goal =
      (goalRun supplies faults fs serial s goal).at l := by
  cases goal with
  | clean => rfl
  | classpath ts sort =>
      simp only [goalRun, classpathRun]
      cases Classpath.assembleTexts ts s.excludes sort <;> rfl

theorem run_at (supplies : Supplies) (faults : Faults) (fs : FileSystem) (home : String)
    (serial : Nat) (r : Request) (l : Log.Level) :
    run supplies faults fs home serial (r.at l) =
      (run supplies faults fs home serial { r with level := none }).at l := by
  unfold run
  rw [settingsFor_at]
  cases settingsFor supplies.reader fs home { r with level := none } with
  | error e => rcases e with (e | f) | sw <;> rfl
  | ok s => exact goalRun_at supplies faults fs serial s r.goal l

theorem shown_at (hle : l₁ ≤ l₂) : (w.at l₂).shown = (w.at l₁).shown.filter (l₂ ≤ ·.level) := by
  have hfiner (record : Log.Record) (h : l₂ ≤ record.level) : l₁ ≤ record.level :=
    Nat.le_trans hle h
  unfold Run.shown Run.at
  cases w.threshold with
  | none => rfl
  | some level =>
      simp only [Option.map_some, List.filter_filter]
      refine List.filter_congr fun record _ => ?_
      by_cases h : l₂ ≤ record.level <;> simp [h, hfiner]

structure Run.Muted (l : Log.Level) (w₁ w₂ : Run) : Prop where
  outcome : w₂.outcome = w₁.outcome
  stdout : w₂.stdout = w₁.stdout
  files : w₂.files = w₁.files
  steps : w₂.steps = w₁.steps
  serial : w₂.serial = w₁.serial
  shown : w₂.shown = w₁.shown.filter (l ≤ ·.level)

structure Run.Written (supplies : Supplies) (w : Run) : Prop where
  stderr : w.stderr supplies =
    String.join (w.shown.map Log.Record.line) ++ w.outcome.complaint supplies
  routed : w.log.flatMap w.routing.writes =
    w.shown.map fun record => (.standardError, record.line)

theorem run_written (supplies : Supplies) (faults : Faults) (fs : FileSystem) (home : String)
    (serial : Nat) (r : Request) : (run supplies faults fs home serial r).Written supplies :=
  ⟨Run.stderr_eq supplies _, (run_heard supplies faults fs home serial r).written⟩

theorem run_muted (supplies : Supplies) (faults : Faults) (fs : FileSystem) (home : String)
    (serial : Nat) (hle : l₁ ≤ l₂) :
    Run.Muted l₂ (run supplies faults fs home serial (r.at l₁))
      (run supplies faults fs home serial (r.at l₂)) := by
  rw [run_at, run_at]
  exact ⟨rfl, rfl, rfl, rfl, rfl, shown_at hle⟩

theorem level_only_mutes (hfirst : Request.parse args₁ = .ok (r.at l₁))
    (hsecond : Request.parse args₂ = .ok (r.at l₂)) (hle : l₁ ≤ l₂) (supplies : Supplies)
    (faults : Faults) (fs : FileSystem) (home : String) (serial : Nat) :
    ∃ w₁ w₂, (Request.parse args₁).map (run supplies faults fs home serial) = .ok w₁ ∧
      (Request.parse args₂).map (run supplies faults fs home serial) = .ok w₂ ∧
      w₁.Muted l₂ w₂ ∧ w₁.Written supplies ∧ w₂.Written supplies := by
  rw [hfirst, hsecond]
  exact ⟨_, _, rfl, rfl, run_muted supplies faults fs home serial hle, run_written ..,
    run_written ..⟩

def wideArgs : List String := ["--cache-dir", "/cache", "--level=debug", "clean"]

def narrowArgs : List String := ["--level", "INFO", "--cache-dir=/cache", "clean"]

def levelledRequest : Request := ⟨none, some (.value "/cache"), none, .clean⟩

theorem narrowArgs_mute :
    Request.parse wideArgs = .ok (levelledRequest.at .debug) ∧
      Request.parse narrowArgs = .ok (levelledRequest.at .info) ∧
      Log.Level.debug ≤ Log.Level.info ∧
      Run.Muted .info (run .standard .never .empty "/home" 0 (levelledRequest.at .debug))
        (run .standard .never .empty "/home" 0 (levelledRequest.at .info)) := by
  have hwide : Request.parse wideArgs = .ok (levelledRequest.at .debug) := by decide +kernel
  have hnarrow : Request.parse narrowArgs = .ok (levelledRequest.at .info) := by decide +kernel
  have hle : Log.Level.debug ≤ Log.Level.info := by decide
  obtain ⟨w₁, w₂, hfirst, hsecond, hmuted, -⟩ :=
    level_only_mutes hwide hnarrow hle .standard .never .empty "/home" 0
  rw [hwide] at hfirst
  rw [hnarrow] at hsecond
  cases hfirst
  cases hsecond
  exact ⟨hwide, hnarrow, hle, hmuted⟩

end ArtifactCache.CommandLine
