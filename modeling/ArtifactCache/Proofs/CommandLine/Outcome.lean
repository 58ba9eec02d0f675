import ArtifactCache.CommandLine.Supplies
import ArtifactCache.Proofs.CacheStore.Account
import ArtifactCache.Proofs.CommandLine.Reprint
import ArtifactCache.Proofs.CommandLine.Values

namespace ArtifactCache.CommandLine

open Classpath

variable {supplies : Supplies} {faults : Faults} {fs : FileSystem} {home output : String}
  {serial : Nat} {r : Request}
  {s : Settings} {ts args : List String} {e : RunError} {d : Coordinate.Invalid} {goal : Goal}
  {w : Run}

def Unread (ts : List String) (d : Coordinate.Invalid) : Prop :=
  ∃ before t after cs, ts = before ++ t :: after ∧ Reads before cs ∧ Coordinate.parse t = .error d

theorem Unread.cons {t : String} {c : Coordinate} (ht : Coordinate.parse t = .ok c)
    (h : Unread ts d) : Unread (t :: ts) d := by
  obtain ⟨before, u, after, cs, rfl, hreads, hu⟩ := h
  exact ⟨t :: before, u, after, c :: cs, rfl, .cons ht hreads, hu⟩

theorem readAll_cases (ts : List String) :
    (∃ cs, Reads ts cs ∧ readAll ts = (cs, none)) ∨
    ∃ cs d, Unread ts d ∧ readAll ts = (cs, some d) := by
  induction ts with
  | nil => exact .inl ⟨[], .nil, rfl⟩
  | cons t ts ih =>
      simp only [readAll]
      cases ht : Coordinate.parse t with
      | error d => exact .inr ⟨[], d, ⟨[], t, ts, [], rfl, .nil, ht⟩, rfl⟩
      | ok c =>
          rcases ih with ⟨cs, hreads, hall⟩ | ⟨cs, d, hunread, hall⟩
          · exact .inl ⟨c :: cs, .cons ht hreads, by rw [hall]⟩
          · exact .inr ⟨c :: cs, d, hunread.cons ht, by rw [hall]⟩

def Goal.Achieved (supplies : Supplies) (faults : Faults) (fs : FileSystem) (serial : Nat)
    (s : Settings) (output : String) : Goal → Prop
  | .clean => (CacheStore.wipe faults fs serial ⟨s.cacheDir⟩).result = .ok () ∧
      output = supplies.green ("Cleaned " ++ s.cacheDir.toText) ++ "\n"
  | .classpath ts sort => ∃ cs, Reads ts cs ∧
      output = printed (assemble cs s.excludes sort).entries.items

def Goal.Missed (faults : Faults) (fs : FileSystem) (serial : Nat) (s : Settings) (e : RunError) :
    Goal → Prop
  | .clean => ∃ cause, (CacheStore.wipe faults fs serial ⟨s.cacheDir⟩).result =
      .error (.removal cause) ∧ cause ≠ .call .nulInPath ∧
        e = .clean ⟨s.cacheDir.toPathname, cause⟩
  | .classpath ts _ => ∃ d, Unread ts d ∧ e = .coordinate d

theorem cleanRun_cases (supplies : Supplies) (faults : Faults) (serial : Nat)
    (hname : (CacheStore.place ⟨s.cacheDir⟩ fs).name ≠ "") :
    (∃ output, (cleanRun supplies faults fs serial s).outcome = .done output ∧
      Goal.Achieved supplies faults fs serial s output .clean) ∨
    ∃ e, (cleanRun supplies faults fs serial s).outcome = .failed e ∧
      Goal.Missed faults fs serial s e .clean := by
  have hnul := CacheStore.wipe_ne_nulInPath faults fs serial ⟨s.cacheDir⟩
  simp only [cleanRun, clean]
  cases hresult : (CacheStore.wipe faults fs serial ⟨s.cacheDir⟩).result with
  | ok u => exact .inl ⟨_, rfl, hresult, rfl⟩
  | error e =>
      cases e with
      | removal cause =>
          refine .inr ⟨_, rfl, cause, hresult, ?_, rfl⟩
          rintro rfl
          exact hnul hresult
      | nameless p => exact absurd (CacheStore.wipe_nameless hresult) hname

theorem classpathRun_cases (supplies : Supplies) (faults : Faults) (fs : FileSystem)
    (serial : Nat) (s : Settings) (ts : List String) (sort : Bool) :
    (∃ output, (classpathRun fs serial s ts sort).outcome = .done output ∧
      Goal.Achieved supplies faults fs serial s output (.classpath ts sort)) ∨
    ∃ e, (classpathRun fs serial s ts sort).outcome = .failed e ∧
      Goal.Missed faults fs serial s e (.classpath ts sort) := by
  rcases readAll_cases ts with ⟨cs, hreads, -⟩ | ⟨cs, d, hunread, hall⟩
  · exact .inl ⟨_, outcome_classpathRun fs serial s sort hreads, cs, hreads, rfl⟩
  · refine .inr ⟨.coordinate d, ?_, d, hunread, rfl⟩
    simp only [classpathRun, assembleTexts, hall]
    rfl

theorem goalRun_cases (supplies : Supplies) (faults : Faults) (serial : Nat)
    (hname : goal = .clean → (CacheStore.place ⟨s.cacheDir⟩ fs).name ≠ "") :
    (∃ output, (goalRun supplies faults fs serial s goal).outcome = .done output ∧
      goal.Achieved supplies faults fs serial s output) ∨
    ∃ e, (goalRun supplies faults fs serial s goal).outcome = .failed e ∧
      goal.Missed faults fs serial s e := by
  cases goal with
  | clean => exact cleanRun_cases supplies faults serial (hname rfl)
  | classpath ts sort => exact classpathRun_cases supplies faults fs serial s ts sort

theorem classpathRun_idle (fs : FileSystem) (serial : Nat) (s : Settings) (ts : List String)
    (sort : Bool) :
    (classpathRun fs serial s ts sort).files = fs ∧
      (classpathRun fs serial s ts sort).steps = [] := by
  unfold classpathRun
  split <;> exact ⟨rfl, rfl⟩

theorem givenValue_cases {α : Type} (sw : Switch) (given : Option (Given α)) :
    (given = some .nothing ∧ givenValue sw given = .error (.valueless sw)) ∨
      (given ≠ some .nothing ∧ ∃ a, givenValue sw given = .ok a) := by
  rcases given with - | ⟨a⟩ | -
  · exact .inr ⟨nofun, none, rfl⟩
  · exact .inr ⟨nofun, some a, rfl⟩
  · exact .inl ⟨rfl, rfl⟩

theorem settingsFor_cases (supplies : Supplies) (fs : FileSystem) (home : String) (r : Request) :
    (∃ e, fileSettings supplies.reader fs home r = .error e ∧
      settingsFor supplies.reader fs home r = .error (.load e)) ∨
    ((∃ s, fileSettings supplies.reader fs home r = .ok s) ∧ ¬ r.Valued ∧
      ∃ sw, settingsFor supplies.reader fs home r = .error (.valueless sw)) ∨
    ((∃ s, fileSettings supplies.reader fs home r = .ok s) ∧ r.Valued ∧
      ∃ s, settingsFor supplies.reader fs home r = .ok s) := by
  unfold settingsFor
  cases hfile : fileSettings supplies.reader fs home r with
  | error e => exact .inl ⟨e, rfl, rfl⟩
  | ok base =>
      rcases givenValue_cases .cacheDir r.cacheDir with ⟨hnone, hcache⟩ | ⟨hsome, dir, hcache⟩
      · exact .inr (.inl ⟨⟨base, rfl⟩, fun h => h.1 hnone, _, by rw [hcache]; rfl⟩)
      · rcases givenValue_cases .level r.level with ⟨hnone, hlevel⟩ | ⟨hgiven, level, hlevel⟩
        · exact .inr (.inl ⟨⟨base, rfl⟩, fun h => h.2 hnone, _, by rw [hcache, hlevel]; rfl⟩)
        · exact .inr (.inr ⟨⟨base, rfl⟩, ⟨hsome, hgiven⟩, _, by rw [hcache, hlevel]; rfl⟩)

structure Run.Succeeds (supplies : Supplies) (w : Run) (output : String) : Prop where
  outcome : w.outcome = .done output
  exitCode : w.outcome.exitCode = 0
  stdout : w.stdout = output
  stderr : w.stderr supplies = w.shownLog

structure Run.Fails (supplies : Supplies) (w : Run) (e : RunError) : Prop where
  outcome : w.outcome = .failed e
  exitCode : w.outcome.exitCode = 1
  stdout : w.stdout = ""
  stderr : w.stderr supplies = w.shownLog ++ (supplies.red e.message ++ "\n")

theorem Run.succeeds (h : w.outcome = .done output) : w.Succeeds supplies output where
  outcome := h
  exitCode := by rw [h]; rfl
  stdout := by rw [Run.stdout, h]; rfl
  stderr := by simp [Run.stderr, h, Outcome.complaint]

theorem Run.fails (h : w.outcome = .failed e) : w.Fails supplies e where
  outcome := h
  exitCode := by rw [h]; rfl
  stdout := by rw [Run.stdout, h]; rfl
  stderr := by rw [Run.stderr, h]; rfl

inductive ComesTo (supplies : Supplies) (faults : Faults) (fs : FileSystem) (home : String)
    (serial : Nat) (r : Request) (w : Run) : Prop where
  | refused (e : ConfigurationError)
      (file : fileSettings supplies.reader fs home r = .error (.config e))
      (told : w.Fails supplies (.config e))
  | missed (s : Settings) (e : RunError) (settings : settingsFor supplies.reader fs home r = .ok s)
      (goal : r.goal.Missed faults fs serial s e) (told : w.Fails supplies e)
  | achieved (s : Settings) (output : String)
      (settings : settingsFor supplies.reader fs home r = .ok s)
      (goal : r.goal.Achieved supplies faults fs serial s output)
      (told : w.Succeeds supplies output)

theorem run_idle (h : r.goal ≠ .clean ∨ ∀ s, settingsFor supplies.reader fs home r ≠ .ok s) :
    (run supplies faults fs home serial r).files = fs ∧
      (run supplies faults fs home serial r).steps = [] := by
  unfold run
  cases hsettings : settingsFor supplies.reader fs home r with
  | error e => rcases e with (e | f) | sw <;> exact ⟨rfl, rfl⟩
  | ok s =>
      have hgoal : r.goal ≠ .clean := h.resolve_right fun hnone => hnone s hsettings
      cases hr : r.goal with
      | clean => exact absurd hr hgoal
      | classpath ts sort => exact classpathRun_idle fs serial s ts sort

theorem run_comes_to_unless_valueless (supplies : Supplies) (faults : Faults) (serial : Nat)
    (hparse : Request.parse args = .ok r)
    (hload : ∀ f, fileSettings supplies.reader fs home r ≠ .error (.fault f))
    (hname : r.goal = .clean → ∀ s, settingsFor supplies.reader fs home r = .ok s →
      (CacheStore.place ⟨s.cacheDir⟩ fs).name ≠ "") :
    let w := run supplies faults fs home serial r
    (ComesTo supplies faults fs home serial r w ∨ ∃ sw, w.outcome = .broken (.valueless sw)) ∧
      ((∃ sw, w.outcome = .broken (.valueless sw)) ↔
        (∃ s, fileSettings supplies.reader fs home r = .ok s) ∧ ¬ r.Valued) ∧
      (¬ r.Valued → ∃ arg ∈ args, Attaches arg separatorText) ∧
      (r.goal ≠ .clean ∨ (∀ s, settingsFor supplies.reader fs home r ≠ .ok s) →
        w.files = fs ∧ w.steps = []) := by
  intro w
  rw [← and_assoc]
  refine ⟨?_, fun hvalued => ?_, run_idle⟩
  · rcases settingsFor_cases supplies fs home r with ⟨e, hfile, hsettings⟩ |
      ⟨hfile, hvalued, sw, hsettings⟩ | ⟨hfile, hvalued, s, hsettings⟩
    · cases e with
      | fault f => exact absurd hfile (hload f)
      | config e =>
          have houtcome : w.outcome = .failed (.config e) := by
            simp only [w, run, hsettings]
            rfl
          refine ⟨.inl (.refused e hfile (Run.fails houtcome)), ?_⟩
          simp [houtcome, hfile]
    · have houtcome : w.outcome = .broken (.valueless sw) := by
        simp only [w, run, hsettings]
        rfl
      exact ⟨.inr ⟨sw, houtcome⟩, fun _ => ⟨hfile, hvalued⟩, fun _ => ⟨sw, houtcome⟩⟩
    · have hw : w = goalRun supplies faults fs serial s r.goal := by
        simp only [w, run, hsettings]
      have hplaced := fun hclean => hname hclean s hsettings
      rcases goalRun_cases supplies faults serial hplaced with
        ⟨output, houtcome, hgoal⟩ | ⟨e, houtcome, hgoal⟩
      · rw [← hw] at houtcome
        refine ⟨.inl (.achieved s output hsettings hgoal (Run.succeeds houtcome)), ?_⟩
        simp [houtcome, hvalued]
      · rw [← hw] at houtcome
        refine ⟨.inl (.missed s e hsettings hgoal (Run.fails houtcome)), ?_⟩
        simp [houtcome, hvalued]
  · by_contra hnone
    exact hvalued (valued_of_parse hparse fun arg harg hat => hnone ⟨arg, harg, hat⟩)

def wipingArgs : List String := ["--cache-dir", "/cache", "clean"]

def wipingRequest : Request := ⟨none, some (.value "/cache"), none, .clean⟩

def wipingFiles : FileSystem := FileSystem.empty.including ⟨["", "cache"]⟩ .directory

theorem wipingArgs_come_to :
    Request.parse wipingArgs = .ok wipingRequest ∧
      (∀ f, fileSettings Toml.parse wipingFiles "/home" wipingRequest ≠ .error (.fault f)) ∧
      (∀ s, settingsFor Toml.parse wipingFiles "/home" wipingRequest = .ok s →
        (CacheStore.place ⟨s.cacheDir⟩ wipingFiles).name ≠ "") ∧
      ComesTo .standard .never wipingFiles "/home" 0 wipingRequest
        (run .standard .never wipingFiles "/home" 0 wipingRequest) := by
  have hparse : Request.parse wipingArgs = .ok wipingRequest := by decide +kernel
  have hload : ∀ f, fileSettings Toml.parse wipingFiles "/home" wipingRequest ≠
      .error (.fault f) := by
    have hok : (fileSettings Toml.parse wipingFiles "/home" wipingRequest).isOk = true := by
      decide +kernel
    intro f hf
    rw [hf] at hok
    cases hok
  have hname : ∀ s, settingsFor Toml.parse wipingFiles "/home" wipingRequest = .ok s →
      (CacheStore.place ⟨s.cacheDir⟩ wipingFiles).name ≠ "" := by
    have hdir : (settingsFor Toml.parse wipingFiles "/home" wipingRequest).toOption.map
        (·.cacheDir) = some ⟨.root, ["cache"]⟩ := by decide +kernel
    intro s hs
    rw [hs] at hdir
    have hcache : s.cacheDir = ⟨.root, ["cache"]⟩ := Option.some.inj hdir
    rw [hcache]
    decide +kernel
  have hvalued : wipingRequest.Valued := ⟨by decide, by decide⟩
  obtain ⟨hends, hbroken, -⟩ :=
    run_comes_to_unless_valueless .standard .never 0 hparse hload fun _ => hname
  exact ⟨hparse, hload, hname, hends.resolve_right fun h => (hbroken.1 h).2 hvalued⟩

end ArtifactCache.CommandLine
