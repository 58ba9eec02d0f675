import Mathlib.Data.List.Induction
import Mathlib.Tactic.SplitIfs
import ArtifactCache.Log.Routing

namespace ArtifactCache.Log

inductive Event where
  | configure (level : Level) (stream : Stream)
  | attach (stream : Stream)
  | log (record : Record)
  deriving DecidableEq, Repr

namespace Event

def isConfigure : Event → Bool
  | .configure .. => true
  | _ => false

def isLog : Event → Bool
  | .log _ => true
  | _ => false

def attached? : Event → Option Stream
  | .attach stream => some stream
  | _ => none

end Event

structure Session where
  routing : Routing
  written : List (Stream × String)
  deriving DecidableEq, Repr

namespace Session

variable {past before since : List Event} {latest : Option (Level × Stream)} {e : Event}

def fresh : Session := ⟨.fresh, []⟩

def step (s : Session) : Event → Session
  | .configure level stream => { s with routing := s.routing.configure level stream }
  | .attach stream => { s with routing := s.routing.attach stream }
  | .log record => { s with written := s.written ++ s.routing.writes record }

def after (events : List Event) : Session := events.foldl step fresh

theorem after_concat (past : List Event) (e : Event) :
    after (past ++ [e]) = (after past).step e := by
  rw [after, List.foldl_append]
  rfl

def attached (events : List Event) : List Stream := events.filterMap Event.attached?

@[simp] theorem attached_append (xs ys : List Event) :
    attached (xs ++ ys) = attached xs ++ attached ys := List.filterMap_append

structure Parted (past before : List Event) (latest : Option (Level × Stream))
    (since : List Event) : Prop where
  whole : past = before ++ (latest.map fun c => Event.configure c.1 c.2).toList ++ since
  quiet : ∀ e ∈ since, e.isConfigure = false
  first : latest = none → before = []

theorem Parted.concat (h : Parted past before latest since) (he : e.isConfigure = false) :
    Parted (past ++ [e]) before latest (since ++ [e]) where
  whole := by rw [h.whole, List.append_assoc _ since]
  quiet := by
    intro x hx
    rcases List.mem_append.1 hx with hx | hx
    · exact h.quiet x hx
    · rw [List.mem_singleton.1 hx]
      exact he
  first := h.first

theorem exists_parted (past : List Event) :
    ∃ before latest since, Parted past before latest since := by
  induction past using List.reverseRecOn with
  | nil => exact ⟨[], none, [], rfl, by simp, fun _ => rfl⟩
  | append_singleton past e ih =>
      obtain ⟨before, latest, since, h⟩ := ih
      cases e with
      | configure level stream =>
          exact ⟨past, some (level, stream), [], by simp, by simp, by simp⟩
      | attach stream => exact ⟨before, latest, since ++ [.attach stream], h.concat rfl⟩
      | log record => exact ⟨before, latest, since ++ [.log record], h.concat rfl⟩

theorem foreign_step (s : Session) (e : Event) :
    (s.step e).routing.handlers.filter (!·.isFormatted) =
      s.routing.handlers.filter (!·.isFormatted) ++ (attached [e]).map .bare := by
  cases e <;>
    simp [step, Routing.configure, Routing.attach, attached, Event.attached?, Handler.isFormatted]

-- Configurations replace one another, but no stream that somebody else attached is ever dropped.
theorem foreign_after (past : List Event) :
    (after past).routing.handlers.filter (!·.isFormatted) = (attached past).map .bare := by
  induction past using List.reverseRecOn with
  | nil => rfl
  | append_singleton past e ih =>
      rw [after_concat, foreign_step, ih, attached_append, List.map_append]

theorem routing_step (s : Session) (he : e.isConfigure = false) :
    (s.step e).routing =
      ⟨s.routing.threshold, s.routing.handlers ++ (attached [e]).map .bare⟩ := by
  cases e with
  | configure level stream => cases he
  | attach stream => rfl
  | log record =>
      change s.routing = ⟨s.routing.threshold, s.routing.handlers ++ []⟩
      rw [List.append_nil]

def threshold (latest : Option (Level × Stream)) : Level := latest.elim .warn Prod.fst

def standing (before : List Event) (latest : Option (Level × Stream)) (since : List Event) :
    List Handler :=
  (attached before).map .bare ++ (latest.map fun c => .formatted c.2).toList ++
    (attached since).map .bare

theorem routing_configured (before : List Event) (level : Level) (stream : Stream) :
    (after (before ++ [.configure level stream])).routing =
      ⟨level, standing before (some (level, stream)) []⟩ := by
  rw [after_concat]
  change (after before).routing.configure level stream = _
  rw [Routing.configure, foreign_after]
  simp [standing, attached]

-- The induction is on what came since the latest configuration.
theorem Parted.routing (h : Parted past before latest since) :
    (after past).routing = ⟨threshold latest, standing before latest since⟩ := by
  obtain ⟨rfl, hquiet, hfirst⟩ := h
  induction since using List.reverseRecOn with
  | nil =>
      cases latest with
      | none =>
          obtain rfl := hfirst rfl
          rfl
      | some c =>
          rw [List.append_nil]
          exact routing_configured before c.1 c.2
  | append_singleton since e ih =>
      have hsince := ih fun x hx => hquiet x (List.mem_append_left _ hx)
      rw [← List.append_assoc, after_concat, routing_step _ (hquiet e (by simp)), hsince]
      simp [standing]

def Descends (logger : String) : Prop :=
  logger = Routing.rootLogger ∨ ∃ below, logger = Routing.rootLogger ++ "." ++ below

theorem reaches_iff {logger : String} : Routing.reaches logger = true ↔ Descends logger := by
  rw [Routing.reaches, Bool.or_eq_true, beq_iff_eq, List.isPrefixOf_iff_prefix]
  refine or_congr_right ⟨fun ⟨below, h⟩ => ⟨.ofList below, ?_⟩,
    fun ⟨below, h⟩ => ⟨below.toList, ?_⟩⟩
  · rw [← String.toList_inj, String.toList_append, String.toList_ofList, h]
  · rw [h, String.toList_append, String.toList_append, String.toList_append]

instance (logger : String) : Decidable (Descends logger) := decidable_of_iff _ reaches_iff

def Handled (past : List Event) (record : Record) : Prop :=
  Descends record.logger ∧ ∃ e ∈ past, e.isLog = false

instance (past : List Event) (record : Record) : Decidable (Handled past record) :=
  inferInstanceAs (Decidable (_ ∧ _))

def lines (before : List Event) (latest : Option (Level × Stream)) (since : List Event)
    (record : Record) : List (Stream × String) :=
  let bare (stream : Stream) : Stream × String := (stream, record.text ++ "\n")
  (attached before).map bare ++ (latest.map fun c => (c.2, record.line)).toList ++
    (attached since).map bare

theorem lines_eq (before : List Event) (latest : Option (Level × Stream)) (since : List Event)
    (record : Record) :
    (standing before latest since).map (·.write record) = lines before latest since record := by
  cases latest <;> simp [standing, lines, Handler.write, Function.comp_def]

theorem handlers_eq_nil_iff (past : List Event) :
    (after past).routing.handlers = [] ↔ ∀ e ∈ past, e.isLog = true := by
  induction past using List.reverseRecOn with
  | nil => exact iff_of_true rfl (by simp)
  | append_singleton past e ih =>
      rw [after_concat, List.forall_mem_append, List.forall_mem_singleton]
      cases e with
      | configure level stream => simp [step, Routing.configure, Event.isLog]
      | attach stream => simp [step, Routing.attach, Event.isLog]
      | log record => simpa [step, Event.isLog] using ih

theorem handled_iff {past : List Event} {record : Record} : Handled past record ↔
    Routing.reaches record.logger = true ∧ (after past).routing.handlers ≠ [] := by
  rw [Handled, reaches_iff, ne_eq, handlers_eq_nil_iff]
  simp

theorem threshold_of_unhandled (past : List Event) (h : (after past).routing.handlers = []) :
    (after past).routing.threshold = .warn := by
  obtain ⟨before, latest, since, hparted⟩ := exists_parted past
  rw [hparted.routing] at h ⊢
  cases latest with
  | none => rfl
  | some c => simp [standing] at h

theorem Parted.writes (h : Parted past before latest since) (record : Record) :
    (after past).routing.writes record =
      if Handled past record then
        if threshold latest ≤ record.level then lines before latest since record else []
      else Routing.unhandled record := by
  have hwritten : (after past).routing.handlers.map (·.write record) =
      lines before latest since record := by rw [h.routing, lines_eq]
  have hlevel : (after past).routing.threshold = threshold latest := by rw [h.routing]
  simp only [handled_iff]
  by_cases hreaches : Routing.reaches record.logger = true
  · rw [Routing.writes, if_pos hreaches]
    cases hhandlers : (after past).routing.handlers with
    | nil => simp [Routing.unhandled, threshold_of_unhandled past hhandlers]
    | cons handler handlers => simp [hreaches, ← hwritten, hhandlers, hlevel]
  · simp [Routing.writes, hreaches]

theorem Parted.attached_eq (h : Parted past before latest since) :
    attached past = attached before ++ attached since := by
  rw [h.whole, attached_append, attached_append]
  cases latest <;> simp [attached, Event.attached?, List.filterMap_cons]

theorem Parted.countP_lines (h : Parted past before latest since) (record : Record)
    (stream : Stream) :
    (lines before latest since record).countP (·.1 == stream) =
      (attached past).count stream + if latest.map Prod.snd = some stream then 1 else 0 := by
  rw [h.attached_eq]
  cases latest with
  | none => simp [lines, List.count, List.countP_map, Function.comp_def]
  | some c =>
      simp [lines, List.count, List.countP_map, List.countP_cons, Function.comp_def]
      omega

structure Appends (past : List Event) : Prop where
  configure : ∀ level stream,
    (after (past ++ [.configure level stream])).written = (after past).written
  attach : ∀ stream, (after (past ++ [.attach stream])).written = (after past).written
  log : ∃ before latest since, Parted past before latest since ∧ ∀ record,
    (after (past ++ [.log record])).written = (after past).written ++
        (if Handled past record then
          if threshold latest ≤ record.level then lines before latest since record else []
        else Routing.unhandled record) ∧
      ∀ stream, (lines before latest since record).countP (·.1 == stream) =
        (attached past).count stream + if latest.map Prod.snd = some stream then 1 else 0
  foreign : (after past).routing.handlers.filter (!·.isFormatted) = (attached past).map .bare

theorem session_appends (past : List Event) : Appends past where
  configure level stream := by rw [after_concat]; rfl
  attach stream := by rw [after_concat]; rfl
  log := by
    obtain ⟨before, latest, since, h⟩ := exists_parted past
    refine ⟨before, latest, since, h, fun record => ⟨?_, h.countP_lines record⟩⟩
    rw [after_concat, ← h.writes]
    rfl
  foreign := foreign_after past

-- No handler at all, a logger beside the root one, and a replaced stream that is also attached.
theorem unconfigured_or_shared_written :
    (after [.log ⟨.warn, "j2clbuild", "hi"⟩]).written = [(.standardError, "hi\n")] ∧
    (after [.configure .error (.named "s"), .log ⟨.warn, "elsewhere", "x"⟩]).written =
      [(.standardError, "x\n")] ∧
    (after [.configure .info (.named "s"), .attach (.named "s"), .configure .info (.named "t"),
        .log ⟨.warn, "j2clbuild", "x"⟩]).written =
      [(.named "s", "x\n"), (.named "t", "[WARNING] j2clbuild: x\n")] := by
  decide +kernel

example : (after [.attach (.named "s"), .configure .debug (.named "t"),
      .configure .info (.named "s"), .log ⟨.debug, "j2clbuild", "a"⟩,
      .log ⟨.info, "j2clbuild.util", "b"⟩]).written =
    [(.named "s", "b\n"), (.named "s", "[INFO] j2clbuild.util: b\n")] := by
  decide +kernel

end Session

end ArtifactCache.Log
