import AlertRules.Proofs.Dispatcher.Presenting
import Mathlib.Data.List.Forall2

/-!
# AlertRules.Proofs.Dispatcher.Runs — what a dispatcher has shown after a run

A run is a list of operations, each completed before the next.  Its **history** lists the alerts that
were handed to the sinks, with the sinks that stood there then: one for every event with an alert
outside of a dry run.  What an operation can do is said once (`step_eq`); what has been shown after
the run follows from the history alone (`shown_run`), and so nothing is lost and nothing is shown twice
(`run_presents`).
-/

namespace AlertRules

/-! ## Sinks without their replies -/

namespace Sink

/-- The sink with another reply, if it is one of those that only reply. -/
def withReply (reply : Except Failure Sending) : Sink → Sink
  | .replying name _ => .replying name reply
  | sink => sink

/-- The sink without its reply: which one it is, and its name. -/
def bare (s : Sink) : Sink :=
  s.withReply (.ok .sent)

theorem bare_eq_recorder {s : Sink} (h : s.bare = .recorder) : s = .recorder := by
  cases s with
  | recorder => rfl
  | memory => exact absurd h (by simp [bare, withReply])
  | replying name reply => exact absurd h (by simp [bare, withReply])

theorem bare_withReply (reply : Except Failure Sending) (s : Sink) :
    (s.withReply reply).bare = s.bare := by
  cases s <;> rfl

theorem map_bare_modify_withReply (reply : Except Failure Sending) (place : Nat) (sinks : List Sink) :
    (sinks.modify place (withReply reply)).map bare = sinks.map bare := by
  induction sinks generalizing place with
  | nil => cases place <;> rfl
  | cons sink sinks ih =>
    cases place with
    | zero => rw [List.modify_zero_cons, List.map_cons, List.map_cons, bare_withReply]
    | succ place => rw [List.modify_succ_cons, List.map_cons, List.map_cons, ih]

end Sink

/-! ## Histories -/

/-- An alert that was handed to sinks at a moment that the clock showed. -/
structure Handed where
  moment : Timestamp
  valid : moment.Valid
  request : Request
  sinks : List Sink

namespace Handed

/-- The copies that the collecting sink gets. -/
def copies (h : Handed) : List Request :=
  List.replicate (h.sinks.countP Sink.isMemory) h.request

/-- The records that the recorder makes. -/
def records (h : Handed) : List AlertRecord :=
  List.replicate (h.sinks.countP Sink.isRecorder) (.ofRequest h.moment h.request)

theorem readsBack (h : Handed) : (AlertRecord.ofRequest h.moment h.request).ReadsBack :=
  AlertRecord.readsBack_of_valid h.valid

end Handed

/-- **`r.RecordsOf request`** — the record has everything from the request, but of a body of more than
200 characters only the first 197 and an ellipsis. -/
structure AlertRecord.RecordsOf (r : AlertRecord) (request : Request) : Prop where
  room : r.room = request.room
  rule : r.rule = request.rule
  title : r.title = request.title
  tag : r.tag = request.tag
  audio : r.audio = request.audio
  body : request.body.length ≤ 200 → r.body = request.body
  cut : 200 < request.body.length →
    r.body = String.ofList (request.body.toList.take 197) ++ "..."

theorem AlertRecord.recordsOf_ofRequest (moment : Timestamp) (request : Request) :
    (ofRequest moment request).RecordsOf request where
  room := rfl
  rule := rfl
  title := rfl
  tag := rfl
  audio := rfl
  body h := if_pos h
  cut h := if_neg (Nat.not_le.mpr h)

namespace Shown

/-- What has been shown when the alert has been handed to its sinks. -/
def hand (s : Shown) (h : Handed) : Shown :=
  (s.presentAll h.moment h.sinks h.request).2

theorem collected_foldl_hand (s : Shown) (hs : List Handed) :
    (hs.foldl hand s).collected = s.collected ++ hs.flatMap Handed.copies := by
  induction hs generalizing s with
  | nil => exact (List.append_nil _).symm
  | cons h hs ih =>
    rw [List.foldl_cons, ih, hand, collected_presentAll, List.append_assoc, List.flatMap_cons]
    rfl

theorem Records.foldl_hand {s : Shown} {rs : List AlertRecord} (h : s.Records rs)
    (hs : List Handed) : (hs.foldl hand s).Records (rs ++ hs.flatMap Handed.records) := by
  induction hs generalizing s rs with
  | nil => exact (List.append_nil rs).symm ▸ h
  | cons handed hs ih =>
    rw [List.foldl_cons, List.flatMap_cons, ← List.append_assoc]
    exact ih (h.presentAll handed.readsBack handed.sinks)

end Shown

namespace Dispatcher

/-! ## Operations -/

/-- An operation of a dispatcher, or a change of what it depends on: what the sink at a place replies,
whether the user is idle or away, and the rules file. -/
inductive Op where
  | process (moment : Timestamp) (valid : moment.Valid) (e : Event)
  | decide (e : Event)
  | dryRun (on : Bool)
  | register (sink : Sink)
  | reply (place : Nat) (answer : Except Failure Sending)
  | idle (on : Bool)
  | write (file : File.Content)
  | clear

/-- The dispatcher after the operation. -/
def step (d : Dispatcher) : Op → Dispatcher
  | .process moment _ e => (d.process moment e).2
  | .decide e => (d.decide e).2
  | .dryRun on => { d with dryRun := on }
  | .register sink => d.register sink
  | .reply place answer => { d with sinks := d.sinks.modify place (Sink.withReply answer) }
  | .idle on => { d with idle := on }
  | .write file => { d with service := { d.service with file } }
  | .clear => { d with service := d.service.clear }

/-- The dispatcher after the operations, one after the other. -/
def run (d : Dispatcher) (ops : List Op) : Dispatcher :=
  ops.foldl step d

/-- The alert that the operation hands to the sinks, if it does. -/
def handed (d : Dispatcher) : Op → List Handed
  | .process moment valid e =>
    match (d.decide e).1 with
    | .ok (.alert _ _ request) => if d.dryRun then [] else [⟨moment, valid, request, d.sinks⟩]
    | _ => []
  | _ => []

/-- The alerts that the operations hand to the sinks, in order. -/
def history (d : Dispatcher) : List Op → List Handed
  | [] => []
  | op :: ops => d.handed op ++ (d.step op).history ops

/-- The sinks after the operation. -/
def Op.sinksAfter (sinks : List Sink) : Op → List Sink
  | .register sink => sinks ++ [sink]
  | .reply place answer => sinks.modify place (Sink.withReply answer)
  | _ => sinks

/-- The sink that the operation registers, if it does. -/
def Op.registered : Op → List Sink
  | .register sink => [sink]
  | _ => []

/-- To what the operation switches the dry run, if it does. -/
def Op.switched? : Op → Option Bool
  | .dryRun on => some on
  | _ => none

/-! ## One event -/

variable {d : Dispatcher} {moment : Timestamp} {e : Event} {request : Request}

/-- To decide changes only the service. -/
theorem exists_decide_snd (d : Dispatcher) (e : Event) :
    ∃ service, (d.decide e).2 = { d with service } := by
  cases hmuted : d.config.muted with
  | true => exact ⟨d.service, by rw [decide_of_muted hmuted]⟩
  | false =>
    rcases Bool.eq_false_or_eq_true d.idle with hidle | hidle
    · exact ⟨_, congrArg Prod.snd (Attends.decide_eq ⟨hmuted, hidle⟩)⟩
    · exact ⟨d.service, by rw [decide_of_active hmuted hidle]⟩

/-- To hand a request to the sinks changes only what has been shown. -/
theorem present_snd (d : Dispatcher) (moment : Timestamp) (request : Request) :
    (d.present moment request).2 =
      { d with shown :=
          if d.dryRun then d.shown else (d.shown.presentAll moment d.sinks request).2 } := by
  unfold present
  split <;> rfl

/-- Every sink answers once; in a dry run it is skipped. -/
theorem forall_answers_present (d : Dispatcher) (moment : Timestamp) (request : Request) :
    List.Forall₂ (fun sink result => result.1 = sink.name ∧
      if d.dryRun then result.2 = .skipped "dry-run" else sink.Says result.2)
      d.sinks (d.present moment request).1 := by
  unfold present
  cases hdry : d.dryRun with
  | false => exact Shown.forall_answers_presentAll d.shown moment d.sinks request
  | true => exact List.forall₂_map_right_iff.mpr (List.forall₂_same.mpr fun sink _ => ⟨rfl, rfl⟩)

theorem process_of_failed {failure : Failure} (h : (d.decide e).1 = .error failure) :
    d.process moment e = (.error failure, (d.decide e).2) := by
  rw [process, ← Prod.eta (d.decide e), h]

theorem process_of_suppressed {reason : Suppression}
    (h : (d.decide e).1 = .ok (.suppressed reason)) :
    d.process moment e = (.ok (.suppressed reason, []), (d.decide e).2) := by
  rw [process, ← Prod.eta (d.decide e), h]

theorem process_of_alert {found : MatchedRule} {decision : Decision}
    (h : (d.decide e).1 = .ok (.alert found decision request)) :
    d.process moment e =
      (.ok (.alert found decision request, ((d.decide e).2.present moment request).1),
        ((d.decide e).2.present moment request).2) := by
  rw [process, ← Prod.eta (d.decide e), h]

/-- **`d.Presents moment e`** — the dispatcher decides on the event, and its answer has one result for
every sink, in their order and under their names, if there is an alert, and none otherwise.  What a
sink says does not depend on the others. -/
structure Presents (d : Dispatcher) (moment : Timestamp) (e : Event) : Prop where
  failed : ∀ failure, (d.decide e).1 = .error failure → (d.process moment e).1 = .error failure
  suppressed : ∀ reason, (d.decide e).1 = .ok (.suppressed reason) →
    (d.process moment e).1 = .ok (.suppressed reason, [])
  alert : ∀ found decision request, (d.decide e).1 = .ok (.alert found decision request) →
    ∃ results, (d.process moment e).1 = .ok (.alert found decision request, results) ∧
      List.Forall₂ (fun sink result => result.1 = sink.name ∧
        if d.dryRun then result.2 = .skipped "dry-run" else sink.Says result.2) d.sinks results

theorem presents (d : Dispatcher) (moment : Timestamp) (e : Event) : d.Presents moment e where
  failed failure h := congrArg Prod.fst (process_of_failed h)
  suppressed reason h := congrArg Prod.fst (process_of_suppressed h)
  alert found decision request h := by
    obtain ⟨service, hdecide⟩ := exists_decide_snd d e
    refine ⟨_, congrArg Prod.fst (process_of_alert h), ?_⟩
    rw [hdecide]
    exact forall_answers_present { d with service } moment request

/-! ## One operation -/

/-- To process an event changes only the service and what has been shown, and that as its history
says. -/
theorem exists_process_snd (d : Dispatcher) {moment : Timestamp} (valid : moment.Valid) (e : Event) :
    ∃ service, (d.process moment e).2 =
      { d with service, shown := (d.handed (.process moment valid e)).foldl Shown.hand d.shown } := by
  obtain ⟨service, hdecide⟩ := exists_decide_snd d e
  refine ⟨service, ?_⟩
  simp only [handed]
  cases hverdict : (d.decide e).1 with
  | error failure =>
    rw [process_of_failed hverdict]
    exact hdecide
  | ok verdict =>
    cases verdict with
    | suppressed reason =>
      rw [process_of_suppressed hverdict]
      exact hdecide
    | alert found decision request =>
      rw [process_of_alert hverdict, hdecide, present_snd]
      dsimp only
      split <;> rfl

/-- What an operation can do: it registers a sink, switches the dry run, or shows what its history says,
besides what it does to the service and to whether the user is idle. -/
theorem step_eq (d : Dispatcher) (op : Op) : d.step op =
    { d with
      service := (d.step op).service
      idle := (d.step op).idle
      sinks := op.sinksAfter d.sinks
      dryRun := op.switched?.getD d.dryRun
      shown := (d.handed op).foldl Shown.hand d.shown } := by
  cases op with
  | process moment valid e =>
    obtain ⟨service, hprocess⟩ := exists_process_snd d valid e
    simp only [step, hprocess]
    rfl
  | decide e =>
    obtain ⟨service, hdecide⟩ := exists_decide_snd d e
    simp only [step, hdecide]
    rfl
  | _ => rfl

theorem shown_step (d : Dispatcher) (op : Op) :
    (d.step op).shown = (d.handed op).foldl Shown.hand d.shown := by
  rw [step_eq]

theorem bare_sinks_step (d : Dispatcher) (op : Op) :
    (d.step op).sinks.map Sink.bare = (d.sinks ++ op.registered).map Sink.bare := by
  rw [step_eq]
  cases op with
  | register sink => rfl
  | reply place answer =>
    show (d.sinks.modify place (Sink.withReply answer)).map Sink.bare = (d.sinks ++ []).map Sink.bare
    rw [Sink.map_bare_modify_withReply, List.append_nil]
  | _ => exact congrArg (List.map Sink.bare) (List.append_nil d.sinks).symm

theorem dryRun_step (d : Dispatcher) (op : Op) :
    (d.step op).dryRun = op.switched?.getD d.dryRun := by
  rw [step_eq]

theorem sinks_of_mem_handed {op : Op} {h : Handed} (hmem : h ∈ d.handed op) :
    h.sinks = d.sinks := by
  simp only [handed] at hmem
  split at hmem
  · split at hmem
    · split at hmem
      · exact absurd hmem List.not_mem_nil
      · rw [List.mem_singleton.mp hmem]
    · exact absurd hmem List.not_mem_nil
  · exact absurd hmem List.not_mem_nil

/-! ## Runs -/

/-- What has been shown after a run follows from the alerts that were handed to the sinks. -/
theorem shown_run (d : Dispatcher) (ops : List Op) :
    (d.run ops).shown = (d.history ops).foldl Shown.hand d.shown := by
  induction ops generalizing d with
  | nil => rfl
  | cons op ops ih =>
    show ((d.step op).run ops).shown = _
    rw [ih, shown_step, history, List.foldl_append]

theorem bare_sinks_run (d : Dispatcher) (ops : List Op) :
    (d.run ops).sinks.map Sink.bare = (d.sinks ++ ops.flatMap Op.registered).map Sink.bare := by
  induction ops generalizing d with
  | nil => rw [List.flatMap_nil, List.append_nil]; rfl
  | cons op ops ih =>
    show ((d.step op).run ops).sinks.map Sink.bare = _
    rw [ih, List.map_append, bare_sinks_step, ← List.map_append, List.append_assoc, List.flatMap_cons]

theorem dryRun_run (d : Dispatcher) (ops : List Op) :
    (d.run ops).dryRun = (ops.filterMap Op.switched?).getLast?.getD d.dryRun := by
  induction ops generalizing d with
  | nil => rfl
  | cons op ops ih =>
    show ((d.step op).run ops).dryRun = _
    rw [ih, dryRun_step]
    cases hswitched : op.switched? with
    | none => rw [List.filterMap_cons_none hswitched]; rfl
    | some on => rw [List.filterMap_cons_some hswitched, List.getLast?_cons]; rfl

/-- An alert is handed to the sinks that stand there at that time: those of the start, and of the
others the ones that were registered before. -/
theorem sinks_of_mem_history {d : Dispatcher} {ops : List Op} {h : Handed}
    (hmem : h ∈ d.history ops) :
    d.sinks.map Sink.bare <+: h.sinks.map Sink.bare ∧
      h.sinks.map Sink.bare <+: (d.run ops).sinks.map Sink.bare := by
  induction ops generalizing d with
  | nil => exact absurd hmem List.not_mem_nil
  | cons op ops ih =>
    rcases List.mem_append.mp hmem with hnow | hlater
    · rw [sinks_of_mem_handed hnow, bare_sinks_run, List.map_append]
      exact ⟨List.prefix_rfl, List.prefix_append ..⟩
    · obtain ⟨hfrom, hto⟩ := ih hlater
      rw [bare_sinks_step, List.map_append] at hfrom
      exact ⟨(List.prefix_append ..).trans hfrom, hto⟩

/-- A recorder that stands there at the start stands there whenever an alert is handed to the sinks. -/
theorem recorder_mem_of_mem_history {d : Dispatcher} {ops : List Op} {h : Handed}
    (hmem : h ∈ d.history ops) (hrecorder : .recorder ∈ d.sinks) : .recorder ∈ h.sinks := by
  have hbare : Sink.recorder ∈ d.sinks.map Sink.bare := List.mem_map.mpr ⟨_, hrecorder, rfl⟩
  obtain ⟨sink, hsink, heq⟩ := List.mem_map.mp ((sinks_of_mem_history hmem).1.subset hbare)
  exact Sink.bare_eq_recorder heq ▸ hsink

/-- **`run_presents`** — after any run of a dispatcher that had shown nothing, whatever event comes
next, its alert goes to the sinks that were registered, each of which answers in its place, and they
are skipped if the last switch was to a dry run.  The collecting sink holds the alerts that were handed
to it, in order and once for every time it stood among the sinks then, which are those of the start
and the ones registered before, and with them the recorder if the settings name a file of records; and
in a file that was missing or empty and can be written, the records that can be read are what is left of
the records of those alerts. -/
theorem run_presents (config : Config) (service : Service) (idle : Bool) (sinks : List Sink)
    (dryRun : Bool) (records : RecordFile) (ops : List Op) :
    let d := start config service idle sinks dryRun records
    (∀ moment e, (d.run ops).Presents moment e) ∧
      (d.run ops).sinks.map Sink.bare =
        ((if config.recordPath.isSome then [Sink.recorder] else []) ++ sinks ++
          ops.flatMap Op.registered).map Sink.bare ∧
      (d.run ops).dryRun = (ops.filterMap Op.switched?).getLast?.getD dryRun ∧
      (∀ h ∈ d.history ops, d.sinks.map Sink.bare <+: h.sinks.map Sink.bare ∧
        h.sinks.map Sink.bare <+: (d.run ops).sinks.map Sink.bare) ∧
      (config.recordPath.isSome = true → ∀ h ∈ d.history ops, .recorder ∈ h.sinks) ∧
      (d.run ops).shown.collected = (d.history ops).flatMap Handed.copies ∧
      (records.content = .missing ∨ records.content = .present .empty → records.Writable →
        RecordStore.readAll (d.run ops).shown.records.content =
          RecordStore.retained ((d.history ops).flatMap Handed.records)) ∧
      ∀ moment request, (AlertRecord.ofRequest moment request).RecordsOf request := by
  intro d
  refine ⟨presents _, bare_sinks_run d ops, dryRun_run d ops, fun h hmem => sinks_of_mem_history hmem,
    fun hpath h hmem => recorder_mem_of_mem_history hmem ?_, ?_, fun hcontent hwritable => ?_,
    AlertRecord.recordsOf_ofRequest⟩
  · show Sink.recorder ∈ (if config.recordPath.isSome then [Sink.recorder] else []) ++ sinks
    rw [if_pos hpath]
    exact List.mem_append_left _ List.mem_cons_self
  · rw [shown_run]
    exact Shown.collected_foldl_hand d.shown (d.history ops)
  · rw [shown_run]
    have hnone : d.shown.Records [] := ⟨RecordFile.holds_nil hcontent, hwritable⟩
    exact (hnone.foldl_hand (d.history ops)).holds.readAll_eq

end Dispatcher

end AlertRules
