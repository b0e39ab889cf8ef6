import AlertRules.Proofs.Dispatcher.Deciding
import AlertRules.Proofs.RecordStore.Retention

/-!
# AlertRules.Proofs.Dispatcher.Presenting — what the sinks get and what they say

A request goes to every sink in the order in which they stand, and each of them gives an answer that
depends on no other sink (`forall_answers_presentAll`).  The collecting sink keeps a copy for every time
it stands there, and so does the recorder, in a file that can be written (`Records.presentAll`).
-/

namespace AlertRules

/-! ## Sinks -/

/-- The sink collects requests. -/
def Sink.isMemory : Sink → Bool
  | .memory => true
  | _ => false

/-- The sink records requests in the file. -/
def Sink.isRecorder : Sink → Bool
  | .recorder => true
  | _ => false

/-- The sink may say so of a request: the collecting one takes every request, the recorder may fail, and
any other sink gives its reply. -/
def Sink.Says (sending : Sending) : Sink → Prop
  | .memory => sending = .sent
  | .recorder => sending = .sent ∨ ∃ reason, sending = .failed reason
  | .replying _ (.ok reply) => sending = reply
  | .replying _ (.error failure) => sending = .failed failure.message

namespace Shown

/-- The recorder leaves everything but the file alone, and says how it went. -/
theorem present_recorder (s : Shown) (moment : Timestamp) (request : Request) :
    s.present moment .recorder request =
      (match (s.records.append (.ofRequest moment request)).1 with
        | .ok () => .sent
        | .error reason => .failed reason,
      { s with records := (s.records.append (.ofRequest moment request)).2 }) := by
  unfold present
  rcases s.records.append (.ofRequest moment request) with ⟨_ | _, records⟩ <;> rfl

theorem says_present (s : Shown) (moment : Timestamp) (sink : Sink) (request : Request) :
    sink.Says (s.present moment sink request).1 := by
  cases sink with
  | memory => rfl
  | recorder =>
    rw [present_recorder]
    dsimp only
    split
    · exact .inl rfl
    · exact .inr ⟨_, rfl⟩
  | replying name reply => cases reply <;> rfl

theorem collected_present (s : Shown) (moment : Timestamp) (sink : Sink) (request : Request) :
    (s.present moment sink request).2.collected =
      s.collected ++ List.replicate (if sink.isMemory then 1 else 0) request := by
  cases sink with
  | memory => rfl
  | recorder =>
    rw [present_recorder]
    exact (List.append_nil _).symm
  | replying name reply => cases reply <;> exact (List.append_nil _).symm

theorem presentAll_cons (s : Shown) (moment : Timestamp) (sink : Sink) (sinks : List Sink)
    (request : Request) :
    s.presentAll moment (sink :: sinks) request =
      ((sink.name, (s.present moment sink request).1) ::
          ((s.present moment sink request).2.presentAll moment sinks request).1,
        ((s.present moment sink request).2.presentAll moment sinks request).2) :=
  rfl

/-- Every sink answers once, in order and under its name. -/
theorem forall_answers_presentAll (s : Shown) (moment : Timestamp) (sinks : List Sink)
    (request : Request) :
    List.Forall₂ (fun sink result => result.1 = sink.name ∧ sink.Says result.2) sinks
      (s.presentAll moment sinks request).1 := by
  induction sinks generalizing s with
  | nil => exact .nil
  | cons sink sinks ih =>
    rw [presentAll_cons]
    exact .cons ⟨rfl, says_present s moment sink request⟩ (ih _)

/-- The collecting sink keeps one copy for every time it stands among the sinks. -/
theorem collected_presentAll (s : Shown) (moment : Timestamp) (sinks : List Sink)
    (request : Request) :
    (s.presentAll moment sinks request).2.collected =
      s.collected ++ List.replicate (sinks.countP Sink.isMemory) request := by
  induction sinks generalizing s with
  | nil => exact (List.append_nil _).symm
  | cons sink sinks ih =>
    rw [presentAll_cons]
    dsimp only
    rw [ih, collected_present, List.append_assoc, List.replicate_append_replicate, List.countP_cons,
      Nat.add_comm]

end Shown

/-! ## The file of records -/

/-- **`s.Records rs`** — the file holds what is left of these records, and it can be written anew. -/
structure Shown.Records (s : Shown) (rs : List AlertRecord) : Prop where
  holds : s.records.Holds (RecordStore.retained rs)
  writable : s.records.Writable

namespace Shown.Records

variable {s : Shown} {rs : List AlertRecord} {moment : Timestamp} {request : Request}

theorem present (h : s.Records rs) (hrecord : (AlertRecord.ofRequest moment request).ReadsBack)
    (sink : Sink) :
    (s.present moment sink request).2.Records
      (rs ++ List.replicate (if sink.isRecorder then 1 else 0) (.ofRequest moment request)) := by
  cases sink with
  | memory => exact (List.append_nil rs).symm ▸ ⟨h.holds, h.writable⟩
  | recorder =>
    obtain ⟨f', happend, -, hwritable⟩ :=
      h.holds.plain.exists_append h.writable (.ofRequest moment request)
    rw [present_recorder, happend]
    refine ⟨?_, hwritable⟩
    show f'.Holds (RecordStore.retained (rs ++ [.ofRequest moment request]))
    rw [RecordStore.retained_concat]
    exact h.holds.append hrecord happend
  | replying name reply =>
    cases reply <;> exact (List.append_nil rs).symm ▸ ⟨h.holds, h.writable⟩

/-- The recorder adds one record for every time it stands among the sinks. -/
theorem presentAll (h : s.Records rs) (hrecord : (AlertRecord.ofRequest moment request).ReadsBack)
    (sinks : List Sink) :
    (s.presentAll moment sinks request).2.Records
      (rs ++ List.replicate (sinks.countP Sink.isRecorder) (.ofRequest moment request)) := by
  induction sinks generalizing s rs with
  | nil => exact (List.append_nil rs).symm ▸ h
  | cons sink sinks ih =>
    have hrest := ih (h.present hrecord sink)
    rw [List.append_assoc, List.replicate_append_replicate, Nat.add_comm, ← List.countP_cons] at hrest
    exact hrest

end Shown.Records

end AlertRules
