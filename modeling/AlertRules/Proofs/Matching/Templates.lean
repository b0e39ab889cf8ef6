import AlertRules.Proofs.Event
import AlertRules.Proofs.Glob.Literal
import AlertRules.Proofs.Matching.Search

/-!
# AlertRules.Proofs.Matching.Templates — templates for rooms and senders

A template for a room or a sender looks for its id under `room_id` or `user_id`.  It looks for it as a
glob: case is ignored, and in strict mode wildcards and classes in the id keep their meaning.  So the
template means the room or the user with that id, and no other, only if the id is a literal glob
(`template_holds_iff`); a single letter in it makes it match ids that differ in case.

A sender may also stand where the template does not see it: behind a `user_id` that is no text
(`Event.SenderHidden`).  The accessor `userId?` looks further there, the dotted key does not.
-/

namespace AlertRules

open Glob (Accepts Literal)

/-! ## What a template matches -/

variable {r : Rule} {s : Setting} {e : Event}

theorem holds_onKey_iff {key pattern : String} (hkey : key ≠ "content.body") :
    (Condition.onKey key pattern).holds s e = true ↔
      ∃ v, (e.at? key).bind Json.text? = some v ∧ Accepts s.mode pattern.toList v.toList := by
  have hanchor : Glob.Anchor.ofKey key = .full := if_neg hkey
  simp only [onKey_holds_iff_isMatch, hanchor, Glob.any_isMatch_iff]

theorem holds_room_iff (hon : r.enabled = true) (hfree : r.conditions = none) :
    r.holds s .room e = true ↔
      ∃ v, e.roomId? = some v ∧ Accepts s.mode r.id.toList v.toList := by
  have hcs : r.conditionsAs .room = some [Condition.onKey "room_id" r.id] := by
    rw [Rule.conditionsAs, hfree]
  have hread : (e.at? "room_id").bind Json.text? = e.roomId? :=
    e.at?_member (by decide) (by decide) (by decide)
  rw [Rule.holds_iff, hcs, ← hread, ← holds_onKey_iff (by decide)]
  simp [hon]

theorem holds_sender_iff (hon : r.enabled = true) (hfree : r.conditions = none) :
    r.holds s .sender e = true ↔
      ¬ e.SenderHidden ∧ ∃ v, e.userId? = some v ∧ Accepts s.mode r.id.toList v.toList := by
  have hcs : r.conditionsAs .sender = some [Condition.onKey "user_id" r.id] := by
    rw [Rule.conditionsAs, hfree]
  have hsought : (∃ v, (e.at? "user_id").bind Json.text? = some v ∧
      Accepts s.mode r.id.toList v.toList) ↔
      ¬ e.SenderHidden ∧ ∃ v, e.userId? = some v ∧ Accepts s.mode r.id.toList v.toList := by
    simp only [Event.at?_userId_eq_some_iff, and_assoc, exists_and_left]
  rw [Rule.holds_iff, hcs, ← hsought, ← holds_onKey_iff (by decide)]
  simp [hon]

/-- Whatever texts are looked at, as long as every text may be met: finding one that the id accepts
is the same as finding the id, iff the id is literal. -/
theorem literal_iff {mode : Glob.Mode} {id : String} {P : Event → Prop} {find : Event → Option String}
    (hfind : ∀ v, ∃ e, P e ∧ find e = some v) :
    (∀ e, P e → ((∃ v, find e = some v ∧ Accepts mode id.toList v.toList) ↔ find e = some id)) ↔
      Literal mode id.toList := by
  rw [← Glob.accepts_self_iff]
  constructor
  · intro h w
    obtain ⟨e, he, hfound⟩ := hfind (String.ofList w)
    have hiff := h e he
    simp only [hfound, Option.some.injEq, exists_eq_left', String.toList_ofList] at hiff
    rw [hiff, ← String.toList_inj, String.toList_ofList]
  · intro h e _
    cases find e with
    | none => simp
    | some v => simp [h, String.toList_inj]

theorem exists_roomId (v : String) : ∃ e : Event, True ∧ e.roomId? = some v :=
  ⟨⟨.obj [("room_id", .str v)]⟩, trivial, rfl⟩

theorem exists_userId (v : String) : ∃ e : Event, ¬ e.SenderHidden ∧ e.userId? = some v := by
  refine ⟨⟨.obj [("user_id", .str v)]⟩, ?_, rfl⟩
  rintro ⟨⟨j, hj, hnone⟩, -⟩
  obtain rfl : Json.str v = j := Option.some.inj hj
  exact absurd hnone (by simp [Json.text?])

/-- A template means the room or the user with its id exactly if the id is literal, and for users
only as far as the sender is not hidden.  Otherwise it takes what the id stands for as a glob. -/
theorem template_holds_iff (r : Rule) (s : Setting) (hon : r.enabled = true)
    (hfree : r.conditions = none) :
    (∀ e, r.holds s .room e = true ↔
      ∃ v, e.roomId? = some v ∧ Accepts s.mode r.id.toList v.toList) ∧
    (∀ e, r.holds s .sender e = true ↔
      ¬ e.SenderHidden ∧ ∃ v, e.userId? = some v ∧ Accepts s.mode r.id.toList v.toList) ∧
    ((∀ e, r.holds s .room e = true ↔ e.roomId? = some r.id) ↔ Literal s.mode r.id.toList) ∧
    ((∀ e, ¬ e.SenderHidden → (r.holds s .sender e = true ↔ e.userId? = some r.id)) ↔
      Literal s.mode r.id.toList) := by
  refine ⟨fun e => holds_room_iff hon hfree, fun e => holds_sender_iff hon hfree, ?rooms, ?senders⟩
  case rooms =>
    rw [← literal_iff exists_roomId]
    simp only [holds_room_iff hon hfree, true_implies]
  case senders =>
    rw [← literal_iff exists_userId]
    refine forall_congr' fun e => forall_congr' fun hseen => ?_
    rw [holds_sender_iff hon hfree, and_iff_right hseen]

/-- An id of digits and signs is literal, in strict mode as well. -/
theorem template_holds_iff_literal :
    let r := Rule.template "!42:10.0.0.1" []
    let s : Setting := ⟨Directory.empty.view, none, .strict⟩
    r.enabled = true ∧ r.conditions = none ∧
      (∀ e, r.holds s .room e = true ↔ e.roomId? = some "!42:10.0.0.1") ∧
      ∀ e, ¬ e.SenderHidden → (r.holds s .sender e = true ↔ e.userId? = some "!42:10.0.0.1") := by
  intro r s
  have hliteral : Literal s.mode r.id.toList := by
    refine ⟨by decide, fun _ => ?plain, ?caseless⟩
    case plain => exact Glob.reads_chars (by decide) (by decide) (by decide)
    case caseless => exact Glob.caseless_of_mask (by decide +kernel) (by decide +kernel)
  obtain ⟨-, -, hrooms, hsenders⟩ := template_holds_iff r s rfl rfl
  exact ⟨rfl, rfl, hrooms.mpr hliteral, hsenders.mpr hliteral⟩

/-- An id with a server between brackets is read as a class, and does not even match itself. -/
theorem not_always_ids :
    ¬ ∀ (r : Rule) (s : Setting) (e : Event), r.enabled = true → r.conditions = none →
      (r.holds s .room e = true ↔ e.roomId? = some r.id) ∧
      (r.holds s .sender e = true ↔ e.userId? = some r.id) := by
  intro h
  let r := Rule.template "@u:[::1]" []
  let s : Setting := ⟨Directory.empty.view, none, .strict⟩
  let e : Event := ⟨.obj [("user_id", .str "@u:[::1]")]⟩
  have hmiss : r.holds s .sender e = false := by decide +kernel
  have hfound := (h r s e rfl rfl).2.mpr rfl
  rw [hmiss] at hfound
  contradiction

end AlertRules
