import AlertRules.Event
import AlertRules.Proofs.Text.Lines

/-!
# AlertRules.Proofs.Event — two ways to read an event

What an event says can be read by an accessor or under a key.  A key without dots names a member of
the event, and behind `content.` a member of the content, so that for these the two ways find the same
text (`at?_member`, `at?_content`).

The sender is the exception.  It may stand where the key does not see it: behind a `user_id` that is no
text (`SenderHidden`).  The accessor `userId?` looks further there, the key does not, and there alone
the two ways differ (`readers_agree`).
-/

namespace AlertRules

/-! ## Keys -/

namespace Text

theorem dotted_of_notMem {s : String} (h : '.' ∉ s.toList) : dotted s = [s] := by
  rw [dotted, pieces_of_notMem h, List.map_singleton, String.ofList_toList]

/-- What stands in front of the first dot is the first part. -/
theorem dotted_append {s : String} (h : '.' ∉ s.toList) (t : String) :
    dotted (s ++ "." ++ t) = s :: dotted t := by
  have hsplit : (s ++ "." ++ t).toList = s.toList ++ '.' :: t.toList := by
    rw [String.toList_append, String.toList_append, List.append_assoc]
    rfl
  rw [dotted, hsplit, pieces_append_cons h, List.map_cons, String.ofList_toList]
  rfl

end Text

namespace Event

open Text (dotted dotted_of_notMem dotted_append)

/-! ## Texts under keys -/

/-- A value that is reached by its parts is found under its key; only `user_id` looks further. -/
theorem at?_eq_follow (e : Event) {key : String} (hkey : key ≠ "") (hother : key ≠ "user_id") :
    e.at? key = follow (dotted key) e.raw := by
  rw [at?, if_neg hkey]
  cases follow (dotted key) e.raw with
  | some j => rfl
  | none => exact if_neg hother

/-- A key without dots names a member of the event. -/
theorem at?_member (e : Event) {name : String} (hplain : '.' ∉ name.toList) (hname : name ≠ "")
    (hother : name ≠ "user_id") : (e.at? name).bind Json.text? = e.textMember? name := by
  rw [e.at?_eq_follow hname hother, dotted_of_notMem hplain]
  show ((e.raw.field? name).bind some).bind Json.text? = _
  rw [Option.bind_fun_some]
  rfl

/-- Behind `content.` a key without further dots names a member of the content. -/
theorem at?_content (e : Event) {key name : String} (hkey : key = "content" ++ "." ++ name)
    (hplain : '.' ∉ name.toList) : (e.at? key).bind Json.text? = e.contentText? name := by
  have hdot : '.' ∈ key.toList := by
    rw [hkey, String.toList_append]
    exact List.mem_append_left _ (by decide)
  have hne : key ≠ "" := by
    rintro rfl
    exact absurd hdot (by decide)
  have hother : key ≠ "user_id" := by
    rintro rfl
    exact absurd hdot (by decide)
  rw [e.at?_eq_follow hne hother, hkey, dotted_append (by decide), dotted_of_notMem hplain]
  show ((e.raw.field? "content").bind fun j => (j.field? name).bind some).bind Json.text? = _
  simp only [Option.bind_fun_some]
  rfl

/-! ## The sender -/

/-- The event names its sender, but has something else than a text under `user_id`. -/
def SenderHidden (e : Event) : Prop :=
  (∃ j, e.raw.field? "user_id" = some j ∧ j.text? = none) ∧ e.textMember? "sender" ≠ none

/-- Under the key `user_id` the same text is found as by the accessor, unless the sender is hidden. -/
theorem at?_userId_eq_some_iff {e : Event} {v : String} :
    (e.at? "user_id").bind Json.text? = some v ↔ ¬ e.SenderHidden ∧ e.userId? = some v := by
  have hdotted : dotted "user_id" = ["user_id"] := dotted_of_notMem (by decide)
  rw [at?, if_neg (by decide), hdotted]
  simp only [follow, SenderHidden, userId?, textMember?]
  cases e.raw.field? "user_id" with
  | none => simp
  | some j =>
    simp only [Option.bind_some, Option.some.injEq, exists_eq_left']
    cases j.text? with
    | none => cases (e.raw.field? "sender").bind Json.text? <;> simp
    | some user => simp

/-- A hidden sender is known to the accessor. -/
theorem SenderHidden.userId?_ne_none {e : Event} (h : e.SenderHidden) : e.userId? ≠ none := by
  obtain ⟨⟨j, hj, hnone⟩, hsender⟩ := h
  have huser : e.textMember? "user_id" = none := by
    rw [textMember?, hj]
    exact hnone
  rw [userId?, huser]
  exact hsender

theorem at?_userId_eq_iff {e : Event} :
    (e.at? "user_id").bind Json.text? = e.userId? ↔ ¬ e.SenderHidden := by
  constructor
  · intro heq hhidden
    obtain ⟨v, hv⟩ := Option.ne_none_iff_exists'.mp hhidden.userId?_ne_none
    rw [hv, at?_userId_eq_some_iff] at heq
    exact heq.1 hhidden
  · intro hseen
    apply Option.ext
    intro v
    rw [at?_userId_eq_some_iff, and_iff_right hseen]

/-! ## Both ways -/

/-- An accessor and its key find the same text in every event; for the sender they do exactly if it
is not hidden. -/
theorem readers_agree (e : Event) :
    (e.at? "type").bind Json.text? = e.type? ∧
    (e.at? "room_id").bind Json.text? = e.roomId? ∧
    (e.at? "state_key").bind Json.text? = e.stateKey? ∧
    (e.at? "content.body").bind Json.text? = e.body? ∧
    (e.at? "content.msgtype").bind Json.text? = e.messageType? ∧
    (e.at? "content.membership").bind Json.text? = e.membership? ∧
    ((e.at? "user_id").bind Json.text? = e.userId? ↔ ¬ e.SenderHidden) := by
  refine ⟨?type, ?room, ?state, ?body, ?messageType, ?membership, at?_userId_eq_iff⟩
  case type => exact e.at?_member (by decide) (by decide) (by decide)
  case room => exact e.at?_member (by decide) (by decide) (by decide)
  case state => exact e.at?_member (by decide) (by decide) (by decide)
  case body =>
    have hkey : "content.body" = "content" ++ "." ++ "body" := by decide
    exact e.at?_content hkey (by decide)
  case messageType =>
    have hkey : "content.msgtype" = "content" ++ "." ++ "msgtype" := by decide
    exact e.at?_content hkey (by decide)
  case membership =>
    have hkey : "content.membership" = "content" ++ "." ++ "membership" := by decide
    exact e.at?_content hkey (by decide)

/-- A number under `user_id` hides the sender from the key. -/
theorem not_always_same_sender :
    ¬ ∀ e : Event, (e.at? "user_id").bind Json.text? = e.userId? := by
  intro h
  let five : Json := .num (.int 5 (by decide))
  let e : Event := ⟨.obj [("sender", .str "@u:x"), ("user_id", five)]⟩
  have hhidden : e.SenderHidden := ⟨⟨five, rfl, rfl⟩, by decide⟩
  exact at?_userId_eq_iff.mp (h e) hhidden

end Event

end AlertRules
