import AlertRules.Decision
import AlertRules.Proofs.KeyMap
import Mathlib.Data.List.Induction

/-!
# AlertRules.Proofs.Decision.Folding — the later action counts

Actions amount to what the last ones say: to an alert if the last action that asks for one or refuses
one asks for it, and to the value that each tweak was given last (`Folds`).  So of two lists in a row
the second overrides the first, and an action goes without a trace if it is unknown, or sets a tweak
that is set again (`later_actions_count`).
-/

namespace AlertRules

/-! ## What actions amount to -/

/-- Whether the action asks for an alert or refuses one, if it does either. -/
def Action.asks? : Action → Option Bool
  | .notify => some true
  | .coalesce => some true
  | .dontNotify => some false
  | .setTweak _ _ => none
  | .other _ => none

/-- The value that the action gives to the tweak of that name, which is true when it comes without one.
-/
def Action.tweak? (name : String) : Action → Option Json
  | .setTweak name' value => if name = name' then some (value.getD (.bool true)) else none
  | _ => none

namespace Decision

/-- **`decision.Folds actions`** — there is an alert if the last action that asks for one or refuses one
asks for it, and every tweak has the value that it was given last. -/
structure Folds (decision : Decision) (actions : List Action) : Prop where
  notify : decision.notify = ((actions.filterMap Action.asks?).getLast?).getD false
  tweak : ∀ name, decision.tweaks.get? name = (actions.filterMap (Action.tweak? name)).getLast?

theorem getLast?_filterMap_concat {α β : Type} (f : α → Option β) (as : List α) (a : α) :
    ((as ++ [a]).filterMap f).getLast? = (f a).or (as.filterMap f).getLast? := by
  rw [List.filterMap_append, List.getLast?_append]
  cases hf : f a with
  | none => rw [List.filterMap_cons_none hf, List.filterMap_nil]; rfl
  | some b => rw [List.filterMap_cons_some hf, List.filterMap_nil]; rfl

/-- One more action is folded in. -/
theorem Folds.after {decision : Decision} {actions : List Action} (h : decision.Folds actions)
    (a : Action) : (decision.after a).Folds (actions ++ [a]) := by
  constructor
  · rw [getLast?_filterMap_concat]
    cases a with
    | notify => rfl
    | coalesce => rfl
    | dontNotify => rfl
    | setTweak name value => exact h.notify
    | other word => exact h.notify
  · intro name
    rw [getLast?_filterMap_concat, ← h.tweak]
    cases a with
    | setTweak name' value =>
      rw [Decision.after, KeyMap.get?_insert, Action.tweak?]
      split <;> rfl
    | _ => rfl

theorem folds_resolve (actions : List Action) : (resolve actions).Folds actions := by
  induction actions using List.reverseRecOn with
  | nil => exact ⟨rfl, fun name => rfl⟩
  | append_singleton actions a ih =>
    have hresolve : resolve (actions ++ [a]) = (resolve actions).after a := by
      rw [resolve, List.foldl_append]
      rfl
    rw [hresolve]
    exact ih.after a

/-- Actions amount to one thing only. -/
theorem folds_iff {decision : Decision} {actions : List Action} :
    decision.Folds actions ↔ resolve actions = decision := by
  constructor
  · intro h
    have hresolve := folds_resolve actions
    cases hdecision : resolve actions
    cases decision
    rw [hdecision] at hresolve
    congr 1
    · exact hresolve.notify.trans h.notify.symm
    · exact KeyMap.ext_get? fun name => (hresolve.tweak name).trans (h.tweak name).symm
  · rintro rfl
    exact folds_resolve actions

/-! ## The last action that says something -/

/-- The last value is given by an action behind which no other gives one. -/
theorem getLast?_filterMap_eq_some_iff {α β : Type} {f : α → Option β} {as : List α} {b : β} :
    (as.filterMap f).getLast? = some b ↔
      ∃ before a after, as = before ++ a :: after ∧ f a = some b ∧ ∀ a' ∈ after, f a' = none := by
  rw [List.getLast?_filterMap, List.findSome?_eq_some_iff]
  constructor
  · rintro ⟨after, a, before, hsplit, ha, hafter⟩
    refine ⟨before.reverse, a, after.reverse, ?_, ha, ?_⟩
    · rw [← List.reverse_reverse as, hsplit]
      simp
    · simpa using hafter
  · rintro ⟨before, a, after, rfl, ha, hafter⟩
    exact ⟨after.reverse, a, before.reverse, by simp, ha, by simpa using hafter⟩

end Decision

namespace Action

variable {a : Action} {name : String}

theorem asks?_eq_true_iff : a.asks? = some true ↔ a = .notify ∨ a = .coalesce := by
  cases a <;> simp [asks?]

theorem asks?_eq_false_iff : a.asks? = some false ↔ a = .dontNotify := by
  cases a <;> simp [asks?]

theorem tweak?_eq_some_iff {v : Json} :
    a.tweak? name = some v ↔ ∃ value, a = .setTweak name value ∧ v = value.getD (.bool true) := by
  cases a with
  | setTweak name' value =>
    rw [tweak?]
    by_cases hname : name = name'
    · subst hname
      simp [eq_comm]
    · simp [hname, Ne.symm hname]
  | _ => simp [tweak?]

theorem tweak?_eq_none_iff : a.tweak? name = none ↔ ∀ value, a ≠ .setTweak name value := by
  cases a with
  | setTweak name' value =>
    rw [tweak?]
    by_cases hname : name = name'
    · subst hname
      simp
    · simp [hname, Ne.symm hname]
  | _ => simp [tweak?]

end Action

namespace Decision

variable {actions xs ys : List Action} {name : String}

/-- One of the actions asks for an alert or refuses one. -/
def Asked (actions : List Action) : Prop :=
  .notify ∈ actions ∨ .coalesce ∈ actions ∨ .dontNotify ∈ actions

theorem asked_iff : Asked actions ↔ ∃ a ∈ actions, ∃ b, a.asks? = some b := by
  constructor
  · rintro (h | h | h)
    · exact ⟨_, h, true, rfl⟩
    · exact ⟨_, h, true, rfl⟩
    · exact ⟨_, h, false, rfl⟩
  · rintro ⟨a, ha, b, hb⟩
    cases a with
    | notify => exact .inl ha
    | coalesce => exact .inr (.inl ha)
    | dontNotify => exact .inr (.inr ha)
    | setTweak name value => exact absurd hb (by simp [Action.asks?])
    | other word => exact absurd hb (by simp [Action.asks?])

/-- Whether there is an alert is decided by the second list if it says anything about that. -/
theorem notify_append (xs : List Action) (h : Asked ys) :
    (resolve (xs ++ ys)).notify = (resolve ys).notify := by
  obtain ⟨a, ha, b, hb⟩ := asked_iff.mp h
  have hne : ys.filterMap Action.asks? ≠ [] :=
    List.ne_nil_of_mem (List.mem_filterMap.mpr ⟨a, ha, hb⟩)
  rw [(folds_resolve _).notify, (folds_resolve _).notify, List.filterMap_append,
    List.getLast?_append, List.getLast?_eq_some_getLast hne, Option.some_or]

/-- Otherwise it is decided by the first. -/
theorem notify_append_of_not (xs : List Action) (h : ¬ Asked ys) :
    (resolve (xs ++ ys)).notify = (resolve xs).notify := by
  have hnone : ys.filterMap Action.asks? = [] := by
    rw [List.filterMap_eq_nil_iff]
    intro a ha
    by_contra hasks
    obtain ⟨b, hb⟩ := Option.ne_none_iff_exists'.mp hasks
    exact h (asked_iff.mpr ⟨a, ha, b, hb⟩)
  rw [(folds_resolve _).notify, (folds_resolve _).notify, List.filterMap_append, hnone,
    List.append_nil]

/-- The tweaks of the second list override those of the first. -/
theorem tweaks_append (xs ys : List Action) (name : String) :
    (resolve (xs ++ ys)).tweaks.get? name =
      ((resolve ys).tweaks.get? name).or ((resolve xs).tweaks.get? name) := by
  rw [(folds_resolve _).tweak, (folds_resolve _).tweak, (folds_resolve _).tweak,
    List.filterMap_append, List.getLast?_append]

/-- There is an alert iff some action asks for one that no later action refuses. -/
theorem notify_resolve_iff :
    (resolve actions).notify = true ↔
      ∃ before a after, actions = before ++ a :: after ∧ (a = .notify ∨ a = .coalesce) ∧
        .dontNotify ∉ after := by
  rw [(folds_resolve _).notify, Option.getD_eq_iff]
  constructor
  · rintro (hlast | ⟨-, hfalse⟩)
    · obtain ⟨before, a, after, hsplit, ha, hafter⟩ := getLast?_filterMap_eq_some_iff.mp hlast
      refine ⟨before, a, after, hsplit, Action.asks?_eq_true_iff.mp ha, fun hmem => ?_⟩
      exact absurd (hafter _ hmem) (by simp [Action.asks?])
    · exact absurd hfalse (by simp)
  · rintro ⟨before, a, after, rfl, ha, hafter⟩
    refine .inl ?_
    rw [List.filterMap_append, List.filterMap_cons_some (Action.asks?_eq_true_iff.mpr ha),
      List.getLast?_append, List.getLast?_cons, Option.some_or]
    cases hlast : (after.filterMap Action.asks?).getLast? with
    | none => rfl
    | some b =>
      obtain ⟨_, a', _, hsplit, ha', -⟩ := getLast?_filterMap_eq_some_iff.mp hlast
      cases b with
      | true => rfl
      | false =>
        obtain rfl := Action.asks?_eq_false_iff.mp ha'
        exact absurd (hsplit ▸ List.mem_append_right _ List.mem_cons_self) hafter

/-- A tweak has the value that it was given last. -/
theorem tweak_resolve_iff {v : Json} :
    (resolve actions).tweaks.get? name = some v ↔
      ∃ before value after, actions = before ++ .setTweak name value :: after ∧
        (∀ value', .setTweak name value' ∉ after) ∧ v = value.getD (.bool true) := by
  rw [(folds_resolve _).tweak, getLast?_filterMap_eq_some_iff]
  constructor
  · rintro ⟨before, a, after, hsplit, ha, hafter⟩
    obtain ⟨value, rfl, hv⟩ := Action.tweak?_eq_some_iff.mp ha
    exact ⟨before, value, after, hsplit,
      fun value' hmem => Action.tweak?_eq_none_iff.mp (hafter _ hmem) value' rfl, hv⟩
  · rintro ⟨before, value, after, hsplit, hafter, hv⟩
    refine ⟨before, _, after, hsplit, Action.tweak?_eq_some_iff.mpr ⟨value, rfl, hv⟩, ?_⟩
    intro a ha
    rw [Action.tweak?_eq_none_iff]
    rintro value' rfl
    exact hafter value' ha

/-! ## Actions without a trace -/

/-- **`Thinned actions rest`** — from the actions unknown ones have been dropped, and tweaks that are set
again later. -/
inductive Thinned : List Action → List Action → Prop
  | nil : Thinned [] []
  | keep {actions rest : List Action} (a : Action) (h : Thinned actions rest) :
      Thinned (a :: actions) (a :: rest)
  | unknown {actions rest : List Action} (word : String) (h : Thinned actions rest) :
      Thinned (.other word :: actions) rest
  | overwritten {actions rest : List Action} (name : String) (value : Option Json)
      {value' : Option Json} (hlater : .setTweak name value' ∈ actions) (h : Thinned actions rest) :
      Thinned (.setTweak name value :: actions) rest

variable {rest : List Action}

theorem Thinned.asks (h : Thinned actions rest) :
    actions.filterMap Action.asks? = rest.filterMap Action.asks? := by
  induction h with
  | nil => rfl
  | keep a h ih => rw [List.filterMap_cons, List.filterMap_cons, ih]
  | unknown word h ih => exact ih
  | overwritten name value hlater h ih => exact ih

theorem Thinned.tweak (h : Thinned actions rest) (name : String) :
    (actions.filterMap (Action.tweak? name)).getLast? =
      (rest.filterMap (Action.tweak? name)).getLast? := by
  induction h with
  | nil => rfl
  | keep a h ih =>
    cases ha : a.tweak? name with
    | none => rw [List.filterMap_cons_none ha, List.filterMap_cons_none ha, ih]
    | some v =>
      rw [List.filterMap_cons_some ha, List.filterMap_cons_some ha, List.getLast?_cons,
        List.getLast?_cons, ih]
  | unknown word h ih => exact ih
  | @overwritten actions rest name' value value' hlater h ih =>
    rw [← ih]
    by_cases hname : name = name'
    · subst hname
      have hne : actions.filterMap (Action.tweak? name) ≠ [] :=
        List.ne_nil_of_mem (List.mem_filterMap.mpr ⟨_, hlater, if_pos rfl⟩)
      have hvalue : (Action.setTweak name value).tweak? name = some (value.getD (.bool true)) :=
        if_pos rfl
      rw [List.filterMap_cons_some hvalue, List.getLast?_cons, List.getLast?_eq_some_getLast hne]
      rfl
    · have hvalue : (Action.setTweak name' value).tweak? name = none := if_neg hname
      rw [List.filterMap_cons_none hvalue]

/-- What is dropped changes nothing. -/
theorem Thinned.resolve_eq (h : Thinned actions rest) : resolve rest = resolve actions := by
  rw [← folds_iff]
  have hfolds := folds_resolve actions
  exact ⟨h.asks ▸ hfolds.notify, fun name => h.tweak name ▸ hfolds.tweak name⟩

/-- **`later_actions_count`** — of two lists in a row the second decides whether there is an alert if it
says anything about that, and its tweaks override those of the first.  So there is an alert iff some
action asks for one that no later action refuses, each tweak has the value that it was given last, which
is true when it came without one, and unknown actions and tweaks that are set again can be dropped. -/
theorem later_actions_count (xs ys : List Action) :
    ((Asked ys → (resolve (xs ++ ys)).notify = (resolve ys).notify) ∧
      (¬ Asked ys → (resolve (xs ++ ys)).notify = (resolve xs).notify)) ∧
    (∀ name, (resolve (xs ++ ys)).tweaks.get? name =
      ((resolve ys).tweaks.get? name).or ((resolve xs).tweaks.get? name)) ∧
    ((resolve xs).notify = true ↔
      ∃ before a after, xs = before ++ a :: after ∧ (a = .notify ∨ a = .coalesce) ∧
        .dontNotify ∉ after) ∧
    (∀ name v, (resolve xs).tweaks.get? name = some v ↔
      ∃ before value after, xs = before ++ .setTweak name value :: after ∧
        (∀ value', .setTweak name value' ∉ after) ∧ v = value.getD (.bool true)) ∧
    (∀ rest, Thinned xs rest → resolve rest = resolve xs) :=
  ⟨⟨notify_append xs, notify_append_of_not xs⟩, tweaks_append xs ys, notify_resolve_iff,
    fun _ _ => tweak_resolve_iff, fun _ => Thinned.resolve_eq⟩

/-- Actions of which the second half says all. -/
def noisy : List Action :=
  [.setTweak "sound" (some (.str "ring")), .other "mystery", .dontNotify, .setTweak "sound" none,
    .coalesce]

/-- An alert that is asked for last is refused by one more action, and leaves the sound alone. -/
theorem later_actions_count_noisy :
    Thinned noisy [.dontNotify, .setTweak "sound" none, .coalesce] ∧
      resolve [.dontNotify, .setTweak "sound" none, .coalesce] = resolve noisy ∧
      (resolve noisy).notify = true ∧ Asked [.dontNotify] ∧
      (resolve (noisy ++ [.dontNotify])).notify = false ∧
      (resolve (noisy ++ [.dontNotify])).tweaks.get? "sound" = some (.bool true) := by
  obtain ⟨⟨hasked, -⟩, htweaks, hnotify, htweak, hthinned⟩ := later_actions_count noisy [.dontNotify]
  have hlater : Action.setTweak "sound" none ∈
      [.other "mystery", .dontNotify, .setTweak "sound" none, .coalesce] := by simp
  have hrest : Thinned noisy [.dontNotify, .setTweak "sound" none, .coalesce] :=
    .overwritten "sound" (some (.str "ring")) hlater
      (.unknown "mystery" (.keep _ (.keep _ (.keep _ .nil))))
  have hlast : Asked [.dontNotify] := .inr (.inr (List.mem_singleton_self _))
  have hsound : (resolve noisy).tweaks.get? "sound" = some (.bool true) :=
    (htweak "sound" (.bool true)).mpr
      ⟨[.setTweak "sound" (some (.str "ring")), .other "mystery", .dontNotify], none, [.coalesce], rfl,
        by simp, rfl⟩
  refine ⟨hrest, hthinned _ hrest, ?_, hlast, ?_, ?_⟩
  · exact hnotify.mpr ⟨[.setTweak "sound" (some (.str "ring")), .other "mystery", .dontNotify,
      .setTweak "sound" none], .coalesce, [], rfl, .inr rfl, List.not_mem_nil⟩
  · rw [hasked hlast]
    rfl
  · rw [htweaks, hsound]
    rfl

end Decision

end AlertRules
