import AlertRules.Proofs.Decision.Folding
import AlertRules.Proofs.Ruleset.RoundTrip

/-!
# AlertRules.Proofs.Decision.Rereading — what actions amount to when they are read back

Two actions are not read back as they were written: a kept word that is one of the known words is read
as the action of that word (`Disguised`), and a tweak with the value null as one without a value, which
is true.  All others are (`Action.restored_iff`).

So what a list amounts to is the same after it has been written and read exactly if neither shows: the
last action that asks for an alert or refuses one, a kept word counted as what it is read as, asks for
what there was before it, and no tweak has the value null in the end (`effect_restored_iff`).
-/

namespace AlertRules

namespace Action

/-- **`a.Disguised b`** — the action is a kept word, and it is the word of an action that asks for an
alert (`true`) or refuses one (`false`). -/
inductive Disguised : Action → Bool → Prop
  | notify : Disguised (.other "notify") true
  | coalesce : Disguised (.other "coalesce") true
  | dontNotify : Disguised (.other "dont_notify") false

theorem disguised_other_iff {word : String} {b : Bool} :
    (other word).Disguised b ↔ (ofWord word).asks? = some b := by
  constructor
  · intro h
    cases h <;> rfl
  · intro h
    unfold ofWord at h
    split at h
    · rename_i hword
      obtain rfl := Option.some.inj h
      exact hword ▸ .notify
    split at h
    · rename_i hword
      obtain rfl := Option.some.inj h
      exact hword ▸ .dontNotify
    split at h
    · rename_i hword
      obtain rfl := Option.some.inj h
      exact hword ▸ .coalesce
    · exact absurd h (by simp [asks?])

/-- A kept word is read as another action only if it is disguised. -/
theorem ofWord_eq_other_iff {word : String} :
    ofWord word = .other word ↔ ∀ b, ¬ (other word).Disguised b := by
  constructor
  · intro h b hb
    rw [disguised_other_iff, h] at hb
    exact absurd hb (by simp [asks?])
  · intro h
    rw [ofWord, if_neg, if_neg, if_neg]
    · rintro rfl
      exact h true .coalesce
    · rintro rfl
      exact h false .dontNotify
    · rintro rfl
      exact h true .notify

theorem present?_eq_self_iff {v : Option Json} : present? v = v ↔ v ≠ some .null := by
  match v with
  | none => simp [present?]
  | some j => cases j <;> simp [present?]

/-- The actions that are read back as they were written. -/
theorem restored_iff {a : Action} :
    ofJson a.toJson = a ↔
      (∀ b, ¬ a.Disguised b) ∧ ∀ name, a ≠ .setTweak name (some .null) := by
  cases a with
  | setTweak name v =>
    rw [ofJson_toJson_setTweak, setTweak.injEq, present?_eq_self_iff]
    constructor
    · rintro ⟨-, hv⟩
      refine ⟨fun b hb => (nomatch hb), fun name' heq => ?_⟩
      exact hv (setTweak.inj heq).2
    · rintro ⟨-, hv⟩
      exact ⟨rfl, fun heq => hv name (heq ▸ rfl)⟩
  | other word =>
    show ofWord word = .other word ↔ _
    rw [ofWord_eq_other_iff]
    simp
  | _ => exact iff_of_true rfl ⟨fun b hb => (nomatch hb), fun name heq => (nomatch heq)⟩

/-- Read back, an action asks for what it asked for or, if it is disguised, for what it says. -/
theorem asks?_reread_iff {a : Action} {b : Bool} :
    (ofJson a.toJson).asks? = some b ↔ a.asks? = some b ∨ a.Disguised b := by
  cases a with
  | setTweak name v =>
    rw [ofJson_toJson_setTweak]
    exact iff_of_false (by simp [asks?]) (by rintro (h | h) <;> cases h)
  | other word =>
    rw [disguised_other_iff]
    show (ofWord word).asks? = some b ↔ none = some b ∨ _
    simp
  | _ => exact ⟨.inl, fun h => h.resolve_right (by rintro ⟨⟩)⟩

theorem asks?_reread_eq_none_iff {a : Action} :
    (ofJson a.toJson).asks? = none ↔ a.asks? = none ∧ ∀ b, ¬ a.Disguised b := by
  simp only [Option.eq_none_iff_forall_ne_some, ne_eq, asks?_reread_iff, not_or, forall_and]

/-- Every tweak is read back with its value, but for null. -/
theorem tweak?_reread {a : Action} {name : String} (h : a ≠ .setTweak name (some .null)) :
    (ofJson a.toJson).tweak? name = a.tweak? name := by
  cases a with
  | setTweak name' v =>
    rw [ofJson_toJson_setTweak, tweak?, tweak?]
    by_cases hname : name = name'
    · subst hname
      rw [present?_eq_self_iff.mpr fun hv => h (hv ▸ rfl)]
    · rw [if_neg hname, if_neg hname]
  | other word =>
    show (ofWord word).tweak? name = none
    unfold ofWord
    split
    · rfl
    split
    · rfl
    split <;> rfl
  | _ => rfl

end Action

namespace Decision

variable {actions : List Action} {name : String}

theorem ext_iff {d d' : Decision} :
    d = d' ↔ d.notify = d'.notify ∧ ∀ name, d.tweaks.get? name = d'.tweaks.get? name := by
  constructor
  · rintro rfl
    exact ⟨rfl, fun _ => rfl⟩
  · rintro ⟨hnotify, htweaks⟩
    obtain ⟨notify, tweaks⟩ := d
    obtain ⟨notify', tweaks'⟩ := d'
    obtain rfl : notify = notify' := hnotify
    obtain rfl : tweaks = tweaks' := KeyMap.ext_get? htweaks
    rfl

/-- The actions as they are read back from what is written for them. -/
def reread (actions : List Action) : List Action :=
  actions.map fun a => Action.ofJson a.toJson

theorem filterMap_reread {β : Type} (f : Action → Option β) (actions : List Action) :
    (reread actions).filterMap f = actions.filterMap fun a => f (Action.ofJson a.toJson) :=
  List.filterMap_map

/-- Nothing of a list says anything about an alert when it is read back. -/
def Silent (actions : List Action) : Prop :=
  ¬ Asked actions ∧ ∀ a ∈ actions, ∀ b, ¬ a.Disguised b

theorem silent_iff :
    Silent actions ↔ ∀ a ∈ actions, (Action.ofJson a.toJson).asks? = none := by
  simp only [Action.asks?_reread_eq_none_iff]
  constructor
  · rintro ⟨hasked, hdisguised⟩ a ha
    refine ⟨?_, hdisguised a ha⟩
    by_contra hasks
    obtain ⟨b, hb⟩ := Option.ne_none_iff_exists'.mp hasks
    exact hasked (asked_iff.mpr ⟨a, ha, b, hb⟩)
  · intro h
    refine ⟨?_, fun a ha => (h a ha).2⟩
    intro hasked
    obtain ⟨a, ha, b, hb⟩ := asked_iff.mp hasked
    exact absurd ((h a ha).1.symm.trans hb) (by simp)

theorem not_asked_cons {a : Action} {b : Bool} (ha : a.Disguised b) (h : Silent actions) :
    ¬ Asked (a :: actions) := by
  intro hasked
  obtain ⟨a', ha', b', hb'⟩ := asked_iff.mp hasked
  rcases List.mem_cons.mp ha' with rfl | hmem
  · cases ha <;> exact absurd hb' (by simp [Action.asks?])
  · exact h.1 (asked_iff.mpr ⟨a', hmem, b', hb'⟩)

/-- A disguised action behind which the list is silent asks for what there was before it. -/
def Honest (actions : List Action) : Prop :=
  ∀ before a after b, actions = before ++ a :: after → a.Disguised b → Silent after →
    (resolve before).notify = b

/-- Whether there is an alert does not change exactly if the list is honest. -/
theorem notify_reread_iff :
    (resolve (reread actions)).notify = (resolve actions).notify ↔ Honest actions := by
  have hreread := (folds_resolve (reread actions)).notify
  rw [filterMap_reread] at hreread
  constructor
  · rintro h before a after b rfl ha hafter
    have hlast : ((before ++ a :: after).filterMap
        fun a => (Action.ofJson a.toJson).asks?).getLast? = some b :=
      getLast?_filterMap_eq_some_iff.mpr
        ⟨before, a, after, rfl, Action.asks?_reread_iff.mpr (.inr ha), silent_iff.mp hafter⟩
    rw [hlast, Option.getD_some] at hreread
    rw [← hreread, h, notify_append_of_not before (not_asked_cons ha hafter)]
  · intro h
    rw [hreread]
    cases hlast : (actions.filterMap fun a => (Action.ofJson a.toJson).asks?).getLast? with
    | none =>
      have hsilent : Silent actions := silent_iff.mpr fun a ha => by
        rw [List.getLast?_eq_none_iff, List.filterMap_eq_nil_iff] at hlast
        exact hlast a ha
      have hnot := notify_append_of_not [] hsilent.1
      rw [List.nil_append] at hnot
      rw [hnot]
      rfl
    | some b =>
      obtain ⟨before, a, after, rfl, ha, hafter⟩ := getLast?_filterMap_eq_some_iff.mp hlast
      rw [Option.getD_some]
      rcases Action.asks?_reread_iff.mp ha with hasks | hdisguised
      · have hlast' : ((before ++ a :: after).filterMap Action.asks?).getLast? = some b :=
          getLast?_filterMap_eq_some_iff.mpr ⟨before, a, after, rfl, hasks, fun a' ha' =>
            (Action.asks?_reread_eq_none_iff.mp (hafter a' ha')).1⟩
        rw [(folds_resolve _).notify, hlast']
        rfl
      · have hsilent := silent_iff.mpr hafter
        rw [notify_append_of_not before (not_asked_cons hdisguised hsilent)]
        exact (h before a after b rfl hdisguised hsilent).symm

/-- A tweak does not change exactly if it does not have the value null in the end. -/
theorem tweak_reread_iff :
    (resolve (reread actions)).tweaks.get? name = (resolve actions).tweaks.get? name ↔
      ∀ before after, actions = before ++ .setTweak name (some .null) :: after →
        ∃ value, .setTweak name value ∈ after := by
  have hreread := (folds_resolve (reread actions)).tweak name
  rw [filterMap_reread] at hreread
  have hkeep : ∀ as : List Action, (∀ a ∈ as, a.tweak? name = none) →
      ∀ a ∈ as, (Action.ofJson a.toJson).tweak? name = none := by
    intro as has a ha
    rw [Action.tweak?_reread (Action.tweak?_eq_none_iff.mp (has a ha) _)]
    exact has a ha
  constructor
  · rintro h before after rfl
    by_contra hlast
    have hafter : ∀ a ∈ after, a.tweak? name = none := by
      intro a ha
      rw [Action.tweak?_eq_none_iff]
      rintro value rfl
      exact hlast ⟨value, ha⟩
    have hnull : (resolve (before ++ .setTweak name (some .null) :: after)).tweaks.get? name =
        some .null :=
      tweak_resolve_iff.mpr ⟨before, some .null, after, rfl, fun value hmem => hlast ⟨value, hmem⟩, rfl⟩
    have htrue : ((before ++ .setTweak name (some .null) :: after).filterMap
        fun a => (Action.ofJson a.toJson).tweak? name).getLast? = some (.bool true) := by
      refine getLast?_filterMap_eq_some_iff.mpr ⟨before, _, after, rfl, ?_, hkeep after hafter⟩
      rw [Action.ofJson_toJson_setTweak]
      exact if_pos rfl
    rw [hreread, htrue, hnull] at h
    exact absurd h (by simp)
  · intro h
    rw [hreread, (folds_resolve actions).tweak]
    cases hlast : (actions.filterMap (Action.tweak? name)).getLast? with
    | none =>
      rw [List.getLast?_eq_none_iff, List.filterMap_eq_nil_iff] at hlast ⊢
      exact hkeep actions hlast
    | some v =>
      obtain ⟨before, a, after, rfl, ha, hafter⟩ := getLast?_filterMap_eq_some_iff.mp hlast
      refine getLast?_filterMap_eq_some_iff.mpr ⟨before, a, after, rfl, ?_, hkeep after hafter⟩
      rw [Action.tweak?_reread, ha]
      rintro rfl
      obtain ⟨value, hvalue⟩ := h before after rfl
      exact Action.tweak?_eq_none_iff.mp (hafter _ hvalue) value rfl

/-- **`effect_restored_iff`** — an action is read back as it was written unless it is a kept word that is
one of the known words, or a tweak with the value null.  And a list amounts to the same when it is read
back exactly if, of the actions that ask for an alert or refuse one when read back, the last one asks for
what the actions before it amount to in case it is such a word, and if every tweak with the value null is
set again later. -/
theorem effect_restored_iff :
    (∀ a : Action, Action.ofJson a.toJson = a ↔
      (∀ b, ¬ a.Disguised b) ∧ ∀ name, a ≠ .setTweak name (some .null)) ∧
    (∀ actions : List Action,
      resolve (actions.map fun a => Action.ofJson a.toJson) = resolve actions ↔
        (∀ before a after b, actions = before ++ a :: after → a.Disguised b →
          (¬ Asked after ∧ ∀ a' ∈ after, ∀ b', ¬ a'.Disguised b') → (resolve before).notify = b) ∧
        ∀ name before after, actions = before ++ .setTweak name (some .null) :: after →
          ∃ value, .setTweak name value ∈ after) := by
  refine ⟨fun a => Action.restored_iff, fun actions => ?_⟩
  rw [ext_iff]
  exact and_congr notify_reread_iff (forall_congr' fun _ => tweak_reread_iff)

/-- Neither a kept word that is a known one nor a tweak with the value null amounts to the same when it
is read back. -/
theorem not_always_same_effect :
    resolve ([Action.other "notify"].map fun a => Action.ofJson a.toJson) ≠
        resolve [.other "notify"] ∧
      resolve ([Action.setTweak "sound" (some .null)].map fun a => Action.ofJson a.toJson) ≠
        resolve [.setTweak "sound" (some .null)] := by
  constructor
  · intro heq
    exact absurd (congrArg Decision.notify heq) (by decide)
  · intro heq
    have hsound := congrArg (fun d => d.tweaks.get? "sound") heq
    have hread : some (Json.bool true) = some Json.null := hsound
    exact absurd hread (by simp)

end Decision

end AlertRules
