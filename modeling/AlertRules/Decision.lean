import AlertRules.Action

/-!
# AlertRules.Decision — what the actions of a rule amount to

The actions of a rule are read one after the other, and the later one counts: `notify` and `coalesce`
ask for an alert, `dont_notify` refuses it, and a tweak replaces an earlier one of its name.  A tweak
without a value is true.
-/

namespace AlertRules

/-- Whether to alert, and with which tweaks. -/
structure Decision where
  notify : Bool
  tweaks : KeyMap Json

namespace Decision

/-- Without any action: no alert, no tweaks. -/
def initial : Decision := ⟨false, .empty⟩

/-- The decision when one more action has been read. -/
def after (d : Decision) : Action → Decision
  | .notify => { d with notify := true }
  | .coalesce => { d with notify := true }
  | .dontNotify => { d with notify := false }
  | .setTweak name value => { d with tweaks := d.tweaks.insert name (value.getD (.bool true)) }
  | .other _ => d

/-- What the actions amount to. -/
def resolve (actions : List Action) : Decision :=
  actions.foldl after initial

/-- Everything but null, false, zero and the empty text. -/
def isTruthy : Json → Bool
  | .null => false
  | .bool b => b
  | .num n => !n.isZero
  | .str s => s != ""
  | .arr _ => true
  | .obj _ => true

/-- The highlight tweak is set to something truthy. -/
def highlight (d : Decision) : Bool :=
  (d.tweaks.get? "highlight").any isTruthy

/-- The value of the sound tweak. -/
def sound? (d : Decision) : Option Json :=
  d.tweaks.get? "sound"

/-- The decision as JSON. -/
def toJson (d : Decision) : Json :=
  .ofMembers [("notify", .bool d.notify), ("tweaks", .ofMap d.tweaks id)]

end Decision

end AlertRules
