import AlertRules.Matching

/-!
# AlertRules.Proofs.Matching.Cached — a cache of globs changes no answer

The search is written over any way to obtain compiled globs.  Two ways that give the same matchers give
the same answers, step by step (`Agrees`).  What a cache keeps is what compiling gives, so a search that
asks a cache finds the rule that is found without one, whatever the cache holds
(`Ruleset.matchCached?_eq_match?`).
-/

namespace AlertRules

/-! ## Searches that agree -/

/-- Whatever is kept, the search `x` with a cache gives what `y` gives. -/
def Agrees {α : Type} (x : StateM Glob.Cache α) (y : Id α) : Prop :=
  ∀ globs, (x.run globs).1 = y.run

section Agreement

variable {α β : Type}

theorem Agrees.pure (a : α) : Agrees (Pure.pure a) (Pure.pure a) :=
  fun _ => rfl

theorem Agrees.bind {x : StateM Glob.Cache α} {y : Id α} {f : α → StateM Glob.Cache β}
    {g : α → Id β} (hx : Agrees x y) (hf : ∀ a, Agrees (f a) (g a)) :
    Agrees (x >>= f) (y >>= g) := by
  intro globs
  show ((f (x.run globs).1).run (x.run globs).2).1 = (g y.run).run
  rw [hx globs]
  exact hf y.run _

theorem agrees_cached (key : Glob.CacheKey) : Agrees (cached key) (compiling key) :=
  fun globs => globs.get_eq_compile? key

end Agreement

/-! ## From conditions to rule sets -/

section Search

variable (s : Setting) (e : Event)

theorem agrees_eventMatches (key pattern : Option String) :
    Agrees (eventMatches cached s key pattern e) (eventMatches compiling s key pattern e) := by
  unfold eventMatches
  split
  · split
    · exact .pure false
    · exact .bind (agrees_cached _) fun matcher => .pure _
  · exact .pure false

theorem agrees_conditionHolds (c : Condition) :
    Agrees (conditionHolds cached s e c) (conditionHolds compiling s e c) := by
  cases c with
  | eventMatch key pattern => exact agrees_eventMatches s e key pattern
  | _ => exact .pure _

theorem agrees_allHold (cs : List Condition) :
    Agrees (allHold cached s e cs) (allHold compiling s e cs) := by
  induction cs with
  | nil => exact .pure true
  | cons c cs ih =>
    refine .bind (agrees_conditionHolds s e c) fun holds => ?_
    cases holds with
    | true => exact ih
    | false => exact .pure false

theorem agrees_ruleHolds (kind : Kind) (r : Rule) :
    Agrees (ruleHolds cached s kind e r) (ruleHolds compiling s kind e r) := by
  unfold ruleHolds
  split
  · split
    · exact agrees_allHold s e _
    · exact .pure false
  · exact .pure false

theorem agrees_firstRule? (kind : Kind) (rs : List Rule) :
    Agrees (firstRule? cached s kind e rs) (firstRule? compiling s kind e rs) := by
  induction rs with
  | nil => exact .pure none
  | cons r rs ih =>
    refine .bind (agrees_ruleHolds s e kind r) fun holds => ?_
    cases holds with
    | true => exact .pure _
    | false => exact ih

theorem agrees_firstOfKinds? (set : KindSet) (kinds : List Kind) :
    Agrees (firstOfKinds? cached s e set kinds) (firstOfKinds? compiling s e set kinds) := by
  induction kinds with
  | nil => exact .pure none
  | cons kind kinds ih =>
    refine .bind (agrees_firstRule? s e kind (set.rules kind)) fun found => ?_
    cases found with
    | some r => exact .pure _
    | none => exact ih

theorem agrees_firstInSet? (set : KindSet) :
    Agrees (firstInSet? cached s e set) (firstInSet? compiling s e set) :=
  agrees_firstOfKinds? s e set Kind.precedence

theorem agrees_firstOfDevices? (devices : List (String × KindSet)) :
    Agrees (firstOfDevices? cached s e devices) (firstOfDevices? compiling s e devices) := by
  induction devices with
  | nil => exact .pure none
  | cons d devices ih =>
    refine .bind (agrees_firstInSet? s e d.2) fun found => ?_
    cases found with
    | some answer => exact .pure _
    | none => exact ih

theorem agrees_firstInRuleset? (rules : Ruleset) :
    Agrees (firstInRuleset? cached s e rules) (firstInRuleset? compiling s e rules) := by
  refine .bind (agrees_firstOfDevices? s e rules.device.entries) fun found => ?_
  cases found with
  | some answer => exact .pure _
  | none =>
    refine .bind (agrees_firstInSet? s e rules.global) fun answer => ?_
    cases answer with
    | some pair => exact .pure _
    | none => exact .pure none

end Search

/-- With a cache of globs, whatever it holds, the same rule is found as without one. -/
theorem Ruleset.matchCached?_eq_match? (rules : Ruleset) (s : Setting) (e : Event)
    (globs : Glob.Cache) : ((rules.matchCached? s e).run globs).1 = rules.match? s e :=
  agrees_firstInRuleset? s e rules globs

end AlertRules
