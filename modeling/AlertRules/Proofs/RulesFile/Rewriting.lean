import AlertRules.Proofs.RulesFile.Changes
import AlertRules.Proofs.RulesFile.Ids
import AlertRules.Proofs.RulesFile.Rereading
import AlertRules.Proofs.RulesFile.Scopes

/-!
# AlertRules.Proofs.RulesFile.Rewriting — reading a file that has been changed

What can be read need not be what can be changed.  Reading takes an object or a list for a rule set,
for the rules of a scope and for a rule, and null for a list of rules; a change goes from object to
object to a list, and knows a rule by the id that stands in an object.

After a change the rules of one kind in one scope are those of the new list, all others are as before,
and every number is what its text is read as (`fetch_written`).
-/

namespace AlertRules.RulesFile

open Json (reread)

/-- How deep a list of rules may be. -/
def Scope.depthLimit (s : Scope) (kind : Kind) : Nat :=
  Json.depthLimit - (s.path kind).length

theorem Scope.depthLimit_add (s : Scope) (kind : Kind) :
    s.depthLimit kind + (s.path kind).length = Json.depthLimit := by
  cases s <;> rfl

theorem Scope.one_le_depthLimit (s : Scope) (kind : Kind) : 1 ≤ s.depthLimit kind := by
  cases s with
  | global => exact (by decide : 1 ≤ 125)
  | device name => exact (by decide : 1 ≤ 124)

section Written

variable (path : String) {s : Scope} {kind : Kind} {j : Json} {r : Ruleset}
  {rules rules' : List Json}

/-- What is read from a value that has been written with another list: everything as before, but for
the rules of that list, and every number as its text is read. -/
theorem fetch_written (hj : j.Canonical) (hlimit : j.depth ≤ Json.depthLimit)
    (hread : Ruleset.read j = .ok r) (hrules : listAt? (s.path kind) j = some rules)
    (hcanonical : (Json.arr rules').Canonical)
    (hdepth : (Json.arr rules').depth ≤ s.depthLimit kind) :
    ∃ r₀, Ruleset.read j.reread = .ok r₀ ∧
      r₀.rulesIn s kind = KindSet.wellFormed (rules.map reread) ∧
      fetch path (holding (withListAt rules' (s.path kind) j)) =
        .ok (r₀.withRulesIn s kind (KindSet.wellFormed (rules'.map reread))) := by
  obtain ⟨r₀, hread₀⟩ := Ruleset.blind_read j r hread
  have hrules₀ : listAt? (s.path kind) j.reread = some (rules.map reread) := by
    rw [listAt?_reread, hrules, Option.map_some]
  refine ⟨r₀, hread₀, rulesIn_of_listAt hj.reread hread₀ hrules₀, ?_⟩
  have hwritten : (withListAt rules' (s.path kind) j).depth ≤ Json.depthLimit := by
    rw [← s.depthLimit_add kind] at hlimit ⊢
    exact (depth_withListAt_le_iff rules' hlimit (s.one_le_depthLimit kind) hrules).mpr hdepth
  rw [fetch_eq_ok_iff]
  refine ⟨_, ?_, read_withListAt hj.reread hread₀ hrules₀ (rules'.map reread)⟩
  rw [root_holding (canonical_withListAt rules' hj hrules hcanonical) hwritten, reread_withListAt]

end Written

end AlertRules.RulesFile
