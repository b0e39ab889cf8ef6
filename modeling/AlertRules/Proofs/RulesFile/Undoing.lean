import AlertRules.Proofs.RulesFile.Deleting
import AlertRules.Proofs.RulesFile.Placing
import AlertRules.Proofs.RulesFile.Queueing

/-!
# AlertRules.Proofs.RulesFile.Undoing — a rule that is added and deleted again

To add a rule under an id that no rule shows, and to delete the id, need not give the file back: entries
with that id that are no rules are gone, and levels that were missing on the way stay.  But the rules
that are read are in effect those from before (`fetch_undone`): the list of the kind has the rules that it
had (`wellFormed_without`), and a device that had none and now has an empty group finds nothing
(`Ruleset.match?_withRulesIn_self`).

To add a rule a second time changes nothing: the list is the one without the id, with the rule at its
end, and is so already (`run_run`).
-/

namespace AlertRules

/-! ## Rules that are put in again -/

namespace KindSet

theorem withRules_withRules (set : KindSet) (kind : Kind) (rules rules' : List Rule) :
    (set.withRules kind rules).withRules kind rules' = set.withRules kind rules' := by
  cases kind <;> rfl

theorem withRules_self (set : KindSet) (kind : Kind) : set.withRules kind (set.rules kind) = set := by
  cases kind <;> rfl

/-- In an empty set nothing is found. -/
theorem match?_empty (s : Setting) (e : Event) : KindSet.empty.match? s e = none :=
  rfl

end KindSet

namespace Ruleset

open RulesFile (Scope)

variable (r : Ruleset)

theorem withRulesIn_device (name : String) (kind : Kind) (rules : List Rule) :
    r.withRulesIn (.device name) kind rules =
      ⟨r.global, r.device.insert name ((r.groupIn (.device name)).withRules kind rules)⟩ :=
  rfl

/-- Of two lists that are put in the second stays. -/
theorem withRulesIn_withRulesIn (s : Scope) (kind : Kind) (rules rules' : List Rule) :
    (r.withRulesIn s kind rules).withRulesIn s kind rules' = r.withRulesIn s kind rules' := by
  cases s with
  | global =>
    show { r with global := (r.global.withRules kind rules).withRules kind rules' } = _
    rw [KindSet.withRules_withRules]
    rfl
  | device name =>
    have hgroup : (r.withRulesIn (.device name) kind rules).groupIn (.device name) =
        (r.groupIn (.device name)).withRules kind rules := by
      rw [withRulesIn_device, groupIn, KeyMap.get?_insert, if_pos rfl, Option.getD_some]
    rw [withRulesIn_device, hgroup, withRulesIn_device, withRulesIn_device,
      KindSet.withRules_withRules, KeyMap.insert_insert]

theorem withRulesIn_global_self (kind : Kind) :
    r.withRulesIn .global kind (r.rulesIn .global kind) = r := by
  show { r with global := r.global.withRules kind (r.global.rules kind) } = r
  rw [KindSet.withRules_self]

/-- The rules of a scope, put in again, are found as before; at most there is a group more, which is
empty. -/
theorem match?_withRulesIn_self (scope : Scope) (kind : Kind) (s : Setting) (e : Event) :
    (r.withRulesIn scope kind (r.rulesIn scope kind)).match? s e = r.match? s e := by
  cases scope with
  | global => rw [withRulesIn_global_self]
  | device name =>
    rw [withRulesIn_device, rulesIn, KindSet.withRules_self, groupIn]
    cases hgroup : r.device.get? name with
    | some set => rw [Option.getD_some, KeyMap.insert_of_get? hgroup]
    | none =>
      rw [Option.getD_none, match?_eq, match?_eq]
      congr 1
      apply Entries.findSome?_insert hgroup
      rw [KindSet.match?_empty]
      rfl

end Ruleset

/-! ## The file -/

namespace RulesFile

open Json (reread)
open Addition

variable {a : Addition} {c c₁ c₂ : File.Content} {j j' : Json} {r : Ruleset} {path : String}

theorem without_without (id : String) (rules : List Json) :
    without id (without id rules) = without id rules := by
  rw [without, without, List.filter_filter]
  congr 1
  funext e
  exact Bool.and_self _

/-- What is left of the list when the id is taken out of it again. -/
theorem without_into (h : ∃ members, a.body = .obj members) (rules : List Json) :
    without a.id (a.into rules) = without a.id rules := by
  have hentry : without a.id [a.entry] = [] := by
    have hown : hasId a.id a.entry = true := hasId_iff.mpr ((bears_entry_iff h).mpr rfl)
    rw [without, List.filter_cons, hown]
    rfl
  rw [into, without, List.filter_append, ← without, ← without, hentry, List.append_nil,
    without_without]

theorem into_into (h : ∃ members, a.body = .obj members) (rules : List Json) :
    a.into (a.into rules) = a.into rules := by
  rw [into, without_into h, ← into]

/-- A value that has been read back as itself has numbers that stay. -/
theorem reread_of_readsBack (hj : j.Canonical) (hroot : root (holding j) = .ok j) :
    j.reread = j := by
  rw [holding, root_present_pretty hj] at hroot
  split at hroot
  · exact Except.ok.inj hroot
  · exact absurd hroot (by simp)

theorem map_reread_of_listAt {p : List String} {rules : List Json} (hj : j.reread = j)
    (hrules : listAt? p j = some rules) : rules.map reread = rules := by
  have hagain := listAt?_reread p j
  rw [hj, hrules, Option.map_some] at hagain
  exact (Option.some.inj hagain).symm

/-! ### Adding and deleting -/

/-- What is read in the end: what was read before, with the rules of the list put in again. -/
theorem fetch_undone (hfetch : fetch path c = .ok r)
    (hback : ∀ j j', root c = .ok j → a.Turns j j' → ReadsBack j')
    (hid : ∀ s, Scope.Written a.scope s → ∀ rule ∈ r.rulesIn s a.kind, rule.id ≠ a.id)
    (hrun : a.run c = (.ok (), c₁)) (hdelete : delete a.scope a.kind a.id c₁ = (.ok (), c₂)) :
    ∃ s, Scope.Written a.scope s ∧
      fetch path c₂ = .ok (r.withRulesIn s a.kind (r.rulesIn s a.kind)) := by
  obtain ⟨j, hroot, hread⟩ := fetch_eq_ok_iff.mp hfetch
  obtain ⟨-, i, j₁, hi, hturns, rfl⟩ := run_eq_iff.mp hrun
  obtain rfl := Except.ok.inj (hroot.symm.trans hi)
  obtain ⟨members, s, rules, hbody, hscope, hrules, hvalue⟩ := turns_iff.mp hturns
  have hscope' := Scope.written_iff.mp hscope
  have hcanonical := (canonical_of_root hroot).1
  have hrules₁ : listAt? (s.path a.kind) j₁ = some (a.into rules) :=
    hvalue ▸ listAt?_withListAt hrules _
  have hok := congrArg Prod.fst hdelete
  obtain ⟨hvoid, i, entries, hroot₁, hentries, hfound⟩ := (delete_fst_eq_ok_iff hscope').mp hok
  obtain rfl := hback j j₁ hroot hturns i hroot₁
  obtain rfl := Option.some.inj (hrules₁.symm.trans hentries)
  have hcanonical₁ := (canonical_of_root hroot₁).1
  have hnumbers := reread_of_readsBack hcanonical₁ hroot₁
  have hread₁ : Ruleset.read i = .ok (r.withRulesIn s a.kind (KindSet.wellFormed (a.into rules))) :=
    hvalue ▸ read_withListAt hcanonical hread hrules _
  obtain ⟨r₁, hread₁', -, hfetch₂⟩ := fetch_delete hscope' hvoid hroot₁ hread₁ hrules₁ hfound
  rw [hnumbers, hread₁] at hread₁'
  obtain rfl := Except.ok.inj hread₁'
  refine ⟨s, hscope, ?_⟩
  have hshown := rulesIn_of_listAt hcanonical hread hrules
  rw [hdelete, map_reread_of_listAt hnumbers hrules₁,
    ← shown_without (canonical_listAt hcanonical₁ hrules₁), ← wellFormed_eq_shown,
    without_into ⟨members, hbody⟩,
    wellFormed_without (canonical_listAt hcanonical hrules) (hshown ▸ hid s hscope),
    Ruleset.withRulesIn_withRulesIn, ← hshown] at hfetch₂
  exact hfetch₂

/-- A rule that has been added can be deleted, if the file can be read. -/
theorem exists_delete_run (hback : ∀ j j', root c = .ok j → a.Turns j j' → ReadsBack j')
    (hrun : a.run c = (.ok (), c₁)) (hread : ∃ i, root c₁ = .ok i) :
    ∃ c₂, delete a.scope a.kind a.id c₁ = (.ok (), c₂) := by
  obtain ⟨-, j, j₁, hroot, hturns, rfl⟩ := run_eq_iff.mp hrun
  obtain ⟨i, hroot₁⟩ := hread
  obtain rfl := hback j j₁ hroot hturns i hroot₁
  obtain ⟨members, s, rules, hbody, hscope, hrules, rfl⟩ := turns_iff.mp hturns
  have hid : hasId a.id a.entry = true :=
    hasId_iff.mpr ((bears_entry_iff ⟨members, hbody⟩).mpr rfl)
  have hok := (delete_fst_eq_ok_iff (Scope.written_iff.mp hscope)).mpr
    ⟨by simp [holding], _, a.into rules, hroot₁, listAt?_withListAt hrules _, a.entry,
      List.mem_append_right _ (List.mem_singleton_self _), hid⟩
  exact ⟨_, Prod.ext hok rfl⟩

/-! ### Adding twice -/

theorem modify_opened (scope : String) (kind : Kind) (f : Edit) (c : File.Content) :
    modify scope kind f c.opened = modify scope kind f c := by
  have hedited : edited scope kind f c.opened = edited scope kind f c := by
    rw [edited, edited, root_opened]
  rw [modify, modify, hedited]
  cases c <;> rfl

/-- An addition fails on a file that has been opened as it does on the file. -/
theorem run_opened_snd (h : (a.run c).2 = c.opened) : (a.run c.opened).2 = c.opened := by
  rw [run] at h ⊢
  cases hbody : a.body with
  | obj members =>
    rw [hbody, add_obj_snd] at h
    rw [add_obj_snd, modify_opened, h]
  | _ => rfl

/-- The value that an addition has written it writes again. -/
theorem Addition.Turns.again (h : a.Turns j j') : a.Turns j' j' := by
  obtain ⟨members, s, rules, hbody, hscope, hrules, rfl⟩ := turns_iff.mp h
  refine turns_iff.mpr ⟨members, s, a.into rules, hbody, hscope, listAt?_withListAt hrules _, ?_⟩
  rw [into_into ⟨members, hbody⟩, withListAt_withListAt hrules]

/-- To add a rule twice is to add it once. -/
theorem run_run (hback : ∀ j j', root c = .ok j → a.Turns j j' → ReadsBack j') :
    (a.run (a.run c).2).2 = (a.run c).2 := by
  by_cases hok : (a.run c).1 = .ok ()
  · obtain ⟨-, j, j', hroot, hturns, hfile⟩ :=
      run_eq_iff.mp (Prod.ext hok rfl : a.run c = (.ok (), (a.run c).2))
    rw [hfile]
    by_cases hok' : (a.run (holding j')).1 = .ok ()
    · obtain ⟨-, i, i', hroot', hturns', hfile'⟩ :=
        run_eq_iff.mp (Prod.ext hok' rfl : a.run (holding j') = (.ok (), (a.run (holding j')).2))
      obtain rfl := hback j j' hroot hturns i hroot'
      rw [hfile', hturns'.unique hturns.again]
    · exact (add_snd_of_ne_ok hok').elim id id
  · rcases add_snd_of_ne_ok hok with hsame | hopened
    · have hstays : (a.run c).2 = c := hsame
      rw [hstays, hstays]
    · have hstays : (a.run c).2 = c.opened := hopened
      rw [hstays, run_opened_snd hstays]

/-- **`addition_undone`** — take an addition, and a file for which the text that it writes is read back
as the value for which it was written.  If rules can be read from the file, none of the scope and kind
shows the id, and the addition and then the deletion of the id succeed, rules can be read again: every
search finds what it found before, and if the rule was one for all devices, the rules are the same.  The
deletion succeeds after the addition whenever the file can be read.  In any case, to make the addition
twice leaves the file that is left when it is made once. -/
theorem addition_undone (a : Addition) (c : File.Content) (path : String)
    (hback : ∀ j j', root c = .ok j → a.Turns j j' → ReadsBack j') :
    (∀ r c₁ c₂, fetch path c = .ok r →
      (∀ s, Scope.Written a.scope s → ∀ rule ∈ r.rulesIn s a.kind, rule.id ≠ a.id) →
      a.run c = (.ok (), c₁) → delete a.scope a.kind a.id c₁ = (.ok (), c₂) →
        ∃ r', fetch path c₂ = .ok r' ∧ (∀ s e, r'.match? s e = r.match? s e) ∧
          (a.scope = "global" → r' = r)) ∧
      (∀ c₁, a.run c = (.ok (), c₁) → (∃ i, root c₁ = .ok i) →
        ∃ c₂, delete a.scope a.kind a.id c₁ = (.ok (), c₂)) ∧
      (a.run (a.run c).2).2 = (a.run c).2 := by
  refine ⟨?_, fun c₁ => exists_delete_run hback, run_run hback⟩
  intro r c₁ c₂ hfetch hid hrun hdelete
  obtain ⟨s, hscope, hfetch'⟩ := fetch_undone hfetch hback hid hrun hdelete
  refine ⟨_, hfetch', r.match?_withRulesIn_self s a.kind, ?_⟩
  intro hglobal
  rw [hglobal] at hscope
  obtain rfl := hscope.unique .global
  exact r.withRulesIn_global_self a.kind

/-- A rule set with a content rule, and an entry of another id that is no rule. -/
def withHidden : Json :=
  .obj [("global", .obj [("content",
    .arr [ruleOf "b", .obj [("conditions", .bool true), ("rule_id", .str "a")]])])]

/-- The entry that is no rule gives way to the new rule and does not come back, but the rules are the
same. -/
theorem addition_undone_withHidden :
    ∃ r c₁ c₂, fetch "rules.json" (holding withHidden) = .ok r ∧
      addedA.run (holding withHidden) = (.ok (), c₁) ∧
        delete "global" .content "a" c₁ = (.ok (), c₂) ∧
          root c₂ ≠ root (holding withHidden) ∧ fetch "rules.json" c₂ = .ok r ∧
            (addedA.run c₁).2 = c₁ := by
  have hroot : root (holding withHidden) = .ok withHidden :=
    root_holding (j := withHidden) (by decide) (by decide)
  have hroot₁ : root (holding (contents ["b", "a"])) = .ok (contents ["b", "a"]) :=
    root_holding (j := contents ["b", "a"]) (by decide) (by decide)
  have hroot₂ : root (holding (contents ["b"])) = .ok (contents ["b"]) :=
    root_holding (j := contents ["b"]) (by decide) (by decide)
  have hturns : addedA.Turns withHidden (contents ["b", "a"]) := ⟨[], rfl, rfl⟩
  have hrun : addedA.run (holding withHidden) = (.ok (), holding (contents ["b", "a"])) :=
    run_eq_iff.mpr ⟨by simp [holding], _, _, hroot, hturns, rfl⟩
  have hrules : listAt? (Scope.path .global .content) (contents ["b", "a"]) =
      some [ruleOf "b", ruleOf "a"] := rfl
  have hdelete : delete "global" .content "a" (holding (contents ["b", "a"])) =
      (.ok (), holding (contents ["b"])) :=
    delete_eq_iff.mpr (modify_eq_iff.mpr ⟨_, [ruleOf "b"], rfl, by simp [holding], .global, _, _,
      .global, hroot₁, hrules, relists_withListAt hrules _, rfl⟩)
  have hback : ∀ j j', root (holding withHidden) = .ok j → addedA.Turns j j' → ReadsBack j' := by
    intro j j' hj hj' i hi
    obtain rfl := Except.ok.inj (hroot.symm.trans hj)
    obtain rfl := hturns.unique hj'
    exact Except.ok.inj (hi.symm.trans hroot₁)
  have hfetch : ∃ r, fetch "rules.json" (holding withHidden) = .ok r ∧
      (r.rulesIn .global .content).map Rule.id = ["b"] :=
    ⟨_, fetch_eq_ok_iff.mpr ⟨_, hroot, rfl⟩, rfl⟩
  obtain ⟨r, hr, hids⟩ := hfetch
  obtain ⟨hundone, -, htwice⟩ := addition_undone addedA (holding withHidden) "rules.json" hback
  have hid : ∀ s, Scope.Written addedA.scope s →
      ∀ rule ∈ r.rulesIn s addedA.kind, rule.id ≠ addedA.id := by
    intro s hscope rule hrule heq
    obtain rfl := hscope.unique .global
    have hmem : "a" ∈ (r.rulesIn .global .content).map Rule.id := List.mem_map.mpr ⟨rule, hrule, heq⟩
    rw [hids] at hmem
    exact absurd hmem (by decide)
  obtain ⟨r', hr', -, hsame⟩ := hundone r _ _ hr hid hrun hdelete
  obtain rfl := hsame rfl
  rw [hrun] at htwice
  refine ⟨r', _, _, hr, hrun, hdelete, ?_, hr', htwice⟩
  rw [hroot₂, hroot]
  simp [contents, withHidden]

end RulesFile

end AlertRules
