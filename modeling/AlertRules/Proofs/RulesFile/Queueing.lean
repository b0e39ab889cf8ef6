import AlertRules.Proofs.RulesFile.Overwriting
import AlertRules.Proofs.RulesFile.Untouched

/-!
# AlertRules.Proofs.RulesFile.Queueing — additions one after another

Additions that wait for the file are made one after the other, each of them on the file that the one
before has left (`AllAdded`).  Whatever their order is, no rule is lost: every list loses the entries of
the ids that are put into it, and has the new rules at its end, each of them once (`Gathers`).

A run on the file is a run on the value that it holds, as long as every text that is written is read
back (`AllAdded.turnsAll`).  Of a value it is told for one addition what it leaves of the list at each
place, and by induction for all of them (`TurnsAll.listAt_eq`).  Additions to different places change
places with one another (`Turns.swap`), so that only the order at each place counts
(`TurnsAll.eq_of_here`).
-/

namespace AlertRules.RulesFile

/-! ## One addition -/

/-- A rule that is to be put into the file: where, under which id, and its body. -/
structure Addition where
  scope : String
  kind : Kind
  id : String
  body : Json

namespace Addition

/-- The addition made on a file. -/
def run (a : Addition) (c : File.Content) : Except Failure Unit × File.Content :=
  add a.scope a.kind a.id a.body c

/-- The rule as it stands in a list, with the id among the members of its body. -/
def entry (a : Addition) : Json :=
  match a.body with
  | .obj members => withId a.id members
  | body => body

/-- The list with the rule at its end, and with no other of that id. -/
def into (a : Addition) (rules : List Json) : List Json :=
  without a.id rules ++ [a.entry]

/-- On a file with the value `j` the addition writes the value `j'`. -/
def Turns (a : Addition) (j j' : Json) : Prop :=
  ∃ members, a.body = .obj members ∧ editRoot a.scope a.kind (placing a.id members) j = .ok j'

/-- The rule is to be put into the list of the kind within the scope. -/
def isAt (scope : String) (kind : Kind) (a : Addition) : Bool :=
  decide (a.scope = scope ∧ a.kind = kind)

/-- The body is an object, and the value has a list for the rule, or room for one. -/
def Reaches (a : Addition) (j : Json) : Prop :=
  (∃ members, a.body = .obj members) ∧
    ∃ s rules, Scope.Written a.scope s ∧ listAt? (s.path a.kind) j = some rules

end Addition

open Addition

variable {a b : Addition} {as bs : List Addition} {c c' c'' : File.Content} {j j₁ j₂ j' j'' : Json}

theorem isAt_iff {scope : String} {kind : Kind} :
    a.isAt scope kind = true ↔ a.scope = scope ∧ a.kind = kind :=
  decide_eq_true_iff

theorem isAt_self (a : Addition) : a.isAt a.scope a.kind = true :=
  isAt_iff.mpr ⟨rfl, rfl⟩

theorem named_entry (h : ∃ members, a.body = .obj members) :
    ∃ members, a.body = .obj members ∧ Named a.id members a.entry := by
  obtain ⟨members, hbody⟩ := h
  refine ⟨members, hbody, ?_⟩
  rw [entry, hbody]
  exact named_withId a.id members

theorem bears_entry_iff (h : ∃ members, a.body = .obj members) {id : String} :
    Bears id a.entry ↔ a.id = id := by
  obtain ⟨members, -, hnamed⟩ := named_entry h
  exact hnamed.bears_iff

theorem Scope.Written.unique {text : String} {s t : Scope} (hs : Scope.Written text s)
    (ht : Scope.Written text t) : s = t :=
  Option.some.inj ((Scope.written_iff.mp hs).symm.trans (Scope.written_iff.mp ht))

theorem Scope.Written.text_unique {text text' : String} {s : Scope} (h : Scope.Written text s)
    (h' : Scope.Written text' s) : text = text' := by
  cases h with
  | global => cases h'; rfl
  | device hname => cases h'; rfl

/-- An addition puts the rule into the list of its place. -/
theorem turns_iff :
    a.Turns j j' ↔
      ∃ members s rules, a.body = .obj members ∧ Scope.Written a.scope s ∧
        listAt? (s.path a.kind) j = some rules ∧ j' = withListAt (a.into rules) (s.path a.kind) j := by
  constructor
  · rintro ⟨members, hbody, hedit⟩
    cases hscope : Scope.ofString? a.scope with
    | none =>
      have hrefused : ∃ fault, editRoot a.scope a.kind (placing a.id members) j = .error fault :=
        editRoot_of_unknown hscope j
      obtain ⟨fault, hfault⟩ := hrefused
      exact absurd (hfault.symm.trans hedit) (by simp)
    | some s =>
      obtain ⟨rules, rules', hrules, hf, rfl⟩ := (edits_editRoot hscope _ _ _ _).mp hedit
      obtain rfl := Except.ok.inj hf
      refine ⟨members, s, rules, hbody, Scope.written_iff.mpr hscope, hrules, ?_⟩
      rw [into, entry, hbody]
  · rintro ⟨members, s, rules, hbody, hscope, hrules, rfl⟩
    refine ⟨members, hbody, (edits_editRoot (Scope.written_iff.mp hscope) _ _ _ _).mpr
      ⟨rules, _, hrules, rfl, ?_⟩⟩
    rw [into, entry, hbody]

theorem exists_turns_iff : (∃ j', a.Turns j j') ↔ a.Reaches j := by
  simp only [turns_iff]
  constructor
  · rintro ⟨_, members, s, rules, hbody, hscope, hrules, -⟩
    exact ⟨⟨members, hbody⟩, s, rules, hscope, hrules⟩
  · rintro ⟨⟨members, hbody⟩, s, rules, hscope, hrules⟩
    exact ⟨_, members, s, rules, hbody, hscope, hrules, rfl⟩

theorem Addition.Turns.unique (h : a.Turns j j₁) (h' : a.Turns j j₂) : j₁ = j₂ := by
  obtain ⟨members, hbody, hedit⟩ := h
  obtain ⟨members', hbody', hedit'⟩ := h'
  obtain rfl := Json.obj.inj (hbody.symm.trans hbody')
  exact Except.ok.inj (hedit.symm.trans hedit')

/-- An addition succeeds exactly if it writes a value, and the file can be replaced. -/
theorem run_eq_iff :
    a.run c = (.ok (), c') ↔
      c ≠ .void ∧ ∃ j j', root c = .ok j ∧ a.Turns j j' ∧ c' = holding j' := by
  rw [run, add_eq_iff]
  constructor
  · rintro ⟨members, hbody, hmodify⟩
    obtain ⟨rules, rules', hf, hvoid, s, j, j', hscope, hroot, hrules, hrelists, rfl⟩ :=
      modify_eq_iff.mp hmodify
    obtain rfl := Except.ok.inj hf
    refine ⟨hvoid, j, j', hroot, turns_iff.mpr ⟨members, s, rules, hbody, hscope, hrules, ?_⟩, rfl⟩
    rw [hrelists.value_eq, into, entry, hbody]
  · rintro ⟨hvoid, j, j', hroot, hturns, rfl⟩
    obtain ⟨members, s, rules, hbody, hscope, hrules, rfl⟩ := turns_iff.mp hturns
    refine ⟨members, hbody, modify_eq_iff.mpr
      ⟨rules, _, rfl, hvoid, s, j, _, hscope, hroot, hrules, relists_withListAt hrules _, ?_⟩⟩
    rw [into, entry, hbody]

/-- An addition changes the list of its place and no other. -/
theorem Addition.Turns.listAt_eq (h : a.Turns j j') {scope : String} {s : Scope}
    (hscope : Scope.Written scope s) (kind : Kind) :
    listAt? (s.path kind) j' =
      (listAt? (s.path kind) j).map fun rules => if a.isAt scope kind then a.into rules else rules := by
  obtain ⟨members, t, rules, -, hplace, hrules, rfl⟩ := turns_iff.mp h
  by_cases hat : a.isAt scope kind = true
  · obtain ⟨rfl, rfl⟩ := isAt_iff.mp hat
    obtain rfl := hplace.unique hscope
    rw [listAt?_withListAt hrules, hrules, Option.map_some, if_pos hat]
  · have hapart : Apart (t.path a.kind) (s.path kind) := by
      apply Scope.apart_paths
      rintro ⟨rfl, hkind⟩
      exact hat (isAt_iff.mpr ⟨hplace.text_unique hscope, hkind⟩)
    rw [listAt?_withListAt_of_apart hrules hapart]
    simp [hat]

theorem Addition.Reaches.of_turns (h : b.Reaches j) (ha : a.Turns j j') : b.Reaches j' := by
  obtain ⟨hbody, s, rules, hscope, hrules⟩ := h
  have hrules' := ha.listAt_eq hscope b.kind
  rw [hrules, Option.map_some] at hrules'
  exact ⟨hbody, s, _, hscope, hrules'⟩

theorem Addition.Reaches.before (h : b.Reaches j') (ha : a.Turns j j') : b.Reaches j := by
  obtain ⟨hbody, s, rules, hscope, hrules⟩ := h
  rw [ha.listAt_eq hscope b.kind] at hrules
  obtain ⟨rules₀, hrules₀, -⟩ := Option.map_eq_some_iff.mp hrules
  exact ⟨hbody, s, rules₀, hscope, hrules₀⟩

theorem Addition.Turns.canonical (h : a.Turns j j') (hj : j.Canonical) (ha : a.entry.Canonical) :
    j'.Canonical := by
  obtain ⟨members, s, rules, -, -, hrules, rfl⟩ := turns_iff.mp h
  refine canonical_withListAt _ hj hrules (Json.allCanonical_iff.mpr ?_)
  rw [into, List.forall_mem_append, List.forall_mem_singleton]
  exact ⟨Json.allCanonical_iff.mp (canonical_without (canonical_listAt hj hrules)), ha⟩

theorem Addition.Turns.canonical_entry (h : a.Turns j j') (hj' : j'.Canonical) :
    a.entry.Canonical := by
  obtain ⟨members, s, rules, -, -, hrules, rfl⟩ := turns_iff.mp h
  have hlist := canonical_listAt hj' (listAt?_withListAt hrules _)
  exact Json.allCanonical_iff.mp hlist _ (List.mem_append_right _ (List.mem_singleton_self _))

/-- Additions to different places may be made in either order. -/
theorem Addition.Turns.swap (hj : j.Canonical) (hplace : b.isAt a.scope a.kind = false)
    (ha : a.Turns j j₁) (hb : b.Turns j₁ j₂) : ∃ j', b.Turns j j' ∧ a.Turns j' j₂ := by
  obtain ⟨members, s, rules, hbody, hscope, hrules, rfl⟩ := turns_iff.mp ha
  obtain ⟨members', t, others, hbody', hscope', hothers, rfl⟩ := turns_iff.mp hb
  have hapart : Apart (s.path a.kind) (t.path b.kind) := by
    apply Scope.apart_paths
    rintro ⟨rfl, hkind⟩
    rw [isAt_iff.mpr ⟨hscope'.text_unique hscope, hkind.symm⟩] at hplace
    exact absurd hplace (by simp)
  rw [listAt?_withListAt_of_apart hrules hapart] at hothers
  refine ⟨_, turns_iff.mpr ⟨members', t, others, hbody', hscope', hothers, rfl⟩,
    turns_iff.mpr ⟨members, s, rules, hbody, hscope, ?_, ?_⟩⟩
  · rw [listAt?_withListAt_of_apart hothers hapart.symm, hrules]
  · rw [withListAt_comm hj hapart hrules hothers]

/-! ## Additions in a row -/

/-- **`AllAdded as c c'`** — the additions, made one after the other, all succeed and lead from the file
`c` to `c'`. -/
inductive AllAdded : List Addition → File.Content → File.Content → Prop
  | none (c : File.Content) : AllAdded [] c c
  | next {a : Addition} {as : List Addition} {c c₁ c' : File.Content} (h : a.run c = (.ok (), c₁))
      (hrest : AllAdded as c₁ c') : AllAdded (a :: as) c c'

/-- Every text that the additions write, made one after the other on the file, is read back as the value
for which it was written. -/
def Faithful : List Addition → File.Content → Prop
  | [], _ => True
  | a :: as, c =>
    (∀ j j', root c = .ok j → a.Turns j j' → root (holding j') = .ok j') ∧ Faithful as (a.run c).2

/-- **`TurnsAll as j j'`** — the additions, one after the other, turn the value `j` into `j'`. -/
inductive TurnsAll : List Addition → Json → Json → Prop
  | none (j : Json) : TurnsAll [] j j
  | next {a : Addition} {as : List Addition} {j j₁ j' : Json} (h : a.Turns j j₁)
      (hrest : TurnsAll as j₁ j') : TurnsAll (a :: as) j j'

/-- The additions to the list of the kind within the scope, in their order. -/
def here (scope : String) (kind : Kind) (as : List Addition) : List Addition :=
  as.filter (·.isAt scope kind)

theorem mem_here (h : a ∈ as) : a ∈ here a.scope a.kind as :=
  List.mem_filter.mpr ⟨h, isAt_self a⟩

/-- A run on a file is a run on its value. -/
theorem AllAdded.turnsAll (h : AllAdded as c c') (hback : Faithful as c) (hroot : root c = .ok j) :
    ∃ j', TurnsAll as j j' ∧ root c' = .ok j' ∧ (∀ a ∈ as, a.entry.Canonical) ∧
      (as ≠ [] → c' = holding j') := by
  induction h generalizing j with
  | none c => exact ⟨j, .none j, hroot, by simp, absurd rfl⟩
  | @next a as c c₁ c' h hrest ih =>
    obtain ⟨-, i, j₁, hi, hturns, hfile⟩ := run_eq_iff.mp h
    obtain rfl := Except.ok.inj (hroot.symm.trans hi)
    obtain ⟨hfirst, hlater⟩ := hback
    have hroot₁ : root c₁ = .ok j₁ := hfile ▸ hfirst j j₁ hroot hturns
    rw [h] at hlater
    obtain ⟨j', hall, hroot', hentries, hfile'⟩ := ih hlater hroot₁
    have hentry := hturns.canonical_entry (canonical_of_root hroot₁).1
    refine ⟨j', .next hturns hall, hroot', List.forall_mem_cons.mpr ⟨hentry, hentries⟩, fun _ => ?_⟩
    cases hrest with
    | none =>
      cases hall
      exact hfile
    | next h' hrest' => exact hfile' (List.cons_ne_nil _ _)

/-- Additions that reach their lists can be made in any order. -/
theorem exists_allAdded (hvoid : c ≠ .void) (hroot : root c = .ok j) (has : ∀ a ∈ as, a.Reaches j)
    (hback : Faithful as c) : ∃ c', AllAdded as c c' := by
  induction as generalizing c j with
  | nil => exact ⟨c, .none c⟩
  | cons a as ih =>
    obtain ⟨ha, hrest⟩ := List.forall_mem_cons.mp has
    obtain ⟨j₁, hturns⟩ := exists_turns_iff.mpr ha
    have hrun : a.run c = (.ok (), holding j₁) :=
      run_eq_iff.mpr ⟨hvoid, j, j₁, hroot, hturns, rfl⟩
    obtain ⟨hfirst, hlater⟩ := hback
    rw [hrun] at hlater
    obtain ⟨c', hc'⟩ := ih (by simp [holding]) (hfirst j j₁ hroot hturns)
      (fun b hb => (hrest b hb).of_turns hturns) hlater
    exact ⟨c', .next hrun hc'⟩

namespace TurnsAll

theorem reaches (h : TurnsAll as j j') : ∀ a ∈ as, a.Reaches j := by
  induction h with
  | none j => simp
  | next h hrest ih =>
    refine List.forall_mem_cons.mpr ⟨exists_turns_iff.mp ⟨_, h⟩, fun b hb => ?_⟩
    exact (ih b hb).before h

/-- At each place the additions to it are made, and no others. -/
theorem listAt_eq (h : TurnsAll as j j') {scope : String} {s : Scope}
    (hscope : Scope.Written scope s) (kind : Kind) :
    listAt? (s.path kind) j' =
      (listAt? (s.path kind) j).map ((here scope kind as).foldl fun rules a => a.into rules) := by
  induction h with
  | none j => simp [here]
  | @next a as j j₁ j' h hrest ih =>
    rw [ih, h.listAt_eq hscope kind, Option.map_map, here, here, List.filter_cons]
    congr 1
    funext rules
    by_cases hat : a.isAt scope kind = true
    · simp [hat]
    · simp [hat]

/-- Beside all places nothing changes. -/
theorem valueAt_eq (h : TurnsAll as j j') {q : List String}
    (hq : ∀ a ∈ as, ∀ s, Scope.Written a.scope s → Apart (s.path a.kind) q) :
    valueAt? q j' = valueAt? q j := by
  induction h with
  | none j => rfl
  | next h hrest ih =>
    obtain ⟨hfirst, hlater⟩ := List.forall_mem_cons.mp hq
    obtain ⟨members, s, rules, -, hscope, hrules, rfl⟩ := turns_iff.mp h
    rw [ih hlater]
    exact valueAt?_elsewhere hrules _ (hfirst s hscope).2 (hfirst s hscope).1

/-- An addition may be made before others to different places. -/
theorem to_front {before after : List Addition} (hj : j.Canonical)
    (hentries : ∀ b ∈ before, b.entry.Canonical)
    (hplaces : ∀ b ∈ before, b.isAt a.scope a.kind = false)
    (h : TurnsAll (before ++ a :: after) j j') : TurnsAll (a :: (before ++ after)) j j' := by
  induction before generalizing j with
  | nil => exact h
  | cons b before ih =>
    obtain ⟨hb, hrest⟩ := List.forall_mem_cons.mp hentries
    obtain ⟨hplace, hplaces'⟩ := List.forall_mem_cons.mp hplaces
    cases h with
    | next hturns h =>
      cases ih (hturns.canonical hj hb) hrest hplaces' h with
      | next hturns' h' =>
        have hplace' : a.isAt b.scope b.kind = false := by
          rw [← Bool.not_eq_true, isAt_iff] at hplace ⊢
          exact fun heq => hplace ⟨heq.1.symm, heq.2.symm⟩
        obtain ⟨j₁, hfirst, hsecond⟩ := hturns.swap hj hplace' hturns'
        exact .next hfirst (.next hsecond h')

/-- The result depends only on the order of the additions at each place. -/
theorem eq_of_here (h : TurnsAll as j j') (hj : j.Canonical) (hentries : ∀ a ∈ as, a.entry.Canonical)
    (hhere : ∀ scope kind, here scope kind bs = here scope kind as) (h' : TurnsAll bs j j'') :
    j'' = j' := by
  have hmem : ∀ b ∈ bs, b ∈ as := by
    intro b hb
    have hat := mem_here hb
    rw [hhere] at hat
    exact List.mem_of_mem_filter hat
  induction h generalizing bs with
  | none j =>
    obtain rfl := List.eq_nil_iff_forall_not_mem.mpr fun b hb => absurd (hmem b hb) List.not_mem_nil
    cases h'
    rfl
  | @next a as j j₁ j' h hrest ih =>
    obtain ⟨ha, has⟩ := List.forall_mem_cons.mp hentries
    have hsplit : here a.scope a.kind bs = a :: here a.scope a.kind as := by
      rw [hhere, here, List.filter_cons_of_pos (isAt_self a)]
      rfl
    obtain ⟨before, after, rfl, hbefore, -, hafter⟩ := List.filter_eq_cons_iff.mp hsplit
    have hentries' : ∀ b ∈ before, b.entry.Canonical := fun b hb =>
      hentries b (hmem b (List.mem_append_left _ hb))
    cases to_front hj hentries' (fun b hb => Bool.eq_false_iff.mpr (hbefore b hb)) h' with
    | next hturns hrest' =>
      obtain rfl := h.unique hturns
      have hhere' : ∀ scope kind, here scope kind (before ++ after) = here scope kind as := by
        intro scope kind
        by_cases hat : a.isAt scope kind = true
        · obtain ⟨rfl, rfl⟩ := isAt_iff.mp hat
          rw [here, List.filter_append, List.filter_eq_nil_iff.mpr hbefore, List.nil_append]
          exact hafter
        · have hboth := hhere scope kind
          rw [here, here, List.filter_append, List.filter_cons_of_neg hat,
            List.filter_cons_of_neg hat, ← List.filter_append] at hboth
          exact hboth
      refine ih (h.canonical hj ha) has hhere' hrest' fun b hb => ?_
      have hat := mem_here hb
      rw [hhere'] at hat
      exact List.mem_of_mem_filter hat

end TurnsAll

/-! ## What additions in a row amount to -/

/-- Two additions to the same list are made under different ids. -/
def Addition.Differs (a b : Addition) : Prop :=
  a.scope = b.scope → a.kind = b.kind → a.id ≠ b.id

/-- The entries of a list, in their order, less those that bear an id that is put into it. -/
def remaining (as : List Addition) (rules : List Json) : List Json :=
  rules.filter fun e => ∀ a ∈ as, ¬ Bears a.id e

/-- **`Gathers as j j'`** — what additions make of the value `j`: there is room for all of them, and each
new rule is its body with its id; every list loses the entries of the ids that are put into it, and gains
the new rules, in their order; among the entries of its list each new rule is the only one of its id; and
beside the lists nothing changes. -/
structure Gathers (as : List Addition) (j j' : Json) : Prop where
  reached : ∀ a ∈ as, a.Reaches j
  named : ∀ a ∈ as, ∃ members, a.body = .obj members ∧ Named a.id members a.entry
  lists : ∀ scope s, Scope.Written scope s → ∀ kind,
    listAt? (s.path kind) j' = (listAt? (s.path kind) j).map fun rules =>
      remaining (here scope kind as) rules ++ (here scope kind as).map Addition.entry
  once : ∀ a ∈ as, ∀ s rules', Scope.Written a.scope s → listAt? (s.path a.kind) j' = some rules' →
    rules'.filter (fun e => Bears a.id e) = [a.entry]
  elsewhere : ∀ q, (∀ a ∈ as, ∀ s, Scope.Written a.scope s → Apart (s.path a.kind) q) →
    valueAt? q j' = valueAt? q j

/-- Two values have the same lists, but for the order of the new rules at the end of each list, which is
that of `as` in the one and that of `bs` in the other. -/
def Rearranged (as bs : List Addition) (j' j'' : Json) : Prop :=
  ∀ scope s, Scope.Written scope s → ∀ kind,
    (here scope kind bs).Perm (here scope kind as) ∧
      ((listAt? (s.path kind) j' = none ∧ listAt? (s.path kind) j'' = none) ∨
        ∃ kept, listAt? (s.path kind) j' = some (kept ++ (here scope kind as).map Addition.entry) ∧
          listAt? (s.path kind) j'' = some (kept ++ (here scope kind bs).map Addition.entry))

section Gathering

variable {scope : String} {kind : Kind} {rules : List Json}

theorem remaining_append (as : List Addition) (rules rules' : List Json) :
    remaining as (rules ++ rules') = remaining as rules ++ remaining as rules' :=
  List.filter_append ..

theorem remaining_cons (a : Addition) (as : List Addition) (rules : List Json) :
    remaining (a :: as) rules = remaining as (without a.id rules) := by
  rw [remaining, remaining, without_eq_filter, List.filter_filter]
  congr 1
  funext e
  rw [Bool.eq_iff_iff, Bool.and_eq_true, decide_eq_true_iff, decide_eq_true_iff,
    decide_eq_true_iff, List.forall_mem_cons, and_comm]

theorem remaining_perm (h : bs.Perm as) (rules : List Json) :
    remaining bs rules = remaining as rules := by
  rw [remaining, remaining]
  congr 1
  funext e
  rw [decide_eq_decide]
  exact forall_congr' fun a => by rw [h.mem_iff]

/-- Entries of other ids remain. -/
theorem remaining_entry (hbody : ∃ members, a.body = .obj members) (hids : ∀ b ∈ as, a.id ≠ b.id) :
    remaining as [a.entry] = [a.entry] := by
  rw [remaining, List.filter_eq_self]
  intro e he
  obtain rfl := List.mem_singleton.mp he
  rw [decide_eq_true_iff]
  intro b hb hbears
  exact hids b hb ((bears_entry_iff hbody).mp hbears)

/-- An entry that has been put in is dropped only for its own id, so all are there in the end. -/
theorem foldl_into (hbodies : ∀ a ∈ as, ∃ members, a.body = .obj members)
    (hids : as.Pairwise (·.id ≠ ·.id)) (rules : List Json) :
    as.foldl (fun rules a => a.into rules) rules = remaining as rules ++ as.map Addition.entry := by
  induction as generalizing rules with
  | nil => simp [remaining]
  | cons a as ih =>
    obtain ⟨hbody, hbodies'⟩ := List.forall_mem_cons.mp hbodies
    obtain ⟨hfirst, hids'⟩ := List.pairwise_cons.mp hids
    rw [List.foldl_cons, ih hbodies' hids', into, remaining_append, remaining_entry hbody hfirst,
      ← remaining_cons, List.map_cons, List.append_assoc, List.singleton_append]

theorem filter_bears_entries (hbodies : ∀ b ∈ as, ∃ members, b.body = .obj members)
    (hids : as.Pairwise (·.id ≠ ·.id)) (ha : a ∈ as) :
    (as.map Addition.entry).filter (fun e => Bears a.id e) = [a.entry] := by
  induction as with
  | nil => exact absurd ha List.not_mem_nil
  | cons b as ih =>
    obtain ⟨hbody, hbodies'⟩ := List.forall_mem_cons.mp hbodies
    obtain ⟨hfirst, hids'⟩ := List.pairwise_cons.mp hids
    rw [List.map_cons, List.filter_cons]
    rcases List.mem_cons.mp ha with rfl | hmem
    · have hown : Bears a.id a.entry := (bears_entry_iff hbody).mpr rfl
      have hrest : (as.map Addition.entry).filter (fun e => Bears a.id e) = [] := by
        rw [List.filter_eq_nil_iff]
        intro e he
        obtain ⟨b, hb, rfl⟩ := List.mem_map.mp he
        rw [decide_eq_true_iff, bears_entry_iff (hbodies' b hb)]
        exact (hfirst b hb).symm
      rw [if_pos (decide_eq_true hown), hrest]
    · have hother : ¬ Bears a.id b.entry := by
        rw [bears_entry_iff hbody]
        exact hfirst a hmem
      rw [if_neg (by rwa [decide_eq_true_iff])]
      exact ih hbodies' hids' hmem

theorem filter_bears_remaining (ha : a ∈ as) (rules : List Json) :
    (remaining as rules).filter (fun e => Bears a.id e) = [] := by
  rw [List.filter_eq_nil_iff]
  intro e he
  rw [decide_eq_true_iff]
  exact of_decide_eq_true (List.mem_filter.mp he).2 a ha

theorem here_pairwise (h : as.Pairwise Differs) (scope : String) (kind : Kind) :
    (here scope kind as).Pairwise (·.id ≠ ·.id) := by
  refine (h.filter _).imp_of_mem ?_
  intro a b ha hb hdiffers
  obtain ⟨rfl, rfl⟩ := isAt_iff.mp (List.mem_filter.mp ha).2
  obtain ⟨hscope, hkind⟩ := isAt_iff.mp (List.mem_filter.mp hb).2
  exact hdiffers hscope.symm hkind.symm

end Gathering

/-- What a run makes of a value. -/
theorem TurnsAll.gathers (hids : as.Pairwise Differs) (h : TurnsAll as j j') : Gathers as j j' := by
  have hreached := h.reaches
  have hbodies (scope : String) (kind : Kind) :
      ∀ a ∈ here scope kind as, ∃ members, a.body = .obj members :=
    fun a ha => (hreached a (List.mem_of_mem_filter ha)).1
  have hlists : ∀ scope s, Scope.Written scope s → ∀ kind,
      listAt? (s.path kind) j' = (listAt? (s.path kind) j).map fun rules =>
        remaining (here scope kind as) rules ++ (here scope kind as).map Addition.entry := by
    intro scope s hscope kind
    rw [h.listAt_eq hscope kind]
    congr 1
    funext rules
    exact foldl_into (hbodies scope kind) (here_pairwise hids scope kind) rules
  refine ⟨hreached, fun a ha => named_entry (hreached a ha).1, hlists, ?_,
    fun q hq => h.valueAt_eq hq⟩
  intro a ha s rules' hscope hrules'
  have hmem := mem_here ha
  rw [hlists a.scope s hscope a.kind] at hrules'
  obtain ⟨rules, -, rfl⟩ := Option.map_eq_some_iff.mp hrules'
  rw [List.filter_append, filter_bears_remaining hmem, List.nil_append]
  exact filter_bears_entries (hbodies a.scope a.kind) (here_pairwise hids a.scope a.kind) hmem

theorem Gathers.rearranged (hperm : bs.Perm as) (h : Gathers as j j') (h' : Gathers bs j j'') :
    Rearranged as bs j' j'' := by
  intro scope s hscope kind
  have hhere : (here scope kind bs).Perm (here scope kind as) := hperm.filter _
  refine ⟨hhere, ?_⟩
  rw [h.lists scope s hscope kind, h'.lists scope s hscope kind]
  cases listAt? (s.path kind) j with
  | none => exact .inl ⟨rfl, rfl⟩
  | some rules =>
    refine .inr ⟨remaining (here scope kind as) rules, rfl, ?_⟩
    rw [Option.map_some, remaining_perm hhere]

theorem AllAdded.ne_void (h : AllAdded as c c') (hne : as ≠ []) : c ≠ .void := by
  cases h with
  | none => exact absurd rfl hne
  | next hrun => exact (run_eq_iff.mp hrun).1

/-- **`additions_kept`** — when additions, those to one list under different ids, wait for a file with an
object in it, and all of them succeed one after the other, every list of the file is the one that it was
without the entries of the new ids, followed by the new rules in the order in which they were added, each
of them once.  In any other order they succeed as well, with the same lists but for the order of the new
rules; and where that order is the same in every list, with the same file.  All texts that are written
are taken to be read back as the value for which they are written. -/
theorem additions_kept {members : List (String × Json)} (hroot : root c = .ok (.obj members))
    (hids : as.Pairwise Differs) (hback : Faithful as c) (h : AllAdded as c c') :
    ∃ j', root c' = .ok j' ∧ Gathers as (.obj members) j' ∧
      ∀ bs, bs.Perm as → Faithful bs c →
        (∃ c'', AllAdded bs c c'') ∧
          ∀ c'', AllAdded bs c c'' →
            (∃ j'', root c'' = .ok j'' ∧ Gathers bs (.obj members) j'' ∧ Rearranged as bs j' j'') ∧
              ((∀ scope kind, here scope kind bs = here scope kind as) → c'' = c') := by
  obtain ⟨j', hall, hroot', hentries, hfile⟩ := h.turnsAll hback hroot
  have hgathers := hall.gathers hids
  refine ⟨j', hroot', hgathers, ?_⟩
  intro bs hperm hback'
  have hids' : bs.Pairwise Differs :=
    hids.perm hperm.symm fun hdiffers hscope hkind => (hdiffers hscope.symm hkind.symm).symm
  constructor
  · by_cases hnil : bs = []
    · subst hnil
      exact ⟨c, .none c⟩
    · have hne : as ≠ [] := fun has => hnil (List.Perm.eq_nil (has ▸ hperm))
      exact exists_allAdded (h.ne_void hne) hroot
        (fun b hb => hgathers.reached b (hperm.mem_iff.mp hb)) hback'
  · intro c'' h'
    obtain ⟨j'', hall', hroot'', -, hfile'⟩ := h'.turnsAll hback' hroot
    have hgathers' := hall'.gathers hids'
    refine ⟨⟨j'', hroot'', hgathers', hgathers.rearranged hperm hgathers'⟩, ?_⟩
    intro hhere
    by_cases hnil : as = []
    · subst hnil
      obtain rfl := List.Perm.eq_nil hperm
      cases h
      cases h'
      rfl
    · have hne : bs ≠ [] := fun hbs => hnil (List.Perm.eq_nil (hbs ▸ hperm.symm))
      rw [hfile hnil, hfile' hne,
        hall.eq_of_here (canonical_of_root hroot).1 hentries hhere hall']

/-! ### Three additions to a file -/

/-- An entry with no more than an id. -/
def ruleOf (id : String) : Json :=
  .obj [("rule_id", .str id)]

/-- A rule set with content rules of these ids for all devices. -/
def contents (ids : List String) : Json :=
  .obj [("global", .obj [("content", .arr (ids.map ruleOf))])]

/-- The same with the rule of a room. -/
def contentsAndRoom (ids : List String) (id : String) : Json :=
  .obj [("global", .obj [("content", .arr (ids.map ruleOf)), ("room", .arr [ruleOf id])])]

/-- **`addedA`**, the first of two content rules to be added. -/
def addedA : Addition :=
  ⟨"global", .content, "a", .obj []⟩

/-- **`addedC`**, the second of them. -/
def addedC : Addition :=
  ⟨"global", .content, "c", .obj []⟩

/-- **`addedRoom`**, the rule of a room with the id of the first. -/
def addedRoom : Addition :=
  ⟨"global", .room, "a", .obj []⟩

theorem faithful_and_allAdded (hvoid : c ≠ .void) (hroot : root c = .ok j) (h : a.Turns j j₁)
    (hback : root (holding j₁) = .ok j₁)
    (hrest : Faithful as (holding j₁) ∧ AllAdded as (holding j₁) c') :
    Faithful (a :: as) c ∧ AllAdded (a :: as) c c' := by
  have hrun : a.run c = (.ok (), holding j₁) := run_eq_iff.mpr ⟨hvoid, j, j₁, hroot, h, rfl⟩
  refine ⟨⟨?_, ?_⟩, .next hrun hrest.2⟩
  · intro i i' hi hi'
    obtain rfl := Except.ok.inj (hroot.symm.trans hi)
    exact h.unique hi' ▸ hback
  · rw [hrun]
    exact hrest.1

/-- In a file with two rules of the first id one new rule takes the place of both, behind the rule that
is kept, and a rule of another kind can have the same id. -/
theorem additions_kept_contents :
    ∃ c' j', AllAdded [addedA, addedRoom, addedC] (holding (contents ["a", "b", "a"])) c' ∧
      root c' = .ok j' ∧
        Gathers [addedA, addedRoom, addedC] (contents ["a", "b", "a"]) j' ∧
        j' = contentsAndRoom ["b", "a", "c"] "a" := by
  have hroot : root (holding (contents ["a", "b", "a"])) = .ok (contents ["a", "b", "a"]) :=
    root_holding (j := contents ["a", "b", "a"]) (by decide) (by decide)
  have hfirst : root (holding (contents ["b", "a"])) = .ok (contents ["b", "a"]) :=
    root_holding (j := contents ["b", "a"]) (by decide) (by decide)
  have hsecond : root (holding (contentsAndRoom ["b", "a"] "a")) =
      .ok (contentsAndRoom ["b", "a"] "a") :=
    root_holding (j := contentsAndRoom ["b", "a"] "a") (by decide) (by decide)
  have hlast : root (holding (contentsAndRoom ["b", "a", "c"] "a")) =
      .ok (contentsAndRoom ["b", "a", "c"] "a") :=
    root_holding (j := contentsAndRoom ["b", "a", "c"] "a") (by decide) (by decide)
  have hboth : Faithful [addedA, addedRoom, addedC] (holding (contents ["a", "b", "a"])) ∧
      AllAdded [addedA, addedRoom, addedC] (holding (contents ["a", "b", "a"]))
        (holding (contentsAndRoom ["b", "a", "c"] "a")) := by
    refine faithful_and_allAdded (by simp [holding]) hroot ⟨[], rfl, rfl⟩ hfirst ?_
    refine faithful_and_allAdded (by simp [holding]) hfirst ⟨[], rfl, rfl⟩ hsecond ?_
    exact faithful_and_allAdded (by simp [holding]) hsecond ⟨[], rfl, rfl⟩ hlast
      ⟨trivial, .none _⟩
  have hids : [addedA, addedRoom, addedC].Pairwise Differs := by
    simp [addedA, addedRoom, addedC, Differs]
  obtain ⟨j', hroot', hgathers, -⟩ := additions_kept hroot hids hboth.1 hboth.2
  exact ⟨_, j', hboth.2, hroot', hgathers, Except.ok.inj (hroot'.symm.trans hlast)⟩

end AlertRules.RulesFile
