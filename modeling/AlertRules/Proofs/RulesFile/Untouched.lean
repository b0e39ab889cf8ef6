import AlertRules.Proofs.RulesFile.Rewriting

/-!
# AlertRules.Proofs.RulesFile.Untouched — what a change leaves alone

A change that succeeds puts another list at the end of one path and touches nothing beside it: the
levels on the way keep their other members, whatever these are, and a level that was missing holds
nothing but what leads on (`Relists`, `add_and_delete_relist`).

A change that is refused leaves the file as it is, or leaves an empty file where there was none, and
the two read alike (`Unharmed`, `refused_unharmed`).
-/

namespace AlertRules.RulesFile

/-! ## Names of scopes -/

/-- **`Scope.Written text s`** — how a scope is written: `global`, or `device/` and a name, in which
any character may stand. -/
inductive Scope.Written : String → Scope → Prop
  | global : Written "global" .global
  | device {name : String} (hname : name ≠ "") : Written ("device/" ++ name) (.device name)

theorem toList_device (name : String) :
    ("device/" ++ name).toList = "device/".toList ++ name.toList :=
  String.toList_append

theorem Scope.ofString?_device {name : String} (hname : name ≠ "") :
    Scope.ofString? ("device/" ++ name) = some (.device name) := by
  have hglobal : "device/" ++ name ≠ "global" := by
    intro heq
    have hhead := congrArg (fun text => text.toList.head?) heq
    rw [toList_device] at hhead
    exact absurd (Option.some.inj hhead) (by decide)
  have hnamed : "device/" ++ name ≠ "device/" := by
    intro heq
    have htext := congrArg String.toList heq
    rw [toList_device] at htext
    exact hname (String.toList_eq_nil_iff.mp (List.append_right_eq_self.mp htext))
  have hstart : "device/".toList.isPrefixOf ("device/" ++ name).toList = true := by
    rw [toList_device, List.isPrefixOf_iff_prefix]
    exact List.prefix_append _ _
  have hrest : ("device/" ++ name).toList.drop "device/".length = name.toList := by
    rw [toList_device]
    exact List.drop_left
  rw [Scope.ofString?, if_neg hglobal, if_pos ⟨hstart, hnamed⟩, hrest, String.ofList_toList]

theorem Scope.written_iff {text : String} {s : Scope} :
    Scope.Written text s ↔ Scope.ofString? text = some s := by
  constructor
  · intro h
    cases h with
    | global => rfl
    | device hname => exact Scope.ofString?_device hname
  · intro h
    have hread := h
    unfold Scope.ofString? at h
    split at h
    · rename_i htext
      obtain rfl := Option.some.inj h
      exact htext ▸ .global
    · split at h
      · rename_i hdevice
        obtain ⟨hstart, hnamed⟩ := hdevice
        obtain ⟨rest, hrest⟩ := List.isPrefixOf_iff_prefix.mp hstart
        obtain rfl : text = "device/" ++ String.ofList rest :=
          String.toList_inj.mp (by rw [toList_device, @String.toList_ofList rest, hrest])
        have hname : String.ofList rest ≠ "" := by
          intro hempty
          rw [hempty] at hnamed
          exact hnamed rfl
        rw [Scope.ofString?_device hname] at hread
        obtain rfl := Option.some.inj hread
        exact .device hname
      · exact absurd h (by simp)

/-! ## Beside the list -/

/-- The value to which the keys lead, one member after the other. -/
def valueAt? : List String → Json → Option Json
  | [], j => some j
  | key :: path, j => (j.field? key).bind (valueAt? path)

/-- **`Relists path rules rules' j j'`** — the list at the end of the path, or an empty one where there
is none, is `rules` in `j` and `rules'` in `j'`.  A level on the way that is missing in `j` holds only
the next one in `j'`, and to whatever else keys lead is the same in both. -/
structure Relists (path : List String) (rules rules' : List Json) (j j' : Json) : Prop where
  value_eq : j' = withListAt rules' path j
  old : (valueAt? path j).getD (.arr []) = .arr rules
  new : valueAt? path j' = some (.arr rules')
  created : ∀ way key rest, path = way ++ key :: rest → valueAt? way j = none →
    ∃ next, valueAt? way j' = some (.obj [(key, next)])
  elsewhere : ∀ q, ¬ q <+: path → ¬ path <+: q → valueAt? q j' = valueAt? q j

theorem valueAt?_obj (key : String) (path : List String) (members : List (String × Json)) :
    valueAt? (key :: path) (.obj members) = (members.lookup key).bind (valueAt? path) :=
  rfl

theorem valueAt?_absent {q : List String} (hq : q ≠ []) (path : List String) :
    valueAt? q (absent path) = none := by
  cases q with
  | nil => exact absurd rfl hq
  | cons key q => cases path <;> rfl

theorem listAt?_absent (path : List String) : listAt? path (absent path) = some [] := by
  induction path with
  | nil => rfl
  | cons key path ih => exact ih

section Levels

variable {path : List String} {j : Json} {rules : List Json}

/-- A member that is missing leads nowhere, and counts as what leads nowhere else. -/
theorem valueAt?_getD_absent {q : List String} (hq : q ≠ []) (key : String) (path : List String)
    (members : List (String × Json)) :
    valueAt? q ((members.lookup key).getD (absent path)) = valueAt? (key :: q) (.obj members) := by
  rw [valueAt?_obj]
  cases members.lookup key with
  | none => exact valueAt?_absent hq path
  | some d => rfl

theorem valueAt?_of_listAt? (hrules : listAt? path j = some rules) :
    (valueAt? path j).getD (.arr []) = .arr rules := by
  induction path generalizing j with
  | nil => exact listAt?_nil_eq_some_iff.mp hrules
  | cons key path ih =>
    obtain ⟨members, rfl, hinner⟩ := listAt?_cons_eq_some_iff.mp hrules
    rw [valueAt?_obj]
    cases hlookup : members.lookup key with
    | none =>
      rw [hlookup, Option.getD_none, listAt?_absent] at hinner
      rw [← Option.some.inj hinner]
      rfl
    | some d =>
      rw [hlookup] at hinner
      exact ih hinner

/-- The key of the path leads to the level below with the other list, every other key as before. -/
theorem valueAt?_withListAt_cons (rules' : List Json) (key : String) (path : List String)
    (members : List (String × Json)) (k : String) (q : List String) :
    valueAt? (k :: q) (withListAt rules' (key :: path) (.obj members)) =
      if k = key then
        valueAt? q (withListAt rules' path ((members.lookup key).getD (absent path)))
      else valueAt? (k :: q) (.obj members) := by
  rw [withListAt_obj, valueAt?_obj, Entries.lookup_insert]
  by_cases hk : k = key
  · rw [if_pos hk, if_pos hk, Option.bind_some]
  · rw [if_neg hk, if_neg hk, valueAt?_obj]

theorem valueAt?_withListAt (hrules : listAt? path j = some rules) (rules' : List Json) :
    valueAt? path (withListAt rules' path j) = some (.arr rules') := by
  induction path generalizing j with
  | nil => rfl
  | cons key path ih =>
    obtain ⟨members, rfl, hinner⟩ := listAt?_cons_eq_some_iff.mp hrules
    rw [valueAt?_withListAt_cons, if_pos rfl]
    exact ih hinner

theorem valueAt?_created (hrules : listAt? path j = some rules) (rules' : List Json)
    {way rest : List String} {key : String} (hpath : path = way ++ key :: rest)
    (hmissing : valueAt? way j = none) :
    ∃ next, valueAt? way (withListAt rules' path j) = some (.obj [(key, next)]) := by
  induction way generalizing path j with
  | nil => exact absurd hmissing (by simp [valueAt?])
  | cons k way ih =>
    subst hpath
    obtain ⟨members, rfl, hinner⟩ := listAt?_cons_eq_some_iff.mp hrules
    rw [List.cons_append, valueAt?_withListAt_cons, if_pos rfl]
    by_cases hway : way = []
    · subst hway
      rw [valueAt?_obj] at hmissing
      cases hlookup : members.lookup k with
      | none => exact ⟨_, rfl⟩
      | some d =>
        rw [hlookup] at hmissing
        exact absurd hmissing (by simp [valueAt?])
    · exact ih hinner rfl ((valueAt?_getD_absent hway k _ members).trans hmissing)

theorem valueAt?_elsewhere (hrules : listAt? path j = some rules) (rules' : List Json)
    {q : List String} (hbefore : ¬ q <+: path) (hbehind : ¬ path <+: q) :
    valueAt? q (withListAt rules' path j) = valueAt? q j := by
  induction path generalizing j q with
  | nil => exact absurd List.nil_prefix hbehind
  | cons key path ih =>
    obtain ⟨members, rfl, hinner⟩ := listAt?_cons_eq_some_iff.mp hrules
    cases q with
    | nil => exact absurd List.nil_prefix hbefore
    | cons k q =>
      rw [valueAt?_withListAt_cons]
      by_cases hk : k = key
      · subst hk
        rw [List.cons_prefix_cons] at hbefore hbehind
        have hq : q ≠ [] := fun hnil => hbefore ⟨rfl, hnil ▸ List.nil_prefix⟩
        rw [if_pos rfl, ih hinner (fun h => hbefore ⟨rfl, h⟩) (fun h => hbehind ⟨rfl, h⟩)]
        exact valueAt?_getD_absent hq k path members
      · rw [if_neg hk]

theorem relists_withListAt (hrules : listAt? path j = some rules) (rules' : List Json) :
    Relists path rules rules' j (withListAt rules' path j) where
  value_eq := rfl
  old := valueAt?_of_listAt? hrules
  new := valueAt?_withListAt hrules rules'
  created _ _ _ hpath hmissing := valueAt?_created hrules rules' hpath hmissing
  elsewhere _ hbefore hbehind := valueAt?_elsewhere hrules rules' hbefore hbehind

end Levels

/-! ## Changes that succeed -/

section Change

variable {scope : String} {kind : Kind} {f : Edit} {id : String} {c c' : File.Content}

/-- The rules of the kind within the scope are `rules` in the value that the file `c` holds, and `c'`
holds that value with `rules'` in their place. -/
def Replaced (scope : String) (kind : Kind) (rules rules' : List Json) (c c' : File.Content) : Prop :=
  c ≠ .void ∧ ∃ s j j', Scope.Written scope s ∧ root c = .ok j ∧
    listAt? (s.path kind) j = some rules ∧ Relists (s.path kind) rules rules' j j' ∧
      c' = holding j'

theorem editRoot_of_unknown (hscope : Scope.ofString? scope = none) (j : Json) :
    ∃ fault, editRoot scope kind f j = .error fault := by
  cases j with
  | obj members =>
    rw [editRoot, hscope]
    exact ⟨_, rfl⟩
  | _ => exact ⟨_, rfl⟩

/-- A change needs a scope. -/
theorem exists_scope_of_modify (h : (modify scope kind f c).1 = .ok ()) :
    ∃ s, Scope.ofString? scope = some s := by
  cases hscope : Scope.ofString? scope with
  | some s => exact ⟨s, rfl⟩
  | none =>
    cases hroot : root c with
    | error fault => exact absurd h (by simp [modify, edited, hroot])
    | ok j =>
      have hrefused : ∃ fault, editRoot scope kind f j = .error fault :=
        editRoot_of_unknown hscope j
      obtain ⟨fault, hedit⟩ := hrefused
      exact absurd ((modify_eq_error hroot hedit).symm.trans h) (by simp)

theorem modify_eq_iff :
    modify scope kind f c = (.ok (), c') ↔
      ∃ rules rules', f rules = .ok rules' ∧ Replaced scope kind rules rules' c c' := by
  constructor
  · intro h
    have hok : (modify scope kind f c).1 = .ok () := congrArg Prod.fst h
    obtain ⟨s, hscope⟩ := exists_scope_of_modify hok
    obtain ⟨hvoid, j, rules, rules', hroot, hrules, hf⟩ := (modify_eq_ok_iff hscope).mp hok
    refine ⟨rules, rules', hf, hvoid, s, j, _, Scope.written_iff.mpr hscope, hroot, hrules,
      relists_withListAt hrules rules', ?_⟩
    rw [← modify_snd hscope hvoid hroot hrules hf, h]
  · rintro ⟨rules, rules', hf, hvoid, s, j, j', hscope, hroot, hrules, hrelists, rfl⟩
    rw [Scope.written_iff] at hscope
    have hok := (modify_eq_ok_iff hscope).mpr ⟨hvoid, j, rules, rules', hroot, hrules, hf⟩
    rw [hrelists.value_eq, ← modify_snd hscope hvoid hroot hrules hf]
    exact Prod.ext hok rfl

theorem failureOf_mk_eq_iff {result : Except Fault Unit × File.Content} :
    (failureOf scope kind id result.1, result.2) = (.ok (), c') ↔ result = (.ok (), c') := by
  obtain ⟨result, file⟩ := result
  rw [Prod.mk.injEq, Prod.mk.injEq, failureOf_eq_ok_iff]

theorem add_eq_iff {body : Json} :
    add scope kind id body c = (.ok (), c') ↔
      ∃ members, body = .obj members ∧ modify scope kind (placing id members) c = (.ok (), c') := by
  cases body with
  | obj members =>
    have hadd : add scope kind id (.obj members) c = (.ok (), c') ↔
        modify scope kind (placing id members) c = (.ok (), c') := failureOf_mk_eq_iff
    simp [hadd]
  | _ => simp [add, failureOf, Except.mapError]

theorem delete_eq_iff :
    delete scope kind id c = (.ok (), c') ↔ modify scope kind (removing id) c = (.ok (), c') :=
  failureOf_mk_eq_iff

end Change

/-- **`add_and_delete_relist`** — a rule is put into a file exactly when its body is an object and the
list of its scope and kind can be reached; then the list loses the entries that bear its id, has the
body with the id at its end, and nothing else is touched.  Rules are taken out of a file exactly when
entries that bear their id stand in that list; then it loses them, and nothing else is touched. -/
theorem add_and_delete_relist (scope : String) (kind : Kind) (id : String) (c c' : File.Content) :
    (∀ body, add scope kind id body c = (.ok (), c') ↔
      ∃ members rules kept rule, body = .obj members ∧ Drops id rules kept ∧
        Named id members rule ∧ Replaced scope kind rules (kept ++ [rule]) c c') ∧
    (delete scope kind id c = (.ok (), c') ↔
      ∃ rules kept, (∃ e ∈ rules, Bears id e) ∧ Drops id rules kept ∧
        Replaced scope kind rules kept c c') := by
  constructor
  · intro body
    rw [add_eq_iff]
    constructor
    · rintro ⟨members, hbody, hmodify⟩
      obtain ⟨rules, rules', hf, hreplaced⟩ := modify_eq_iff.mp hmodify
      obtain rfl := Except.ok.inj hf
      exact ⟨members, rules, _, _, hbody, drops_iff.mpr rfl, named_withId id members, hreplaced⟩
    · rintro ⟨members, rules, kept, rule, hbody, hdrops, hnamed, hreplaced⟩
      obtain rfl := drops_iff.mp hdrops
      obtain rfl := hnamed.value_eq
      exact ⟨members, hbody, modify_eq_iff.mpr ⟨rules, _, rfl, hreplaced⟩⟩
  · rw [delete_eq_iff, modify_eq_iff]
    simp only [← hasId_iff]
    constructor
    · rintro ⟨rules, rules', hf, hreplaced⟩
      obtain ⟨hfound, rfl⟩ := removing_eq_ok_iff.mp hf
      exact ⟨rules, _, hfound, drops_iff.mpr rfl, hreplaced⟩
    · rintro ⟨rules, kept, hfound, hdrops, hreplaced⟩
      obtain rfl := drops_iff.mp hdrops
      exact ⟨rules, _, removing_eq_ok_iff.mpr ⟨hfound, rfl⟩, hreplaced⟩

/-- A value with content rules of a device, in whose name a slash is no separator, and with members that
have nothing to do with them. -/
def phoneRules (rules : List Json) : Json :=
  .obj [("device", .obj [("phone/2", .obj
    [("content", .arr rules), ("hidden", .bool true), ("room", .null)])]), ("version", .bool false)]

theorem root_phoneRules : root (holding (phoneRules [.null, .obj [("rule_id", .str "a")]])) =
    .ok (phoneRules [.null, .obj [("rule_id", .str "a")]]) :=
  root_holding (j := phoneRules [.null, .obj [("rule_id", .str "a")]]) (by decide) (by decide)

/-- Levels are created on the way to rules of a device.  An entry of the id gives way to the body with
the id, whatever id the body brings along, and what stands beside the list stays. -/
theorem add_and_delete_relist_phone :
    add "device/phone/2" .content "a" (.obj [("pattern", .str "x")]) .missing =
      (.ok (), holding (.obj [("device", .obj [("phone/2", .obj [("content",
        .arr [.obj [("pattern", .str "x"), ("rule_id", .str "a")]])])])])) ∧
    add "device/phone/2" .content "a" (.obj [("pattern", .str "x"), ("rule_id", .str "b")])
        (holding (phoneRules [.null, .obj [("rule_id", .str "a")]])) =
      (.ok (), holding (phoneRules [.null, .obj [("pattern", .str "x"), ("rule_id", .str "a")]])) ∧
    delete "device/phone/2" .content "a"
        (holding (phoneRules [.null, .obj [("rule_id", .str "a")]])) =
      (.ok (), holding (phoneRules [.null])) := by
  have hscope : Scope.Written ("device/" ++ "phone/2") (.device "phone/2") := .device (by decide)
  have hempty : listAt? ["device", "phone/2", "content"] (.obj []) = some [] := rfl
  have hlist : listAt? ["device", "phone/2", "content"]
      (phoneRules [.null, .obj [("rule_id", .str "a")]]) =
        some [.null, .obj [("rule_id", .str "a")]] := rfl
  have hdrops : Drops "a" [.null, .obj [("rule_id", .str "a")]] [.null] := drops_iff.mpr rfl
  refine ⟨?_, ?_, ?_⟩
  · exact ((add_and_delete_relist _ _ _ _ _).1 _).mpr
      ⟨_, [], [], _, rfl, .nil, named_withId _ _, by simp, _, _, _, hscope, rfl, hempty,
        relists_withListAt hempty _, rfl⟩
  · exact ((add_and_delete_relist _ _ _ _ _).1 _).mpr
      ⟨_, _, _, _, rfl, hdrops, named_withId _ _, by simp [holding], _, _, _, hscope,
        root_phoneRules, hlist, relists_withListAt hlist _, rfl⟩
  · exact (add_and_delete_relist _ _ _ _ _).2.mpr
      ⟨_, _, ⟨_, List.mem_cons_of_mem _ (List.mem_singleton_self _), _, rfl, rfl⟩, hdrops,
        by simp [holding], _, _, _, hscope, root_phoneRules, hlist, relists_withListAt hlist _, rfl⟩

/-! ## Changes that are refused -/

/-- **`Unharmed path c c'`** — the file is as it was, or it was missing and is empty now; either way
the same is read from it. -/
structure Unharmed (path : String) (c c' : File.Content) : Prop where
  kept : c' = c ∨ c = .missing ∧ c' = .present .empty
  fetch_eq : fetch path c' = fetch path c

theorem unharmed_refl (path : String) (c : File.Content) : Unharmed path c c :=
  ⟨.inl rfl, rfl⟩

theorem unharmed_opened (path : String) (c : File.Content) : Unharmed path c c.opened where
  kept := by
    cases c with
    | missing => exact .inr ⟨rfl, rfl⟩
    | _ => exact .inl rfl
  fetch_eq := by rw [fetch, fetch, root_opened]

/-- **`refused_unharmed`** — a rule that is not put into a file, and rules that are not taken out of
it, do the file no harm, whatever it holds and whatever the reason is. -/
theorem refused_unharmed (path scope : String) (kind : Kind) (id : String) (c c' : File.Content)
    (failure : Failure) :
    (∀ body, add scope kind id body c = (.error failure, c') → Unharmed path c c') ∧
    (delete scope kind id c = (.error failure, c') → Unharmed path c c') := by
  constructor
  · intro body h
    have hne : (add scope kind id body c).1 ≠ .ok () := by
      rw [h]
      simp
    have hfile := add_snd_of_ne_ok hne
    rw [h] at hfile
    rcases hfile with rfl | rfl
    · exact unharmed_refl path _
    · exact unharmed_opened path c
  · intro h
    have hne : (delete scope kind id c).1 ≠ .ok () := by
      rw [h]
      simp
    have hfile := delete_snd_of_ne_ok hne
    rw [h] at hfile
    obtain rfl : c' = c.opened := hfile
    exact unharmed_opened path c

section Refused

variable {scope : String} {kind : Kind} {id : String} {c : File.Content} {j : Json} {fault : Fault}

theorem add_eq_of_refused {members : List (String × Json)} (hroot : root c = .ok j)
    (hedit : editRoot scope kind (placing id members) j = .error fault) :
    add scope kind id (.obj members) c =
      (.error (.mutation scope kind.text id fault.message), c.opened) := by
  have hresult := modify_eq_error hroot hedit
  refine Prod.ext ?_ (modify_snd_of_error hresult)
  show failureOf scope kind id (modify scope kind (placing id members) c).1 = _
  rw [hresult]
  rfl

theorem delete_eq_of_refused (hroot : root c = .ok j)
    (hedit : editRoot scope kind (removing id) j = .error fault) :
    delete scope kind id c = (.error (.mutation scope kind.text id fault.message), c.opened) := by
  have hresult := modify_eq_error hroot hedit
  refine Prod.ext ?_ (modify_snd_of_error hresult)
  show failureOf scope kind id (modify scope kind (removing id) c).1 = _
  rw [hresult]
  rfl

end Refused

/-- A scope that there is not leaves an empty file at most.  A list that is none, and a rule that is not
found, leave the text that is there. -/
theorem refused_unharmed_phone :
    ∃ failure failure' failure'',
      add "phone" .content "a" (.obj []) .missing = (.error failure, .present .empty) ∧
      Unharmed "rules.json" .missing (.present .empty) ∧
      add "device/phone/2" .room "a" (.obj [])
          (holding (phoneRules [.null, .obj [("rule_id", .str "a")]])) =
        (.error failure', holding (phoneRules [.null, .obj [("rule_id", .str "a")]])) ∧
      delete "device/phone/2" .content "b"
          (holding (phoneRules [.null, .obj [("rule_id", .str "a")]])) =
        (.error failure'', holding (phoneRules [.null, .obj [("rule_id", .str "a")]])) ∧
      Unharmed "rules.json" (holding (phoneRules [.null, .obj [("rule_id", .str "a")]]))
        (holding (phoneRules [.null, .obj [("rule_id", .str "a")]])) := by
  have hunknown : add "phone" .content "a" (.obj []) .missing =
      (.error (.mutation "phone" "content" "a" "unknown scope 'phone'"), .present .empty) := rfl
  have hplacing : editRoot "device/phone/2" .room (placing "a" [])
      (phoneRules [.null, .obj [("rule_id", .str "a")]]) =
        .error (.kindNotList "device/phone/2" .room) := rfl
  have hremoving : editRoot "device/phone/2" .content (removing "b")
      (phoneRules [.null, .obj [("rule_id", .str "a")]]) = .error .ruleNotFound := rfl
  have hadd := add_eq_of_refused root_phoneRules hplacing
  have hdelete := delete_eq_of_refused root_phoneRules hremoving
  exact ⟨_, _, _, hunknown, (refused_unharmed "rules.json" _ _ _ _ _ _).1 _ hunknown, hadd, hdelete,
    (refused_unharmed "rules.json" _ _ _ _ _ _).2 hdelete⟩

end AlertRules.RulesFile
