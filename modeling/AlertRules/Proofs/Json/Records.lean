import AlertRules.Json.Decode
import AlertRules.Proofs.Json.Values

/-!
# AlertRules.Proofs.Json.Records — when a record is read

A record is read from an object by the names of its fields, and from a list by their order.  The keys
of a sorted object are all different, so that a field is what a look-up of its name finds.  Either way a
value has one **part** for a field at most (`part?`), and whether a record is read depends on its parts
only (`Record.read_eq_ok_iff`).  In the same way a map is read key by key (`Read.map_obj_eq_ok_iff`).
-/

namespace AlertRules.Json

/-! ## Values -/

theorem Read.text_eq_ok_iff {j : Json} {s : String} : Read.text j = .ok s ↔ j = .str s := by
  cases j <;> simp [Read.text, Read.textAs, Source.view, view]

theorem Read.all_ok {δ α : Type} (f : δ → α) (ds : List δ) :
    Read.all (fun d => .ok (f d)) ds = .ok (ds.map f) := by
  induction ds with
  | nil => rfl
  | cons d ds ih =>
    show (Read.all (fun d => .ok (f d)) ds).map (f d :: ·) = _
    rw [ih]
    rfl

theorem Read.moment_eq_ok_iff {δ : Type} [Source δ] {d : δ} {s : String} {t : Timestamp}
    (h : Source.view d = some (.str s)) : Read.moment d = .ok t ↔ Timestamp.read s = .ok t := by
  unfold Read.moment
  rw [h]
  show (Timestamp.read s).mapError Refusal.moment = .ok t ↔ _
  cases Timestamp.read s with
  | error fault => simp [Except.mapError]
  | ok t' => simp [Except.mapError]

/-- What no item of a list can fail to be is read from every list. -/
theorem Read.list_arr {α : Type} (f : Json → α) (js : List Json) :
    Read.list (fun j => .ok (f j)) (.arr js) = .ok (js.map f) :=
  Read.all_ok f js

/-! ## Maps -/

section Maps

variable {α : Type} {read : Json → Except Refusal α}

/-- Where `old` was kept, `new` is kept after what is there has been read: what it is read as, or the
same as before when nothing is there. -/
def Read.Entry (read : Json → Except Refusal α) (d? : Option Json) (old new : Option α) : Prop :=
  match d? with
  | none => new = old
  | some d => ∃ a, read d = .ok a ∧ new = some a

theorem Read.entries_eq_ok_iff {members : List (String × Json)} (h : Entries.Sorted members)
    {m m' : KeyMap α} :
    entries read m members = .ok m' ↔
      ∀ key, Entry read (members.lookup key) (m.get? key) (m'.get? key) := by
  induction members generalizing m with
  | nil =>
    show Except.ok m = .ok m' ↔ ∀ key, m'.get? key = m.get? key
    constructor
    · intro heq key
      rw [Except.ok.inj heq]
    · intro hall
      exact congrArg Except.ok (KeyMap.ext_get? fun key => (hall key).symm)
  | cons e members ih =>
    obtain ⟨k, d⟩ := e
    obtain ⟨hfirst, hrest⟩ := List.pairwise_cons.mp h
    rw [entries]
    cases hd : read d with
    | error refusal =>
      constructor
      · intro hok
        exact absurd hok (by simp)
      · intro hall
        have hk := hall k
        rw [List.lookup_cons_self] at hk
        obtain ⟨a, ha, -⟩ := hk
        exact absurd (hd.symm.trans ha) (by simp)
    | ok a =>
      dsimp only
      rw [ih hrest]
      have hlater : members.lookup k = none := by
        cases hlookup : members.lookup k with
        | none => rfl
        | some d' => exact absurd (hfirst _ (Entries.mem_of_lookup hlookup)) (String.lt_irrefl k)
      refine forall_congr' fun key => ?_
      by_cases hkey : key = k
      · rw [hkey, hlater, List.lookup_cons_self, KeyMap.get?_insert, if_pos rfl]
        simp [Entry, hd]
      · rw [Entries.lookup_cons_ne hkey, KeyMap.get?_insert, if_neg hkey]

/-- A map is read from an object key by key. -/
theorem Read.map_obj_eq_ok_iff {members : List (String × Json)} (h : Entries.Sorted members)
    {m : KeyMap α} :
    Read.map read (.obj members) = .ok m ↔
      ∀ key, Entry read (members.lookup key) none (m.get? key) :=
  entries_eq_ok_iff h

end Maps

namespace Record

variable {δ α β : Type}

/-! ## Fields one after the other -/

theorem build_map_eq_ok_iff {f : α → β} {r : Record δ α} {lookup : Lookup δ} {b : β} :
    (f <$> r).build lookup = .ok b ↔ ∃ a, r.build lookup = .ok a ∧ f a = b := by
  show (r.build lookup).map f = .ok b ↔ _
  cases r.build lookup with
  | error e => simp [Except.map]
  | ok a => simp [Except.map]

theorem build_seq_eq_ok_iff {f : Record δ (α → β)} {r : Record δ α} {lookup : Lookup δ} {b : β} :
    (f <*> r).build lookup = .ok b ↔
      ∃ g a, f.build lookup = .ok g ∧ r.build lookup = .ok a ∧ g a = b := by
  show (f.apply r).build lookup = .ok b ↔ _
  unfold Record.apply
  dsimp only
  cases f.build lookup with
  | error e => simp
  | ok g =>
    cases r.build lookup with
    | error e => simp
    | ok a => simp

theorem build_required_of_get {lookup : Lookup δ} {name : String} {d : δ}
    (h : lookup.get name = .ok (some d)) (read : δ → Except Refusal α) :
    (required name read).build lookup = read d := by
  unfold required
  dsimp only
  rw [h]

/-! ## Fields wherever they are found -/

/-- What a field that may be absent is read as. -/
def valueOr (value : α) (read : δ → Except Refusal α) : Option δ → Except Refusal α
  | none => .ok value
  | some d => read d

/-- The look-up finds in each field what `part` says. -/
def Finds (lookup : Lookup δ) (part : String → Option δ) : Prop :=
  ∀ name, lookup.get name = .ok (part name)

section Finds

variable {lookup : Lookup δ} {part : String → Option δ}

theorem Finds.build_withDefault (h : Finds lookup part) (name : String) (value : α)
    (read : δ → Except Refusal α) :
    (withDefault name value read).build lookup = valueOr value read (part name) := by
  unfold withDefault
  dsimp only
  rw [h name]
  cases part name with
  | none => rfl
  | some d => rfl

theorem Finds.build_required_eq_ok_iff (h : Finds lookup part) {name : String}
    {read : δ → Except Refusal α} {a : α} :
    (required name read).build lookup = .ok a ↔ ∃ d, part name = some d ∧ read d = .ok a := by
  unfold required
  dsimp only
  rw [h name]
  cases part name with
  | none => simp
  | some d => simp

end Finds

/-! ## Fields of an object -/

theorem filter_key_eq {members : List (String × δ)} (h : Entries.Sorted members) (name : String) :
    members.filter (·.1 == name) = (members.lookup name).toList.map fun d => (name, d) := by
  induction members with
  | nil => rfl
  | cons m members ih =>
    obtain ⟨hfirst, hrest⟩ := List.pairwise_cons.mp h
    by_cases hname : m.1 = name
    · have hnone : members.filter (·.1 == name) = [] := by
        apply List.filter_eq_nil_iff.mpr
        intro e he heq
        have hlt := hfirst e he
        rw [hname, ← eq_of_beq heq] at hlt
        exact String.lt_irrefl _ hlt
      obtain ⟨key, d⟩ := m
      obtain rfl : key = name := hname
      have hself : ((key, d).1 == key) = true := beq_self_eq_true key
      rw [List.filter_cons, if_pos hself, hnone, List.lookup_cons_self]
      rfl
    · have hother : ¬ (m.1 == name) = true := fun heq => hname (eq_of_beq heq)
      rw [List.filter_cons, if_neg hother, ih hrest,
        Entries.lookup_cons_ne fun heq => hname heq.symm]

theorem memberNamed_eq {members : List (String × δ)} (h : Entries.Sorted members)
    (name : String) : memberNamed members name = .ok (members.lookup name) := by
  rw [memberNamed, filter_key_eq h]
  cases members.lookup name with
  | none => rfl
  | some d => rfl

theorem ofMembers_eq_ok_iff {r : Record δ α} {members : List (String × δ)} {a : α} :
    r.ofMembers members = .ok a ↔ r.build ⟨memberNamed members, .missingField⟩ = .ok a := by
  rw [ofMembers]
  cases r.build ⟨memberNamed members, .missingField⟩ with
  | error e => simp
  | ok b => simp

theorem finds_members {members : List (String × δ)} (h : Entries.Sorted members) :
    Finds ⟨memberNamed members, .missingField⟩ fun name => members.lookup name :=
  memberNamed_eq h

/-! ## Fields of a list -/

/-- Where a record of that name finds its fields in a list. -/
def itemLookup (r : Record Json α) (name : String) (items : List Json) : Lookup Json where
  get field := .ok items[r.position field]?
  missing field := .wrongLength (r.position field) ("struct " ++ name ++ " with "
    ++ toString r.fields.length ++ (if r.fields.length = 1 then " element" else " elements"))

theorem ofItems_eq (r : Record Json α) (name : String) (items : List Json) :
    r.ofItems name items =
      match r.build (r.itemLookup name items) with
      | .error e => .error e
      | .ok a =>
        if items.length ≤ r.fields.length then .ok a
        else .error (.wrongLength items.length "fewer elements in array") :=
  rfl

theorem ofItems_eq_ok_iff {r : Record Json α} {name : String} {items : List Json} {a : α} :
    r.ofItems name items = .ok a ↔
      r.build (r.itemLookup name items) = .ok a ∧ items.length ≤ r.fields.length := by
  rw [ofItems_eq]
  cases r.build (r.itemLookup name items) with
  | error e => simp
  | ok b => by_cases hlength : items.length ≤ r.fields.length <;> simp [hlength]

/-- The names of the fields, in their order. -/
def names (r : Record δ α) : List String :=
  r.fields.map Field.name

theorem position_eq (r : Record δ α) (name : String) : r.position name = r.names.idxOf name := by
  rw [position, names, List.idxOf, List.findIdx_map]
  rfl

end Record

/-! ## Objects and lists alike -/

/-- If the value is an object, its keys increase strictly. -/
def Keyed : Json → Prop
  | .obj members => Entries.Sorted members
  | _ => True

theorem Canonical.keyed {j : Json} (h : j.Canonical) : j.Keyed := by
  cases j with
  | obj members => exact h.1
  | _ => trivial

/-- The value has the form of a record with `n` fields: it is an object, or a list of at most so many
items. -/
def hasForm (j : Json) (n : Nat) : Bool :=
  match j with
  | .obj _ => true
  | .arr items => items.length ≤ n
  | _ => false

/-- What a value has for a field of that name: the member of that name, or the item in its place among
the names. -/
def part? (j : Json) (names : List String) (name : String) : Option Json :=
  match j with
  | .obj members => members.lookup name
  | .arr items => items[names.idxOf name]?
  | _ => none

namespace Record

variable {α : Type}

theorem finds_items (r : Record Json α) (name : String) (items : List Json) :
    Finds (r.itemLookup name items) ((Json.arr items).part? r.names) := by
  intro field
  show Except.ok items[r.position field]? = _
  rw [r.position_eq]
  rfl

/-- A record is read from what has its form, part by part. -/
theorem read_eq_ok_iff {r : Record Json α} {name : String} {j : Json} {a : α} {P : Prop}
    (hj : j.Keyed)
    (hbuild : ∀ lookup, Finds lookup (j.part? r.names) → (r.build lookup = .ok a ↔ P)) :
    r.read name j = .ok a ↔ j.hasForm r.fields.length = true ∧ P := by
  cases j with
  | obj members =>
    have hview : r.read name (.obj members) = r.ofMembers members := rfl
    rw [hview, ofMembers_eq_ok_iff, hbuild _ (finds_members hj)]
    exact (and_iff_right rfl).symm
  | arr items =>
    have hview : r.read name (.arr items) = r.ofItems name items := rfl
    rw [hview, ofItems_eq_ok_iff, hbuild _ (finds_items r name items), and_comm]
    exact and_congr_left' decide_eq_true_iff.symm
  | _ => simp [Record.read, Source.view, view, hasForm]

end Record

end AlertRules.Json
