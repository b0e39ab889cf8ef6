import Mathlib.Data.List.Basic
import AlertRules.Proofs.Json.Records

/-!
# AlertRules.Proofs.Json.Parts — what stands behind a path

A **step** goes from a value to one of its parts, to the field of a record or to the member of a map, and
a path of steps to a value deep inside.  Another value can be put there (`put`), and everything else
stays.

A reader reads what stands behind a path **through** another reader if it reads nothing else of it: what
the other reader reads alike can be put there, and the whole is read as before, with the same result or
the same refusal (`Through`).  Records read their fields through the readers of the fields
(`Record.Sees.through`), maps read their members through one reader (`Read.through_map`), and that goes
on along a path (`Through.cons`).
-/

namespace AlertRules

/-! ## The entry under a key -/

/-- The entries in front of one that is there and those behind it, between which another value is
put. -/
theorem Entries.exists_split {β : Type} {key : String} {value : β} {es : List (String × β)}
    (hes : Sorted es) (h : es.lookup key = some value) :
    ∃ front back, es = front ++ (key, value) :: back ∧
      ∀ other, insert key other es = front ++ (key, other) :: back := by
  induction es with
  | nil => cases h
  | cons e es ih =>
    obtain ⟨k, v⟩ := e
    obtain ⟨hfirst, hrest⟩ := List.pairwise_cons.mp hes
    by_cases hkey : key = k
    · subst hkey
      rw [List.lookup_cons_self] at h
      obtain rfl := Option.some.inj h
      refine ⟨[], es, rfl, fun other => ?_⟩
      rw [insert, if_neg (String.lt_irrefl key), if_neg (String.lt_irrefl key)]
      rfl
    · rw [lookup_cons_ne hkey] at h
      obtain ⟨front, back, hsplit, hput⟩ := ih hrest h
      have hlt : k < key := hfirst _ (mem_of_lookup h)
      refine ⟨(k, v) :: front, back, congrArg _ hsplit, fun other => ?_⟩
      rw [insert, if_neg (String.lt_asymm hlt), if_pos hlt, hput, List.cons_append]

namespace Json

/-! ## Steps and paths -/

/-- A step into a value: to a field of a record with those fields, or to the member of a map. -/
inductive Step where
  | field (names : List String) (name : String)
  | member (key : String)

namespace Step

/-- The part to which the step leads. -/
def get? : Step → Json → Option Json
  | .field names name, j => j.part? names name
  | .member key, j => j.field? key

/-- The value with `d` for that part. -/
def put (d : Json) : Step → Json → Json
  | .field _ name, .obj members => .obj (Entries.insert name d members)
  | .field names name, .arr items => .arr (items.set (names.idxOf name) d)
  | .member key, .obj members => .obj (Entries.insert key d members)
  | _, j => j

/-- The value has a place for the part to which the step leads: an object always, a list if it is long
enough. -/
def Fits : Step → Json → Prop
  | .field _ _, .obj _ => True
  | .field names name, .arr items => names.idxOf name < items.length
  | .member _, .obj _ => True
  | _, _ => False

theorem fits_of_get? {step : Step} {j d : Json} (h : step.get? j = some d) : step.Fits j := by
  cases j with
  | obj members => cases step <;> trivial
  | arr items =>
    cases step with
    | field names name => exact (List.getElem?_eq_some_iff.mp h).1
    | member key => cases h
  | _ => cases step <;> cases h

theorem canonical_get? {step : Step} {j d : Json} (hj : j.Canonical) (h : step.get? j = some d) :
    d.Canonical := by
  cases j with
  | obj members =>
    have hlookup : ∃ key, members.lookup key = some d := by
      cases step with
      | field names name => exact ⟨name, h⟩
      | member key => exact ⟨key, h⟩
    obtain ⟨key, hkey⟩ := hlookup
    exact membersCanonical_iff.mp hj.2 _ (Entries.mem_of_lookup hkey)
  | arr items =>
    cases step with
    | field names name => exact allCanonical_iff.mp hj d (List.mem_of_getElem? h)
    | member key => cases h
  | _ => cases step <;> cases h

/-! ### Another value for a field -/

section Field

variable {names : List String} {name : String} {j : Json}

theorem keyed_put (hj : j.Keyed) (d' : Json) : ((field names name).put d' j).Keyed := by
  cases j with
  | obj members => exact Entries.sorted_insert hj
  | _ => trivial

theorem hasForm_put (d' : Json) (n : Nat) :
    ((field names name).put d' j).hasForm n = j.hasForm n := by
  cases j with
  | arr items =>
    show decide ((items.set _ d').length ≤ n) = decide (items.length ≤ n)
    rw [List.length_set]
  | _ => rfl

theorem part?_put (hname : name ∈ names) (h : (field names name).Fits j) (d' : Json)
    (other : String) :
    ((field names name).put d' j).part? names other =
      if other = name then some d' else j.part? names other := by
  cases j with
  | obj members => exact Entries.lookup_insert ..
  | arr items =>
    show (items.set (names.idxOf name) d')[names.idxOf other]? = _
    by_cases hother : other = name
    · rw [if_pos hother, hother, List.getElem?_set_self h]
    · have hne : names.idxOf name ≠ names.idxOf other :=
        fun heq => hother ((List.idxOf_inj hname).mp heq).symm
      rw [if_neg hother, List.getElem?_set_ne hne]
      rfl
  | _ => cases h

end Field

end Step

/-- The value behind the path. -/
def behind? : List Step → Json → Option Json
  | [], j => some j
  | step :: path, j => (step.get? j).bind (behind? path)

/-- The value with `d` behind the path. -/
def putBehind (d : Json) : List Step → Json → Json
  | [], _ => d
  | step :: path, j =>
    match step.get? j with
    | some g => step.put (putBehind d path g) j
    | none => j

theorem behind?_cons_eq_some_iff {step : Step} {path : List Step} {j d : Json} :
    behind? (step :: path) j = some d ↔ ∃ g, step.get? j = some g ∧ behind? path g = some d :=
  Option.bind_eq_some_iff

theorem behind?_singleton (step : Step) (j : Json) : behind? [step] j = step.get? j :=
  Option.bind_fun_some (step.get? j)

theorem putBehind_cons {step : Step} {path : List Step} {j g : Json} (h : step.get? j = some g)
    (d : Json) : putBehind d (step :: path) j = step.put (putBehind d path g) j := by
  rw [putBehind, h]

theorem canonical_behind? {path : List Step} {j d : Json} (hj : j.Canonical)
    (h : behind? path j = some d) : d.Canonical := by
  induction path generalizing j with
  | nil => exact Option.some.inj h ▸ hj
  | cons step path ih =>
    obtain ⟨g, hg, hd⟩ := behind?_cons_eq_some_iff.mp h
    exact ih (Step.canonical_get? hj hg) hd

/-! ## Reading through a path -/

variable {α β γ : Type}

/-- Of what stands behind the path, `outer` reads what `inner` reads. -/
def Through (path : List Step) (outer : Json → Except Refusal α) (inner : Json → Except Refusal β) :
    Prop :=
  ∀ j d d', j.Canonical → behind? path j = some d → inner d' = inner d →
    outer (putBehind d' path j) = outer j

theorem Through.cons {step : Step} {path : List Step} {outer : Json → Except Refusal α}
    {middle : Json → Except Refusal β} {inner : Json → Except Refusal γ}
    (hstep : Through [step] outer middle) (hpath : Through path middle inner) :
    Through (step :: path) outer inner := by
  intro j d d' hj hd hinner
  obtain ⟨g, hg, hbehind⟩ := behind?_cons_eq_some_iff.mp hd
  have hmiddle := hpath g d d' (Step.canonical_get? hj hg) hbehind hinner
  have houter := hstep j g (putBehind d' path g) hj (by rw [behind?, hg]; rfl) hmiddle
  rw [putBehind, hg] at houter ⊢
  exact houter

/-- What is read alike behind a single step is read alike. -/
theorem through_single {step : Step} {outer : Json → Except Refusal α}
    {inner : Json → Except Refusal β}
    (h : ∀ j d d', j.Canonical → step.get? j = some d → inner d' = inner d →
      outer (step.put d' j) = outer j) : Through [step] outer inner := by
  intro j d d' hj hd hinner
  obtain ⟨g, hg, hbehind⟩ := behind?_cons_eq_some_iff.mp hd
  obtain rfl := Option.some.inj hbehind
  rw [putBehind, hg]
  exact h j g d' hj hg hinner

/-! ### Maps -/

theorem Read.entries_congr {read : Json → Except Refusal α} {key : String} {d d' : Json}
    (h : read d' = read d) (front back : List (String × Json)) (m : KeyMap α) :
    entries read m (front ++ (key, d') :: back) = entries read m (front ++ (key, d) :: back) := by
  induction front generalizing m with
  | nil => rw [List.nil_append, List.nil_append, entries, entries, h]
  | cons e front ih =>
    obtain ⟨k, v⟩ := e
    rw [List.cons_append, List.cons_append, entries, entries]
    cases read v with
    | error refusal => rfl
    | ok a => exact ih (m.insert k a)

/-- A map reads its members through the reader of its values. -/
theorem Read.through_map (read : Json → Except Refusal α) (key : String) :
    Through [.member key] (Read.map read) read := by
  apply through_single
  intro j d d' hj hd hread
  cases j with
  | obj members =>
    obtain ⟨front, back, hsplit, hput⟩ := Entries.exists_split hj.1 hd
    show entries read .empty (Entries.insert key d' members) = entries read .empty members
    rw [hput, hsplit]
    exact entries_congr hread front back .empty
  | _ => cases hd

/-! ### Records -/

namespace Record

/-- **`r.Sees name inner`** — of what stands in the field of that name, the record sees what `inner`
reads, in building and in looking for faults. -/
structure Sees (r : Record Json α) (name : String) (inner : Json → Except Refusal β) : Prop where
  build : ∀ lookup lookup' : Lookup Json, ∀ d d', inner d' = inner d →
    lookup.get name = .ok (some d) → lookup'.get name = .ok (some d') →
    (∀ other, other ≠ name → lookup'.get other = lookup.get other) →
    lookup'.missing = lookup.missing → r.build lookup' = r.build lookup
  fault : ∀ field ∈ r.fields, field.name = name → ∀ d d', inner d' = inner d →
    field.fault? d' = field.fault? d

section Sees

variable {name : String} {inner : Json → Except Refusal β}

/-- A field of another name sees nothing, and one of that name what its reader reads. -/
theorem sees_withDefault {field : String} {value : α} {read : Json → Except Refusal α}
    (h : field = name → ∀ d d', inner d' = inner d → read d' = read d) :
    (withDefault field value read).Sees name inner where
  build := by
    intro lookup lookup' d d' hinner hd hd' hother hmissing
    unfold withDefault
    dsimp only
    by_cases hfield : field = name
    · rw [hfield, hd, hd']
      exact h hfield d d' hinner
    · rw [hother field hfield]
  fault := by
    intro f hf hname d d' hinner
    obtain rfl := List.mem_singleton.mp hf
    show faultOf read d' = faultOf read d
    rw [faultOf, faultOf, h hname d d' hinner]

theorem Sees.map {r : Record Json α} (hr : r.Sees name inner) (f : α → γ) :
    Record.Sees (f <$> r) name inner where
  build := by
    intro lookup lookup' d d' hinner hd hd' hother hmissing
    show (r.build lookup').map f = (r.build lookup).map f
    rw [hr.build lookup lookup' d d' hinner hd hd' hother hmissing]
  fault := hr.fault

theorem Sees.seq {f : Record Json (α → γ)} {r : Record Json α} (hf : f.Sees name inner)
    (hr : r.Sees name inner) : Record.Sees (f <*> r) name inner where
  build := by
    intro lookup lookup' d d' hinner hd hd' hother hmissing
    show (f.apply r).build lookup' = (f.apply r).build lookup
    unfold Record.apply
    dsimp only
    rw [hf.build lookup lookup' d d' hinner hd hd' hother hmissing,
      hr.build lookup lookup' d d' hinner hd hd' hother hmissing]
  fault := by
    intro field hfield
    rcases List.mem_append.mp hfield with hfield | hfield
    · exact hf.fault field hfield
    · exact hr.fault field hfield

end Sees

/-- The first fault among the members does not change with a member in which its field finds the
same. -/
theorem firstFault?_congr {fields : List (Field Json)} {key : String} {d d' : Json}
    (h : ∀ field ∈ fields, field.name = key → field.fault? d' = field.fault? d)
    (front back : List (String × Json)) (seen : List String) :
    firstFault? fields seen (front ++ (key, d') :: back) =
      firstFault? fields seen (front ++ (key, d) :: back) := by
  induction front generalizing seen with
  | nil =>
    rw [List.nil_append, List.nil_append, firstFault?, firstFault?]
    cases hfind : fields.find? (·.name == key) with
    | none => rfl
    | some field =>
      have hname := List.find?_some hfind
      dsimp only
      rw [h field (List.mem_of_find?_eq_some hfind) (eq_of_beq hname)]
  | cons m front ih =>
    obtain ⟨k, v⟩ := m
    rw [List.cons_append, List.cons_append, firstFault?, firstFault?]
    simp only [ih]

/-- What a record sees alike in a field, it is built from alike. -/
theorem Sees.build_put {r : Record Json α} {name : String} {inner : Json → Except Refusal β}
    (h : r.Sees name inner) (hname : name ∈ r.names) {j d d' : Json}
    (hd : j.part? r.names name = some d) (hinner : inner d' = inner d) {lookup lookup' : Lookup Json}
    (hfinds : Finds lookup (j.part? r.names))
    (hfinds' : Finds lookup' (((Step.field r.names name).put d' j).part? r.names))
    (hmissing : lookup'.missing = lookup.missing) : r.build lookup' = r.build lookup := by
  have hput := Step.part?_put hname (Step.fits_of_get? hd) d'
  apply h.build _ _ d d' hinner
  · rw [hfinds, hd]
  · rw [hfinds', hput, if_pos rfl]
  · intro other hother
    rw [hfinds', hfinds, hput, if_neg hother]
  · exact hmissing

/-- A record reads a field through what it sees of it. -/
theorem Sees.through {r : Record Json α} {name : String} {inner : Json → Except Refusal β}
    (h : r.Sees name inner) (hname : name ∈ r.names) (title : String) :
    Through [.field r.names name] (r.read title) inner := by
  apply through_single
  intro j d d' hj hd hinner
  have hpart : j.part? r.names name = some d := hd
  cases j with
  | obj members =>
    have hbuild : r.build ⟨memberNamed (Entries.insert name d' members), .missingField⟩ =
        r.build ⟨memberNamed members, .missingField⟩ :=
      h.build_put hname hpart hinner (finds_members hj.1)
        (finds_members (Entries.sorted_insert hj.1)) rfl
    have hfault : firstFault? r.fields [] (Entries.insert name d' members) =
        firstFault? r.fields [] members := by
      obtain ⟨front, back, hsplit, hput⟩ := Entries.exists_split hj.1 hpart
      rw [hput, hsplit]
      exact firstFault?_congr (fun field hfield hfname => h.fault field hfield hfname d d' hinner)
        front back []
    show r.ofMembers (Entries.insert name d' members) = r.ofMembers members
    rw [ofMembers, ofMembers, hbuild, hfault]
  | arr items =>
    have hbuild : r.build (r.itemLookup title (items.set (r.names.idxOf name) d')) =
        r.build (r.itemLookup title items) :=
      h.build_put hname hpart hinner (finds_items r title items) (finds_items r title _) rfl
    show r.ofItems title (items.set (r.names.idxOf name) d') = r.ofItems title items
    rw [ofItems_eq, ofItems_eq, hbuild, List.length_set]
  | _ => cases hpart

end Record

end Json

end AlertRules
