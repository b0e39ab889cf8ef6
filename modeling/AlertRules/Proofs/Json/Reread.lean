import AlertRules.Proofs.Json.DoubleText
import AlertRules.Proofs.Json.Values

/-!
# AlertRules.Proofs.Json.Reread — values with their numbers read again

Writing a value and reading it again gives the value back, but for its doubles: the text of a double is
always a number (`Number.value?_text`), though not always the same one.  `j.reread` is the value with
each number replaced by the one that its text is read as.  It differs from the value in nothing but
numbers, and in nothing at all when the value is stable (`Stable.reread_eq`).
-/

namespace AlertRules.Json

/-! ## Numbers -/

/-- The number that the text of the number is read as. -/
def Number.reread (n : Number) : Number :=
  ((Numeral.ofChars? n.text.toList).bind Numeral.value?).getD n

/-- The text of a number is a number. -/
theorem Number.value?_text (n : Number) :
    (Numeral.ofChars? n.text.toList).bind Numeral.value? = some n.reread := by
  have hsome : ∃ v, (Numeral.ofChars? n.text.toList).bind Numeral.value? = some v := by
    cases n with
    | int i h => exact ⟨_, stable_int i h⟩
    | double d => exact d.exists_value
  obtain ⟨v, hv⟩ := hsome
  rw [Number.reread, hv, Option.getD_some]

theorem Number.Stable.reread_eq {n : Number} (h : n.Stable) : n.reread = n :=
  Option.some.inj ((Number.value?_text n).symm.trans h)

/-! ## Values -/

mutual

/-- The value with every number read again. -/
def reread : Json → Json
  | .num n => .num n.reread
  | .arr items => .arr (rereadItems items)
  | .obj members => .obj (rereadMembers members)
  | j => j

/-- The items with every number read again. -/
def rereadItems : List Json → List Json
  | [] => []
  | j :: items => j.reread :: rereadItems items

/-- The members with every number read again. -/
def rereadMembers : List (String × Json) → List (String × Json)
  | [] => []
  | (key, j) :: members => (key, j.reread) :: rereadMembers members

end

theorem rereadItems_eq_map (items : List Json) : rereadItems items = items.map reread := by
  induction items with
  | nil => rfl
  | cons j items ih => rw [rereadItems, ih, List.map_cons]

theorem rereadMembers_eq_mapValues (members : List (String × Json)) :
    rereadMembers members = Entries.mapValues reread members := by
  induction members with
  | nil => rfl
  | cons m members ih =>
    rw [rereadMembers, ih]
    rfl

@[simp]
theorem reread_arr (items : List Json) : (Json.arr items).reread = .arr (items.map reread) := by
  rw [reread, rereadItems_eq_map]

@[simp]
theorem reread_obj (members : List (String × Json)) :
    (Json.obj members).reread = .obj (Entries.mapValues reread members) := by
  rw [reread, rereadMembers_eq_mapValues]

theorem field?_reread (j : Json) (key : String) :
    j.reread.field? key = (j.field? key).map reread := by
  cases j with
  | obj members =>
    rw [reread_obj]
    exact Entries.lookup_mapValues reread members key
  | _ => simp [reread, field?]

theorem text?_reread (j : Json) : j.reread.text? = j.text? := by
  cases j <;> simp [reread, text?]

mutual

theorem depth_reread : ∀ j : Json, j.reread.depth = j.depth
  | .null | .bool _ | .num _ | .str _ => rfl
  | .arr items => by rw [reread, depth, depth, depthOfItems_reread items]
  | .obj members => by rw [reread, depth, depth, depthOfMembers_reread members]

theorem depthOfItems_reread : ∀ items : List Json,
    depthOfItems (rereadItems items) = depthOfItems items
  | [] => rfl
  | j :: items => by
    rw [rereadItems, depthOfItems, depthOfItems, depth_reread j, depthOfItems_reread items]

theorem depthOfMembers_reread : ∀ members : List (String × Json),
    depthOfMembers (rereadMembers members) = depthOfMembers members
  | [] => rfl
  | (_, j) :: members => by
    rw [rereadMembers, depthOfMembers, depthOfMembers, depth_reread j, depthOfMembers_reread members]

end

mutual

theorem Canonical.reread : ∀ {j : Json}, j.Canonical → j.reread.Canonical
  | .null, h | .bool _, h | .num _, h | .str _, h => h
  | .arr _, h => allCanonical_reread h
  | .obj members, h => by
    refine ⟨?_, membersCanonical_reread h.2⟩
    rw [rereadMembers_eq_mapValues]
    exact (Entries.sorted_mapValues Json.reread).mpr h.1

theorem allCanonical_reread : ∀ {items : List Json}, AllCanonical items →
    AllCanonical (rereadItems items)
  | [], h => h
  | _ :: _, h => ⟨h.1.reread, allCanonical_reread h.2⟩

theorem membersCanonical_reread : ∀ {members : List (String × Json)}, MembersCanonical members →
    MembersCanonical (rereadMembers members)
  | [], h => h
  | (_, _) :: _, h => ⟨h.1.reread, membersCanonical_reread h.2⟩

end

mutual

/-- A stable value stays as it is. -/
theorem Stable.reread_eq : ∀ {j : Json}, j.Stable → j.reread = j
  | .null, _ | .bool _, _ | .str _, _ => rfl
  | .num _, h => congrArg Json.num (Number.Stable.reread_eq h)
  | .arr _, h => congrArg Json.arr (rereadItems_of_allStable h)
  | .obj _, h => congrArg Json.obj (rereadMembers_of_membersStable h)

theorem rereadItems_of_allStable : ∀ {items : List Json}, AllStable items → rereadItems items = items
  | [], _ => rfl
  | j :: items, h => by rw [rereadItems, Stable.reread_eq h.1, rereadItems_of_allStable h.2]

theorem rereadMembers_of_membersStable : ∀ {members : List (String × Json)}, MembersStable members →
    rereadMembers members = members
  | [], _ => rfl
  | (_, _) :: members, h => by
    rw [rereadMembers, Stable.reread_eq h.1, rereadMembers_of_membersStable h.2]

end

end AlertRules.Json
