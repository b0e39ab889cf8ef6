import AlertRules.Json.Value
import AlertRules.Proofs.Json.Numerals
import AlertRules.Proofs.KeyMap

/-!
# AlertRules.Proofs.Json.Values — sound values

A value is **sound** if it has one form and its numbers read back: it is canonical and stable.  Being
sound, and being at most so deep, are said of the items of a list and the members of an object one by
one, and a member that is put into an object keeps both.
-/

namespace AlertRules.Json

mutual

/-- Every number in the value is stable. -/
def Stable : Json → Prop
  | .num n => n.Stable
  | .arr items => AllStable items
  | .obj members => MembersStable members
  | _ => True

/-- Every item is stable. -/
def AllStable : List Json → Prop
  | [] => True
  | j :: items => j.Stable ∧ AllStable items

/-- The value of every member is stable. -/
def MembersStable : List (String × Json) → Prop
  | [] => True
  | (_, j) :: members => j.Stable ∧ MembersStable members

end

/-- The value is canonical and stable. -/
structure Sound (j : Json) : Prop where
  canonical : j.Canonical
  stable : j.Stable

/-! ## Items and members -/

theorem allStable_iff {items : List Json} : AllStable items ↔ ∀ j ∈ items, j.Stable := by
  induction items with
  | nil => simp [AllStable]
  | cons j items ih => rw [AllStable, ih, List.forall_mem_cons]

theorem membersStable_iff {members : List (String × Json)} :
    MembersStable members ↔ ∀ m ∈ members, m.2.Stable := by
  induction members with
  | nil => simp [MembersStable]
  | cons m members ih => rw [MembersStable, ih, List.forall_mem_cons]

theorem allCanonical_iff {items : List Json} : AllCanonical items ↔ ∀ j ∈ items, j.Canonical := by
  induction items with
  | nil => simp [AllCanonical]
  | cons j items ih => rw [AllCanonical, ih, List.forall_mem_cons]

theorem membersCanonical_iff {members : List (String × Json)} :
    MembersCanonical members ↔ ∀ m ∈ members, m.2.Canonical := by
  induction members with
  | nil => simp [MembersCanonical]
  | cons m members ih => rw [MembersCanonical, ih, List.forall_mem_cons]

theorem depthOfItems_le_iff {items : List Json} {d : Nat} :
    depthOfItems items ≤ d ↔ ∀ j ∈ items, j.depth ≤ d := by
  induction items with
  | nil => simp [depthOfItems]
  | cons j items ih => rw [depthOfItems, Nat.max_le, ih, List.forall_mem_cons]

theorem depthOfMembers_le_iff {members : List (String × Json)} {d : Nat} :
    depthOfMembers members ≤ d ↔ ∀ m ∈ members, m.2.depth ≤ d := by
  induction members with
  | nil => simp [depthOfMembers]
  | cons m members ih => rw [depthOfMembers, Nat.max_le, ih, List.forall_mem_cons]

theorem sound_str (s : String) : (Json.str s).Sound :=
  ⟨trivial, trivial⟩

theorem sound_nil_arr : (Json.arr []).Sound :=
  ⟨trivial, trivial⟩

theorem sound_nil_obj : (Json.obj []).Sound :=
  ⟨⟨List.Pairwise.nil, trivial⟩, trivial⟩

theorem sound_arr_iff {items : List Json} : (Json.arr items).Sound ↔ ∀ j ∈ items, j.Sound := by
  constructor
  · rintro ⟨hcanonical, hstable⟩ j hj
    exact ⟨allCanonical_iff.mp hcanonical j hj, allStable_iff.mp hstable j hj⟩
  · intro h
    exact ⟨allCanonical_iff.mpr fun j hj => (h j hj).canonical,
      allStable_iff.mpr fun j hj => (h j hj).stable⟩

theorem sound_obj_iff {members : List (String × Json)} :
    (Json.obj members).Sound ↔ Entries.Sorted members ∧ ∀ m ∈ members, m.2.Sound := by
  constructor
  · rintro ⟨⟨hsorted, hcanonical⟩, hstable⟩
    exact ⟨hsorted, fun m hm =>
      ⟨membersCanonical_iff.mp hcanonical m hm, membersStable_iff.mp hstable m hm⟩⟩
  · rintro ⟨hsorted, h⟩
    exact ⟨⟨hsorted, membersCanonical_iff.mpr fun m hm => (h m hm).canonical⟩,
      membersStable_iff.mpr fun m hm => (h m hm).stable⟩

theorem depth_arr_le_iff {items : List Json} {d : Nat} :
    (Json.arr items).depth ≤ d + 1 ↔ ∀ j ∈ items, j.depth ≤ d := by
  rw [depth, Nat.add_le_add_iff_right, depthOfItems_le_iff]

theorem depth_obj_le_iff {members : List (String × Json)} {d : Nat} :
    (Json.obj members).depth ≤ d + 1 ↔ ∀ m ∈ members, m.2.depth ≤ d := by
  rw [depth, Nat.add_le_add_iff_right, depthOfMembers_le_iff]

/-! ## Deciding whether a value is canonical -/

instance decidableSorted {β : Type} (es : List (String × β)) : Decidable (Entries.Sorted es) :=
  inferInstanceAs (Decidable (es.Pairwise fun a b => a.1 < b.1))

mutual

instance decidableCanonical : (j : Json) → Decidable j.Canonical
  | .null | .bool _ | .num _ | .str _ => .isTrue trivial
  | .arr items => decidableAllCanonical items
  | .obj members =>
    @instDecidableAnd _ _ (decidableSorted members) (decidableMembersCanonical members)

instance decidableAllCanonical : (items : List Json) → Decidable (AllCanonical items)
  | [] => .isTrue trivial
  | j :: items => @instDecidableAnd _ _ (decidableCanonical j) (decidableAllCanonical items)

instance decidableMembersCanonical : (members : List (String × Json)) →
    Decidable (MembersCanonical members)
  | [] => .isTrue trivial
  | (_, j) :: members =>
    @instDecidableAnd _ _ (decidableCanonical j) (decidableMembersCanonical members)

end

/-! ## Members that are put in -/

/-- A sound member put into a sound object leaves it sound. -/
theorem Sound.insert {members : List (String × Json)} (h : (Json.obj members).Sound) (key : String)
    {j : Json} (hj : j.Sound) : (Json.obj (Entries.insert key j members)).Sound := by
  obtain ⟨hsorted, hmembers⟩ := sound_obj_iff.mp h
  exact sound_obj_iff.mpr
    ⟨Entries.sorted_insert hsorted, Entries.forall_mem_insert hmembers hj⟩

theorem Sound.of_lookup {members : List (String × Json)} (h : (Json.obj members).Sound)
    {key : String} {j : Json} (hj : members.lookup key = some j) : j.Sound :=
  (sound_obj_iff.mp h).2 _ (Entries.mem_of_lookup hj)

/-- A member put into an object makes it as deep as the member needs. -/
theorem depth_insert_le {members : List (String × Json)} {d : Nat}
    (h : (Json.obj members).depth ≤ d + 1) (key : String) {j : Json} (hj : j.depth ≤ d) :
    (Json.obj (Entries.insert key j members)).depth ≤ d + 1 :=
  depth_obj_le_iff.mpr (Entries.forall_mem_insert (depth_obj_le_iff.mp h) hj)

end AlertRules.Json
