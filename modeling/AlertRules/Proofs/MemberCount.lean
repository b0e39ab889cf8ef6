import AlertRules.Matching
import Mathlib.Data.List.TakeWhile
import Mathlib.Data.Nat.Digits.Defs

/-!
# AlertRules.Proofs.MemberCount — which texts are comparisons

A comparison is spelled by the sign of an operator and decimal digits, and equality needs no sign
(`Spelled`).  The text is cut where the characters of operators end; no digit is one of them, so that
there is only one way to cut it, and a text is read as a comparison iff it spells it
(`Comparison.ofString?_eq_some_iff`).

The number in a comparison is what its digits spell, as an unbounded number, and a count is compared
with that number (`memberCount_spelled_and_related`).
-/

namespace AlertRules

namespace MemberCount

/-! ## Operators -/

namespace Operator

/-- The relation that the operator stands for. -/
def Relates : Operator → Nat → Nat → Prop
  | .eq, count, bound => count = bound
  | .lt, count, bound => count < bound
  | .gt, count, bound => count > bound
  | .le, count, bound => count ≤ bound
  | .ge, count, bound => count ≥ bound

/-- The operator may be written so. -/
def Signed (o : Operator) (sign : List Char) : Prop :=
  sign = o.text.toList ∨ o = .eq ∧ sign = []

variable {o : Operator} {count bound : Nat} {sign : List Char}

theorem holds_iff_relates : o.holds count bound = true ↔ o.Relates count bound := by
  cases o <;> simp [holds, Relates]

theorem ofChars?_eq_some_iff : ofChars? sign = some o ↔ o.Signed sign := by
  constructor
  · intro h
    unfold ofChars? at h
    split at h
    · rename_i hsign
      obtain rfl := Option.some.inj h
      exact hsign.symm.imp_right fun hnil => ⟨rfl, hnil⟩
    split at h
    · rename_i hsign
      obtain rfl := Option.some.inj h
      exact .inl hsign
    split at h
    · rename_i hsign
      obtain rfl := Option.some.inj h
      exact .inl hsign
    split at h
    · rename_i hsign
      obtain rfl := Option.some.inj h
      exact .inl hsign
    split at h
    · rename_i hsign
      obtain rfl := Option.some.inj h
      exact .inl hsign
    · cases h
  · rintro (rfl | ⟨rfl, rfl⟩)
    · cases o <;> decide
    · rfl

/-- The signs there are. -/
theorem exists_signed_iff :
    (∃ o : Operator, o.Signed sign) ↔
      sign ∈ ["", "==", "<", ">", "<=", ">="].map String.toList := by
  constructor
  · rintro ⟨o, rfl | ⟨rfl, rfl⟩⟩
    · cases o <;> decide
    · decide
  · intro h
    simp only [List.map_cons, List.map_nil, List.mem_cons, List.not_mem_nil, or_false] at h
    rcases h with rfl | rfl | rfl | rfl | rfl | rfl
    · exact ⟨.eq, .inr ⟨rfl, rfl⟩⟩
    · exact ⟨.eq, .inl rfl⟩
    · exact ⟨.lt, .inl rfl⟩
    · exact ⟨.gt, .inl rfl⟩
    · exact ⟨.le, .inl rfl⟩
    · exact ⟨.ge, .inl rfl⟩

theorem isOperatorChar_of_signed (h : o.Signed sign) :
    ∀ c ∈ sign, Comparison.isOperatorChar c = true := by
  rcases h with rfl | ⟨-, rfl⟩
  · apply List.all_eq_true.mp
    cases o <;> decide
  · exact fun c hc => absurd hc List.not_mem_nil

end Operator

/-! ## Numbers -/

/-- The number that decimal digits spell, the first of them being worth most. -/
def decimal (digits : List Char) : Nat :=
  Nat.ofDigits 10 (digits.reverse.map fun c => c.toNat - '0'.toNat)

theorem decimal_eq_foldl (digits : List Char) :
    decimal digits = digits.foldl (fun acc c => 10 * acc + (c.toNat - 48)) 0 := by
  rw [decimal, Nat.ofDigits_eq_foldr, List.foldr_map, List.foldr_reverse]
  congr 1
  funext acc c
  exact Nat.add_comm _ _

theorem not_isOperatorChar_of_isDigit {c : Char} (h : c.isDigit = true) :
    Comparison.isOperatorChar c = false := by
  have hnone : ['=', '<', '>'].all (fun c => !c.isDigit) = true := by decide
  by_contra hchar
  rw [Bool.not_eq_false] at hchar
  have hmem : c ∈ ['=', '<', '>'] := by
    simpa [Comparison.isOperatorChar, or_assoc] using hchar
  have hother := List.all_eq_true.mp hnone c hmem
  rw [h] at hother
  exact Bool.false_ne_true hother

namespace Comparison

theorem bound?_eq_some_iff {digits : List Char} {b : UInt64} :
    bound? digits = some b ↔
      digits ≠ [] ∧ (∀ c ∈ digits, c.isDigit = true) ∧ decimal digits = b.toNat := by
  rw [bound?, ← decimal_eq_foldl, ← and_assoc, ← List.all_eq_true]
  by_cases hdigits : digits ≠ [] ∧ digits.all Char.isDigit = true
  · rw [if_pos hdigits, and_iff_right hdigits]
    dsimp only
    constructor
    · intro h
      split at h
      · rename_i hlt
        obtain rfl := Option.some.inj h
        exact (Nat.mod_eq_of_lt hlt).symm
      · cases h
    · intro h
      rw [h, if_pos b.toNat_lt]
      exact congrArg some UInt64.ofNat_toNat
  · rw [if_neg hdigits]
    apply iff_of_false
    · simp
    · exact fun h => hdigits h.1

/-! ## Comparisons -/

/-- The text is the sign of the operator and the digits of the bound, with nothing around them. -/
def Spelled (s : String) (k : Comparison) : Prop :=
  ∃ sign digits, s.toList = sign ++ digits ∧ k.operator.Signed sign ∧ digits ≠ [] ∧
    (∀ c ∈ digits, c.isDigit = true) ∧ decimal digits = k.bound.toNat

/-- Where there are digits behind a sign, the text is cut between the two. -/
theorem span_sign_digits {sign digits : List Char} (hsign : ∀ c ∈ sign, isOperatorChar c = true)
    (hdigits : ∀ c ∈ digits, c.isDigit = true) :
    (sign ++ digits).takeWhile isOperatorChar = sign ∧
      (sign ++ digits).dropWhile isOperatorChar = digits := by
  rw [List.takeWhile_append_of_pos hsign, List.dropWhile_append_of_pos hsign]
  cases digits with
  | nil => exact ⟨List.append_nil sign, rfl⟩
  | cons d digits =>
    have hd : ¬ isOperatorChar d = true := by
      rw [not_isOperatorChar_of_isDigit (hdigits d List.mem_cons_self)]
      exact Bool.false_ne_true
    rw [List.takeWhile_cons_of_neg hd, List.dropWhile_cons_of_neg hd]
    exact ⟨List.append_nil sign, rfl⟩

theorem ofString?_eq_some {s : String} {k : Comparison} :
    ofString? s = some k ↔
      Operator.ofChars? (s.toList.takeWhile isOperatorChar) = some k.operator ∧
        bound? (s.toList.dropWhile isOperatorChar) = some k.bound := by
  rw [ofString?]
  cases Operator.ofChars? (s.toList.takeWhile isOperatorChar) with
  | none => simp
  | some o =>
    cases bound? (s.toList.dropWhile isOperatorChar) with
    | none => simp
    | some b =>
      obtain ⟨o', b'⟩ := k
      simp

/-- A text is read as a comparison iff it spells it. -/
theorem ofString?_eq_some_iff {s : String} {k : Comparison} :
    ofString? s = some k ↔ Spelled s k := by
  rw [ofString?_eq_some, Operator.ofChars?_eq_some_iff, bound?_eq_some_iff]
  constructor
  · rintro ⟨hsign, hdigits⟩
    exact ⟨_, _, (List.takeWhile_append_dropWhile).symm, hsign, hdigits⟩
  · rintro ⟨sign, digits, hs, hsign, hne, hdigits, hvalue⟩
    obtain ⟨htake, hdrop⟩ := span_sign_digits (Operator.isOperatorChar_of_signed hsign) hdigits
    rw [hs, htake, hdrop]
    exact ⟨hsign, hne, hdigits, hvalue⟩

/-- A text is a comparison iff a sign stands in front of digits that spell a number of 64 bits. -/
theorem isSome_ofString?_iff {s : String} :
    (ofString? s).isSome = true ↔
      ∃ sign digits, s.toList = sign ++ digits ∧
        sign ∈ ["", "==", "<", ">", "<=", ">="].map String.toList ∧
        digits ≠ [] ∧ (∀ c ∈ digits, c.isDigit = true) ∧ decimal digits < 2 ^ 64 := by
  rw [Option.isSome_iff_exists]
  constructor
  · rintro ⟨k, hk⟩
    obtain ⟨sign, digits, hs, hsign, hne, hdigits, hvalue⟩ := ofString?_eq_some_iff.mp hk
    have hlt : decimal digits < 2 ^ 64 := hvalue ▸ k.bound.toNat_lt
    exact ⟨sign, digits, hs, Operator.exists_signed_iff.mp ⟨_, hsign⟩, hne, hdigits, hlt⟩
  · rintro ⟨sign, digits, hs, hsign, hne, hdigits, hlt⟩
    obtain ⟨o, ho⟩ := Operator.exists_signed_iff.mpr hsign
    refine ⟨⟨o, (decimal digits).toUInt64⟩, ofString?_eq_some_iff.mpr ?_⟩
    exact ⟨sign, digits, hs, ho, hne, hdigits, (Nat.mod_eq_of_lt hlt).symm⟩

theorem holds_iff_relates {k : Comparison} {count : Nat} :
    k.holds count = true ↔ k.operator.Relates count k.bound.toNat :=
  Operator.holds_iff_relates

end Comparison

end MemberCount

/-! ## Conditions -/

open MemberCount (Comparison decimal)

variable {text : String} {s : Setting} {e : Event}

/-- A condition on the member count holds iff its text is a comparison, and the room of the event is
known and its member count passes. -/
theorem memberCount_holds_iff :
    (Condition.memberCount (some text)).holds s e = true ↔
      ∃ k, Comparison.ofString? text = some k ∧
        ∃ count, e.roomId?.bind s.rooms.memberCount? = some count ∧ k.holds count = true := by
  show memberCountHolds s (some text) e = true ↔ _
  rw [memberCountHolds, Option.bind_some]
  cases Comparison.ofString? text with
  | none => simp
  | some k =>
    cases e.roomId?.bind s.rooms.memberCount? with
    | none => simp
    | some count => simp

theorem memberCount?_eq_some_iff {count : Nat} :
    e.roomId?.bind s.rooms.memberCount? = some count ↔
      ∃ room, e.roomId? = some room ∧
        ∃ members, s.rooms.members room = some members ∧ members.length = count := by
  simp only [Option.bind_eq_some_iff, RoomView.memberCount?, Option.map_eq_some_iff]

/-- A text is read as a comparison iff it is a sign and digits and nothing else, with leading zeros or
without, and then as the operator of the sign and the number of the digits.  The condition with that
text holds iff the event names a room whose members are known, and their number stands in the relation
of the operator to that number. -/
theorem memberCount_spelled_and_related (text : String) :
    ((Comparison.ofString? text).isSome = true ↔
      ∃ sign digits, text.toList = sign ++ digits ∧
        sign ∈ ["", "==", "<", ">", "<=", ">="].map String.toList ∧
        digits ≠ [] ∧ (∀ c ∈ digits, c.isDigit = true) ∧ decimal digits < 2 ^ 64) ∧
    (∀ k, Comparison.ofString? text = some k ↔ Comparison.Spelled text k) ∧
    ∀ s e, (Condition.memberCount (some text)).holds s e = true ↔
      ∃ k, Comparison.Spelled text k ∧
        ∃ room, e.roomId? = some room ∧
          ∃ members, s.rooms.members room = some members ∧
            k.operator.Relates members.length k.bound.toNat := by
  refine ⟨Comparison.isSome_ofString?_iff, fun k => Comparison.ofString?_eq_some_iff, ?_⟩
  intro s e
  rw [memberCount_holds_iff]
  simp only [Comparison.ofString?_eq_some_iff, memberCount?_eq_some_iff,
    Comparison.holds_iff_relates]
  constructor
  · rintro ⟨k, hk, _, ⟨room, hroom, members, hmembers, rfl⟩, hrelated⟩
    exact ⟨k, hk, room, hroom, members, hmembers, hrelated⟩
  · rintro ⟨k, hk, room, hroom, members, hmembers, hrelated⟩
    exact ⟨k, hk, _, ⟨room, hroom, members, hmembers, rfl⟩, hrelated⟩

example : Comparison.ofString? "<=007" = some ⟨.le, 7⟩ := by decide

example : Comparison.ofString? "=<7" = none := by decide

end AlertRules
