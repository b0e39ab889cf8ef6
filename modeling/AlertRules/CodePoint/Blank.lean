/-!
# AlertRules.CodePoint.Blank — white space

The characters with the White_Space property: the ASCII blanks and line breaks, the next-line
control, the no-break spaces, and the spaces and separators of U+1680, U+2000 and above.
-/

namespace AlertRules.CodePoint

/-- **`isBlank c`** — `c` is white space. -/
def isBlank (c : Char) : Bool :=
  let n := c.toNat
  (9 ≤ n && n ≤ 13) || n == 0x20 || n == 0x85 || n == 0xA0 || n == 0x1680
    || (0x2000 ≤ n && n ≤ 0x200A) || n == 0x2028 || n == 0x2029 || n == 0x202F || n == 0x205F
    || n == 0x3000

/-- Digits are no white space. -/
theorem isBlank_digit {c : Char} (h : c.isDigit = true) : isBlank c = false := by
  have hrange := Char.isDigit_iff_toNat.mp h
  have hzero : '0'.toNat = 48 := rfl
  have hnine : '9'.toNat = 57 := rfl
  rw [isBlank]
  simp only [Bool.or_eq_false_iff, Bool.and_eq_false_iff, decide_eq_false_iff_not,
    beq_eq_false_iff_ne]
  omega

end AlertRules.CodePoint
