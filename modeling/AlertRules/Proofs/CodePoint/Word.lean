import AlertRules.CodePoint.Word
import AlertRules.Proofs.CodePoint.CaseFold

/-!
# AlertRules.Proofs.CodePoint.Word — case variants are word characters together

The two tables of characters fit together: whatever the folding table holds or leads to is a word
character (`within_of_mem_cased`), and only such characters have case variants.  Hence no two case
variants stand on different sides of a word boundary (`isWord_congr`).

For the comparison both tables are written as numbers, one binary digit for each code point.  The
digits of the word table say how many bounds lie beyond a code point, odd or even (`parityMask`).
-/

namespace AlertRules.CodePoint

/-! ## Bounds as binary digits -/

/-- The number whose binary digits mark what an odd number of the bounds lies beyond. -/
def parityMask : List Nat → Nat
  | [] => 0
  | b :: bs => (1 <<< b - 1) ^^^ parityMask bs

theorem testBit_parityMask (bs : List Nat) (n : Nat) :
    (parityMask bs).testBit n = decide (bs.countP (n < ·) % 2 = 1) := by
  induction bs with
  | nil => simp [parityMask]
  | cons b bs ih =>
    rw [parityMask, Nat.testBit_xor, Nat.one_shiftLeft, Nat.testBit_two_pow_sub_one, ih,
      List.countP_cons]
    by_cases hb : n < b
    · simp only [hb, decide_true, Bool.true_xor, if_true, ← decide_not, decide_eq_decide]
      omega
    · simp only [hb, decide_false, Bool.false_xor, Bool.false_eq_true, if_false, Nat.add_zero]

theorem getD_eq_getElem_toList {bounds : Array Nat} {i : Nat} (hi : i < bounds.toList.length) :
    bounds.getD i 0 = bounds.toList[i] := by
  rw [Array.getD_eq_getD_getElem?, ← Array.getElem?_toList, List.getElem?_eq_getElem hi]
  rfl

/-- The entries beyond `n` are those that are not among the first ones. -/
theorem Splits.countP_eq {bounds : Array Nat} {n k : Nat} (h : Splits bounds n k) :
    bounds.toList.countP (n < ·) = bounds.size - k := by
  rw [← List.take_append_drop k bounds.toList, List.countP_append]
  have hfirst : (bounds.toList.take k).countP (n < ·) = 0 := by
    refine List.countP_eq_zero.mpr fun b hb => ?_
    obtain ⟨i, hi, rfl⟩ := List.mem_take_iff_getElem.mp hb
    rw [← getD_eq_getElem_toList (by omega)]
    simpa using h.upTo i (by omega)
  have hrest : (bounds.toList.drop k).countP (n < ·) = (bounds.toList.drop k).length := by
    refine List.countP_eq_length.mpr fun b hb => ?_
    obtain ⟨i, hi, rfl⟩ := List.mem_drop_iff_getElem.mp hb
    rw [← getD_eq_getElem_toList (by omega)]
    simpa using h.beyond (k + i) (by omega) (by rw [← Array.length_toList]; omega)
  rw [hfirst, hrest, List.length_drop, Array.length_toList, Nat.zero_add]

theorem increasing_of_pairwise {bounds : Array Nat} (h : bounds.toList.Pairwise (· < ·)) :
    Increasing bounds := by
  intro i j hij hj
  rw [← Array.length_toList] at hj
  rw [getD_eq_getElem_toList (by omega), getD_eq_getElem_toList hj]
  rcases Nat.lt_or_eq_of_le hij with hlt | rfl
  · exact Nat.le_of_lt (List.pairwise_iff_getElem.mp h i j (by omega) hj hlt)
  · exact Nat.le_refl _

/-! ## The two tables -/

theorem increasing_wordBounds : Increasing wordBounds := by
  have h : wordBounds.toList.IsChain (· < ·) := by decide +kernel
  exact increasing_of_pairwise h.pairwise

/-- A digit of the word table is set iff the code point is within it. -/
theorem testBit_wordBounds (n : Nat) :
    (parityMask wordBounds.toList).testBit n = within wordBounds n := by
  have hsplits := countUpTo_spec increasing_wordBounds n
  have hle := hsplits.le_size
  -- every run ends, so that of all bounds an odd number is beyond when an odd number is not
  have hsize : wordBounds.size % 2 = 0 := by decide +kernel
  rw [testBit_parityMask, hsplits.countP_eq, within, Bool.eq_iff_iff, decide_eq_true_iff, beq_iff_eq]
  omega

/-- The code points of the folding table: those that have case variants. -/
def cased : List Nat :=
  unfolded ++ folded

theorem mask_cased_and_word : mask cased &&& parityMask wordBounds.toList = mask cased := by
  decide +kernel

/-- What has case variants is a word character. -/
theorem within_of_mem_cased {n : Nat} (h : n ∈ cased) : within wordBounds n = true := by
  have hbit : (mask cased).testBit n = true := by
    rw [testBit_mask]
    exact decide_eq_true h
  rw [← mask_cased_and_word, Nat.testBit_and, Bool.and_eq_true, testBit_wordBounds] at hbit
  exact hbit.2

theorem mem_cased_of_fold_eq {n m : Nat} (h : fold n = fold m) (hne : n ≠ m) : n ∈ cased := by
  rcases fold_cases n with ⟨hn, -⟩ | ⟨r, hr, hn, -⟩
  · rcases fold_cases m with ⟨hm, -⟩ | ⟨r, hr, hm, htarget⟩
    · exact absurd (hn.symm.trans (h.trans hm)) hne
    · rw [← hn, h, htarget]
      exact List.mem_append_right _ (hr.mem_folded hm)
  · exact List.mem_append_left _ (hr.mem_unfolded hn)

/-- Characters that differ in case only are word characters, or are not, together. -/
theorem isWord_congr {c d : Char} (h : fold c.toNat = fold d.toNat) : isWord c = isWord d := by
  by_cases hcd : c.toNat = d.toNat
  · rw [isWord, isWord, hcd]
  · rw [isWord, isWord, within_of_mem_cased (mem_cased_of_fold_eq h hcd),
      within_of_mem_cased (mem_cased_of_fold_eq h.symm (Ne.symm hcd))]

end AlertRules.CodePoint
