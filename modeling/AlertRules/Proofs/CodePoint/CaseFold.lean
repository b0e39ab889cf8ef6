import Mathlib.Data.List.Chain
import AlertRules.CodePoint.CaseFold

/-!
# AlertRules.Proofs.CodePoint.CaseFold — case variants are what folds alike

The binary search of `CodePoint.Bounds` finds the number of bounds up to a code point
(`countUpTo_spec`).  The runs of the folding table stand in order, so `fold` reads the one run that
holds a code point, and no run holds what a run folds to, so folding twice is folding once.  Hence
`variants n` lists exactly the code points that fold as `n` does (`mem_variants_iff`), and all of
them are characters if `n` is one (`isValidChar_of_mem_variants`).
-/

namespace AlertRules.CodePoint

/-! ## The search -/

/-- The entries do not decrease. -/
def Increasing (bounds : Array Nat) : Prop :=
  ∀ i j, i ≤ j → j < bounds.size → bounds.getD i 0 ≤ bounds.getD j 0

/-- **`Splits bounds n k`** — the entries up to `n` are the first `k` ones. -/
structure Splits (bounds : Array Nat) (n k : Nat) : Prop where
  le_size : k ≤ bounds.size
  upTo : ∀ i, i < k → bounds.getD i 0 ≤ n
  beyond : ∀ i, k ≤ i → i < bounds.size → n < bounds.getD i 0

theorem splits_search {bounds : Array Nat} (hinc : Increasing bounds) (n steps : Nat) {lo hi : Nat}
    (hle : lo ≤ hi) (hsize : hi ≤ bounds.size) (hsteps : hi - lo < 1 <<< steps)
    (hlo : ∀ i, i < lo → bounds.getD i 0 ≤ n)
    (hhi : ∀ i, hi ≤ i → i < bounds.size → n < bounds.getD i 0) :
    Splits bounds n (countUpTo.search bounds n steps lo hi) := by
  -- what lies below `lo` is up to `n`, what lies from `hi` on is beyond; each step halves the rest
  induction steps generalizing lo hi with
  | zero =>
    have heq : lo = hi := by omega
    rw [countUpTo.search]
    exact ⟨by omega, hlo, heq ▸ hhi⟩
  | succ steps ih =>
    rw [countUpTo.search]
    have hpow : 1 <<< (steps + 1) = 2 * (1 <<< steps) := Nat.shiftLeft_succ 1 steps
    split
    · rename_i hlt
      dsimp only
      split
      · rename_i hmid
        refine ih (by omega) hsize (by omega) (fun i hi' => ?_) hhi
        exact Nat.le_trans (hinc i _ (by omega) (by omega)) hmid
      · rename_i hmid
        refine ih (by omega) (by omega) (by omega) hlo (fun i hi' hsz => ?_)
        exact Nat.lt_of_lt_of_le (Nat.lt_of_not_le hmid) (hinc _ i hi' hsz)
    · have heq : lo = hi := by omega
      exact ⟨by omega, hlo, heq ▸ hhi⟩

/-- In an increasing array the entries up to `n` are the first `countUpTo bounds n` ones. -/
theorem countUpTo_spec {bounds : Array Nat} (hinc : Increasing bounds) (n : Nat) :
    Splits bounds n (countUpTo bounds n) := by
  refine splits_search hinc n _ (Nat.zero_le _) (Nat.le_refl _) ?_ (by omega) (by omega)
  rw [Nat.sub_zero, Nat.one_shiftLeft]
  exact Nat.lt_log2_self

/-- The number of entries up to `n` is known from the entries on its two sides. -/
theorem Splits.eq_succ {bounds : Array Nat} {n k i : Nat} (h : Splits bounds n k)
    (hi : i < bounds.size) (hle : bounds.getD i 0 ≤ n)
    (hnext : i + 1 < bounds.size → n < bounds.getD (i + 1) 0) : k = i + 1 := by
  have hgt : i < k := by
    apply Nat.lt_of_not_le
    intro hki
    have hlt := h.beyond i hki hi
    omega
  have hngt : ¬ i + 1 < k := by
    intro hlt
    have hup := h.upTo (i + 1) hlt
    have hsize := h.le_size
    have hn := hnext (by omega)
    omega
  omega

/-! ## Masks of code points -/

/-- The number whose binary digits mark the members of the list. -/
def mask : List Nat → Nat
  | [] => 0
  | n :: ns => 1 <<< n ||| mask ns

theorem testBit_mask (ns : List Nat) (n : Nat) : (mask ns).testBit n = decide (n ∈ ns) := by
  induction ns with
  | nil => simp [mask]
  | cons m ns ih =>
    rw [mask, Nat.testBit_or, Nat.one_shiftLeft, Nat.testBit_two_pow, ih]
    simp only [List.mem_cons, Bool.decide_or, @eq_comm _ n m]

/-- Lists without a common mark have no common member. -/
theorem not_mem_of_mask {ms ns : List Nat} (h : mask ms &&& mask ns = 0) {n : Nat} (hm : n ∈ ms) :
    n ∉ ns := by
  intro hn
  have hbit : (mask ms &&& mask ns).testBit n = true := by
    simp [Nat.testBit_and, testBit_mask, hm, hn]
  rw [h, Nat.zero_testBit] at hbit
  exact absurd hbit (by simp)

/-! ## The table -/

/-- The code point belongs to the run. -/
def FoldRun.Holds (r : FoldRun) (n : Nat) : Prop :=
  r.first ≤ n ∧ n ≤ r.last ∧ (n - r.first) % r.stride = 0

theorem FoldRun.holds_iff {r : FoldRun} {n : Nat} : r.holds n = true ↔ r.Holds n := by
  simp [FoldRun.holds, FoldRun.Holds, and_assoc]

/-- The code points of the run. -/
def FoldRun.members (r : FoldRun) : List Nat :=
  (List.range ((r.last - r.first) / r.stride + 1)).map (r.first + r.stride * ·)

theorem FoldRun.Holds.mem_members {r : FoldRun} {n : Nat} (h : r.Holds n) : n ∈ r.members := by
  obtain ⟨hfirst, hlast, hmod⟩ := h
  refine List.mem_map.mpr ⟨(n - r.first) / r.stride, ?_, ?_⟩
  · refine List.mem_range.mpr (Nat.lt_succ_of_le ?_)
    exact Nat.div_le_div_right (by omega)
  · rw [Nat.mul_div_cancel' (Nat.dvd_of_mod_eq_zero hmod)]
    omega

/-- The code points that some run holds. -/
def unfolded : List Nat :=
  foldRuns.toList.flatMap FoldRun.members

/-- What the runs fold to. -/
def folded : List Nat :=
  foldRuns.toList.flatMap fun r => r.members.map r.target

/-- The run `r` lies in front of `s`. -/
def FoldRun.Before (r s : FoldRun) : Prop :=
  r.first ≤ r.last ∧ r.last < s.first

instance : DecidableRel FoldRun.Before :=
  fun r s => inferInstanceAs (Decidable (r.first ≤ r.last ∧ r.last < s.first))

instance : Trans FoldRun.Before FoldRun.Before FoldRun.Before where
  trans h h' := ⟨h.1, Nat.lt_trans h.2 (Nat.lt_of_le_of_lt h'.1 h'.2)⟩

theorem runs_in_order : foldRuns.toList.Pairwise FoldRun.Before := by
  have h : foldRuns.toList.IsChain FoldRun.Before := by decide +kernel
  exact h.pairwise

theorem mask_unfolded_and_folded : mask unfolded &&& mask folded = 0 := by
  decide +kernel

theorem all_isValidChar : ((unfolded ++ folded).all fun n => decide n.isValidChar) = true := by
  decide +kernel

theorem all_le_shift :
    (foldRuns.toList.all fun r => decide (0 ≤ (r.first : Int) + r.shift)) = true := by
  decide +kernel

/-- The run stands in the table. -/
def Listed (r : FoldRun) : Prop := r ∈ foldRuns.toList

namespace Listed

variable {r s : FoldRun} {n : Nat}

theorem mem_unfolded (hr : Listed r) (hn : r.Holds n) : n ∈ unfolded :=
  List.mem_flatMap.mpr ⟨r, hr, hn.mem_members⟩

theorem mem_folded (hr : Listed r) (hn : r.Holds n) : r.target n ∈ folded :=
  List.mem_flatMap.mpr ⟨r, hr, List.mem_map.mpr ⟨n, hn.mem_members, rfl⟩⟩

/-- No run holds what a run folds to. -/
theorem not_holds_target (hr : Listed r) (hs : Listed s) (hn : r.Holds n) :
    ¬ s.Holds (r.target n) := by
  intro h
  exact not_mem_of_mask mask_unfolded_and_folded (hs.mem_unfolded h) (hr.mem_folded hn)

end Listed

theorem getElem?_listed {i : Nat} {r : FoldRun} (h : foldRuns[i]? = some r) : Listed r := by
  rw [← Array.getElem?_toList] at h
  exact List.mem_of_getElem? h

theorem getD_foldStarts {i : Nat} {r : FoldRun} (h : foldRuns[i]? = some r) :
    foldStarts.getD i 0 = r.first := by
  rw [foldStarts, Array.getD_eq_getD_getElem?, Array.getElem?_map, h]
  rfl

theorem size_foldStarts : foldStarts.size = foldRuns.size :=
  Array.size_map

theorem before_of_lt {i j : Nat} (hij : i < j) {r s : FoldRun} (hr : foldRuns[i]? = some r)
    (hs : foldRuns[j]? = some s) : r.Before s := by
  rw [← Array.getElem?_toList] at hr hs
  obtain ⟨hi, rfl⟩ := List.getElem?_eq_some_iff.mp hr
  obtain ⟨hj, rfl⟩ := List.getElem?_eq_some_iff.mp hs
  exact List.pairwise_iff_getElem.mp runs_in_order i j hi hj hij

theorem increasing_foldStarts : Increasing foldStarts := by
  intro i j hij hj
  rw [size_foldStarts] at hj
  have hgi := Array.getElem?_eq_getElem (Nat.lt_of_le_of_lt hij hj)
  have hgj := Array.getElem?_eq_getElem hj
  rw [getD_foldStarts hgi, getD_foldStarts hgj]
  rcases Nat.lt_or_eq_of_le hij with hlt | heq
  · have hb := before_of_lt hlt hgi hgj
    exact Nat.le_of_lt (Nat.lt_of_le_of_lt hb.1 hb.2)
  · subst heq
    exact Nat.le_refl _

/-! ## What folds to what -/

/-- A member of a run folds as the run says. -/
theorem fold_of_holds {r : FoldRun} (hr : Listed r) {n : Nat} (hn : r.Holds n) :
    fold n = r.target n := by
  have hmem : r ∈ foldRuns.toList := hr
  obtain ⟨i, hi⟩ := List.getElem?_of_mem hmem
  rw [Array.getElem?_toList] at hi
  have hsize : i < foldRuns.size := (Array.getElem?_eq_some_iff.mp hi).1
  have hcount : countUpTo foldStarts n = i + 1 := by
    refine (countUpTo_spec increasing_foldStarts n).eq_succ (by rw [size_foldStarts]; exact hsize)
      (by rw [getD_foldStarts hi]; exact hn.1) fun hnext => ?_
    rw [size_foldStarts] at hnext
    have hgn := Array.getElem?_eq_getElem hnext
    rw [getD_foldStarts hgn]
    exact Nat.lt_of_le_of_lt hn.2.1 (before_of_lt (Nat.lt_succ_self i) hi hgn).2
  unfold fold
  rw [hcount, Nat.add_sub_cancel, hi]
  exact if_pos (FoldRun.holds_iff.mpr hn)

/-- A code point that no run holds folds to itself. -/
theorem fold_of_not_holds {n : Nat} (h : ∀ r, Listed r → ¬ r.Holds n) : fold n = n := by
  unfold fold
  cases hf : foldRuns[countUpTo foldStarts n - 1]? with
  | none => rfl
  | some r =>
    exact if_neg (mt FoldRun.holds_iff.mp (h r (getElem?_listed hf)))

/-- Folding either leaves a code point alone or reads the run that holds it. -/
theorem fold_cases (n : Nat) :
    (fold n = n ∧ ∀ r, Listed r → ¬ r.Holds n) ∨
      ∃ r, Listed r ∧ r.Holds n ∧ fold n = r.target n := by
  by_cases h : ∃ r, Listed r ∧ r.Holds n
  · obtain ⟨r, hr, hn⟩ := h
    exact Or.inr ⟨r, hr, hn, fold_of_holds hr hn⟩
  · have hnone : ∀ r, Listed r → ¬ r.Holds n := fun r hr hn => h ⟨r, hr, hn⟩
    exact Or.inl ⟨fold_of_not_holds hnone, hnone⟩

theorem fold_fold (n : Nat) : fold (fold n) = fold n := by
  rcases fold_cases n with ⟨heq, -⟩ | ⟨r, hr, hn, heq⟩
  · rw [heq, heq]
  · rw [heq]
    exact fold_of_not_holds fun s hs => hr.not_holds_target hs hn

theorem origin?_eq_some_iff {r : FoldRun} (hr : Listed r) {n m : Nat} :
    r.origin? n = some m ↔ r.Holds m ∧ r.target m = n := by
  simp only [FoldRun.origin?, Option.ite_none_right_eq_some, Bool.and_eq_true, beq_iff_eq,
    Option.some.injEq, FoldRun.holds_iff]
  constructor
  · rintro ⟨⟨hm, ht⟩, rfl⟩
    exact ⟨hm, ht⟩
  · rintro ⟨hm, rfl⟩
    have hshift : 0 ≤ (r.first : Int) + r.shift := by
      simpa using List.all_eq_true.mp all_le_shift r hr
    have hfirst := hm.1
    have hback : ((r.target m : Int) - r.shift).toNat = m := by
      rw [FoldRun.target]
      omega
    rw [hback]
    exact ⟨⟨hm, rfl⟩, rfl⟩

/-- The case variants of a code point are what folds as it does. -/
theorem mem_variants_iff {n m : Nat} : m ∈ variants n ↔ fold m = fold n := by
  simp only [variants, List.mem_cons, List.mem_filterMap]
  constructor
  · rintro (hm | ⟨r, hr, hm⟩)
    · rw [hm]
      exact fold_fold n
    · obtain ⟨hholds, htarget⟩ := (origin?_eq_some_iff hr).mp hm
      rw [fold_of_holds hr hholds, htarget]
  · intro h
    rcases fold_cases m with ⟨heq, -⟩ | ⟨r, hr, hm, heq⟩
    · exact Or.inl (heq.symm.trans h)
    · exact Or.inr ⟨r, hr, (origin?_eq_some_iff hr).mpr ⟨hm, heq.symm.trans h⟩⟩

theorem isValidChar_of_mem {n : Nat} (h : n ∈ unfolded ∨ n ∈ folded) : n.isValidChar := by
  have hall := List.all_eq_true.mp all_isValidChar n (List.mem_append.mpr h)
  exact of_decide_eq_true hall

/-- The case variants of a character are characters. -/
theorem isValidChar_of_mem_variants {n m : Nat} (hn : n.isValidChar) (h : m ∈ variants n) :
    m.isValidChar := by
  have hfold := mem_variants_iff.mp h
  rcases fold_cases m with ⟨hm, -⟩ | ⟨r, hr, hm, -⟩
  · rw [hm] at hfold
    rcases fold_cases n with ⟨hself, -⟩ | ⟨r, hr, hholds, htarget⟩
    · rw [hfold, hself]
      exact hn
    · rw [hfold, htarget]
      exact isValidChar_of_mem (Or.inr (hr.mem_folded hholds))
  · exact isValidChar_of_mem (Or.inl (hr.mem_unfolded hm))

end AlertRules.CodePoint
