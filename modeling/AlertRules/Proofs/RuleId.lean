import AlertRules.RuleId
import Mathlib.Data.List.Nodup
import Mathlib.Data.List.Perm.Subperm
import Mathlib.Order.Bounds.Defs
import Std.Data.String.ToNat

/-!
# AlertRules.Proofs.RuleId — a fresh id is free

The search for a number that makes an id free ends with a free id (`fresh_notMem`): of one number more
than there are taken ids, all would have to be taken.

So the search needs no bound.  Carried on for as long as it takes (`Ends`) it ends with the same id, and
the number in it is the least one from 2 on that makes the id free (`fresh_least`).  A fresh id has no
special characters, so that it is its own fresh id (`fresh_eq_self`).
-/

namespace AlertRules.RuleId

/-! ## Free ids -/

/-- If the id that the search ends with is taken, so are all that it went through. -/
theorem forall_mem_of_numbered_mem {start : String} {taken : List String} {steps k : Nat}
    (h : numbered start taken steps k ∈ taken) :
    ∀ i ≤ steps, start ++ toString (k + i) ∈ taken := by
  induction steps generalizing k with
  | zero =>
    intro i hi
    obtain rfl := Nat.le_zero.mp hi
    exact h
  | succ steps ih =>
    rw [numbered] at h
    split at h
    · rename_i htaken
      intro i hi
      cases i with
      | zero => exact htaken
      | succ i =>
        rw [Nat.add_succ, ← Nat.succ_add]
        exact ih h i (Nat.le_of_succ_le_succ hi)
    · exact fun i _ => absurd h ‹_›

/-- Texts with different numbers behind them are different. -/
theorem append_toString_injective (start : String) (k : Nat) :
    Function.Injective fun i => start ++ toString (k + i) := by
  intro i i' h
  have hnumbers : k + i = k + i' := Nat.repr_injective ((String.append_right_inj start).mp h)
  omega

/-- There are as many taken ids as numbers in a row that make none free. -/
theorem le_length_of_forall_mem {start : String} {taken : List String} {k n : Nat}
    (h : ∀ i < n, start ++ toString (k + i) ∈ taken) : n ≤ taken.length := by
  have hnodup : ((List.range n).map fun i => start ++ toString (k + i)).Nodup :=
    List.nodup_range.map (append_toString_injective start k)
  have hsubset : (List.range n).map (fun i => start ++ toString (k + i)) ⊆ taken := by
    intro id hid
    obtain ⟨i, hi, rfl⟩ := List.mem_map.mp hid
    exact h i (List.mem_range.mp hi)
  have hlength := (List.subperm_of_subset hnodup hsubset).length_le
  rwa [List.length_map, List.length_range] at hlength

theorem numbered_notMem (start : String) (taken : List String) (k : Nat) :
    numbered start taken taken.length k ∉ taken := by
  intro h
  -- then there are more candidates, all different, than taken ids
  have htaken := forall_mem_of_numbered_mem h
  have hlength : taken.length + 1 ≤ taken.length :=
    le_length_of_forall_mem fun i hi => htaken i (Nat.le_of_lt_succ hi)
  exact Nat.not_succ_le_self _ hlength

/-- A fresh id is not taken. -/
theorem fresh_notMem (pattern : String) (taken : List String) : fresh pattern taken ∉ taken := by
  unfold fresh
  split
  · rename_i h
    exact h.2
  · exact numbered_notMem (base pattern) taken 2

/-! ## The search without a bound -/

section Search

variable {start : String} {taken : List String}

/-- **`Ends start taken k id`** — the search from `k` on, carried on until an id is free, ends with
`id`. -/
inductive Ends (start : String) (taken : List String) : Nat → String → Prop
  | free {k : Nat} : start ++ toString k ∉ taken → Ends start taken k (start ++ toString k)
  | next {k : Nat} {id : String} : start ++ toString k ∈ taken → Ends start taken (k + 1) id →
      Ends start taken k id

/-- A search that is given up after some steps, but with a free id, has ended. -/
theorem ends_numbered {steps k : Nat} (h : numbered start taken steps k ∉ taken) :
    Ends start taken k (numbered start taken steps k) := by
  induction steps generalizing k with
  | zero => exact .free h
  | succ steps ih =>
    rw [numbered] at h ⊢
    split at h
    · rename_i htaken
      rw [if_pos htaken]
      exact .next htaken (ih h)
    · rename_i hfree
      rw [if_neg hfree]
      exact .free hfree

/-- The search ends with the least number that makes the id free. -/
theorem Ends.exists_isLeast {k : Nat} {id : String} (h : Ends start taken k id) :
    ∃ n, IsLeast {n | k ≤ n ∧ start ++ toString n ∉ taken} n ∧ id = start ++ toString n := by
  induction h with
  | @free k hfree => exact ⟨k, ⟨⟨Nat.le_refl k, hfree⟩, fun n hn => hn.1⟩, rfl⟩
  | @next k id htaken _ ih =>
    obtain ⟨n, ⟨⟨hle, hfree⟩, hleast⟩, rfl⟩ := ih
    refine ⟨n, ⟨⟨Nat.le_of_succ_le hle, hfree⟩, ?_⟩, rfl⟩
    rintro m ⟨hkm, hm⟩
    have hne : k ≠ m := fun heq => hm (heq ▸ htaken)
    exact hleast ⟨Nat.lt_of_le_of_ne hkm hne, hm⟩

/-- The least number that makes the id free is at most as many numbers away as there are taken ids. -/
theorem le_add_length_of_isLeast {k n : Nat}
    (h : IsLeast {n | k ≤ n ∧ start ++ toString n ∉ taken} n) : n ≤ k + taken.length := by
  have htaken : ∀ i < n - k, start ++ toString (k + i) ∈ taken := by
    intro i hi
    by_contra hfree
    have hle : n ≤ k + i := h.2 ⟨Nat.le_add_right k i, hfree⟩
    omega
  have hlength := le_length_of_forall_mem htaken
  omega

end Search

/-! ## Special characters -/

theorem isSpecial_iff {c : Char} : isSpecial c = true ↔ c ∈ ['*', '[', ']', '?', '!'] := by
  simp [isSpecial, or_assoc]

theorem toList_base (pattern : String) :
    (base pattern).toList = pattern.toList.filter fun c => !isSpecial c := by
  rw [base, String.toList_ofList]

theorem base_eq (pattern : String) :
    base pattern =
      String.ofList (pattern.toList.filter fun c => c ∉ ['*', '[', ']', '?', '!']) := by
  rw [base]
  congr 2
  funext c
  rw [Bool.eq_iff_iff, Bool.not_eq_true', ← Bool.not_eq_true, isSpecial_iff, decide_eq_true_iff]

theorem not_isSpecial_of_mem_base {pattern : String} :
    ∀ c ∈ (base pattern).toList, isSpecial c = false := by
  intro c hc
  rw [toList_base] at hc
  have hkept := (List.mem_filter.mp hc).2
  rwa [Bool.not_eq_true'] at hkept

/-- Nothing is taken out of a text without special characters. -/
theorem base_eq_self {s : String} (h : ∀ c ∈ s.toList, isSpecial c = false) : base s = s := by
  have hfilter : s.toList.filter (fun c => !isSpecial c) = s.toList := by
    apply List.filter_eq_self.mpr
    intro c hc
    rw [h c hc]
    rfl
  rw [base, hfilter, String.ofList_toList]

theorem isSpecial_of_isDigit {c : Char} (h : c.isDigit = true) : isSpecial c = false := by
  have hlisted : ['*', '[', ']', '?', '!'].all (fun c => !c.isDigit) = true := by decide
  by_contra hspecial
  rw [Bool.not_eq_false, isSpecial_iff] at hspecial
  have hother := List.all_eq_true.mp hlisted c hspecial
  rw [h] at hother
  exact Bool.false_ne_true hother

/-- A number has no special characters. -/
theorem not_isSpecial_of_mem_numeral {k : Nat} : ∀ c ∈ (toString k).toList, isSpecial c = false := by
  intro c hc
  rw [show (toString k).toList = Nat.toDigits 10 k from Nat.toList_repr] at hc
  apply isSpecial_of_isDigit
  exact Nat.isDigit_of_mem_toDigits (by decide) (by decide) hc

/-! ## Fresh ids -/

/-- A pattern that can be an id itself is one. -/
theorem fresh_of_free {pattern : String} {taken : List String}
    (h : base pattern ≠ "" ∧ base pattern ∉ taken) : fresh pattern taken = base pattern :=
  if_pos h

theorem exists_fresh_eq {pattern : String} {taken : List String}
    (h : ¬ (base pattern ≠ "" ∧ base pattern ∉ taken)) :
    ∃ k, IsLeast {k | 2 ≤ k ∧ base pattern ++ toString k ∉ taken} k ∧
      Ends (base pattern) taken 2 (fresh pattern taken) ∧
      fresh pattern taken = base pattern ++ toString k := by
  have hends := ends_numbered (numbered_notMem (base pattern) taken 2)
  rw [fresh, if_neg h]
  obtain ⟨k, hleast, hk⟩ := hends.exists_isLeast
  exact ⟨k, hleast, hends, hk⟩

/-- A fresh id is the pattern without special characters, with a number behind it or not. -/
theorem fresh_cases (pattern : String) (taken : List String) :
    (fresh pattern taken = base pattern ∧ base pattern ≠ "") ∨
      ∃ k : Nat, fresh pattern taken = base pattern ++ toString k := by
  by_cases h : base pattern ≠ "" ∧ base pattern ∉ taken
  · exact .inl ⟨fresh_of_free h, h.1⟩
  · obtain ⟨k, -, -, hk⟩ := exists_fresh_eq h
    exact .inr ⟨k, hk⟩

theorem fresh_ne_empty (pattern : String) (taken : List String) : fresh pattern taken ≠ "" := by
  rcases fresh_cases pattern taken with ⟨hbase, hne⟩ | ⟨k, hk⟩
  · rwa [hbase]
  · rw [hk]
    intro hempty
    exact Nat.repr_ne_empty (String.append_eq_empty_iff.mp hempty).2

theorem not_isSpecial_of_mem_fresh {pattern : String} {taken : List String} :
    ∀ c ∈ (fresh pattern taken).toList, isSpecial c = false := by
  intro c hc
  rcases fresh_cases pattern taken with ⟨hbase, -⟩ | ⟨k, hk⟩
  · rw [hbase] at hc
    exact not_isSpecial_of_mem_base c hc
  · rw [hk, String.toList_append] at hc
    rcases List.mem_append.mp hc with hc | hc
    · exact not_isSpecial_of_mem_base c hc
    · exact not_isSpecial_of_mem_numeral c hc

/-- An id that is free and has no special characters is its own fresh id. -/
theorem fresh_eq_self {s : String} {taken : List String} (hne : s ≠ "") (hfree : s ∉ taken)
    (hplain : ∀ c ∈ s.toList, isSpecial c = false) : fresh s taken = s := by
  have hbase := base_eq_self hplain
  rw [fresh_of_free (hbase.symm ▸ ⟨hne, hfree⟩), hbase]

/-- **`FreshFor base taken id`** — the id is neither empty nor taken, and has no special characters.  It
is the base where that is an id and free, and otherwise the base with the least number from 2 on behind
it that makes it free.  The search for the number ends, after as many steps at most as there are taken
ids. -/
structure FreshFor (base : String) (taken : List String) (id : String) : Prop where
  ne_empty : id ≠ ""
  free : id ∉ taken
  plain : ∀ c ∈ ['*', '[', ']', '?', '!'], c ∉ id.toList
  itself : base ≠ "" → base ∉ taken → id = base
  numbered : base = "" ∨ base ∈ taken →
    ∃ k, IsLeast {k | 2 ≤ k ∧ base ++ toString k ∉ taken} k ∧ k ≤ 2 + taken.length ∧
      Ends base taken 2 id ∧ id = base ++ toString k

theorem freshFor_base (pattern : String) (taken : List String) :
    FreshFor (base pattern) taken (fresh pattern taken) where
  ne_empty := fresh_ne_empty pattern taken
  free := fresh_notMem pattern taken
  plain := by
    intro c hc hmem
    have hspecial := isSpecial_iff.mpr hc
    exact Bool.false_ne_true ((not_isSpecial_of_mem_fresh c hmem).symm.trans hspecial)
  itself hne hfree := fresh_of_free ⟨hne, hfree⟩
  numbered h := by
    have hnot : ¬ (base pattern ≠ "" ∧ base pattern ∉ taken) := by
      rintro ⟨hne, hfree⟩
      exact h.elim hne hfree
    obtain ⟨k, hleast, hends, hk⟩ := exists_fresh_eq hnot
    exact ⟨k, hleast, le_add_length_of_isLeast hleast, hends, hk⟩

/-- Whatever the pattern and the taken ids, a fresh id is made of the pattern without its special
characters, and making one of it again changes nothing. -/
theorem fresh_least (pattern : String) (taken : List String) :
    FreshFor (String.ofList (pattern.toList.filter fun c => c ∉ ['*', '[', ']', '?', '!'])) taken
        (fresh pattern taken) ∧
      fresh (fresh pattern taken) taken = fresh pattern taken := by
  have h := freshFor_base pattern taken
  refine ⟨base_eq pattern ▸ h, ?_⟩
  exact fresh_eq_self h.ne_empty h.free not_isSpecial_of_mem_fresh

/-- The ids `foobar`, `foobar2` and `foobar3` are taken, so that a number is put behind `foobar`. -/
theorem fresh_least_foobar :
    FreshFor "foobar" ["foobar", "foobar2", "foobar3"]
        (fresh "foo*[bar]" ["foobar", "foobar2", "foobar3"]) ∧
      fresh "foo*[bar]" ["foobar", "foobar2", "foobar3"] = "foobar4" := by
  have hbase : String.ofList
      ("foo*[bar]".toList.filter fun c => c ∉ ['*', '[', ']', '?', '!']) = "foobar" := by decide
  obtain ⟨hfresh, -⟩ := fresh_least "foo*[bar]" ["foobar", "foobar2", "foobar3"]
  rw [hbase] at hfresh
  exact ⟨hfresh, by decide⟩

end AlertRules.RuleId
