import AlertRules.Glob.Atom

/-!
# AlertRules.Proofs.Glob.Expression — the expression of a glob is read as it was meant

Writing the items of a glob as a regular expression and reading that expression gives one atom for
each item (`row?_expression`): an escaped character is read as itself, a class body is read up to the
bracket that was written behind it, and no item runs into the next one.  There is one condition, and
the items of every glob meet it (`formed_items`): a class has a body.
-/

namespace AlertRules.Glob

/-- The atom of an item; an ill-formed class has none. -/
def Item.atom? : Item → Option Atom
  | .char c => some (.literal c)
  | .one => some .any
  | .many => some .run
  | .oneOf negated body => (CharClass.ofBody? negated body).map .set

/-- A class has a body. -/
def Item.Formed : Item → Prop
  | .oneOf _ body => body ≠ []
  | _ => True

/-! ## The items of a glob -/

theorem takeBody?_ne_nil {cs body rest : List Char} (h : takeBody? cs = some (body, rest)) :
    body ≠ [] := by
  unfold takeBody? at h
  split at h
  · simp only [Option.some.injEq, Prod.mk.injEq] at h
    rw [← h.1]
    exact List.cons_ne_nil _ _
  · simp at h

theorem formed_takeClass? {cs rest : List Char} {item : Item}
    (h : takeClass? cs = some (item, rest)) : item.Formed := by
  unfold takeClass? at h
  split at h
  all_goals
    obtain ⟨⟨body, r⟩, hbody, he⟩ := Option.map_eq_some_iff.mp h
    simp only [Prod.mk.injEq] at he
    rw [← he.1]
    exact takeBody?_ne_nil hbody

theorem formed_strictItems (cs : List Char) : ∀ i ∈ strictItems cs, i.Formed := by
  fun_induction strictItems cs with
  | case1 => exact fun i hi => absurd hi List.not_mem_nil
  | case2 cs ih | case3 cs _ ih =>
    exact List.forall_mem_cons.mpr ⟨trivial, ih⟩
  | case4 cs item rest hclass _ _ _ ih =>
    exact List.forall_mem_cons.mpr ⟨formed_takeClass? hclass, ih⟩
  | case5 cs _ _ _ ih =>
    exact List.forall_mem_cons.mpr ⟨trivial, ih⟩
  | case6 c cs _ _ _ ih =>
    exact List.forall_mem_cons.mpr ⟨trivial, ih⟩

theorem formed_items (mode : Mode) (cs : List Char) : ∀ i ∈ items mode cs, i.Formed := by
  cases mode with
  | strict => exact formed_strictItems cs
  | legacy =>
    intro i hi
    obtain ⟨c, _, rfl⟩ := List.mem_map.mp hi
    exact trivial

/-! ## One part of an expression -/

namespace Atom

theorem ne_of_not_isMeta {c d : Char} (hc : isMeta c = false) (hd : isMeta d = true) : c ≠ d := by
  rintro rfl
  rw [hc] at hd
  exact absurd hd (by simp)

/-- A character that was written for itself is read as itself. -/
theorem next?_escape (c : Char) (rest : List Char) :
    next? (escape c ++ rest) = some (literal c, rest) := by
  unfold escape
  cases hc : isMeta c with
  | true =>
    show (if isMeta c then some (literal c, rest) else none) = _
    rw [if_pos hc]
  | false =>
    have hslash : c ≠ '\\' := ne_of_not_isMeta hc (by decide)
    have hdot : c ≠ '.' := ne_of_not_isMeta hc (by decide)
    have hopen : c ≠ '[' := ne_of_not_isMeta hc (by decide)
    rw [if_neg Bool.false_ne_true, List.singleton_append, next?]
    · simp [hc]
    all_goals simp [hslash, hdot, hopen]

theorem classBody?_classChar (c : Char) (cs : List Char) :
    classBody? (classChar c ++ cs) = keep c (classBody? cs) := by
  unfold classChar escape
  by_cases hyphen : c = '-'
  · subst hyphen
    rfl
  · rw [if_neg hyphen]
    cases hc : isMeta c with
    | true =>
      show (if isMeta c && c != '-' then keep c (classBody? cs) else none) = _
      rw [if_pos (by simp [hc, hyphen])]
    | false =>
      have hslash : c ≠ '\\' := ne_of_not_isMeta hc (by decide)
      have hclose : c ≠ ']' := ne_of_not_isMeta hc (by decide)
      rw [if_neg Bool.false_ne_true, List.singleton_append, classBody?]
      · simp [hc]
      all_goals simp [hslash, hclose]

/-- A class body ends at the bracket that was written behind it. -/
theorem classBody?_flatMap (body rest : List Char) :
    classBody? (body.flatMap classChar ++ ']' :: rest) = some (body, rest) := by
  induction body with
  | nil => rfl
  | cons c body ih =>
    rw [List.flatMap_cons, List.append_assoc, classBody?_classChar, ih]
    rfl

theorem set?_flatMap (negated : Bool) {body : List Char} (hbody : body ≠ []) (rest : List Char) :
    set? negated (body.flatMap classChar ++ ']' :: rest) =
      (CharClass.ofBody? negated body).map fun k => (.set k, rest) := by
  rw [set?, classBody?_flatMap]
  cases body with
  | nil => exact absurd rfl hbody
  | cons c body => rfl

theorem classChar_head_ne_caret (body rest : List Char) :
    (body.flatMap classChar ++ ']' :: rest).head? ≠ some '^' := by
  cases body with
  | nil => simp
  | cons c body =>
    rw [List.flatMap_cons, List.append_assoc, classChar, escape]
    split
    · simp
    · split
      · simp
      · rename_i hc
        have hne : c ≠ '^' := ne_of_not_isMeta (Bool.eq_false_iff.mpr hc) (by decide)
        simpa using hne

/-- An item is read as its atom, unless a star behind it would make a dot repeat. -/
theorem next?_expression {i : Item} (hi : i.Formed) {rest : List Char}
    (hrest : rest.head? ≠ some '*') :
    next? (i.expression ++ rest) = i.atom?.map fun a => (a, rest) := by
  cases i with
  | char c => exact next?_escape c rest
  | many => rfl
  | one =>
    show next? ('.' :: rest) = some (.any, rest)
    rw [next?]
    rintro cs rfl
    exact hrest rfl
  | oneOf negated body =>
    have hset := set?_flatMap negated hi rest
    have hmap : (Item.oneOf negated body).atom?.map (fun a => (a, rest)) =
        (CharClass.ofBody? negated body).map fun k => (Atom.set k, rest) := by
      rw [Item.atom?, Option.map_map]
      rfl
    rw [hmap, ← hset]
    cases negated with
    | true =>
      show next? ('[' :: '^' :: (body.flatMap classChar ++ [']'] ++ rest)) = _
      rw [List.append_assoc]
      rfl
    | false =>
      show next? ('[' :: (body.flatMap classChar ++ [']'] ++ rest)) = _
      have hcaret := classChar_head_ne_caret body rest
      rw [List.append_assoc, List.singleton_append, next?]
      intro cs hcs
      rw [hcs] at hcaret
      exact hcaret rfl

theorem expression_ne_nil (i : Item) : i.expression ≠ [] := by
  cases i with
  | char c =>
    rw [Item.expression, escape]
    split <;> simp
  | one | many | oneOf => simp [Item.expression]

theorem expression_head_ne_star (i : Item) (rest : List Char) :
    (i.expression ++ rest).head? ≠ some '*' := by
  cases i with
  | char c =>
    rw [Item.expression, escape]
    split
    · simp
    · rename_i hc
      have hne : c ≠ '*' := ne_of_not_isMeta (Bool.eq_false_iff.mpr hc) (by decide)
      simpa using hne
  | one | many | oneOf => simp [Item.expression]

theorem flatMap_expression_head_ne_star (is : List Item) :
    (is.flatMap Item.expression).head? ≠ some '*' := by
  cases is with
  | nil => simp
  | cons i is =>
    rw [List.flatMap_cons]
    exact expression_head_ne_star i _

/-- Reading the expression of a row of items gives their atoms. -/
theorem row?_flatMap {is : List Item} (h : ∀ i ∈ is, i.Formed) :
    row? (is.flatMap Item.expression) = is.mapM Item.atom? := by
  induction is with
  | nil => rw [row?.eq_def]; rfl
  | cons i is ih =>
    -- no item is written with a star in front, so the first item is read alone
    have hnext := next?_expression (h i List.mem_cons_self) (flatMap_expression_head_ne_star is)
    have hrow := ih fun j hj => h j (List.mem_cons_of_mem _ hj)
    rw [List.flatMap_cons, List.mapM_cons, ← hrow]
    cases ha : i.atom? with
    | none =>
      rw [ha] at hnext
      exact row?_of_next?_eq_none (List.append_ne_nil_of_left_ne_nil (expression_ne_nil i) _) hnext
    | some a =>
      rw [ha] at hnext
      rw [row?_of_next?_eq_some hnext]
      cases row? (is.flatMap Item.expression) with
      | none => rfl
      | some as => rfl

end Atom

/-- The expression of a glob is read as the atoms of its items. -/
theorem row?_expression (mode : Mode) (glob : String) :
    Atom.row? (expression mode glob).toList = (items mode glob.toList).mapM Item.atom? := by
  rw [expression, String.toList_ofList]
  exact Atom.row?_flatMap (formed_items mode _)

end AlertRules.Glob
