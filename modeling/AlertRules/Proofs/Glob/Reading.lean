import Mathlib.Data.List.TakeWhile
import AlertRules.Proofs.Glob.Classes
import AlertRules.Proofs.Glob.Expression

/-!
# AlertRules.Proofs.Glob.Reading — the items and atoms of a glob

The items of a glob in strict mode are what the glob reads as, and nothing else (`reads_iff`).  An
item has an atom iff it is sound (`isSome_atom?_iff`), and the atom takes what the item stands for
(`language_of_atom?`).
-/

namespace AlertRules.Glob

/-! ## Classes in a glob -/

theorem takeBody?_eq_some_iff {cs body rest : List Char} :
    takeBody? cs = some (body, rest) ↔ body ≠ [] ∧ ']' ∉ body ∧ cs = body ++ ']' :: rest := by
  constructor
  · intro h
    unfold takeBody? at h
    split at h
    · rename_i c b d r htake hdrop
      simp only [Option.some.injEq, Prod.mk.injEq] at h
      obtain ⟨rfl, rfl⟩ := h
      have hsplit := List.takeWhile_append_dropWhile (p := (· ≠ ']')) (l := cs)
      have hclose : d = ']' := by
        have hhead := List.head?_dropWhile_not (· ≠ ']') cs
        rw [hdrop] at hhead
        simpa using hhead
      refine ⟨List.cons_ne_nil _ _, fun hmem => ?_, ?_⟩
      · rw [← htake] at hmem
        have hne := List.mem_takeWhile_imp hmem
        exact absurd hne (by decide)
      · rw [← hsplit, htake, hdrop, hclose]
    · exact absurd h (by simp)
  · rintro ⟨hbody, hclose, rfl⟩
    have hne : ∀ c ∈ body, decide (c ≠ ']') = true := by
      intro c hc
      exact decide_eq_true fun h => hclose (h ▸ hc)
    rw [takeBody?, List.takeWhile_append_of_pos hne, List.dropWhile_append_of_pos hne]
    cases body with
    | nil => exact absurd rfl hbody
    | cons c body => simp

theorem map_takeBody?_eq_some_iff {cs rest : List Char} {negated : Bool} {item : Item} :
    (takeBody? cs).map (fun (body, rest) => (Item.oneOf negated body, rest)) = some (item, rest) ↔
      ∃ body, item = .oneOf negated body ∧ body ≠ [] ∧ ']' ∉ body ∧ cs = body ++ ']' :: rest := by
  rw [Option.map_eq_some_iff]
  constructor
  · rintro ⟨⟨body, r⟩, hbody, he⟩
    simp only [Prod.mk.injEq] at he
    obtain ⟨rfl, rfl⟩ := he
    exact ⟨body, rfl, takeBody?_eq_some_iff.mp hbody⟩
  · rintro ⟨body, rfl, hbody⟩
    exact ⟨(body, rest), takeBody?_eq_some_iff.mpr hbody, rfl⟩

/-- Behind an opening bracket a class is read iff there is one. -/
theorem takeClass?_eq_some_iff {cs rest : List Char} {item : Item} :
    takeClass? cs = some (item, rest) ↔
      ∃ negated body, item = .oneOf negated body ∧ Opens cs negated body rest := by
  unfold takeClass?
  split
  · rename_i cs
    rw [map_takeBody?_eq_some_iff]
    constructor
    · rintro ⟨body, rfl, hbody, hclose, rfl⟩
      exact ⟨true, body, rfl, .negated hbody hclose⟩
    · rintro ⟨negated, body, rfl, hopens⟩
      generalize htext : '!' :: cs = text at hopens
      cases hopens with
      | negated hbody hclose =>
        exact ⟨body, rfl, hbody, hclose, (List.cons.inj htext).2⟩
      | plain hbody hclose hmark =>
        obtain ⟨c, body, rfl⟩ := List.exists_cons_of_ne_nil hbody
        exact absurd (congrArg some (List.cons.inj htext).1.symm) hmark
  · rename_i hplain
    rw [map_takeBody?_eq_some_iff]
    constructor
    · rintro ⟨body, rfl, hbody, hclose, rfl⟩
      refine ⟨false, body, rfl, .plain hbody hclose fun hmark => ?_⟩
      obtain ⟨body, rfl⟩ := List.head?_eq_some_iff.mp hmark
      exact hplain _ rfl
    · rintro ⟨negated, body, rfl, hopens⟩
      cases hopens with
      | negated hbody hclose => exact absurd rfl (hplain _)
      | plain hbody hclose hmark => exact ⟨body, rfl, hbody, hclose, rfl⟩

/-! ## Items -/

theorem strictItems_of_class {cs rest : List Char} {item : Item}
    (h : takeClass? cs = some (item, rest)) :
    strictItems ('[' :: cs) = item :: strictItems rest := by
  rw [strictItems, if_neg (by decide), if_neg (by decide), if_pos rfl]
  split
  · rename_i item' rest' h'
    rw [h] at h'
    simp only [Option.some.injEq, Prod.mk.injEq] at h'
    rw [h'.1, h'.2]
  · rename_i h'
    rw [h] at h'
    exact absurd h' (by simp)

theorem strictItems_of_no_class {cs : List Char} (h : takeClass? cs = none) :
    strictItems ('[' :: cs) = .char '[' :: strictItems cs := by
  rw [strictItems, if_neg (by decide), if_neg (by decide), if_pos rfl]
  split
  · rename_i h'
    rw [h] at h'
    exact absurd h' (by simp)
  · rfl

theorem takeClass?_eq_none_iff {cs : List Char} :
    takeClass? cs = none ↔ ∀ negated body tail, ¬ Opens cs negated body tail := by
  constructor
  · intro h negated body tail hopens
    have hsome := takeClass?_eq_some_iff.mpr ⟨negated, body, rfl, hopens⟩
    rw [h] at hsome
    exact absurd hsome (by simp)
  · intro h
    refine Option.eq_none_iff_forall_ne_some.mpr fun (item, rest) hsome => ?_
    obtain ⟨negated, body, -, hopens⟩ := takeClass?_eq_some_iff.mp hsome
    exact h negated body rest hopens

/-- A glob reads as its items and as nothing else. -/
theorem reads_iff {cs : List Char} {is : List Item} : Reads cs is ↔ strictItems cs = is := by
  constructor
  · intro h
    induction h with
    | nil => rw [strictItems]
    | many rest ih => rw [strictItems, if_pos rfl, ih]
    | one rest ih => rw [strictItems, if_neg (by decide), if_pos rfl, ih]
    | oneOf opens rest ih =>
      rw [strictItems_of_class (takeClass?_eq_some_iff.mpr ⟨_, _, rfl, opens⟩), ih]
    | bracket literal rest ih =>
      rw [strictItems_of_no_class (takeClass?_eq_none_iff.mpr literal), ih]
    | char plain rest ih =>
      rw [strictItems, if_neg plain.1, if_neg plain.2.1, if_neg plain.2.2, ih]
  · rintro rfl
    fun_induction strictItems cs with
    | case1 => exact .nil
    | case2 cs ih => exact .many ih
    | case3 cs _ ih => exact .one ih
    | case4 cs item rest hclass _ _ _ ih =>
      obtain ⟨negated, body, rfl, hopens⟩ := takeClass?_eq_some_iff.mp hclass
      exact .oneOf hopens ih
    | case5 cs hclass _ _ ih => exact .bracket (takeClass?_eq_none_iff.mp hclass) ih
    | case6 c cs hmany hone hopen ih => exact .char ⟨hmany, hone, hopen⟩ ih

/-! ## Atoms -/

namespace Atom

/-- The texts that an atom takes. -/
def language (a : Atom) : Language Char :=
  {w | if a.repeats then ∀ c ∈ w, a.takes c = true else ∃ c, w = [c] ∧ a.takes c = true}

end Atom

/-- An item has an atom iff it is sound. -/
theorem isSome_atom?_iff (i : Item) : i.atom?.isSome = true ↔ i.Sound := by
  cases i with
  | char c => exact iff_of_true rfl trivial
  | one => exact iff_of_true rfl trivial
  | many => exact iff_of_true rfl trivial
  | oneOf negated body =>
    rw [Item.atom?, Option.isSome_map, Option.isSome_iff_exists]
    constructor
    · rintro ⟨k, hk⟩ e he
      obtain ⟨hordered, hshallow, -⟩ := (ofBody?_eq_some_iff he negated k).mp hk
      exact ⟨hordered, hshallow⟩
    · intro h
      obtain ⟨ps, hps⟩ := exists_body body
      obtain ⟨e, rfl⟩ := Difference.exists_parts_eq ps
      obtain ⟨hordered, hshallow⟩ := h e hps
      exact ⟨_, (ofBody?_eq_some_iff hps negated _).mpr ⟨hordered, hshallow, rfl⟩⟩

theorem Atom.mem_language_of_repeats {a : Atom} (ha : a.repeats = true) {w : List Char} :
    w ∈ a.language ↔ ∀ c ∈ w, a.takes c = true := by
  show (if a.repeats = true then _ else _) ↔ _
  rw [if_pos ha]

theorem Atom.mem_language_of_not_repeats {a : Atom} (ha : a.repeats = false) {w : List Char} :
    w ∈ a.language ↔ ∃ c, w = [c] ∧ a.takes c = true := by
  show (if a.repeats = true then _ else _) ↔ _
  rw [if_neg (by simp [ha])]

/-- The atom of an item takes what the item stands for. -/
theorem language_of_atom? {i : Item} {a : Atom} (h : i.atom? = some a) :
    a.language = i.language := by
  apply Language.ext
  intro w
  cases i with
  | char c =>
    obtain rfl := Option.some.inj h
    rw [Atom.mem_language_of_not_repeats rfl]
    show (∃ d, w = [d] ∧ (CodePoint.fold d.toNat == CodePoint.fold c.toNat) = true) ↔
      ∃ d, w = [d] ∧ SameFold c d
    simp only [beq_iff_eq, SameFold, @eq_comm _ (CodePoint.fold c.toNat)]
  | one =>
    obtain rfl := Option.some.inj h
    rw [Atom.mem_language_of_not_repeats rfl]
    show (∃ d, w = [d] ∧ (d != '\n') = true) ↔ ∃ d, w = [d] ∧ d ≠ '\n'
    simp only [bne_iff_ne]
  | many =>
    obtain rfl := Option.some.inj h
    rw [Atom.mem_language_of_repeats rfl]
    show (∀ d ∈ w, (d != '\n') = true) ↔ '\n' ∉ w
    simp only [bne_iff_ne]
    exact ⟨fun h hmem => h _ hmem rfl, fun h d hd heq => h (heq ▸ hd)⟩
  | oneOf negated body =>
    obtain ⟨k, hk, rfl⟩ := Option.map_eq_some_iff.mp h
    rw [Atom.mem_language_of_not_repeats rfl]
    show (∃ d, w = [d] ∧ k.contains d = true) ↔
      ∃ d e, w = [d] ∧ Body body (Difference.parts e) ∧ (d ∈ e.members ↔ negated = false)
    constructor
    · rintro ⟨d, rfl, hd⟩
      obtain ⟨ps, hps⟩ := exists_body body
      obtain ⟨e, rfl⟩ := Difference.exists_parts_eq ps
      exact ⟨d, e, rfl, hps, (contains_iff hps hk d).mp hd⟩
    · rintro ⟨d, e, rfl, he, hd⟩
      exact ⟨d, rfl, (contains_iff he hk d).mpr hd⟩

/-! ## Rows -/

theorem mapM_atom?_cons (i : Item) (is : List Item) :
    (i :: is).mapM Item.atom? =
      i.atom?.bind fun a => (is.mapM Item.atom?).map fun as => a :: as := by
  rw [List.mapM_cons]
  cases i.atom? with
  | none => rfl
  | some a =>
    cases is.mapM Item.atom? with
    | none => rfl
    | some as => rfl

/-- A row of items has atoms iff all items are sound. -/
theorem isSome_mapM_atom?_iff (is : List Item) :
    (is.mapM Item.atom?).isSome = true ↔ ∀ i ∈ is, i.Sound := by
  induction is with
  | nil => exact iff_of_true rfl fun i hi => absurd hi List.not_mem_nil
  | cons i is ih =>
    rw [mapM_atom?_cons, List.forall_mem_cons, ← ih, ← isSome_atom?_iff]
    cases i.atom? with
    | none => simp
    | some a => simp

/-- The atoms of a row of items take what the items stand for. -/
theorem language_of_mapM_atom? {is : List Item} {as : List Atom}
    (h : is.mapM Item.atom? = some as) : as.map Atom.language = is.map Item.language := by
  induction is generalizing as with
  | nil =>
    obtain rfl := Option.some.inj h
    rfl
  | cons i is ih =>
    rw [mapM_atom?_cons] at h
    obtain ⟨a, ha, h⟩ := Option.bind_eq_some_iff.mp h
    obtain ⟨as, has, rfl⟩ := Option.map_eq_some_iff.mp h
    rw [List.map_cons, List.map_cons, language_of_atom? ha, ih has]

end AlertRules.Glob
