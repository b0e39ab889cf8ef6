import AlertRules.Proofs.CodePoint.CaseFold
import AlertRules.Proofs.Glob.Matching

/-!
# AlertRules.Proofs.Glob.Literal — globs that stand for themselves

An id that is used as a glob is safe if the glob accepts this id and nothing else.  That is so exactly
for the `Literal` globs: not empty, without wildcards and classes, and without characters that have
case variants (`accepts_self_iff`).

A glob with a wildcard accepts other texts besides itself, since what a wildcard takes can be
exchanged (`exists_only_piece`).  A glob with a class and no wildcard does not even accept itself: each of
its items takes one character, and a class is written with three or more (`Reads.eq_chars`).
-/

namespace AlertRules.Glob

open CodePoint

/-- The glob has a matcher, and it accepts the text as a whole: the text is not empty and in the
language of the glob. -/
def Accepts (mode : Mode) (glob cs : List Char) : Prop :=
  cs ≠ [] ∧ Sound mode glob ∧ cs ∈ language mode glob

/-- A matcher for whole texts is found and accepts the text iff the glob accepts it. -/
theorem any_isMatch_iff (glob : String) (mode : Mode) (text : String) :
    (Matcher.compile? glob .full mode).any (·.isMatch text) = true ↔
      Accepts mode glob.toList text.toList := by
  have hne : text ≠ "" ↔ text.toList ≠ [] := not_congr String.toList_eq_nil_iff.symm
  rw [Matcher.any_isMatch_iff_found, hne]
  rfl

/-- **`Literal mode glob`** — the glob stands for itself alone: it is not empty, each of its characters
is read as that character, and none of them has a case variant. -/
structure Literal (mode : Mode) (glob : List Char) : Prop where
  nonempty : glob ≠ []
  plain : mode = .strict → Reads glob (glob.map .char)
  caseless : ∀ c ∈ glob, ∀ d, SameFold c d → d = c

/-! ## Literal globs -/

theorem items_eq_chars_iff {mode : Mode} {glob : List Char} :
    items mode glob = glob.map .char ↔ (mode = .strict → Reads glob (glob.map .char)) := by
  cases mode with
  | legacy => simp [items]
  | strict => simp [items, reads_iff]

theorem eq_of_forall₂_sameFold {cs w : List Char} (hcs : ∀ c ∈ cs, ∀ d, SameFold c d → d = c)
    (h : List.Forall₂ SameFold cs w) : w = cs := by
  induction h with
  | nil => rfl
  | cons hd _ ih =>
    rw [List.forall_mem_cons] at hcs
    rw [hcs.1 _ hd, ih hcs.2]

theorem forall₂_sameFold_self (cs : List Char) : List.Forall₂ SameFold cs cs :=
  List.forall₂_same.mpr fun _ _ => rfl

theorem Literal.accepts_iff {mode : Mode} {glob : List Char} (h : Literal mode glob)
    (w : List Char) : Accepts mode glob w ↔ w = glob := by
  have hitems := items_eq_chars_iff.mpr h.plain
  have hsound : Sound mode glob := by
    rw [sound_iff, hitems]
    exact sound_of_mem_chars
  rw [Accepts, language_eq_prod, hitems, mem_prod_chars_iff]
  constructor
  · rintro ⟨-, -, hw⟩
    exact eq_of_forall₂_sameFold h.caseless hw
  · rintro rfl
    exact ⟨h.nonempty, hsound, forall₂_sameFold_self w⟩

/-- Characters have no case variants if the table neither holds them nor leads to them. -/
theorem caseless_of_mask {cs : List Char}
    (hheld : mask (cs.map Char.toNat) &&& mask unfolded = 0)
    (hled : mask (cs.map Char.toNat) &&& mask folded = 0) :
    ∀ c ∈ cs, ∀ d, SameFold c d → d = c := by
  intro c hc d hd
  have hmem : c.toNat ∈ cs.map Char.toNat := List.mem_map_of_mem hc
  have hc' : fold c.toNat = c.toNat :=
    fold_of_not_holds fun r hr hn => not_mem_of_mask hheld hmem (hr.mem_unfolded hn)
  have hfold : fold d.toNat = c.toNat := hd.symm.trans hc'
  rcases fold_cases d.toNat with ⟨hd', -⟩ | ⟨r, hr, hn, htarget⟩
  · exact Char.toNat_inj.mp (hd'.symm.trans hfold)
  · refine absurd (hr.mem_folded hn) ?_
    rw [← htarget, hfold]
    exact not_mem_of_mask hled hmem

/-- **`Plain cs`** — the text has no wildcard and opens no class. -/
structure Plain (cs : List Char) : Prop where
  noMany : '*' ∉ cs
  noOne : '?' ∉ cs
  noOpen : '[' ∉ cs

/-- A plain text in front of a glob is read character by character. -/
theorem Plain.reads_append {cs rest : List Char} {is : List Item} (h : Plain cs)
    (hrest : Reads rest is) : Reads (cs ++ rest) (cs.map Item.char ++ is) := by
  obtain ⟨hmany, hone, hopen⟩ := h
  induction cs with
  | nil => exact hrest
  | cons c cs ih =>
    rw [List.mem_cons, not_or] at hmany hone hopen
    apply Reads.char ⟨Ne.symm hmany.1, Ne.symm hone.1, Ne.symm hopen.1⟩
    exact ih hmany.2 hone.2 hopen.2

/-- Without wildcards and brackets, every character is read as itself. -/
theorem reads_chars {cs : List Char} (hmany : '*' ∉ cs) (hone : '?' ∉ cs) (hopen : '[' ∉ cs) :
    Reads cs (cs.map .char) := by
  have hreads := Plain.reads_append ⟨hmany, hone, hopen⟩ .nil
  rwa [List.append_nil, List.append_nil] at hreads

/-! ## Globs that accept themselves alone -/

/-- If a row of items takes one text only, then each item has only one text to take. -/
theorem exists_only_piece {is : List Item} {w : List Char}
    (hw : w ∈ (is.map Item.language).prod)
    (honly : ∀ v ∈ (is.map Item.language).prod, v ≠ [] → v = w) {i : Item} (hi : i ∈ is) :
    ∃ u ∈ i.language, ∀ v ∈ i.language, v ≠ [] → v = u := by
  obtain ⟨before, after, rfl⟩ := List.append_of_mem hi
  simp only [List.map_append, List.map_cons, List.prod_append, List.prod_cons] at hw honly
  obtain ⟨a, ha, t, ht, rfl⟩ := Language.mem_mul.mp hw
  obtain ⟨u, hu, b, hb, rfl⟩ := Language.mem_mul.mp ht
  refine ⟨u, hu, ?_⟩
  intro v hv hne
  have hv' := honly (a ++ (v ++ b))
    (Language.append_mem_mul ha (Language.append_mem_mul hv hb)) (by simp [hne])
  exact List.append_cancel_right (List.append_cancel_left hv')

theorem singleton_mem_char_iff {c d : Char} : [d] ∈ (Item.char c).language ↔ SameFold c d := by
  show (∃ e, [d] = [e] ∧ SameFold c e) ↔ SameFold c d
  simp

theorem singleton_mem_one_iff {d : Char} : [d] ∈ Item.one.language ↔ d ≠ '\n' := by
  show (∃ e, [d] = [e] ∧ e ≠ '\n') ↔ d ≠ '\n'
  simp

theorem singleton_mem_many_iff {d : Char} : [d] ∈ Item.many.language ↔ d ≠ '\n' := by
  show '\n' ∉ [d] ↔ d ≠ '\n'
  rw [List.mem_singleton, ne_comm]

/-- Two texts other than the empty one are too many. -/
theorem not_only_piece {i : Item} {c d : Char} (hc : [c] ∈ i.language) (hd : [d] ∈ i.language)
    (hne : c ≠ d) : ¬ ∃ u ∈ i.language, ∀ v ∈ i.language, v ≠ [] → v = u := by
  rintro ⟨u, -, honly⟩
  have hcu := honly [c] hc (by simp)
  rw [← honly [d] hd (by simp)] at hcu
  exact hne (List.singleton_inj.mp hcu)

theorem length_lt_of_opens {cs body tail : List Char} {negated : Bool}
    (h : Opens cs negated body tail) : tail.length < cs.length :=
  length_takeClass? (takeClass?_eq_some_iff.mpr ⟨negated, body, rfl, h⟩)

theorem Reads.length_le {cs : List Char} {is : List Item} (h : Reads cs is) :
    is.length ≤ cs.length := by
  induction h with
  | nil => exact Nat.le_refl _
  | oneOf opens _ ih =>
    have hlt := length_lt_of_opens opens
    simp only [List.length_cons]
    omega
  | many _ ih | one _ ih | bracket _ _ ih | char _ _ ih => exact Nat.succ_le_succ ih

/-- A glob without wildcards that has as many items as characters has no class either. -/
theorem Reads.eq_chars {cs : List Char} {is : List Item} (h : Reads cs is)
    (hwild : ∀ i ∈ is, i ≠ .many ∧ i ≠ .one) (hlen : is.length = cs.length) :
    is = cs.map .char := by
  induction h with
  | nil => rfl
  | many _ _ => exact absurd rfl (hwild _ List.mem_cons_self).1
  | one _ _ => exact absurd rfl (hwild _ List.mem_cons_self).2
  | oneOf opens rest _ =>
    have hlt := length_lt_of_opens opens
    have hle := rest.length_le
    simp only [List.length_cons] at hlen
    omega
  | bracket _ _ ih | char _ _ ih =>
    rw [List.forall_mem_cons] at hwild
    rw [ih hwild.2 (Nat.succ.inj hlen), List.map_cons]

theorem length_of_mem_language {i : Item} (hi : i ≠ .many) {w : List Char}
    (hw : w ∈ i.language) : w.length = 1 := by
  cases i with
  | char c =>
    obtain ⟨d, rfl, -⟩ := hw
    rfl
  | one =>
    obtain ⟨d, rfl, -⟩ := hw
    rfl
  | many => exact absurd rfl hi
  | oneOf negated body =>
    obtain ⟨d, -, rfl, -⟩ := hw
    rfl

/-- Without the star, a row of items takes a character for each item. -/
theorem length_of_mem_prod {is : List Item} (his : ∀ i ∈ is, i ≠ .many) {w : List Char}
    (hw : w ∈ (is.map Item.language).prod) : w.length = is.length := by
  induction is generalizing w with
  | nil =>
    rw [List.map_nil, List.prod_nil, Language.mem_one] at hw
    rw [hw]
    rfl
  | cons i is ih =>
    rw [List.forall_mem_cons] at his
    rw [List.map_cons, List.prod_cons, Language.mem_mul] at hw
    obtain ⟨x, hx, y, hy, rfl⟩ := hw
    rw [List.length_append, length_of_mem_language his.1 hx, ih his.2 hy, List.length_cons,
      Nat.add_comm]

theorem literal_of_accepts {mode : Mode} {glob : List Char}
    (h : ∀ w, Accepts mode glob w ↔ w = glob) : Literal mode glob := by
  obtain ⟨hne, hsound, hself⟩ := (h glob).mpr rfl
  rw [language_eq_prod] at hself
  have honly : ∀ v ∈ ((items mode glob).map Item.language).prod, v ≠ [] → v = glob := by
    intro v hv hv'
    exact (h v).mp ⟨hv', hsound, by rwa [language_eq_prod]⟩
  have hpiece := fun i => exists_only_piece hself honly (i := i)
  have hwild : ∀ i ∈ items mode glob, i ≠ .many ∧ i ≠ .one := by
    refine fun i hi => ⟨?_, ?_⟩
    · rintro rfl
      have ha : ['a'] ∈ Item.many.language := singleton_mem_many_iff.mpr (by decide)
      have hb : ['b'] ∈ Item.many.language := singleton_mem_many_iff.mpr (by decide)
      exact not_only_piece ha hb (by decide) (hpiece _ hi)
    · rintro rfl
      have ha : ['a'] ∈ Item.one.language := singleton_mem_one_iff.mpr (by decide)
      have hb : ['b'] ∈ Item.one.language := singleton_mem_one_iff.mpr (by decide)
      exact not_only_piece ha hb (by decide) (hpiece _ hi)
  have hlen := length_of_mem_prod (fun i hi => (hwild i hi).1) hself
  have hitems : items mode glob = glob.map .char := by
    cases mode with
    | legacy => rfl
    | strict => exact (reads_iff.mpr rfl).eq_chars hwild hlen.symm
  refine ⟨hne, items_eq_chars_iff.mp hitems, ?_⟩
  intro c hc d hd
  have hi : Item.char c ∈ items mode glob := by
    rw [hitems]
    exact List.mem_map_of_mem hc
  by_contra hdc
  have hmem : [d] ∈ (Item.char c).language := singleton_mem_char_iff.mpr hd
  have hself : [c] ∈ (Item.char c).language := singleton_mem_char_iff.mpr rfl
  exact not_only_piece hmem hself hdc (hpiece _ hi)

/-- A glob accepts itself and nothing else iff it is literal. -/
theorem accepts_self_iff {mode : Mode} {glob : List Char} :
    (∀ w, Accepts mode glob w ↔ w = glob) ↔ Literal mode glob :=
  ⟨literal_of_accepts, Literal.accepts_iff⟩

end AlertRules.Glob
