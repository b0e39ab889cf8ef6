import AlertRules.Glob.Matcher
import AlertRules.Proofs.Glob.Reading

/-!
# AlertRules.Proofs.Glob.Matching — matching a glob is finding a text of its language

The flags of a matcher follow a set of texts, those that were read since a match may have begun: a
place is live iff one of these texts can be spread over the atoms in front of it (`Tracks`).  Letting
a match begin adds the empty text (`tracks_enter`), and a character is added to every text
(`tracks_advance`).  Hence a row of atoms spans a text iff the text lies in the product of their
languages (`spans_iff`), and a match is found iff some part of the text does that starts and ends at
word boundaries (`foundFrom_iff`).
-/

namespace AlertRules.Glob

/-! ## What the flags say -/

/-- What an atom may have taken while the place in front of it stays live. -/
def Atom.loop (a : Atom) : Language Char :=
  if a.repeats then a.language else 1

/-- What a row of atoms takes. -/
def product (as : List Atom) : Language Char :=
  (as.map Atom.language).prod

/-- **`Tracks M F as live`** — the flags of the places in the row `as` say whether a text of `M` can
be spread over what stands in front: `F`, and the atoms up to that place. -/
inductive Tracks (M : Set (List Char)) : Language Char → List Atom → Live → Prop
  | nil {F b} (here : b = true ↔ ∃ m ∈ M, m ∈ F) : Tracks M F [] [b]
  | cons {F a as b bs} (here : b = true ↔ ∃ m ∈ M, m ∈ F * a.loop)
      (rest : Tracks M (F * a.language) as bs) : Tracks M F (a :: as) (b :: bs)

variable {M : Set (List Char)} {F : Language Char} {as : List Atom} {live : Live}

theorem nil_mem_loop (a : Atom) : [] ∈ a.loop := by
  unfold Atom.loop
  cases ha : a.repeats with
  | true => exact (Atom.mem_language_of_repeats ha).mpr fun c hc => absurd hc List.not_mem_nil
  | false => exact Language.nil_mem_one

theorem mem_mul_of_mem_of_nil_mem {L : Language Char} {m : List Char} (hm : m ∈ F) (hnil : [] ∈ L) :
    m ∈ F * L := by
  have happ := Language.append_mem_mul hm hnil
  rwa [List.append_nil] at happ

theorem nil_mem_mul_iff {L : Language Char} : [] ∈ F * L ↔ [] ∈ F ∧ [] ∈ L := by
  rw [Language.mem_mul]
  constructor
  · rintro ⟨a, ha, b, hb, hab⟩
    obtain ⟨rfl, rfl⟩ := List.append_eq_nil_iff.mp hab
    exact ⟨ha, hb⟩
  · rintro ⟨ha, hb⟩
    exact ⟨[], ha, [], hb, rfl⟩

theorem tracks_nowhere (F : Language Char) (as : List Atom) : Tracks ∅ F as (nowhere as) := by
  induction as generalizing F with
  | nil => exact .nil (by simp)
  | cons a as ih => exact .cons (by simp) (ih _)

/-- At the end of the row the flag says whether a text can be spread over all of it. -/
theorem finished_iff (h : Tracks M F as live) :
    finished live = true ↔ ∃ m ∈ M, m ∈ F * product as := by
  -- induction along the row: what stands in front grows by one atom a step
  induction h with
  | @nil F b here =>
    rw [product, List.map_nil, List.prod_nil, mul_one, ← here, finished]
    simp
  | @cons F a as b bs here rest ih =>
    have hmul : F * product (a :: as) = F * a.language * product as := by
      rw [product, List.map_cons, List.prod_cons, mul_assoc]
      rfl
    rw [hmul, ← ih, finished, finished]
    cases rest with
    | nil => rfl
    | cons => rfl

/-! ## A match begins -/

theorem enter_iff {L : Language Char} {b carry : Bool} (here : b = true ↔ ∃ m ∈ M, m ∈ F * L)
    (hL : [] ∈ L) (hnil : [] ∈ F → carry = true)
    (hcarry : carry = true → ∃ m ∈ insert [] M, m ∈ F) :
    (carry || b) = true ↔ ∃ m ∈ insert [] M, m ∈ F * L := by
  rw [Bool.or_eq_true]
  constructor
  · rintro (hc | hb)
    · obtain ⟨m, hm, hF⟩ := hcarry hc
      exact ⟨m, hm, mem_mul_of_mem_of_nil_mem hF hL⟩
    · obtain ⟨m, hm, hFL⟩ := here.mp hb
      exact ⟨m, Set.mem_insert_of_mem _ hm, hFL⟩
  · rintro ⟨m, hm, hFL⟩
    rcases Set.mem_insert_iff.mp hm with rfl | hm
    · exact Or.inl (hnil (nil_mem_mul_iff.mp hFL).1)
    · exact Or.inr (here.mpr ⟨m, hm, hFL⟩)

theorem tracks_enter (h : Tracks M F as live) {carry : Bool} (hnil : [] ∈ F → carry = true)
    (hcarry : carry = true → ∃ m ∈ insert [] M, m ∈ F) :
    Tracks (insert [] M) F as (enter carry as live) := by
  induction h generalizing carry with
  | @nil F b here =>
    have hflag := enter_iff (L := 1) (by rwa [mul_one]) Language.nil_mem_one hnil hcarry
    rw [mul_one] at hflag
    exact .nil hflag
  | @cons F a as b bs here rest ih =>
    have hflag := enter_iff here (nil_mem_loop a) hnil hcarry
    refine .cons hflag (ih ?_ ?_)
    · intro hF
      obtain ⟨hF, ha⟩ := nil_mem_mul_iff.mp hF
      have hrep : a.repeats = true := by
        cases hr : a.repeats with
        | true => rfl
        | false =>
          obtain ⟨c, hc, -⟩ := (Atom.mem_language_of_not_repeats hr).mp ha
          exact absurd hc (by simp)
      rw [hrep, hnil hF]
      rfl
    · intro hc
      rw [Bool.and_eq_true] at hc
      obtain ⟨m, hm, hmem⟩ := hflag.mp hc.1
      rw [Atom.loop, if_pos hc.2] at hmem
      exact ⟨m, hm, hmem⟩

/-! ## A character is read -/

theorem append_singleton_mem_mul_iff {L : Language Char} {m : List Char} {c : Char} :
    m ++ [c] ∈ F * L ↔
      (m ++ [c] ∈ F ∧ [] ∈ L) ∨ ∃ x y, m = x ++ y ∧ x ∈ F ∧ y ++ [c] ∈ L := by
  rw [Language.mem_mul]
  constructor
  · rintro ⟨x, hx, y, hy, hxy⟩
    rcases List.eq_nil_or_concat' y with rfl | ⟨y, d, rfl⟩
    · rw [List.append_nil] at hxy
      exact Or.inl ⟨hxy ▸ hx, hy⟩
    · rw [← List.append_assoc] at hxy
      obtain ⟨rfl, hd⟩ := List.append_inj' hxy rfl
      exact Or.inr ⟨x, y, rfl, hx, hd ▸ hy⟩
  · rintro (⟨hm, hnil⟩ | ⟨x, y, rfl, hx, hy⟩)
    · exact ⟨m ++ [c], hm, [], hnil, List.append_nil _⟩
    · exact ⟨x, hx, y ++ [c], hy, by rw [List.append_assoc]⟩

/-- Behind an atom that repeats, a character goes on what the atom has taken. -/
theorem append_mem_mul_of_repeats {a : Atom} (ha : a.repeats = true) {m : List Char} {c : Char} :
    m ++ [c] ∈ F * a.language ↔
      m ++ [c] ∈ F ∨ (m ∈ F * a.language ∧ a.takes c = true) := by
  have hnil : [] ∈ a.language :=
    (Atom.mem_language_of_repeats ha).mpr fun c hc => absurd hc List.not_mem_nil
  have hsnoc : ∀ y, y ++ [c] ∈ a.language ↔ y ∈ a.language ∧ a.takes c = true := by
    intro y
    simp only [Atom.mem_language_of_repeats ha, List.forall_mem_append, List.forall_mem_singleton]
  rw [append_singleton_mem_mul_iff]
  apply or_congr (and_iff_left hnil)
  rw [Language.mem_mul]
  constructor
  · rintro ⟨x, y, rfl, hx, hy⟩
    exact ⟨⟨x, hx, y, ((hsnoc y).mp hy).1, rfl⟩, ((hsnoc y).mp hy).2⟩
  · rintro ⟨⟨x, hx, y, hy, rfl⟩, hc⟩
    exact ⟨x, y, rfl, hx, (hsnoc y).mpr ⟨hy, hc⟩⟩

/-- Behind any other atom, a character is all that the atom has taken. -/
theorem append_mem_mul_of_not_repeats {a : Atom} (ha : a.repeats = false) {m : List Char}
    {c : Char} : m ++ [c] ∈ F * a.language ↔ m ∈ F ∧ a.takes c = true := by
  rw [Language.mem_mul]
  constructor
  · rintro ⟨x, hx, y, hy, hxy⟩
    obtain ⟨d, rfl, hd⟩ := (Atom.mem_language_of_not_repeats ha).mp hy
    obtain ⟨rfl, hdc⟩ := List.append_inj' hxy rfl
    obtain rfl := List.singleton_inj.mp hdc
    exact ⟨hx, hd⟩
  · rintro ⟨hm, hc⟩
    exact ⟨m, hm, [c], (Atom.mem_language_of_not_repeats ha).mpr ⟨c, rfl, hc⟩, rfl⟩

theorem tracks_advance (h : Tracks M F as live) (c : Char) {carry : Bool}
    (hcarry : carry = true ↔ ∃ m ∈ M, m ++ [c] ∈ F) :
    Tracks ((· ++ [c]) '' M) F as (advance c carry as live) := by
  have himage : ∀ L : Language Char, (∃ m ∈ (· ++ [c]) '' M, m ∈ L) ↔ ∃ m ∈ M, m ++ [c] ∈ L :=
    fun L => Set.exists_mem_image
  induction h generalizing carry with
  | @nil F b here => exact .nil (by rw [himage, hcarry])
  | @cons F a as b bs here rest ih =>
    cases hr : a.repeats with
    | true =>
      have hflag : (carry || (b && a.takes c)) = true ↔ ∃ m ∈ M, m ++ [c] ∈ F * a.language := by
        rw [Atom.loop, if_pos hr] at here
        simp only [append_mem_mul_of_repeats hr, and_or_left, exists_or, Bool.or_eq_true,
          Bool.and_eq_true, hcarry, here, ← and_assoc, exists_and_right]
      have hadvance : advance c carry (a :: as) (b :: bs) =
          (carry || (b && a.takes c)) :: advance c (carry || (b && a.takes c)) as bs := by
        rw [advance, if_pos hr]
      rw [hadvance]
      refine .cons ?_ (ih hflag)
      rw [himage, hflag, Atom.loop, if_pos hr]
    | false =>
      have hnext : (b && a.takes c) = true ↔ ∃ m ∈ M, m ++ [c] ∈ F * a.language := by
        rw [Atom.loop, if_neg (by simp [hr]), mul_one] at here
        simp only [append_mem_mul_of_not_repeats hr, Bool.and_eq_true, here, ← and_assoc,
          exists_and_right]
      have hadvance : advance c carry (a :: as) (b :: bs) =
          carry :: advance c (b && a.takes c) as bs := by
        rw [advance, if_neg (by simp [hr])]
      rw [hadvance]
      refine .cons ?_ (ih hnext)
      rw [himage, hcarry, Atom.loop, if_neg (by simp [hr]), mul_one]

/-- In a whole row, a character is added to every text. -/
theorem tracks_advance_one (h : Tracks M 1 as live) (c : Char) :
    Tracks ((· ++ [c]) '' M) 1 as (advance c false as live) := by
  refine tracks_advance h c ⟨fun hfalse => absurd hfalse (by simp), ?_⟩
  rintro ⟨m, -, hm⟩
  exact absurd ((Language.mem_one _).mp hm) (by simp)

/-- In a whole row, a match may begin anywhere. -/
theorem tracks_enter_one (h : Tracks M 1 as live) :
    Tracks (insert [] M) 1 as (enter true as live) :=
  tracks_enter h (fun _ => rfl) fun _ => ⟨[], Set.mem_insert _ _, Language.nil_mem_one⟩

/-! ## Whole texts -/

theorem tracks_foldl (cs : List Char) (h : Tracks M 1 as live) :
    Tracks ((· ++ cs) '' M) 1 as (cs.foldl (fun live c => advance c false as live) live) := by
  induction cs generalizing M live with
  | nil => simpa using h
  | cons c cs ih =>
    have hcs := ih (tracks_advance_one h c)
    rw [Set.image_image] at hcs
    simpa using hcs

/-- A row of atoms spans a text iff the text can be spread over them. -/
theorem spans_iff (as : List Atom) (cs : List Char) :
    Matcher.spans as cs = true ↔ cs ∈ product as := by
  have hstart := tracks_enter_one (tracks_nowhere 1 as)
  rw [Matcher.spans, finished_iff (tracks_foldl cs hstart), one_mul]
  simp

/-! ## Parts of texts -/

open CodePoint (isBoundary)

/-- Behind `pre`, the texts of the matches that may have begun: all that was read since some word
boundary. -/
def Begun (pre : List Char) : Set (List Char) :=
  {m | m ≠ [] ∧ ∃ a, pre = a ++ m ∧ isBoundary a.getLast? m.head? = true}

/-- A character goes to every match that has begun, and to one that begins in front of it. -/
theorem begun_append (pre : List Char) (c : Char) :
    Begun (pre ++ [c]) = (· ++ [c]) ''
      (if isBoundary pre.getLast? (some c) then insert [] (Begun pre) else Begun pre) := by
  have hmem : ∀ m, m ∈ (if isBoundary pre.getLast? (some c) then insert [] (Begun pre)
      else Begun pre) ↔ (m = [] ∧ isBoundary pre.getLast? (some c) = true) ∨ m ∈ Begun pre := by
    intro m
    split <;> simp_all
  ext w
  simp only [Set.mem_image, hmem]
  constructor
  · rintro ⟨hne, a, hsplit, hb⟩
    rcases List.eq_nil_or_concat' w with rfl | ⟨m, d, rfl⟩
    · exact absurd rfl hne
    · rw [← List.append_assoc] at hsplit
      obtain ⟨rfl, hd⟩ := List.append_inj' hsplit rfl
      obtain rfl := List.singleton_inj.mp hd
      -- a match that is empty in front of `c` begins there, any other one had begun before
      refine ⟨m, ?_, rfl⟩
      by_cases hm : m = []
      · subst hm
        exact Or.inl ⟨rfl, by simpa using hb⟩
      · rw [List.head?_append_of_ne_nil _ hm] at hb
        exact Or.inr ⟨hm, a, rfl, hb⟩
  · rintro ⟨m, ⟨rfl, hb⟩ | ⟨hm, a, rfl, hb⟩, rfl⟩
    · exact ⟨by simp, pre, rfl, hb⟩
    · refine ⟨by simp, a, by rw [List.append_assoc], ?_⟩
      rwa [List.head?_append_of_ne_nil _ hm]

/-- **`Placed as text a m b`** — `text` is `a`, `m` and `b`, where `m` is made up of the atoms and lies
between two word boundaries. -/
structure Placed (as : List Atom) (text a m b : List Char) : Prop where
  split : text = a ++ m ++ b
  taken : m ∈ product as
  starts : isBoundary a.getLast? (m ++ b).head? = true
  ends : isBoundary (a ++ m).getLast? b.head? = true

/-- Behind `pre`, a match ends here iff the row is finished, also by a match that begins here. -/
theorem ends_iff {pre : List Char} (h : Tracks (Begun pre) 1 as live) (cs : List Char) :
    (isBoundary pre.getLast? cs.head? && finished (enter true as live)) = true ↔
      ∃ a m, pre = a ++ m ∧ Placed as (pre ++ cs) a m cs := by
  rw [Bool.and_eq_true, finished_iff (tracks_enter_one h), one_mul]
  constructor
  · rintro ⟨hend, m, hm, htaken⟩
    rcases Set.mem_insert_iff.mp hm with rfl | ⟨hne, a, rfl, hb⟩
    · refine ⟨pre, [], (List.append_nil _).symm, ?_, htaken, hend, ?_⟩
      · rw [List.append_nil]
      · rwa [List.append_nil]
    · exact ⟨a, m, rfl, rfl, htaken, by rwa [List.head?_append_of_ne_nil _ hne], hend⟩
  · rintro ⟨a, m, rfl, hplaced⟩
    refine ⟨hplaced.ends, m, ?_, hplaced.taken⟩
    by_cases hm : m = []
    · exact hm ▸ Set.mem_insert _ _
    · have hb := hplaced.starts
      rw [List.head?_append_of_ne_nil _ hm] at hb
      exact Set.mem_insert_of_mem _ ⟨hm, a, rfl, hb⟩

/-- A match that does not end before `cs` ends there, or goes on. -/
theorem exists_placed_iff (as : List Atom) (pre cs : List Char) :
    (∃ a m b, pre.length ≤ (a ++ m).length ∧ Placed as (pre ++ cs) a m b) ↔
      (∃ a m, pre = a ++ m ∧ Placed as (pre ++ cs) a m cs) ∨
        ∃ a m b, pre.length + 1 ≤ (a ++ m).length ∧ Placed as (pre ++ cs) a m b := by
  constructor
  · rintro ⟨a, m, b, hlen, hplaced⟩
    rcases Nat.lt_or_eq_of_le hlen with hlt | heq
    · exact Or.inr ⟨a, m, b, hlt, hplaced⟩
    · obtain ⟨hpre, rfl⟩ := List.append_inj hplaced.split heq
      exact Or.inl ⟨a, m, hpre, hplaced⟩
  · rintro (⟨a, m, rfl, hplaced⟩ | ⟨a, m, b, hlen, hplaced⟩)
    · exact ⟨a, m, cs, Nat.le_refl _, hplaced⟩
    · exact ⟨a, m, b, Nat.le_of_succ_le hlen, hplaced⟩

/-- A match is found iff some part of the text is one that does not end before `cs`. -/
theorem foundFrom_iff {pre : List Char} (h : Tracks (Begun pre) 1 as live) (cs : List Char) :
    Matcher.foundFrom as live pre.getLast? cs = true ↔
      ∃ a m b, pre.length ≤ (a ++ m).length ∧ Placed as (pre ++ cs) a m b := by
  induction cs generalizing pre live with
  | nil =>
    rw [Matcher.foundFrom, exists_placed_iff]
    refine (ends_iff h []).trans (or_iff_left ?_).symm
    rintro ⟨a, m, b, hlen, hplaced⟩
    have hsplit := congrArg List.length hplaced.split
    simp only [List.append_nil, List.length_append] at hsplit hlen
    omega
  | cons c cs ih =>
    have hends := ends_iff h (c :: cs)
    have hnext : Tracks (Begun (pre ++ [c])) 1 as
        (advance c false as (if isBoundary pre.getLast? (some c) then enter true as live else live))
        := by
      rw [begun_append]
      refine tracks_advance_one ?_ c
      split
      · exact tracks_enter_one h
      · exact h
    have hfound := ih hnext
    rw [List.append_assoc, List.singleton_append, List.length_append, List.length_singleton,
      List.getLast?_concat] at hfound
    rw [exists_placed_iff, ← hfound, ← hends, Matcher.foundFrom, Bool.or_eq_true]
    -- off a boundary no match ends here, whatever the flags
    apply or_congr_left
    show (isBoundary pre.getLast? (some c) && _) = true ↔
      (isBoundary pre.getLast? (some c) && _) = true
    cases isBoundary pre.getLast? (some c) with
    | true => rfl
    | false => rfl

/-! ## Globs -/

theorem mem_prod_chars_iff (cs w : List Char) :
    w ∈ ((cs.map Item.char).map Item.language).prod ↔ List.Forall₂ SameFold cs w := by
  induction cs generalizing w with
  | nil =>
    rw [List.map_nil, List.map_nil, List.prod_nil, Language.mem_one, List.forall₂_nil_left_iff]
  | cons c cs ih =>
    rw [List.map_cons, List.map_cons, List.prod_cons, Language.mem_mul, List.forall₂_cons_left_iff]
    constructor
    · rintro ⟨x, ⟨d, rfl, hd⟩, y, hy, rfl⟩
      exact ⟨d, y, hd, (ih y).mp hy, rfl⟩
    · rintro ⟨d, y, hd, hy, rfl⟩
      exact ⟨[d], ⟨d, rfl, hd⟩, y, (ih y).mpr hy, rfl⟩

/-- What a glob stands for is what its items stand for, in a row. -/
theorem language_eq_prod (mode : Mode) (glob : List Char) :
    language mode glob = ((items mode glob).map Item.language).prod := by
  apply Language.ext
  intro w
  cases mode with
  | legacy => exact (mem_prod_chars_iff glob w).symm
  | strict =>
    show (∃ is, Reads glob is ∧ w ∈ (is.map Item.language).prod) ↔
      w ∈ ((strictItems glob).map Item.language).prod
    constructor
    · rintro ⟨is, his, hw⟩
      rwa [reads_iff.mp his]
    · exact fun hw => ⟨_, reads_iff.mpr rfl, hw⟩

/-- A character is sound, whichever it is. -/
theorem sound_of_mem_chars {cs : List Char} : ∀ i ∈ cs.map Item.char, i.Sound := by
  intro i hi
  obtain ⟨c, -, rfl⟩ := List.mem_map.mp hi
  exact trivial

/-- A glob is sound iff its items are. -/
theorem sound_iff (mode : Mode) (glob : List Char) :
    Sound mode glob ↔ ∀ i ∈ items mode glob, i.Sound := by
  cases mode with
  | legacy =>
    exact iff_of_true (fun h => absurd h (by decide)) sound_of_mem_chars
  | strict =>
    constructor
    · exact fun h => h rfl _ (reads_iff.mpr rfl)
    · intro h _ is his
      rw [← reads_iff.mp his]
      exact h

namespace Matcher

theorem compile?_eq_some_iff {glob : String} {anchor : Anchor} {mode : Mode} {m : Matcher} :
    compile? glob anchor mode = some m ↔
      m.anchor = anchor ∧ (items mode glob.toList).mapM Item.atom? = some m.atoms := by
  rw [compile?, row?_expression, Option.map_eq_some_iff]
  constructor
  · rintro ⟨as, has, rfl⟩
    exact ⟨rfl, has⟩
  · rintro ⟨rfl, has⟩
    exact ⟨m.atoms, has, rfl⟩

theorem product_eq_language {glob : String} {anchor : Anchor} {mode : Mode} {m : Matcher}
    (h : compile? glob anchor mode = some m) : product m.atoms = language mode glob.toList := by
  rw [product, language_of_mapM_atom? (compile?_eq_some_iff.mp h).2, language_eq_prod]

theorem foundFrom_nil_iff (as : List Atom) (cs : List Char) :
    foundFrom as (nowhere as) none cs = true ↔ Found .word (product as) cs := by
  have hbegun : Begun [] = ∅ := by
    apply Set.eq_empty_iff_forall_notMem.mpr
    intro m hm
    obtain ⟨hne, a, hsplit, -⟩ := hm
    exact hne (List.append_eq_nil_iff.mp hsplit.symm).2
  have htracks : Tracks (Begun []) 1 as (nowhere as) := by
    rw [hbegun]
    exact tracks_nowhere 1 as
  apply (foundFrom_iff htracks cs).trans
  constructor
  · rintro ⟨a, m, b, -, hplaced⟩
    exact ⟨a, m, b, hplaced.split, hplaced.taken, hplaced.starts, hplaced.ends⟩
  · rintro ⟨a, m, b, hsplit, htaken, hstarts, hends⟩
    exact ⟨a, m, b, Nat.zero_le _, hsplit, htaken, hstarts, hends⟩

/-- A glob has a matcher iff its classes are sound. -/
theorem isSome_compile?_iff (glob : String) (anchor : Anchor) (mode : Mode) :
    (compile? glob anchor mode).isSome = true ↔ Sound mode glob.toList := by
  rw [compile?, row?_expression, Option.isSome_map, isSome_mapM_atom?_iff, sound_iff]

/-- A matcher is found and accepts the text iff the text is not empty, the glob is sound, and a text of
its language lies where the anchor lets it lie. -/
theorem any_isMatch_iff_found (glob : String) (anchor : Anchor) (mode : Mode) (text : String) :
    (compile? glob anchor mode).any (·.isMatch text) = true ↔
      text ≠ "" ∧ Sound mode glob.toList ∧
        Found anchor (language mode glob.toList) text.toList := by
  rw [← isSome_compile?_iff glob anchor mode]
  cases hm : compile? glob anchor mode with
  | none => simp
  | some m =>
    rw [Option.any_some, Option.isSome_some, and_iff_right rfl, isMatch, Bool.and_eq_true,
      bne_iff_ne, ← product_eq_language hm, (compile?_eq_some_iff.mp hm).1]
    apply and_congr_right
    intro _
    cases anchor with
    | full => exact spans_iff m.atoms text.toList
    | word => exact foundFrom_nil_iff m.atoms text.toList

/-- A glob has a matcher iff its classes are sound, and the matcher accepts the texts, other than the
empty one, that hold a text of the language where the anchor lets it lie. -/
theorem isMatch_iff_found (glob : String) (anchor : Anchor) (mode : Mode) :
    ((compile? glob anchor mode).isSome = true ↔ Sound mode glob.toList) ∧
      ∀ m, compile? glob anchor mode = some m → ∀ value : String,
        m.isMatch value = true ↔
          value ≠ "" ∧ Found anchor (language mode glob.toList) value.toList := by
  refine ⟨isSome_compile?_iff glob anchor mode, fun m hm value => ?_⟩
  rw [isMatch, Bool.and_eq_true, bne_iff_ne, ← product_eq_language hm]
  apply and_congr_right
  intro _
  rw [(compile?_eq_some_iff.mp hm).1]
  cases anchor with
  | full => exact spans_iff m.atoms value.toList
  | word => exact foundFrom_nil_iff m.atoms value.toList

/-- The language of `[a-c]*` holds `Bee`, since the matcher accepts it. -/
theorem bee_found : Found .full (language .strict "[a-c]*".toList) "Bee".toList := by
  have hm : compile? "[a-c]*" .full .strict =
      some ⟨.full, [.set ⟨false, [⟨'a', 'c'⟩], []⟩, .run]⟩ := by
    decide +kernel
  exact (((isMatch_iff_found "[a-c]*" .full .strict).2 _ hm "Bee").mp (by decide +kernel)).2

end Matcher

/-! ## Deep classes -/

/-- **`peels n`** — the characters that take `b` away `n` times. -/
def peels : Nat → List Char
  | 0 => []
  | n + 1 => '-' :: '-' :: 'b' :: peels n

/-- **`peelingParts n`** — the parts of `peels n`. -/
def peelingParts : Nat → List Part
  | 0 => []
  | n + 1 => .minus :: .single 'b' :: peelingParts n

/-- The difference of `a--b--b…`. -/
def Difference.peeled : Nat → Difference
  | 0 => .list [⟨'a', 'a'⟩]
  | n + 1 => .minus (.peeled n) [⟨'b', 'b'⟩]

theorem peelingParts_append (n : Nat) :
    peelingParts n ++ [.minus, .single 'b'] = peelingParts (n + 1) := by
  induction n with
  | zero => rfl
  | succ n ih =>
    show Part.minus :: .single 'b' :: (peelingParts n ++ [.minus, .single 'b']) = _
    rw [ih]
    rfl

theorem eq_hyphen_of_peels {n : Nat} {d : Char} {ds : List Char} (h : peels n = '-' :: d :: ds) :
    d = '-' := by
  cases n with
  | zero => exact absurd h (by simp [peels])
  | succ n => exact (List.cons.inj (List.cons.inj h).2).1.symm

theorem bodyParts_peels (n : Nat) : BodyParts (peels n) (peelingParts n) := by
  induction n with
  | zero => exact .nil
  | succ n ih => exact .minus (.char (by decide) (fun d ds h => eq_hyphen_of_peels h) ih)

namespace Difference

theorem parts_peeled (n : Nat) : (peeled n).parts = .single 'a' :: peelingParts n := by
  induction n with
  | zero => rfl
  | succ n ih =>
    rw [← peelingParts_append, peeled, parts, ih]
    rfl

theorem height_peeled (n : Nat) : (peeled n).height = n := by
  induction n with
  | zero => rfl
  | succ n ih =>
    show 1 + max (peeled n).height 0 = n + 1
    rw [ih]
    omega

theorem ordered_peeled (n : Nat) : (peeled n).Ordered := by
  induction n with
  | zero =>
    intro r hr
    obtain rfl := List.mem_singleton.mp hr
    exact Char.le_refl _
  | succ n ih =>
    intro r hr
    rcases List.mem_append.mp hr with hr | hr
    · exact ih r hr
    · obtain rfl := List.mem_singleton.mp hr
      exact Char.le_refl _

end Difference

/-- The glob `[a--b--b…]`, where `b` is taken away `n` times. -/
def deepGlob (n : Nat) : List Char :=
  '[' :: ('a' :: peels n ++ [']'])

theorem body_peels (n : Nat) : Body ('a' :: peels n) (Difference.peeled n).parts := by
  rw [Difference.parts_peeled]
  refine .parts (by simp) (.char (by decide) (fun d ds h => eq_hyphen_of_peels h) ?_)
  exact bodyParts_peels n

theorem reads_deepGlob (n : Nat) : Reads (deepGlob n) [.oneOf false ('a' :: peels n)] := by
  have hclose : ∀ n, ']' ∉ peels n := by
    intro n
    induction n with
    | zero => exact List.not_mem_nil
    | succ n ih => simpa [peels] using ih
  exact .oneOf (.plain (List.cons_ne_nil _ _) (by simpa using hclose n) (by simp)) .nil

theorem not_sound_deepGlob {n : Nat} (hn : CharClass.nestingLimit < 2 + n) :
    ¬ Sound .strict (deepGlob n) := by
  intro h
  obtain ⟨-, hshallow⟩ := h rfl _ (reads_deepGlob n) _ List.mem_cons_self _ (body_peels n)
  rw [Difference.Shallow, Difference.height_peeled] at hshallow
  omega

/-- No range of the class is inverted, but it nests too deep for an expression, so that the glob has
no matcher. -/
theorem compile?_deepGlob_eq_none :
    Matcher.compile? (String.ofList (deepGlob 300)) .full .strict = none ∧
      ∀ is, Reads (deepGlob 300) is → ∀ negated body, .oneOf negated body ∈ is →
        ∀ e : Difference, Body body e.parts → e.Ordered := by
  constructor
  · rw [← Option.not_isSome_iff_eq_none, Matcher.isSome_compile?_iff, String.toList_ofList]
    exact not_sound_deepGlob (by decide)
  · intro is his negated body hmem e he
    rw [← reads_iff.mp his, reads_iff.mp (reads_deepGlob 300), List.mem_singleton] at hmem
    obtain ⟨-, rfl⟩ := Item.oneOf.inj hmem
    rw [Difference.unique he (body_peels 300)]
    exact Difference.ordered_peeled 300

end AlertRules.Glob
