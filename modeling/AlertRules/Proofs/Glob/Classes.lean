import AlertRules.Proofs.CodePoint.CaseFold
import AlertRules.Proofs.Glob.Language

/-!
# AlertRules.Proofs.Glob.Classes — a class holds what its body means

Every class body is made up of parts in some way (`exists_body`), and spells some difference
(`exists_parts_eq`).  Reading the body gives the lists of that difference unless one of its ranges is
inverted or it nests too deep (`ofBody?_eq_some_iff`), and the class that is read holds the members
of the difference (`contains_iff`).
-/

namespace AlertRules.Glob

open CharClass

/-! ## The lists of a difference -/

namespace Difference

/-- The lists of the difference, from left to right. -/
def operands : Difference → Operands
  | .list rs => (rs, [])
  | .minus e rs => (e.operands.1, e.operands.2 ++ [rs])

/-- The difference with these lists. -/
def ofOperands (o : Operands) : Difference :=
  o.2.foldl .minus (.list o.1)

theorem ofOperands_operands (e : Difference) : ofOperands e.operands = e := by
  induction e with
  | list rs => rfl
  | minus e rs ih =>
    rw [operands, ofOperands, List.foldl_append]
    show Difference.minus (ofOperands e.operands) rs = _
    rw [ih]

theorem operands_foldl (e : Difference) (rss : List (List Range)) :
    (rss.foldl Difference.minus e).operands = (e.operands.1, e.operands.2 ++ rss) := by
  induction rss generalizing e with
  | nil => rw [List.foldl_nil, List.append_nil]
  | cons rs rss ih =>
    rw [List.foldl_cons, ih, operands, List.append_assoc, List.singleton_append]

theorem operands_ofOperands (o : Operands) : (ofOperands o).operands = o := by
  rw [ofOperands, operands_foldl]
  rfl

end Difference

namespace CharClass.Operands

/-- How the lists are spelled in a class body. -/
def parts (o : Operands) : List Part :=
  o.1.map .member ++ o.2.flatMap fun rs => .minus :: rs.map .member

/-- The lists that a row of parts spells. -/
def ofParts : List Part → Operands
  | [] => ([], [])
  | .member r :: ps => (ofParts ps).push r
  | .minus :: ps => ([], (ofParts ps).1 :: (ofParts ps).2)

theorem parts_ofParts (ps : List Part) : (ofParts ps).parts = ps := by
  induction ps with
  | nil => rfl
  | cons p ps ih =>
    cases p with
    | member r =>
      show Part.member r :: (ofParts ps).parts = _
      rw [ih]
    | minus =>
      have hsplit : (ofParts (.minus :: ps)).parts = .minus :: (ofParts ps).parts := by
        simp [ofParts, parts]
      rw [hsplit, ih]

theorem ofParts_map_append (rs : List Range) (ps : List Part) :
    ofParts (rs.map .member ++ ps) = (rs ++ (ofParts ps).1, (ofParts ps).2) := by
  induction rs with
  | nil => rfl
  | cons r rs ih =>
    show (ofParts (rs.map .member ++ ps)).push r = _
    rw [ih]
    rfl

theorem ofParts_parts (o : Operands) : ofParts o.parts = o := by
  obtain ⟨base, removed⟩ := o
  have hremoved : ofParts (removed.flatMap fun rs => .minus :: rs.map .member) = ([], removed) := by
    induction removed with
    | nil => rfl
    | cons rs rss ih =>
      rw [List.flatMap_cons, List.cons_append, ofParts, ofParts_map_append, ih]
      simp
  rw [parts, ofParts_map_append, hremoved]
  simp

end CharClass.Operands

namespace Difference

theorem parts_operands (e : Difference) : e.operands.parts = e.parts := by
  induction e with
  | list rs => simp [operands, Operands.parts, parts]
  | minus e rs ih =>
    rw [parts, ← ih]
    simp [operands, Operands.parts, List.append_assoc]

/-- Every row of parts spells a difference. -/
theorem exists_parts_eq (ps : List Part) : ∃ e : Difference, e.parts = ps := by
  refine ⟨ofOperands (.ofParts ps), ?_⟩
  rw [← parts_operands, operands_ofOperands, Operands.parts_ofParts]

theorem ofParts_parts (e : Difference) : Operands.ofParts e.parts = e.operands := by
  rw [← parts_operands, Operands.ofParts_parts]

end Difference

/-! ## The parts of a body -/

/-- Whatever stands behind the leading hyphens of a body is made up of parts. -/
theorem exists_bodyParts : ∀ cs : List Char, ∃ ps, BodyParts cs ps
  | [] => ⟨_, .nil⟩
  | c :: cs => by
    obtain ⟨ps, hps⟩ := exists_bodyParts cs
    by_cases hc : c = '-'
    · subst hc
      by_cases hcs : cs.head? = some '-'
      · obtain ⟨ds, rfl⟩ := List.head?_eq_some_iff.mp hcs
        obtain ⟨qs, hqs⟩ := exists_bodyParts ds
        exact ⟨_, .minus hqs⟩
      · exact ⟨_, .hyphen hcs hps⟩
    · by_cases hrange : ∃ d ds, cs = '-' :: d :: ds ∧ d ≠ '-'
      · obtain ⟨d, ds, rfl, hd⟩ := hrange
        obtain ⟨qs, hqs⟩ := exists_bodyParts ds
        exact ⟨_, .range hc hd hqs⟩
      · refine ⟨_, .char hc (fun d ds hcs => ?_) hps⟩
        exact Decidable.byContradiction fun hd => hrange ⟨d, ds, hcs, hd⟩
termination_by cs => cs.length
decreasing_by all_goals subst_vars; simp only [List.length_cons]; omega

/-- No range among the parts is inverted. -/
def OrderedParts (ps : List Part) : Prop :=
  ∀ r, .member r ∈ ps → r.first ≤ r.last

theorem orderedParts_member {r : Range} {ps : List Part} :
    OrderedParts (.member r :: ps) ↔ r.first ≤ r.last ∧ OrderedParts ps := by
  simp [OrderedParts]

theorem orderedParts_single {c : Char} {ps : List Part} :
    OrderedParts (.single c :: ps) ↔ OrderedParts ps := by
  rw [Part.single, orderedParts_member]
  exact and_iff_right (Char.le_refl c)

theorem orderedParts_minus {ps : List Part} : OrderedParts (.minus :: ps) ↔ OrderedParts ps := by
  simp [OrderedParts]

theorem map_eq_some_iff {read : Option Operands} {P : Prop} {o' : Operands}
    (h : ∀ o, read = some o ↔ P ∧ o = o') (f : Operands → Operands) {o : Operands} :
    read.map f = some o ↔ P ∧ o = f o' := by
  rw [Option.map_eq_some_iff]
  constructor
  · rintro ⟨a, ha, rfl⟩
    obtain ⟨hP, rfl⟩ := (h a).mp ha
    exact ⟨hP, rfl⟩
  · rintro ⟨hP, rfl⟩
    exact ⟨o', (h o').mpr ⟨hP, rfl⟩, rfl⟩

theorem operands?_range {c d : Char} (hc : c ≠ '-') (hd : d ≠ '-') (cs : List Char) :
    operands? (c :: '-' :: d :: cs) =
      if c ≤ d then (operands? cs).map (Operands.push · ⟨c, d⟩) else none := by
  rw [operands?]
  · simp [hc]
  · simp [hd]

theorem operands?_hyphen {cs : List Char} (alone : cs.head? ≠ some '-') :
    operands? ('-' :: cs) = (operands? cs).map (Operands.push · ⟨'-', '-'⟩) := by
  have hne : ∀ ds, cs ≠ '-' :: ds := fun ds hcs => alone (hcs ▸ rfl)
  rw [operands?]
  · exact fun ds _ hcs => hne ds hcs
  · exact fun ds hcs => hne _ hcs
  · exact fun d ds hcs => absurd hcs (hne _)

theorem operands?_char {c : Char} {cs : List Char} (hc : c ≠ '-')
    (alone : ∀ d ds, cs = '-' :: d :: ds → d = '-') :
    operands? (c :: cs) = (operands? cs).map (Operands.push · ⟨c, c⟩) := by
  -- `c--` does not open a range: the hyphens are read as a difference behind `c`
  by_cases hminus : ∃ ds, cs = '-' :: '-' :: ds
  · obtain ⟨ds, rfl⟩ := hminus
    rw [operands?.eq_2 _ _ (fun h => absurd h hc)]
  · rw [operands?]
    · exact fun ds h => absurd h hc
    · exact fun ds hcs => hminus ⟨ds, hcs⟩
    · exact fun d ds hcs => hminus ⟨ds, alone d ds hcs ▸ hcs⟩

/-- Reading the lists of a body gives those that its parts spell, if no range is inverted. -/
theorem operands?_eq_some_iff {cs : List Char} {ps : List Part} (h : BodyParts cs ps)
    (o : Operands) : operands? cs = some o ↔ OrderedParts ps ∧ o = .ofParts ps := by
  induction h generalizing o with
  | nil =>
    rw [operands?, Option.some.injEq, eq_comm]
    exact (and_iff_right fun r hr => absurd hr List.not_mem_nil).symm
  | minus rest ih =>
    rw [operands?, orderedParts_minus]
    exact map_eq_some_iff ih _
  | range first last rest ih =>
    rw [operands?_range first last, Option.ite_none_right_eq_some, map_eq_some_iff ih,
      orderedParts_member, and_assoc]
    rfl
  | hyphen alone rest ih =>
    rw [operands?_hyphen alone, orderedParts_single]
    exact map_eq_some_iff ih _
  | char plain alone rest ih =>
    rw [operands?_char plain alone, orderedParts_single]
    exact map_eq_some_iff ih _

/-! ## The depth -/

theorem operandDepth_eq (above : Nat) (rs : List Range) :
    operandDepth above rs = 2 + above + Difference.listHeight rs := rfl

/-- Taking away one more list puts the others one level deeper. -/
theorem max_removedDepth_append (rs : List Range) (rss : List (List Range)) (above : Nat) :
    max (above + 1) (removedDepth (rss ++ [rs])) =
      max (max above (removedDepth rss) + 1) (operandDepth 1 rs) := by
  -- `above` is the deepest level so far, which each list in front may push down
  induction rss generalizing above with
  | nil =>
    simp only [List.nil_append, removedDepth, List.length_nil, Nat.zero_add]
    omega
  | cons r rss ih =>
    have hih := ih (max above (operandDepth (rss.length + 1) r))
    simp only [List.cons_append, removedDepth, List.length_append, List.length_singleton,
      operandDepth_eq] at hih ⊢
    omega

/-- The depth of a class is that of the difference, below the class and the pattern. -/
theorem depth_operands (negated : Bool) (e : Difference) :
    (CharClass.mk negated e.operands.1 e.operands.2).depth = 2 + e.height := by
  induction e with
  | list rs =>
    simp only [depth, Difference.operands, removedDepth, operandDepth_eq, Difference.height,
      List.length_nil]
    omega
  | minus e rs ih =>
    simp only [depth, Difference.operands, Difference.height, List.length_append,
      List.length_singleton, operandDepth_eq] at ih ⊢
    have happ := max_removedDepth_append rs e.operands.2
      (2 + e.operands.2.length + Difference.listHeight e.operands.1)
    rw [operandDepth_eq] at happ
    omega

/-! ## Bodies -/

theorem Body.exists_bodyParts {cs : List Char} {ps : List Part} (h : Body cs ps) :
    ∃ qs, BodyParts (cs.dropWhile (· == '-')) qs ∧
      ps = (cs.takeWhile (· == '-')).map Part.single ++ qs := by
  induction h with
  | hyphen rest ih =>
    obtain ⟨qs, hqs, rfl⟩ := ih
    exact ⟨qs, hqs, rfl⟩
  | @parts cs ps head parts =>
    cases cs with
    | nil => exact ⟨ps, parts, rfl⟩
    | cons c cs =>
      have hc : (c == '-') = false := by simpa using head
      refine ⟨ps, ?_, ?_⟩
      · rw [List.dropWhile_cons, hc]
        exact parts
      · rw [List.takeWhile_cons, hc]
        rfl

/-- Every class body is made up of parts. -/
theorem exists_body (cs : List Char) : ∃ ps, Body cs ps := by
  induction cs with
  | nil => exact ⟨_, .parts (by simp) .nil⟩
  | cons c cs ih =>
    by_cases hc : c = '-'
    · obtain ⟨ps, hps⟩ := ih
      exact hc ▸ ⟨_, .hyphen hps⟩
    · obtain ⟨ps, hps⟩ := exists_bodyParts (c :: cs)
      exact ⟨ps, .parts (by simpa using hc) hps⟩

/-- A body is made up of parts in one way only. -/
theorem BodyParts.unique {cs : List Char} {ps qs : List Part} (h : BodyParts cs ps)
    (h' : BodyParts cs qs) : ps = qs := by
  induction h generalizing qs with
  | nil =>
    cases h'
    rfl
  | minus rest ih =>
    cases h' with
    | minus rest' => rw [ih rest']
    | range first => exact absurd rfl first
    | hyphen alone => exact absurd rfl alone
    | char plain => exact absurd rfl plain
  | range first last rest ih =>
    cases h' with
    | minus => exact absurd rfl first
    | range _ _ rest' => rw [ih rest']
    | hyphen => exact absurd rfl first
    | char _ alone => exact absurd (alone _ _ rfl) last
  | hyphen alone rest ih =>
    cases h' with
    | minus => exact absurd rfl alone
    | range first => exact absurd rfl first
    | hyphen _ rest' => rw [ih rest']
    | char plain => exact absurd rfl plain
  | char plain alone rest ih =>
    cases h' with
    | minus => exact absurd rfl plain
    | range _ last => exact absurd (alone _ _ rfl) last
    | hyphen => exact absurd rfl plain
    | char _ _ rest' => rw [ih rest']

theorem Body.unique {cs : List Char} {ps qs : List Part} (h : Body cs ps) (h' : Body cs qs) :
    ps = qs := by
  induction h generalizing qs with
  | hyphen rest ih =>
    cases h' with
    | hyphen rest' => rw [ih rest']
    | parts head => exact absurd rfl head
  | parts head parts =>
    cases h' with
    | hyphen => exact absurd rfl head
    | parts _ parts' => exact parts.unique parts'

/-- A class body spells one difference only. -/
theorem Difference.unique {body : List Char} {e e' : Difference} (h : Body body e.parts)
    (h' : Body body e'.parts) : e = e' := by
  rw [← e.ofOperands_operands, ← e'.ofOperands_operands, ← e.ofParts_parts, ← e'.ofParts_parts,
    h.unique h']

theorem orderedParts_map_single (hs : List Char) (ps : List Part) :
    OrderedParts (hs.map Part.single ++ ps) ↔ OrderedParts ps := by
  induction hs with
  | nil => rfl
  | cons c hs ih => rw [List.map_cons, List.cons_append, orderedParts_single, ih]

theorem Difference.orderedParts_parts (e : Difference) : OrderedParts e.parts ↔ e.Ordered := by
  have hmem : ∀ r, .member r ∈ e.parts ↔ r ∈ e.ranges := by
    intro r
    induction e with
    | list rs => simp [parts, ranges]
    | minus e rs ih => simp [parts, ranges, ih]
  simp only [OrderedParts, Ordered, hmem]

/-- A class body is read iff no range of its difference is inverted and it does not nest too deep;
what is read are the lists of the difference. -/
theorem ofBody?_eq_some_iff {body : List Char} {e : Difference} (h : Body body e.parts)
    (negated : Bool) (k : CharClass) :
    ofBody? negated body = some k ↔
      e.Ordered ∧ e.Shallow ∧ k = ⟨negated, e.operands.1, e.operands.2⟩ := by
  obtain ⟨qs, hqs, hparts⟩ := h.exists_bodyParts
  have hops : e.operands = ((body.takeWhile (· == '-')).map (fun c => ⟨c, c⟩) ++
      (Operands.ofParts qs).1, (Operands.ofParts qs).2) := by
    rw [← e.ofParts_parts, hparts, ← Operands.ofParts_map_append, List.map_map]
    rfl
  have hord : e.Ordered ↔ OrderedParts qs := by
    rw [← e.orderedParts_parts, hparts, orderedParts_map_single]
  rw [ofBody?, Option.bind_eq_some_iff, hord, Difference.Shallow, ← depth_operands negated e, hops]
  constructor
  · rintro ⟨o, ho, hk⟩
    obtain ⟨hsorted, rfl⟩ := (operands?_eq_some_iff hqs o).mp ho
    obtain ⟨hdepth, hk⟩ := Option.ite_none_right_eq_some.mp hk
    exact ⟨hsorted, hdepth, (Option.some.inj hk).symm⟩
  · rintro ⟨hsorted, hdepth, rfl⟩
    refine ⟨.ofParts qs, (operands?_eq_some_iff hqs _).mpr ⟨hsorted, rfl⟩, ?_⟩
    exact if_pos hdepth

/-! ## Members -/

theorem exists_toNat_eq {n : Nat} (h : n.isValidChar) : ∃ d : Char, d.toNat = n :=
  ⟨Char.ofNatAux n h, rfl⟩

/-- A list covers a character iff it holds a case variant. -/
theorem covers_iff (rs : List Range) (c : Char) :
    covers rs c = true ↔ c ∈ Difference.closure rs := by
  simp only [covers, List.any_eq_true, Bool.and_eq_true, decide_eq_true_eq]
  constructor
  · rintro ⟨n, hn, r, hr, hfirst, hlast⟩
    obtain ⟨d, rfl⟩ := exists_toNat_eq (CodePoint.isValidChar_of_mem_variants c.valid hn)
    exact ⟨r, hr, d, CodePoint.mem_variants_iff.mp hn, hfirst, hlast⟩
  · rintro ⟨r, hr, d, hfold, hfirst, hlast⟩
    exact ⟨d.toNat, CodePoint.mem_variants_iff.mpr hfold, r, hr, hfirst, hlast⟩

theorem Difference.mem_members_iff (e : Difference) (c : Char) :
    c ∈ e.members ↔ covers e.operands.1 c = true ∧ e.operands.2.any (covers · c) = false := by
  induction e with
  | list rs =>
    rw [members, ← covers_iff]
    exact (and_iff_left rfl).symm
  | minus e rs ih =>
    show c ∈ e.members ∧ c ∉ closure rs ↔ _
    rw [ih, ← covers_iff]
    simp [operands, and_assoc]

/-- A class holds the members of its difference, or the others if it is negated. -/
theorem contains_iff {body : List Char} {e : Difference} (h : Body body e.parts) {negated : Bool}
    {k : CharClass} (hk : ofBody? negated body = some k) (c : Char) :
    k.contains c = true ↔ (c ∈ e.members ↔ negated = false) := by
  obtain ⟨-, -, rfl⟩ := (ofBody?_eq_some_iff h negated k).mp hk
  rw [e.mem_members_iff, contains]
  cases covers e.operands.1 c <;> cases e.operands.2.any (covers · c) <;> cases negated <;> simp

end AlertRules.Glob
