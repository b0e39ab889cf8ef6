import AlertRules.Json.Printer
import AlertRules.Proofs.Json.Reread

/-!
# AlertRules.Proofs.Json.Scanning — the words of a value that was written

Writing a value and scanning the text gives the tokens of the value, in either layout
(`tokens?_render`): blanks are skipped, an escaped text is scanned as the text itself, and a word or a
numeral ends where the next token begins.
-/

namespace AlertRules.Json

/-! ## Tokens -/

/-- The numeral that the number is written as. -/
def Number.numeral (n : Number) : Numeral :=
  (Numeral.ofChars? n.text.toList).getD ⟨false, [], none, none⟩

mutual

/-- The tokens of a value. -/
def tokens : Json → List Token
  | .null => [.null]
  | .bool b => [.bool b]
  | .num n => [.number n.numeral]
  | .str s => [.text (some s)]
  | .arr [] => [.openList, .closeList]
  | .arr (j :: items) => .openList :: (j.tokens ++ itemTokens items)
  | .obj [] => [.openObject, .closeObject]
  | .obj ((key, j) :: members) =>
    .openObject :: .text (some key) :: .colon :: (j.tokens ++ memberTokens members)

/-- The tokens behind an item, up to the bracket. -/
def itemTokens : List Json → List Token
  | [] => [.closeList]
  | j :: items => .comma :: (j.tokens ++ itemTokens items)

/-- The tokens behind a member, up to the brace. -/
def memberTokens : List (String × Json) → List Token
  | [] => [.closeObject]
  | (key, j) :: members => .comma :: .text (some key) :: .colon :: (j.tokens ++ memberTokens members)

end

/-! ## The scanner on a text -/

/-- The tokens at the end of the text `cs`. -/
def Scanner.scan? (s : Scanner) (cs : List Char) : Option (List Token) :=
  (cs.foldlM Scanner.step? s).bind Scanner.finish?

namespace Scanner

theorem scan?_cons (s : Scanner) (c : Char) (cs : List Char) :
    s.scan? (c :: cs) = (s.step? c).bind fun s => s.scan? cs := by
  rw [scan?, List.foldlM_cons]
  cases s.step? c with
  | none => rfl
  | some s => rfl

/-- No word and no numeral goes on in `cs`. -/
def Closes (cs : List Char) : Prop :=
  ∀ c, cs.head? = some c → isWordChar c = false ∧ isNumeralChar c = false

/-- A word ends where the text goes on with something else. -/
theorem scan?_word {w : List Char} {t : Token} (hw : wordToken? w.reverse = some t)
    (ts : List Token) {cs : List Char} (hcs : Closes cs) :
    scan? ⟨ts, .word w⟩ cs = scan? ⟨t :: ts, .gap⟩ cs := by
  cases cs with
  | nil =>
    show (wordToken? w.reverse).map _ = _
    rw [hw]
    rfl
  | cons c cs =>
    have hstep : step? ⟨ts, .word w⟩ c = begin? (t :: ts) c := by
      unfold step?
      dsimp only
      rw [if_neg (by rw [(hcs c rfl).1]; simp), hw]
      rfl
    rw [scan?_cons, scan?_cons, hstep]
    rfl

/-- A numeral ends where the text goes on with something else. -/
theorem scan?_numeral {w : List Char} {n : Numeral} (hw : Numeral.ofChars? w.reverse = some n)
    (ts : List Token) {cs : List Char} (hcs : Closes cs) :
    scan? ⟨ts, .numeral w⟩ cs = scan? ⟨.number n :: ts, .gap⟩ cs := by
  cases cs with
  | nil =>
    show (Numeral.ofChars? w.reverse).map _ = _
    rw [hw]
    rfl
  | cons c cs =>
    have hstep : step? ⟨ts, .numeral w⟩ c = begin? (.number n :: ts) c := by
      unfold step?
      dsimp only
      rw [if_neg (by rw [(hcs c rfl).2]; simp), hw]
      rfl
    rw [scan?_cons, scan?_cons, hstep]
    rfl

theorem scan?_numeral_append {ds : List Char} (hds : Numeral.NumeralChars ds) (ts : List Token)
    (w cs : List Char) :
    scan? ⟨ts, .numeral w⟩ (ds ++ cs) = scan? ⟨ts, .numeral (ds.reverse ++ w)⟩ cs := by
  induction ds generalizing w with
  | nil => rfl
  | cons d ds ih =>
    obtain ⟨hd, hds⟩ := List.forall_mem_cons.mp hds
    have hstep : step? ⟨ts, .numeral w⟩ d = some ⟨ts, .numeral (d :: w)⟩ := by
      unfold step?
      dsimp only
      rw [if_pos hd]
    rw [List.cons_append, scan?_cons, hstep, Option.bind_some, ih hds, List.reverse_cons,
      List.append_assoc, List.singleton_append]

/-- What spells a numeral is scanned as the numeral. -/
theorem scan?_number {ds : List Char} {n : Numeral} (hds : Numeral.ofChars? ds = some n)
    (ts : List Token) {cs : List Char} (hcs : Closes cs) :
    scan? ⟨ts, .gap⟩ (ds ++ cs) = scan? ⟨.number n :: ts, .gap⟩ cs := by
  obtain ⟨d, rest, rfl, hd⟩ := Numeral.head_of_ofChars? hds
  have hrest := (List.forall_mem_cons.mp (Numeral.numeralChars_of_ofChars? hds)).2
  have hnotBlank : isBlank d = false := by
    rcases hd with rfl | hd
    · decide
    · have hrange := Char.isDigit_iff_toNat.mp hd
      simp only [isBlank, Bool.or_eq_false_iff, beq_eq_false_iff_ne]
      refine ⟨⟨⟨?_, ?_⟩, ?_⟩, ?_⟩ <;> rintro rfl <;> exact absurd hrange (by decide)
  have hnotQuote : (d == '"') = false := by
    rw [beq_eq_false_iff_ne]
    rintro rfl
    exact absurd hd (by decide)
  have hstart : (d == '-' || d.isDigit) = true := by
    rcases hd with rfl | hd
    · rfl
    · rw [hd, Bool.or_true]
  have hstep : step? ⟨ts, .gap⟩ d = some ⟨ts, .numeral [d]⟩ := by
    show begin? ts d = _
    unfold begin?
    rw [if_neg (by rw [hnotBlank]; simp), if_neg (by rw [hnotQuote]; simp), if_pos hstart]
  rw [List.cons_append, scan?_cons, hstep, Option.bind_some, scan?_numeral_append hrest]
  exact scan?_numeral (by rw [List.reverse_append, List.reverse_reverse]; exact hds) ts hcs

/-! ### Quoted texts -/

/-- Inside a quoted text of which the characters `r` have been read, last first. -/
def openQuote (r : List Char) : Scanning :=
  .quoted ⟨r, true, none⟩

theorem hexValue?_hexDigit : ∀ n < 16, hexValue? (hexDigit n) = some n := by
  decide

theorem pushUnit_control (r : List Char) {u : Nat} (hu : u < 32) :
    Quoted.pushUnit ⟨r, true, none⟩ u = ⟨Char.ofNat u :: r, true, none⟩ := by
  rw [Quoted.pushUnit, if_neg (by omega), if_neg (by omega)]
  rfl

/-- A control character is scanned as the character that its code point names. -/
theorem scan?_unicodeEscape (ts : List Token) (r cs : List Char) {c : Char} (hc : c.toNat < 32) :
    scan? ⟨ts, openQuote r⟩
        ('\\' :: 'u' :: '0' :: '0' :: hexDigit (c.toNat / 16) :: hexDigit (c.toNat % 16) :: cs) =
      scan? ⟨ts, openQuote (c :: r)⟩ cs := by
  have hhigh : step? ⟨ts, .digits ⟨r, true, none⟩ 2 0⟩ (hexDigit (c.toNat / 16)) =
      some ⟨ts, .digits ⟨r, true, none⟩ 1 (c.toNat / 16)⟩ := by
    unfold step?
    dsimp only
    rw [hexValue?_hexDigit _ (by omega), Option.map_some, if_neg (by decide), Nat.mul_zero,
      Nat.zero_add]
  have hlow : step? ⟨ts, .digits ⟨r, true, none⟩ 1 (c.toNat / 16)⟩ (hexDigit (c.toNat % 16)) =
      some ⟨ts, openQuote (c :: r)⟩ := by
    unfold step?
    dsimp only
    have hsum : 16 * (c.toNat / 16) + c.toNat % 16 = c.toNat := by omega
    rw [hexValue?_hexDigit _ (by omega), Option.map_some, if_pos (by decide), hsum,
      pushUnit_control r hc, Char.ofNat_toNat]
    rfl
  calc scan? ⟨ts, openQuote r⟩ _
      = scan? ⟨ts, .digits ⟨r, true, none⟩ 2 0⟩
          (hexDigit (c.toNat / 16) :: hexDigit (c.toNat % 16) :: cs) := rfl
    _ = scan? ⟨ts, openQuote (c :: r)⟩ cs := by
        rw [scan?_cons, hhigh, Option.bind_some, scan?_cons, hlow, Option.bind_some]

theorem eq_ofNat {c : Char} {n : Nat} (h : c.toNat = n) : c = Char.ofNat n := by
  rw [← h, Char.ofNat_toNat]

/-- An escaped character is scanned as the character. -/
theorem scan?_escaped (ts : List Token) (r cs : List Char) (c : Char) :
    scan? ⟨ts, openQuote r⟩ (escaped c ++ cs) = scan? ⟨ts, openQuote (c :: r)⟩ cs := by
  unfold escaped
  split
  · subst c; rfl
  split
  · subst c; rfl
  split
  · rename_i h; rw [eq_ofNat h]; rfl
  split
  · rename_i h; rw [eq_ofNat h]; rfl
  split
  · rename_i h; rw [eq_ofNat h]; rfl
  split
  · rename_i h; rw [eq_ofNat h]; rfl
  split
  · rename_i h; rw [eq_ofNat h]; rfl
  split
  · rename_i hc
    exact scan?_unicodeEscape ts r cs hc
  · rename_i hquote hslash _ _ _ _ _ hc
    have hstep : step? ⟨ts, openQuote r⟩ c = some ⟨ts, openQuote (c :: r)⟩ := by
      unfold step? openQuote
      dsimp only
      rw [if_neg (by simpa using hquote), if_neg (by simpa using hslash), if_neg hc]
      rfl
    rw [List.singleton_append, scan?_cons, hstep, Option.bind_some]

theorem scan?_closeQuote (ts : List Token) (r cs : List Char) :
    scan? ⟨ts, openQuote r⟩ ('"' :: cs) =
      scan? ⟨.text (some (String.ofList r.reverse)) :: ts, .gap⟩ cs :=
  rfl

theorem scan?_escapedChars (ts : List Token) (r cs tail : List Char) :
    scan? ⟨ts, openQuote r⟩ (cs.foldr (fun c cs => escaped c ++ cs) ('"' :: tail)) =
      scan? ⟨.text (some (String.ofList (r.reverse ++ cs))) :: ts, .gap⟩ tail := by
  induction cs generalizing r with
  | nil => rw [List.foldr_nil, scan?_closeQuote, List.append_nil]
  | cons c cs ih =>
    rw [List.foldr_cons, scan?_escaped, ih, List.reverse_cons, List.append_assoc,
      List.singleton_append]

/-- A quoted text is scanned as the text. -/
theorem scan?_quotedChars (ts : List Token) (s : String) (tail : List Char) :
    scan? ⟨ts, .gap⟩ (quotedChars s tail) = scan? ⟨.text (some s) :: ts, .gap⟩ tail := by
  calc scan? ⟨ts, .gap⟩ (quotedChars s tail)
      = scan? ⟨ts, openQuote []⟩
          (s.toList.foldr (fun c cs => escaped c ++ cs) ('"' :: tail)) := rfl
    _ = scan? ⟨.text (some s) :: ts, .gap⟩ tail := by
        rw [scan?_escapedChars, List.reverse_nil, List.nil_append, String.ofList_toList]

/-! ### Blanks -/

theorem scan?_blanks (ts : List Token) (n : Nat) (cs : List Char) :
    scan? ⟨ts, .gap⟩ (List.replicate n ' ' ++ cs) = scan? ⟨ts, .gap⟩ cs := by
  induction n with
  | zero => rfl
  | succ n ih =>
    rw [← ih]
    rfl

theorem scan?_newline (ts : List Token) (l : Layout) (cs : List Char) :
    scan? ⟨ts, .gap⟩ (l.newline cs) = scan? ⟨ts, .gap⟩ cs := by
  cases l with
  | compact => rfl
  | pretty level => exact scan?_blanks ts (2 * level) cs

theorem scan?_colon (ts : List Token) (l : Layout) (cs : List Char) :
    scan? ⟨ts, .gap⟩ (l.colon cs) = scan? ⟨.colon :: ts, .gap⟩ cs := by
  cases l <;> rfl

theorem closes_cons {c : Char} (hword : isWordChar c = false) (hnumeral : isNumeralChar c = false)
    (cs : List Char) : Closes (c :: cs) := by
  intro d hd
  cases hd
  exact ⟨hword, hnumeral⟩

theorem closes_newline (l : Layout) {cs : List Char} (hcs : Closes cs) : Closes (l.newline cs) := by
  cases l with
  | compact => exact hcs
  | pretty level => exact closes_cons (by decide) (by decide) _

theorem closes_renderItems (l : Layout) (items : List Json) (tail : List Char) :
    Closes (renderItems l items (']' :: tail)) := by
  cases items with
  | nil => exact closes_newline l (closes_cons (by decide) (by decide) _)
  | cons j items => exact closes_cons (by decide) (by decide) _

theorem closes_renderMembers (l : Layout) (members : List (String × Json)) (tail : List Char) :
    Closes (renderMembers l members ('\x7d' :: tail)) := by
  cases members with
  | nil => exact closes_newline l (closes_cons (by decide) (by decide) _)
  | cons m members => exact closes_cons (by decide) (by decide) _

/-! ### Values -/

theorem ofChars?_text (n : Number) : Numeral.ofChars? n.text.toList = some n.numeral := by
  have hread := n.value?_text
  unfold Number.numeral
  cases hn : Numeral.ofChars? n.text.toList with
  | none =>
    rw [hn] at hread
    exact absurd hread (by simp)
  | some m => rfl

theorem value?_numeral (n : Number) : n.numeral.value? = some n.reread := by
  rw [← n.value?_text, ofChars?_text, Option.bind_some]

theorem scan?_null (ts : List Token) {cs : List Char} (hcs : Closes cs) :
    scan? ⟨ts, .gap⟩ ("null".toList ++ cs) = scan? ⟨.null :: ts, .gap⟩ cs := by
  calc scan? ⟨ts, .gap⟩ ("null".toList ++ cs)
      = scan? ⟨ts, .word ['l', 'l', 'u', 'n']⟩ cs := rfl
    _ = scan? ⟨.null :: ts, .gap⟩ cs := scan?_word rfl ts hcs

theorem scan?_bool (ts : List Token) (b : Bool) {cs : List Char} (hcs : Closes cs) :
    scan? ⟨ts, .gap⟩ ((if b then "true" else "false").toList ++ cs) =
      scan? ⟨.bool b :: ts, .gap⟩ cs := by
  cases b with
  | false =>
    calc scan? ⟨ts, .gap⟩ ("false".toList ++ cs)
        = scan? ⟨ts, .word ['e', 's', 'l', 'a', 'f']⟩ cs := rfl
      _ = scan? ⟨.bool false :: ts, .gap⟩ cs := scan?_word rfl ts hcs
  | true =>
    calc scan? ⟨ts, .gap⟩ ("true".toList ++ cs)
        = scan? ⟨ts, .word ['e', 'u', 'r', 't']⟩ cs := rfl
      _ = scan? ⟨.bool true :: ts, .gap⟩ cs := scan?_word rfl ts hcs

mutual

/-- A value that was written is scanned as its tokens. -/
theorem scan?_render (l : Layout) (ts : List Token) {cs : List Char} (hcs : Closes cs) :
    ∀ j : Json, scan? ⟨ts, .gap⟩ (j.render l cs) = scan? ⟨j.tokens.reverse ++ ts, .gap⟩ cs
  | .null => by
    rw [render, scan?_null ts hcs]
    rfl
  | .bool b => by
    rw [render, scan?_bool ts b hcs]
    rfl
  | .num n => by
    rw [render, scan?_number (ofChars?_text n) ts hcs]
    rfl
  | .str s => by
    rw [render, scan?_quotedChars]
    rfl
  | .arr [] => by
    rw [render]
    rfl
  | .arr (j :: items) => by
    rw [render]
    show scan? ⟨.openList :: ts, .gap⟩ _ = _
    rw [scan?_newline, scan?_render l.deeper _ (closes_renderItems l items cs) j,
      scan?_renderItems l _ items, Json.tokens]
    simp only [List.reverse_cons, List.reverse_append, List.append_assoc, List.cons_append,
      List.nil_append]
  | .obj [] => by
    rw [render]
    rfl
  | .obj ((key, j) :: members) => by
    rw [render]
    show scan? ⟨.openObject :: ts, .gap⟩ _ = _
    rw [scan?_newline, scan?_quotedChars, scan?_colon,
      scan?_render l.deeper _ (closes_renderMembers l members cs) j,
      scan?_renderMembers l _ members, Json.tokens]
    simp only [List.reverse_cons, List.reverse_append, List.append_assoc, List.cons_append,
      List.nil_append]

/-- The rest of a list is scanned as its tokens. -/
theorem scan?_renderItems (l : Layout) (ts : List Token) {cs : List Char} :
    ∀ items : List Json,
      scan? ⟨ts, .gap⟩ (renderItems l items (']' :: cs)) =
        scan? ⟨(itemTokens items).reverse ++ ts, .gap⟩ cs
  | [] => by
    rw [renderItems, scan?_newline]
    rfl
  | j :: items => by
    rw [renderItems]
    show scan? ⟨.comma :: ts, .gap⟩ _ = _
    rw [scan?_newline, scan?_render l.deeper _ (closes_renderItems l items cs) j,
      scan?_renderItems l _ items, itemTokens]
    simp only [List.reverse_cons, List.reverse_append, List.append_assoc, List.cons_append,
      List.nil_append]

/-- The rest of an object is scanned as its tokens. -/
theorem scan?_renderMembers (l : Layout) (ts : List Token) {cs : List Char} :
    ∀ members : List (String × Json),
      scan? ⟨ts, .gap⟩ (renderMembers l members ('\x7d' :: cs)) =
        scan? ⟨(memberTokens members).reverse ++ ts, .gap⟩ cs
  | [] => by
    rw [renderMembers, scan?_newline]
    rfl
  | (key, j) :: members => by
    rw [renderMembers]
    show scan? ⟨.comma :: ts, .gap⟩ _ = _
    rw [scan?_newline, scan?_quotedChars, scan?_colon,
      scan?_render l.deeper _ (closes_renderMembers l members cs) j,
      scan?_renderMembers l _ members, memberTokens]
    simp only [List.reverse_cons, List.reverse_append, List.append_assoc, List.cons_append,
      List.nil_append]

end

end Scanner

/-- The text of a value has the tokens of the value, in either layout. -/
theorem tokens?_render (l : Layout) (j : Json) :
    tokens? (String.ofList (j.render l [])) = some j.tokens := by
  have hnil : Scanner.Closes [] := fun c hc => absurd hc (by simp)
  calc tokens? (String.ofList (j.render l []))
      = Scanner.scan? ⟨[], .gap⟩ (j.render l []) := by
        rw [tokens?, String.toList_ofList, Scanner.scan?, Scanner.start]
    _ = Scanner.scan? ⟨j.tokens.reverse ++ [], .gap⟩ [] := Scanner.scan?_render l [] hnil j
    _ = some j.tokens := by
        rw [List.append_nil]
        show some j.tokens.reverse.reverse = _
        rw [List.reverse_reverse]

end AlertRules.Json
