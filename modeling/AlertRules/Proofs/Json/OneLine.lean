import AlertRules.Proofs.Json.Scanning

/-!
# AlertRules.Proofs.Json.OneLine — compact text is one line

In the compact layout no line feed stands between the parts of a value, and inside a text it is
escaped, so that the text of a value is a line without its end (`lineFeed_notMem_compact`).
-/

namespace AlertRules.Json

theorem ne_lineFeed_hexDigit : ∀ n < 16, hexDigit n ≠ '\n' := by
  decide

theorem lineFeed_notMem_escaped (c : Char) : '\n' ∉ escaped c := by
  unfold escaped
  split
  · decide
  split
  · decide
  split
  · decide
  split
  · decide
  split
  · decide
  split
  · decide
  split
  · decide
  split
  · rename_i hc
    have hhigh := ne_lineFeed_hexDigit (c.toNat / 16) (by omega)
    have hlow := ne_lineFeed_hexDigit (c.toNat % 16) (by omega)
    simp [hhigh.symm, hlow.symm]
  · rename_i hfeed _ _ _
    rw [List.mem_singleton]
    rintro rfl
    exact hfeed rfl

theorem lineFeed_notMem_quotedChars (s : String) {tail : List Char} (htail : '\n' ∉ tail) :
    '\n' ∉ quotedChars s tail := by
  have hrest : ∀ cs : List Char, '\n' ∉ cs.foldr (fun c cs => escaped c ++ cs) ('"' :: tail) := by
    intro cs
    induction cs with
    | nil => simpa using htail
    | cons c cs ih => exact fun h => (List.mem_append.mp h).elim (lineFeed_notMem_escaped c) ih
  simpa [quotedChars] using hrest s.toList

theorem lineFeed_notMem_number (n : Number) : '\n' ∉ n.text.toList := by
  intro h
  have hchar := Numeral.numeralChars_of_ofChars? (Scanner.ofChars?_text n) _ h
  exact absurd hchar (by decide)

theorem lineFeed_notMem_cons {c : Char} (hc : '\n' ≠ c) {tail : List Char} (h : '\n' ∉ tail) :
    '\n' ∉ c :: tail :=
  List.not_mem_cons_of_ne_of_not_mem hc h

mutual

theorem lineFeed_notMem_render : ∀ (j : Json) {tail : List Char}, '\n' ∉ tail →
    '\n' ∉ j.render .compact tail
  | .null, tail, h => by simpa [render] using h
  | .bool b, tail, h => by cases b <;> simpa [render] using h
  | .num n, tail, h => by
    rw [render]
    exact fun hmem => (List.mem_append.mp hmem).elim (lineFeed_notMem_number n) h
  | .str s, tail, h => by
    rw [render]
    exact lineFeed_notMem_quotedChars s h
  | .arr [], tail, h => by simpa [render] using h
  | .arr (j :: items), tail, h => by
    have hclose : '\n' ∉ ']' :: tail := lineFeed_notMem_cons (by decide) h
    have hj := lineFeed_notMem_render j (lineFeed_notMem_renderItems items hclose)
    rw [render]
    exact lineFeed_notMem_cons (by decide) hj
  | .obj [], tail, h => by simpa [render] using h
  | .obj ((key, j) :: members), tail, h => by
    have hclose : '\n' ∉ '\x7d' :: tail := lineFeed_notMem_cons (by decide) h
    have hj := lineFeed_notMem_render j (lineFeed_notMem_renderMembers members hclose)
    rw [render]
    exact lineFeed_notMem_cons (by decide)
      (lineFeed_notMem_quotedChars key (lineFeed_notMem_cons (by decide) hj))

theorem lineFeed_notMem_renderItems : ∀ (items : List Json) {tail : List Char}, '\n' ∉ tail →
    '\n' ∉ renderItems .compact items tail
  | [], tail, h => by simpa [renderItems, Layout.newline] using h
  | j :: items, tail, h => by
    have hj := lineFeed_notMem_render j (lineFeed_notMem_renderItems items h)
    rw [renderItems]
    exact lineFeed_notMem_cons (by decide) hj

theorem lineFeed_notMem_renderMembers : ∀ (members : List (String × Json)) {tail : List Char},
    '\n' ∉ tail → '\n' ∉ renderMembers .compact members tail
  | [], tail, h => by simpa [renderMembers, Layout.newline] using h
  | (key, j) :: members, tail, h => by
    have hj := lineFeed_notMem_render j (lineFeed_notMem_renderMembers members h)
    rw [renderMembers]
    exact lineFeed_notMem_cons (by decide)
      (lineFeed_notMem_quotedChars key (lineFeed_notMem_cons (by decide) hj))

end

theorem lineFeed_notMem_compact (j : Json) : '\n' ∉ j.compact.toList := by
  rw [compact, String.toList_ofList]
  exact lineFeed_notMem_render j List.not_mem_nil

end AlertRules.Json
