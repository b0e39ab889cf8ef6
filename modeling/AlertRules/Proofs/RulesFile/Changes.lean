import AlertRules.Proofs.Json.RoundTrip
import AlertRules.Proofs.RulesFile.Scopes
import AlertRules.Proofs.Text.Lines

/-!
# AlertRules.Proofs.RulesFile.Changes — the file after a change

A change succeeds iff it reaches a list and the list allows it (`modify_eq_ok_iff`), and then it puts
the text of the value with another list into the file (`modify_snd`; `Rewritten` for the rules for all
devices).  If the value is sound and not too deep, that text is read as the value, and the rules are
those before with the rules of one kind exchanged (`Rewritten.fetch_eq`).  If it is too deep, the file
cannot be read any more (`Rewritten.root_eq_error`).  A change that fails leaves the value in the file
alone.
-/

namespace AlertRules

namespace Json

/-- The text of a value does not begin with a blank. -/
theorem exists_render_eq_cons (l : Layout) (j : Json) (tail : List Char) :
    ∃ c cs, j.render l tail = c :: cs ∧ CodePoint.isBlank c = false := by
  cases j with
  | null => exact ⟨'n', _, rfl, by decide⟩
  | bool b =>
    cases b with
    | false => exact ⟨'f', _, rfl, by decide⟩
    | true => exact ⟨'t', _, rfl, by decide⟩
  | num n =>
    obtain ⟨c, cs, htext, hc⟩ := Numeral.head_of_ofChars? (Scanner.ofChars?_text n)
    refine ⟨c, cs ++ tail, by rw [render, htext, List.cons_append], ?_⟩
    rcases hc with rfl | hc
    · decide
    · exact CodePoint.isBlank_digit hc
  | str s => exact ⟨'"', _, by rw [render]; rfl, by decide⟩
  | arr items => cases items <;> exact ⟨'[', _, by rw [render], by decide⟩
  | obj members => cases members <;> exact ⟨'\x7b', _, by rw [render], by decide⟩

end Json

namespace RulesFile

/-! ## The value in a file -/

theorem root_present {bytes : ByteArray} {s : String} (h : String.fromUTF8? bytes = some s) :
    root (.present bytes) =
      if s.toList.all CodePoint.isBlank then .ok (.obj [])
      else
        match Json.read? s with
        | none => .error .notJson
        | some j => .ok j := by
  unfold root
  dsimp only
  split
  · rename_i hnone
    exact absurd (hnone.symm.trans h) (by simp)
  · rename_i s' hsome
    obtain rfl : s' = s := Option.some.inj (hsome.symm.trans h)
    rfl

/-- The value in a file is the one that was written, with its numbers read again, unless it is too
deep. -/
theorem root_present_pretty {j : Json} (h : j.Canonical) :
    root (.present j.pretty.toUTF8) =
      if j.depth ≤ Json.depthLimit then .ok j.reread else .error .notJson := by
  -- a blank text would stand for the empty object
  have hblank : ¬ j.pretty.toList.all CodePoint.isBlank = true := by
    obtain ⟨c, cs, hrender, hc⟩ := Json.exists_render_eq_cons (.pretty 0) j []
    rw [Json.pretty, String.toList_ofList, hrender, List.all_cons, hc]
    simp
  rw [root_present (Text.fromUTF8?_toUTF8 _), if_neg hblank, Json.read?_pretty h]
  by_cases hdepth : j.depth ≤ Json.depthLimit
  · rw [if_pos hdepth, if_pos hdepth]
  · rw [if_neg hdepth, if_neg hdepth]

/-- The file as it is written with a value. -/
def holding (j : Json) : File.Content :=
  .present j.pretty.toUTF8

theorem root_holding {j : Json} (hj : j.Canonical) (hlimit : j.depth ≤ Json.depthLimit) :
    root (holding j) = .ok j.reread := by
  rw [holding, root_present_pretty hj, if_pos hlimit]

theorem root_opened (c : File.Content) : root c.opened = root c := by
  cases c with
  | missing =>
    show root (.present .empty) = .ok (.obj [])
    exact root_present (Text.fromUTF8?_toUTF8 "")
  | present bytes => rfl
  | blocked reason => rfl
  | void => rfl

/-- The value in a file is canonical and not too deep. -/
theorem canonical_of_root {c : File.Content} {j : Json} (h : root c = .ok j) :
    j.Canonical ∧ j.depth ≤ Json.depthLimit := by
  have hempty : (Json.obj []).Canonical ∧ (Json.obj []).depth ≤ Json.depthLimit :=
    ⟨⟨List.Pairwise.nil, trivial⟩, by decide⟩
  cases c with
  | missing =>
    obtain rfl := Except.ok.inj h
    exact hempty
  | void =>
    obtain rfl := Except.ok.inj h
    exact hempty
  | blocked reason => exact absurd h (by simp [root])
  | present bytes =>
    cases hbytes : String.fromUTF8? bytes with
    | none => exact absurd h (by simp [root, hbytes])
    | some s =>
      rw [root_present hbytes] at h
      split at h
      · obtain rfl := Except.ok.inj h
        exact hempty
      · split at h
        · exact absurd h (by simp)
        · rename_i hread
          obtain rfl := Except.ok.inj h
          exact Json.canonical_of_read? hread

theorem fetch_eq_ok_iff {path : String} {c : File.Content} {r : Ruleset} :
    fetch path c = .ok r ↔ ∃ j, root c = .ok j ∧ Ruleset.read j = .ok r := by
  unfold fetch
  split
  · rename_i h
    simp [h]
  · rename_i h
    simp [h]
  · rename_i j h
    rw [h, interpret]
    cases hread : Ruleset.read j with
    | error e => simp [Except.mapError, hread]
    | ok r' => simp [Except.mapError, hread]

/-! ## Changes that fail -/

theorem modify_snd_of_error {scope : String} {kind : Kind} {f : Edit} {c : File.Content}
    {fault : Fault} (h : (modify scope kind f c).1 = .error fault) :
    (modify scope kind f c).2 = c.opened := by
  unfold modify at h ⊢
  split
  · rfl
  · split
    · rfl
    · rename_i heq bytes _ hreplaced
      rw [heq] at h
      dsimp only at h
      rw [hreplaced] at h
      exact absurd h (by simp)

theorem failureOf_eq_ok_iff {scope : String} {kind : Kind} {id : String}
    {result : Except Fault Unit} : failureOf scope kind id result = .ok () ↔ result = .ok () := by
  cases result with
  | error fault => simp [failureOf, Except.mapError]
  | ok u => simp [failureOf, Except.mapError]

theorem modify_snd_of_ne_ok {scope : String} {kind : Kind} {f : Edit} {c : File.Content}
    (h : (modify scope kind f c).1 ≠ .ok ()) : (modify scope kind f c).2 = c.opened := by
  cases hresult : (modify scope kind f c).1 with
  | error fault => exact modify_snd_of_error hresult
  | ok u => exact absurd hresult h

/-- For a rule that is not put into it the file has been opened at most. -/
theorem add_snd_of_ne_ok {scope : String} {kind : Kind} {id : String} {body : Json}
    {c : File.Content} (h : (add scope kind id body c).1 ≠ .ok ()) :
    (add scope kind id body c).2 = c ∨ (add scope kind id body c).2 = c.opened := by
  cases body with
  | obj members => exact .inr (modify_snd_of_ne_ok fun hok => h (failureOf_eq_ok_iff.mpr hok))
  | _ => exact .inl rfl

/-- For rules that are not taken out of it the file has only been opened. -/
theorem delete_snd_of_ne_ok {scope : String} {kind : Kind} {id : String} {c : File.Content}
    (h : (delete scope kind id c).1 ≠ .ok ()) : (delete scope kind id c).2 = c.opened :=
  modify_snd_of_ne_ok fun hok => h (failureOf_eq_ok_iff.mpr hok)

/-- A rule that is not put into the file leaves the value there alone. -/
theorem root_add_of_ne_ok {scope : String} {kind : Kind} {id : String} {body : Json}
    {c : File.Content} (h : (add scope kind id body c).1 ≠ .ok ()) :
    root (add scope kind id body c).2 = root c := by
  rcases add_snd_of_ne_ok h with hsame | hopened
  · rw [hsame]
  · rw [hopened, root_opened]

/-- Rules that are not taken out of the file leave the value there alone. -/
theorem root_delete_of_ne_ok {scope : String} {kind : Kind} {id : String} {c : File.Content}
    (h : (delete scope kind id c).1 ≠ .ok ()) : root (delete scope kind id c).2 = root c := by
  rw [delete_snd_of_ne_ok h, root_opened]

/-! ## Changes that succeed -/

section Change

variable {scope : String} {s : Scope} {kind : Kind} {f : Edit} {c : File.Content} {j j' : Json}

theorem edited_eq_ok (hroot : root c = .ok j) (hedit : editRoot scope kind f j = .ok j') :
    edited scope kind f c = .ok j'.pretty.toUTF8 := by
  rw [edited, hroot]
  dsimp only
  rw [hedit]
  rfl

theorem modify_eq_error {fault : Fault} (hroot : root c = .ok j)
    (hedit : editRoot scope kind f j = .error fault) : (modify scope kind f c).1 = .error fault := by
  rw [modify, edited, hroot]
  dsimp only
  rw [hedit]
  rfl

/-- A change succeeds iff the file can be replaced, the list can be reached, and the list allows it. -/
theorem modify_eq_ok_iff (hscope : Scope.ofString? scope = some s) :
    (modify scope kind f c).1 = .ok () ↔
      c ≠ .void ∧ ∃ j rules rules', root c = .ok j ∧ listAt? (s.path kind) j = some rules ∧
        f rules = .ok rules' := by
  cases hroot : root c with
  | error fault => simp [modify, edited, hroot]
  | ok j =>
    cases hedit : editRoot scope kind f j with
    | error fault =>
      have hnot : ∀ rules rules', listAt? (s.path kind) j = some rules → f rules ≠ .ok rules' := by
        intro rules rules' hrules hf
        have hok := (edits_editRoot hscope kind f j _).mpr ⟨rules, rules', hrules, hf, rfl⟩
        exact absurd (hedit.symm.trans hok) (by simp)
      rw [modify_eq_error hroot hedit]
      constructor
      · intro hok
        exact absurd hok (by simp)
      · rintro ⟨-, i, rules, rules', hi, hrules, hf⟩
        obtain rfl := Except.ok.inj hi
        exact absurd hf (hnot rules rules' hrules)
    | ok j' =>
      obtain ⟨rules, rules', hrules, hf, rfl⟩ := (edits_editRoot hscope kind f j j').mp hedit
      rw [modify, edited_eq_ok hroot hedit]
      constructor
      · intro hok
        refine ⟨?_, j, rules, rules', rfl, hrules, hf⟩
        rintro rfl
        exact absurd hok (by simp [File.Content.replaced])
      · rintro ⟨hvoid, -⟩
        cases c with
        | void => exact absurd rfl hvoid
        | _ => rfl

/-- The file after a change that succeeds. -/
theorem modify_snd {rules rules' : List Json} (hscope : Scope.ofString? scope = some s)
    (hvoid : c ≠ .void) (hroot : root c = .ok j) (hrules : listAt? (s.path kind) j = some rules)
    (hf : f rules = .ok rules') :
    (modify scope kind f c).2 = holding (withListAt rules' (s.path kind) j) := by
  have hedit := (edits_editRoot hscope kind f j _).mpr ⟨rules, rules', hrules, hf, rfl⟩
  rw [modify, edited_eq_ok hroot hedit]
  cases c with
  | void => exact absurd rfl hvoid
  | _ => rfl

end Change

/-- **`Rewritten kind j rules rules' c c'`** — in the file `c`, which holds the value `j`, the list
`rules` of the kind has been replaced by `rules'`. -/
structure Rewritten (kind : Kind) (j : Json) (rules rules' : List Json) (c c' : File.Content) :
    Prop where
  root_eq : root c = .ok j
  listed : listAt? (Scope.path .global kind) j = some rules
  file_eq : c' = holding (withListAt rules' (Scope.path .global kind) j)

theorem rewritten_of_modify {kind : Kind} {f : Edit} {c : File.Content}
    (h : (modify "global" kind f c).1 = .ok ()) :
    ∃ j rules rules', f rules = .ok rules' ∧
      Rewritten kind j rules rules' c (modify "global" kind f c).2 := by
  have hscope : Scope.ofString? "global" = some .global := rfl
  obtain ⟨hvoid, j, rules, rules', hroot, hrules, hf⟩ := (modify_eq_ok_iff hscope).mp h
  exact ⟨j, rules, rules', hf, hroot, hrules, modify_snd hscope hvoid hroot hrules hf⟩

/-- A rule can be put into a file whose list can be reached. -/
theorem add_eq_ok_of_listed {kind : Kind} {id : String} {members : List (String × Json)}
    {bytes : ByteArray} {j : Json} {rules : List Json} (hroot : root (.present bytes) = .ok j)
    (hrules : listAt? (Scope.path .global kind) j = some rules) :
    (add "global" kind id (.obj members) (.present bytes)).1 = .ok () := by
  have hscope : Scope.ofString? "global" = some .global := rfl
  exact failureOf_eq_ok_iff.mpr
    ((modify_eq_ok_iff hscope).mpr ⟨by simp, j, rules, _, hroot, hrules, rfl⟩)

/-- A rule that is put into the file is the last of its list, and no other there has its id. -/
theorem rewritten_of_add {kind : Kind} {id : String} {members : List (String × Json)}
    {c : File.Content} (h : (add "global" kind id (.obj members) c).1 = .ok ()) :
    ∃ j rules, Rewritten kind j rules (without id rules ++ [withId id members]) c
      (add "global" kind id (.obj members) c).2 := by
  obtain ⟨j, rules, rules', hf, hrewritten⟩ := rewritten_of_modify (failureOf_eq_ok_iff.mp h)
  obtain rfl := Except.ok.inj hf
  exact ⟨j, rules, hrewritten⟩

theorem removing_eq_ok_iff {id : String} {entries rules' : List Json} :
    removing id entries = .ok rules' ↔
      (∃ e ∈ entries, hasId id e = true) ∧ rules' = without id entries := by
  have hlength : (without id entries).length = entries.length ↔
      ¬ ∃ e ∈ entries, hasId id e = true := by
    rw [without, List.length_filter_eq_length_iff]
    simp
  rw [removing, eq_comm (a := rules')]
  by_cases hfound : ∃ e ∈ entries, hasId id e = true
  · rw [if_neg fun heq => hlength.mp heq hfound]
    simp [hfound]
  · rw [if_pos (hlength.mpr hfound)]
    simp [hfound]

/-- Rules that are taken out of the file are those of the id. -/
theorem rewritten_of_delete {kind : Kind} {id : String} {c : File.Content}
    (h : (delete "global" kind id c).1 = .ok ()) :
    ∃ j rules, Rewritten kind j rules (without id rules) c (delete "global" kind id c).2 := by
  obtain ⟨j, rules, rules', hf, hrewritten⟩ := rewritten_of_modify (failureOf_eq_ok_iff.mp h)
  obtain rfl := (removing_eq_ok_iff.mp hf).2
  exact ⟨j, rules, hrewritten⟩

namespace Rewritten

variable {kind : Kind} {j : Json} {rules rules' : List Json} {c c' : File.Content}

/-- After the change the file holds the value with the other list, unless that is too deep. -/
theorem root_after (h : Rewritten kind j rules rules' c c') (hj : j.Sound)
    (hrules' : (Json.arr rules').Sound) :
    root c' = if (Json.arr rules').depth ≤ 125
      then .ok (withListAt rules' (Scope.path .global kind) j) else .error .notJson := by
  have hlimit : (withListAt rules' (Scope.path .global kind) j).depth ≤ Json.depthLimit ↔
      (Json.arr rules').depth ≤ 125 :=
    depth_withListAt_le_iff (d := 125) rules' (canonical_of_root h.root_eq).2 (by decide) h.listed
  have hsound := sound_withListAt rules' hj h.listed hrules'
  rw [h.file_eq, holding, root_present_pretty hsound.canonical,
    Json.Stable.reread_eq hsound.stable]
  by_cases hdepth : (Json.arr rules').depth ≤ 125
  · rw [if_pos hdepth, if_pos (hlimit.mpr hdepth)]
  · rw [if_neg hdepth, if_neg fun hle => hdepth (hlimit.mp hle)]

/-- A list that is too deep makes the file unreadable. -/
theorem root_eq_error (h : Rewritten kind j rules rules' c c') (hj : j.Sound)
    (hrules' : (Json.arr rules').Sound) (hdepth : ¬ (Json.arr rules').depth ≤ 125) :
    root c' = .error .notJson := by
  rw [h.root_after hj hrules', if_neg hdepth]

theorem root_eq_ok (h : Rewritten kind j rules rules' c c') (hj : j.Sound)
    (hrules' : (Json.arr rules').Sound) (hdepth : (Json.arr rules').depth ≤ 125) :
    root c' = .ok (withListAt rules' (Scope.path .global kind) j) := by
  rw [h.root_after hj hrules', if_pos hdepth]

/-- After the change the rules of the kind are those that are well formed in the other list, and all
other rules are as before. -/
theorem fetch_eq (h : Rewritten kind j rules rules' c c') (hj : j.Sound)
    (hrules' : (Json.arr rules').Sound) (hdepth : (Json.arr rules').depth ≤ 125) {path : String}
    {r : Ruleset} (hfetch : fetch path c = .ok r) :
    fetch path c' = .ok (r.withRulesIn .global kind (KindSet.wellFormed rules')) := by
  obtain ⟨i, hroot, hread⟩ := fetch_eq_ok_iff.mp hfetch
  obtain rfl := Except.ok.inj (h.root_eq.symm.trans hroot)
  exact fetch_eq_ok_iff.mpr ⟨_, h.root_eq_ok hj hrules' hdepth,
    read_withListAt (s := .global) hj.canonical hread h.listed rules'⟩

end Rewritten

end RulesFile

end AlertRules
