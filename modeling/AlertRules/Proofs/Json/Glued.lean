import AlertRules.Json.Document
import AlertRules.Proofs.Json.RoundTrip

/-!
# AlertRules.Proofs.Json.Glued — an object behind something else

Blanks in front of a JSON text do not matter.  Anything else does: it makes no JSON text together with
an object, provided that the first key of the object is no word of JSON (`read?_glued`).

Inside a quoted text the quotes of the key end that text, and the key stands outside of it.  Outside of
one the object is scanned as it is, and then either a value is complete before it, or a list or an object
is open around it that it does not close.
-/

namespace AlertRules.Json

/-- The characters may stand between tokens. -/
def Blank (cs : List Char) : Prop :=
  ∀ c ∈ cs, Scanner.isBlank c = true

namespace Scanner

/-! ## The scanner behind a text -/

theorem scan?_append (s : Scanner) (cs ds : List Char) :
    s.scan? (cs ++ ds) = (cs.foldlM step? s).bind fun s => s.scan? ds := by
  rw [scan?, List.foldlM_append]
  cases cs.foldlM step? s <;> rfl

theorem foldlM_blank {cs : List Char} (h : Blank cs) (ts : List Token) :
    cs.foldlM step? ⟨ts, .gap⟩ = some ⟨ts, .gap⟩ := by
  induction cs with
  | nil => rfl
  | cons c cs ih =>
    obtain ⟨hc, hcs⟩ := List.forall_mem_cons.mp h
    have hstep : step? ⟨ts, .gap⟩ c = some ⟨ts, .gap⟩ := by
      show begin? ts c = _
      rw [begin?, if_pos hc]
    rw [List.foldlM_cons, hstep]
    exact ih hcs

/-- A token has been read or begun. -/
def Begun (s : Scanner) : Prop :=
  s.tokens = [] → s.state ≠ .gap

theorem begun_of_begin? {ts : List Token} {c : Char} {s : Scanner} (h : begin? ts c = some s)
    (hc : ts ≠ [] ∨ isBlank c = false) : s.Begun := by
  intro hnil
  unfold begin? at h
  split at h
  · rename_i hblank
    obtain rfl := Option.some.inj h
    rcases hc with hne | hc
    · exact absurd hnil hne
    · exact absurd (hblank.symm.trans hc) (by decide)
  split at h
  · obtain rfl := Option.some.inj h
    simp
  split at h
  · obtain rfl := Option.some.inj h
    simp
  split at h
  · obtain rfl := Option.some.inj h
    simp
  · obtain ⟨t, -, rfl⟩ := Option.map_eq_some_iff.mp h
    exact absurd hnil (by simp)

/-- What has begun stays begun. -/
theorem Begun.step {s s' : Scanner} (hs : s.Begun) {c : Char} (h : s.step? c = some s') :
    s'.Begun := by
  obtain ⟨ts, state⟩ := s
  unfold step? at h
  cases state with
  | gap => exact begun_of_begin? h (.inl fun hnil => hs hnil rfl)
  | word w =>
    dsimp only at h
    split at h
    · obtain rfl := Option.some.inj h
      exact fun _ => by simp
    · obtain ⟨t, -, h⟩ := Option.bind_eq_some_iff.mp h
      exact begun_of_begin? h (.inl (by simp))
  | numeral w =>
    dsimp only at h
    split at h
    · obtain rfl := Option.some.inj h
      exact fun _ => by simp
    · obtain ⟨n, -, h⟩ := Option.bind_eq_some_iff.mp h
      exact begun_of_begin? h (.inl (by simp))
  | quoted q =>
    dsimp only at h
    split at h
    · obtain rfl := Option.some.inj h
      exact fun hnil => absurd hnil (by simp)
    split at h
    · obtain rfl := Option.some.inj h
      exact fun _ => by simp
    split at h
    · exact absurd h (by simp)
    · obtain rfl := Option.some.inj h
      exact fun _ => by simp
  | escape q =>
    dsimp only at h
    split at h
    · obtain rfl := Option.some.inj h
      exact fun _ => by simp
    · obtain ⟨e, -, rfl⟩ := Option.map_eq_some_iff.mp h
      exact fun _ => by simp
  | digits q missing value =>
    obtain ⟨d, -, rfl⟩ := Option.map_eq_some_iff.mp h
    intro _
    split <;> simp

theorem Begun.foldlM {cs : List Char} {s s' : Scanner} (hs : s.Begun)
    (h : cs.foldlM step? s = some s') : s'.Begun := by
  induction cs generalizing s with
  | nil =>
    obtain rfl := Option.some.inj h
    exact hs
  | cons c cs ih =>
    rw [List.foldlM_cons] at h
    obtain ⟨s₁, hstep, hrest⟩ := Option.bind_eq_some_iff.mp h
    exact ih (hs.step hstep) hrest

/-- Behind more than blanks a token has begun. -/
theorem begun_of_not_blank {cs : List Char} (hcs : ¬ Blank cs) {s : Scanner}
    (h : cs.foldlM step? ⟨[], .gap⟩ = some s) : s.Begun := by
  induction cs with
  | nil => exact absurd (fun c hc => absurd hc (by simp)) hcs
  | cons c cs ih =>
    rw [List.foldlM_cons] at h
    obtain ⟨s₁, hstep, hrest⟩ := Option.bind_eq_some_iff.mp h
    cases hc : isBlank c with
    | false => exact (begun_of_begin? hstep (.inr hc)).foldlM hrest
    | true =>
      have hgap : begin? [] c = some ⟨[], .gap⟩ := by rw [begin?, if_pos hc]
      obtain rfl := Option.some.inj (hgap.symm.trans hstep)
      refine ih (fun hblank => hcs ?_) hrest
      exact List.forall_mem_cons.mpr ⟨hc, hblank⟩

end Scanner

/-! ## The builder behind some tokens -/

namespace Document.Builder

/-- When no list or object is open nothing may come any more, and while one is open no document is
finished. -/
structure Underway (b : Builder) : Prop where
  closed : b.frames = [] → b.expecting = .nothing
  unfinished : b.frames ≠ [] → b.done = none

theorem underway_of_place {d : Document} {frames : List Frame} {b : Builder}
    (h : place d frames = some b) : b.Underway := by
  unfold place at h
  split at h
  · obtain rfl := Option.some.inj h
    exact ⟨fun _ => rfl, fun hne => absurd rfl hne⟩
  · obtain rfl := Option.some.inj h
    exact ⟨fun hnil => absurd hnil (by simp), fun _ => rfl⟩
  · obtain rfl := Option.some.inj h
    exact ⟨fun hnil => absurd hnil (by simp), fun _ => rfl⟩
  · exact absurd h (by simp)

theorem underway_of_beginValue {frames : List Frame} {t : Token} {b : Builder}
    (h : beginValue frames t = some b) : b.Underway := by
  unfold beginValue at h
  split at h
  · exact underway_of_place h
  · exact underway_of_place h
  · exact underway_of_place h
  · exact underway_of_place h
  · obtain rfl := Option.some.inj h
    exact ⟨fun hnil => absurd hnil (by simp), fun _ => rfl⟩
  · obtain rfl := Option.some.inj h
    exact ⟨fun hnil => absurd hnil (by simp), fun _ => rfl⟩
  · exact absurd h (by simp)

/-- A colon comes only behind a key, inside an object. -/
theorem underway_of_step? {b b' : Builder} {t : Token}
    (hcolon : b.expecting = .colon → b.frames ≠ []) (h : b.step? t = some b') : b'.Underway := by
  unfold step? at h
  split at h
  · exact underway_of_beginValue h
  · exact underway_of_place h
  · exact underway_of_beginValue h
  · obtain rfl := Option.some.inj h
    exact ⟨fun hnil => absurd hnil (by simp), fun _ => rfl⟩
  · obtain rfl := Option.some.inj h
    exact ⟨fun hnil => absurd hnil (by simp), fun _ => rfl⟩
  · exact underway_of_place h
  · rename_i hexpecting
    obtain rfl := Option.some.inj h
    exact ⟨fun hnil => absurd hnil (hcolon hexpecting), fun _ => rfl⟩
  · obtain rfl := Option.some.inj h
    exact ⟨fun hnil => absurd hnil (by simp), fun _ => rfl⟩
  · obtain rfl := Option.some.inj h
    exact ⟨fun hnil => absurd hnil (by simp), fun _ => rfl⟩
  · exact underway_of_place h
  · exact underway_of_place h
  · exact absurd h (by simp)

theorem Underway.run? {b b' : Builder} {ts : List Token} (hb : b.Underway)
    (h : b.run? ts = some b') : b'.Underway := by
  induction ts generalizing b with
  | nil =>
    obtain rfl := Option.some.inj h
    exact hb
  | cons t ts ih =>
    rw [run?_cons] at h
    obtain ⟨b₁, hstep, hrest⟩ := Option.bind_eq_some_iff.mp h
    refine ih (underway_of_step? (fun hcolon hnil => ?_) hstep) hrest
    exact absurd ((hb.closed hnil).symm.trans hcolon) (by simp)

theorem underway_of_run? {ts : List Token} (hts : ts ≠ []) {b : Builder}
    (h : start.run? ts = some b) : b.Underway := by
  obtain ⟨t, ts, rfl⟩ := List.exists_cons_of_ne_nil hts
  rw [run?_cons] at h
  obtain ⟨b₁, hstep, hrest⟩ := Option.bind_eq_some_iff.mp h
  exact (underway_of_step? (fun hcolon => absurd hcolon (by simp [start])) hstep).run? hrest

/-- An object does not finish the document any more. -/
theorem Underway.object {b : Builder} (hb : b.Underway) (members : List (String × Json)) :
    (b.run? (Json.obj members).tokens).bind done = none := by
  obtain ⟨frames, expecting, done?⟩ := b
  obtain ⟨ts, hts⟩ : ∃ ts, (Json.obj members).tokens = .openObject :: ts := by
    cases members <;> exact ⟨_, rfl⟩
  by_cases hnil : frames = []
  · obtain rfl : expecting = .nothing := hb.closed hnil
    rw [hts, run?_cons]
    rfl
  · obtain rfl : done? = none := hb.unfinished hnil
    have hplace : ∀ d, (place d frames).bind done = none := by
      intro d
      cases hd : place d frames with
      | none => rfl
      | some b' =>
        obtain ⟨f, frames, rfl⟩ := List.exists_cons_of_ne_nil hnil
        cases f with
        | list items => obtain rfl := Option.some.inj hd; rfl
        | member members key => obtain rfl := Option.some.inj hd; rfl
        | object members => exact absurd hd (by simp [place])
    have hvalue : (Builder.run? ⟨frames, .value, none⟩ (Json.obj members).tokens).bind done = none := by
      have hrun := run?_tokens frames [] (.obj members)
      rw [List.append_nil] at hrun
      rw [hrun]
      have hdone := hplace (Json.obj members).reread.doc
      cases hd : place (Json.obj members).reread.doc frames with
      | none => rfl
      | some b' =>
        rw [hd] at hdone
        exact hdone
    cases expecting with
    | value => exact hvalue
    | valueOrClose =>
      have hrun := run?_valueOrClose frames (.obj members) []
      rw [List.append_nil] at hrun
      rw [hrun]
      exact hvalue
    | _ =>
      rw [hts, run?_cons]
      rfl

end Document.Builder

/-! ## Texts -/

theorem tokens?_eq (text : String) : tokens? text = Scanner.start.scan? text.toList :=
  rfl

/-- Blanks in front of a text are passed over. -/
theorem Document.read?_blank_append {p : String} (h : Blank p.toList) (text : String) :
    read? (p ++ text) = read? text := by
  rw [read?, read?, tokens?_eq, tokens?_eq, String.toList_append, Scanner.scan?_append,
    Scanner.start, Scanner.foldlM_blank h]
  rfl

theorem Document.read?_blank {p : String} (h : Blank p.toList) : read? p = none := by
  have hread := read?_blank_append h ""
  rw [String.append_empty] at hread
  rw [hread]
  rfl

/-- Without its opening quote the key does not begin a JSON text. -/
def Bare (key : String) : Prop :=
  ∀ ts tail, Scanner.scan? ⟨ts, .gap⟩ ((quotedChars key tail).drop 1) = none

namespace Scanner

/-- Behind what has begun an object is scanned as it is, or not at all. -/
theorem Begun.scan?_object {s : Scanner} (hs : s.Begun) {key : String} (hkey : Bare key) (j : Json)
    (members : List (String × Json)) {tokens : List Token}
    (h : s.scan? ((Json.obj ((key, j) :: members)).render .compact []) = some tokens) :
    ∃ before, before ≠ [] ∧ tokens = before ++ (Json.obj ((key, j) :: members)).tokens := by
  have hnil : Closes [] := fun c hc => absurd hc (by simp)
  have hgap : ∀ ts : List Token, ts ≠ [] →
      scan? ⟨ts, .gap⟩ ((Json.obj ((key, j) :: members)).render .compact []) = some tokens →
        ∃ before, before ≠ [] ∧ tokens = before ++ (Json.obj ((key, j) :: members)).tokens := by
    intro ts hts hscan
    rw [scan?_render .compact ts hnil] at hscan
    refine ⟨ts.reverse, by simpa using hts, ?_⟩
    rw [← Option.some.inj hscan]
    simp
  have hcloses : Closes ((Json.obj ((key, j) :: members)).render .compact []) := by
    rw [render]
    exact closes_cons (by decide) (by decide) _
  obtain ⟨rest, hrest, hbare⟩ : ∃ rest,
      (Json.obj ((key, j) :: members)).render .compact [] = '\x7b' :: '"' :: rest ∧
        ∀ ts, scan? ⟨ts, .gap⟩ rest = none :=
    ⟨_, by rw [render]; rfl, fun ts => hkey ts _⟩
  obtain ⟨ts, state⟩ := s
  cases state with
  | gap => exact hgap ts (fun hnil => hs hnil rfl) h
  | word w =>
    cases hw : wordToken? w.reverse with
    | some t =>
      rw [scan?_word hw ts hcloses] at h
      exact hgap _ (by simp) h
    | none =>
      have hstep : step? ⟨ts, .word w⟩ '\x7b' = none := by
        show (wordToken? w.reverse).bind _ = none
        rw [hw]
        rfl
      rw [hrest, scan?_cons, hstep] at h
      exact absurd h (by simp)
  | numeral w =>
    cases hw : Numeral.ofChars? w.reverse with
    | some n =>
      rw [scan?_numeral hw ts hcloses] at h
      exact hgap _ (by simp) h
    | none =>
      have hstep : step? ⟨ts, .numeral w⟩ '\x7b' = none := by
        show (Numeral.ofChars? w.reverse).bind _ = none
        rw [hw]
        rfl
      rw [hrest, scan?_cons, hstep] at h
      exact absurd h (by simp)
  | quoted q =>
    have hquoted : scan? ⟨ts, .quoted q⟩ ('\x7b' :: '"' :: rest) =
        scan? ⟨.text (q.push '\x7b').literal :: ts, .gap⟩ rest := rfl
    rw [hrest, hquoted, hbare] at h
    exact absurd h (by simp)
  | escape q =>
    have hstep : step? ⟨ts, .escape q⟩ '\x7b' = none := rfl
    rw [hrest, scan?_cons, hstep] at h
    exact absurd h (by simp)
  | digits q missing value =>
    have hstep : step? ⟨ts, .digits q missing value⟩ '\x7b' = none := rfl
    rw [hrest, scan?_cons, hstep] at h
    exact absurd h (by simp)

end Scanner

/-- An object makes no JSON text with anything but blanks in front of it. -/
theorem Document.read?_glued {p : String} (hp : ¬ Blank p.toList) {key : String} (hkey : Bare key)
    (j : Json) (members : List (String × Json)) :
    read? (p ++ (Json.obj ((key, j) :: members)).compact) = none := by
  have hscan : tokens? (p ++ (Json.obj ((key, j) :: members)).compact) =
      (p.toList.foldlM Scanner.step? ⟨[], .gap⟩).bind fun s =>
        s.scan? ((Json.obj ((key, j) :: members)).render .compact []) := by
    rw [tokens?_eq, String.toList_append, compact, String.toList_ofList, Scanner.scan?_append]
    rfl
  rw [read?, Option.bind_eq_none_iff]
  intro tokens htokens
  rw [hscan] at htokens
  obtain ⟨s, hs, htokens⟩ := Option.bind_eq_some_iff.mp htokens
  obtain ⟨before, hne, rfl⟩ :=
    (Scanner.begun_of_not_blank hp hs).scan?_object hkey j members htokens
  rw [List.foldlM_append]
  cases hbefore : before.foldlM Builder.step? Builder.start with
  | none => rfl
  | some b => exact (Builder.underway_of_run? hne hbefore).object _

end AlertRules.Json
