import AlertRules.Json.Document
import AlertRules.Proofs.Json.Scanning

/-!
# AlertRules.Proofs.Json.RoundTrip — what is written is read again

A canonical value whose lists and objects are nested at most `depthLimit` deep is read back from its
text with its numbers read again, and a deeper one is not read at all (`read?_render`); a sound value
is read back as it is.  The other way round, what is read from a text is canonical and not too deep
(`canonical_of_read?`).

The tokens of a value build the **document** of the value read again, whatever lists and objects are
open around it.
-/

namespace AlertRules.Json

mutual

/-- The document of the text of a value. -/
def doc : Json → Document
  | .null => .null
  | .bool b => .bool b
  | .num n => .num (some n)
  | .str s => .str (some s)
  | .arr items => .arr (itemDocs items)
  | .obj members => .obj (memberDocs members)

/-- The documents of the items. -/
def itemDocs : List Json → List Document
  | [] => []
  | j :: items => j.doc :: itemDocs items

/-- The members with the documents of their values. -/
def memberDocs : List (String × Json) → List (Literal × Document)
  | [] => []
  | (key, j) :: members => (some key, j.doc) :: memberDocs members

end

/-! ## From the tokens to the document -/

namespace Document.Builder

/-- The builder behind the tokens. -/
def run? (b : Builder) (ts : List Token) : Option Builder :=
  ts.foldlM step? b

theorem run?_cons (b : Builder) (t : Token) (ts : List Token) :
    b.run? (t :: ts) = (b.step? t).bind fun b => b.run? ts := by
  rw [run?, List.foldlM_cons]
  rfl

/-- A value does not begin with a closing bracket. -/
theorem exists_tokens_eq_cons (j : Json) : ∃ t ts, j.tokens = t :: ts ∧ t ≠ .closeList := by
  cases j with
  | null => exact ⟨_, _, rfl, by simp⟩
  | bool b => exact ⟨_, _, rfl, by simp⟩
  | num n => exact ⟨_, _, rfl, by simp⟩
  | str s => exact ⟨_, _, rfl, by simp⟩
  | arr items => cases items <;> exact ⟨_, _, rfl, by simp⟩
  | obj members => cases members <;> exact ⟨_, _, rfl, by simp⟩

/-- The first item of a list is read as any value. -/
theorem run?_valueOrClose (frames : List Frame) (j : Json) (ts : List Token) :
    run? ⟨frames, .valueOrClose, none⟩ (j.tokens ++ ts) =
      run? ⟨frames, .value, none⟩ (j.tokens ++ ts) := by
  obtain ⟨t, rest, htokens, ht⟩ := exists_tokens_eq_cons j
  have hstep : step? ⟨frames, .valueOrClose, none⟩ t = step? ⟨frames, .value, none⟩ t := by
    cases t with
    | closeList => exact absurd rfl ht
    | _ => rfl
  rw [htokens, List.cons_append, run?_cons, run?_cons, hstep]

mutual

/-- The tokens of a value build the document of the value read again. -/
theorem run?_tokens (frames : List Frame) (ts : List Token) :
    ∀ j : Json, run? ⟨frames, .value, none⟩ (j.tokens ++ ts) =
      (place j.reread.doc frames).bind fun b => b.run? ts
  | .null => rfl
  | .bool _ => rfl
  | .num n => by
    rw [tokens, List.singleton_append, run?_cons]
    show (place (.num n.numeral.value?) frames).bind _ = _
    rw [Scanner.value?_numeral n]
    rfl
  | .str _ => rfl
  | .arr [] => rfl
  | .arr (j :: items) => by
    rw [tokens, List.cons_append, List.append_assoc]
    show run? ⟨.list [] :: frames, .valueOrClose, none⟩ _ = _
    rw [run?_valueOrClose, run?_tokens _ _ j]
    show run? ⟨.list [j.reread.doc] :: frames, .commaOrClose, none⟩ _ = _
    rw [run?_itemTokens _ frames ts items]
    rfl
  | .obj [] => rfl
  | .obj ((key, j) :: members) => by
    rw [tokens, List.cons_append, List.cons_append, List.cons_append, List.append_assoc]
    show run? ⟨.member [] (some key) :: frames, .value, none⟩ _ = _
    rw [run?_tokens _ _ j]
    show run? ⟨.object [(some key, j.reread.doc)] :: frames, .commaOrClose, none⟩ _ = _
    rw [run?_memberTokens _ frames ts members]
    rfl

/-- The tokens behind the items `ds` of a list close the list. -/
theorem run?_itemTokens (ds : List Document) (frames : List Frame) (ts : List Token) :
    ∀ items : List Json,
      run? ⟨.list ds :: frames, .commaOrClose, none⟩ (itemTokens items ++ ts) =
        (place (.arr (ds.reverse ++ itemDocs (rereadItems items))) frames).bind fun b => b.run? ts
  | [] => by
    rw [itemTokens, rereadItems, itemDocs, List.append_nil]
    rfl
  | j :: items => by
    rw [itemTokens, List.cons_append, List.append_assoc]
    show run? ⟨.list ds :: frames, .value, none⟩ _ = _
    rw [run?_tokens _ _ j]
    show run? ⟨.list (j.reread.doc :: ds) :: frames, .commaOrClose, none⟩ _ = _
    rw [run?_itemTokens _ frames ts items, List.reverse_cons, List.append_assoc, rereadItems,
      itemDocs, List.singleton_append]

/-- The tokens behind the members `ms` of an object close the object. -/
theorem run?_memberTokens (ms : List (Literal × Document)) (frames : List Frame)
    (ts : List Token) :
    ∀ members : List (String × Json),
      run? ⟨.object ms :: frames, .commaOrClose, none⟩ (memberTokens members ++ ts) =
        (place (.obj (ms.reverse ++ memberDocs (rereadMembers members))) frames).bind fun b =>
          b.run? ts
  | [] => by
    rw [memberTokens, rereadMembers, memberDocs, List.append_nil]
    rfl
  | (key, j) :: members => by
    rw [memberTokens, List.cons_append, List.cons_append, List.cons_append, List.append_assoc]
    show run? ⟨.member ms (some key) :: frames, .value, none⟩ _ = _
    rw [run?_tokens _ _ j]
    show run? ⟨.object ((some key, j.reread.doc) :: ms) :: frames, .commaOrClose, none⟩ _ = _
    rw [run?_memberTokens _ frames ts members, List.reverse_cons, List.append_assoc, rereadMembers,
      memberDocs, List.singleton_append]

end

end Document.Builder

/-- The text of a value has the document of the value read again. -/
theorem Document.read?_render (l : Layout) (j : Json) :
    Document.read? (String.ofList (j.render l [])) = some j.reread.doc := by
  have hrun := Builder.run?_tokens [] [] j
  rw [List.append_nil] at hrun
  rw [Document.read?, tokens?_render l j, Option.bind_some]
  show (Builder.run? ⟨[], .value, none⟩ j.tokens).bind Builder.done = _
  rw [hrun]
  rfl

/-! ## From the document to the value -/

theorem Document.memberValues?_cons (entries : List (String × Json)) (key : Literal) (d : Document)
    (ms : List (Literal × Document)) :
    memberValues? entries ((key, d) :: ms) =
      key.bind fun k => d.value?.bind fun j => memberValues? (Entries.insert k j entries) ms := by
  cases key with
  | none => simp [memberValues?]
  | some k => cases hd : d.value? <;> simp [memberValues?, hd]

mutual

theorem depth_doc : ∀ j : Json, j.doc.depth = j.depth
  | .null => rfl
  | .bool _ => rfl
  | .num _ => rfl
  | .str _ => rfl
  | .arr items => by rw [doc, Document.depth, depth, depthOfItems_itemDocs items]
  | .obj members => by rw [doc, Document.depth, depth, depthOfMembers_memberDocs members]

theorem depthOfItems_itemDocs : ∀ items : List Json,
    Document.depthOfItems (itemDocs items) = depthOfItems items
  | [] => rfl
  | j :: items => by
    rw [itemDocs, Document.depthOfItems, depthOfItems, depth_doc j, depthOfItems_itemDocs items]

theorem depthOfMembers_memberDocs : ∀ members : List (String × Json),
    Document.depthOfMembers (memberDocs members) = depthOfMembers members
  | [] => rfl
  | (_, j) :: members => by
    rw [memberDocs, Document.depthOfMembers, depthOfMembers, depth_doc j,
      depthOfMembers_memberDocs members]

end

mutual

/-- The document of a canonical value stands for the value. -/
theorem value?_doc : ∀ {j : Json}, j.Canonical → j.doc.value? = some j
  | .null, _ => rfl
  | .bool _, _ => rfl
  | .num _, _ => rfl
  | .str _, _ => rfl
  | .arr items, h => by
    rw [doc, Document.value?, itemValues?_itemDocs h]
    rfl
  | .obj members, h => by
    rw [doc, Document.value?, memberValues?_memberDocs [] h.1 h.2]
    rfl

theorem itemValues?_itemDocs : ∀ {items : List Json}, AllCanonical items →
    Document.itemValues? (itemDocs items) = some items
  | [], _ => rfl
  | j :: items, h => by
    rw [itemDocs, Document.itemValues?, value?_doc h.1, itemValues?_itemDocs h.2]

/-- Members that stand in the order of their keys are put one behind the other. -/
theorem memberValues?_memberDocs (entries : List (String × Json)) :
    ∀ {members : List (String × Json)}, Entries.Sorted (entries ++ members) →
      MembersCanonical members →
        Document.memberValues? entries (memberDocs members) = some (entries ++ members)
  | [], _, _ => by
    rw [memberDocs, Document.memberValues?, List.append_nil]
  | (key, j) :: members, hsorted, h => by
    have hbefore : ∀ e ∈ entries, e.1 < key := fun e he =>
      (List.pairwise_append.mp hsorted).2.2 e he (key, j) List.mem_cons_self
    have hentries : entries ++ (key, j) :: members = (entries ++ [(key, j)]) ++ members := by
      rw [List.append_assoc, List.singleton_append]
    rw [hentries] at hsorted ⊢
    rw [memberDocs, Document.memberValues?_cons, Option.bind_some, value?_doc h.1, Option.bind_some,
      Entries.insert_eq_append hbefore]
    exact memberValues?_memberDocs _ hsorted h.2

end

/-- A canonical value is read from its text with its numbers read again, unless it is too deep. -/
theorem read?_render (l : Layout) {j : Json} (h : j.Canonical) :
    read? (String.ofList (j.render l [])) =
      if j.depth ≤ depthLimit then some j.reread else none := by
  rw [read?, Document.read?_render l j, Option.bind_some, depth_doc, depth_reread,
    value?_doc h.reread]

theorem read?_pretty {j : Json} (h : j.Canonical) :
    read? j.pretty = if j.depth ≤ depthLimit then some j.reread else none :=
  read?_render (.pretty 0) h

/-! ## What is read from a text -/

mutual

/-- The value of a document is canonical and at most as deep as the document. -/
theorem canonical_of_value? : ∀ {d : Document} {j : Json}, d.value? = some j →
    j.Canonical ∧ j.depth ≤ d.depth
  | .null, j, h => by
    obtain rfl := Option.some.inj h
    exact ⟨trivial, Nat.le_refl _⟩
  | .bool b, j, h => by
    obtain rfl := Option.some.inj h
    exact ⟨trivial, Nat.le_refl _⟩
  | .num n, j, h => by
    obtain ⟨m, -, rfl⟩ := Option.map_eq_some_iff.mp h
    exact ⟨trivial, Nat.le_refl _⟩
  | .str l, j, h => by
    obtain ⟨s, -, rfl⟩ := Option.map_eq_some_iff.mp h
    exact ⟨trivial, Nat.le_refl _⟩
  | .arr ds, j, h => by
    obtain ⟨items, hitems, rfl⟩ := Option.map_eq_some_iff.mp h
    obtain ⟨hcanonical, hdepth⟩ := canonical_of_itemValues? hitems
    exact ⟨hcanonical, Nat.add_le_add_right hdepth 1⟩
  | .obj ms, j, h => by
    obtain ⟨members, hmembers, rfl⟩ := Option.map_eq_some_iff.mp h
    have hnil : ∀ e ∈ ([] : List (String × Json)),
        e.2.Canonical ∧ e.2.depth ≤ Document.depthOfMembers ms := fun e he => absurd he (by simp)
    obtain ⟨hsorted, hall⟩ :=
      canonical_of_memberValues? (Nat.le_refl _) List.Pairwise.nil hnil hmembers
    refine ⟨⟨hsorted, membersCanonical_iff.mpr fun e he => (hall e he).1⟩, ?_⟩
    exact depth_obj_le_iff.mpr fun e he => (hall e he).2

theorem canonical_of_itemValues? : ∀ {ds : List Document} {items : List Json},
    Document.itemValues? ds = some items →
      AllCanonical items ∧ depthOfItems items ≤ Document.depthOfItems ds
  | [], items, h => by
    obtain rfl := Option.some.inj h
    exact ⟨trivial, Nat.le_refl _⟩
  | d :: ds, items, h => by
    rw [Document.itemValues?] at h
    split at h
    · rename_i j js hj hjs
      obtain rfl := Option.some.inj h
      obtain ⟨hcanonical, hdepth⟩ := canonical_of_value? hj
      obtain ⟨hcanonicals, hdepths⟩ := canonical_of_itemValues? hjs
      refine ⟨⟨hcanonical, hcanonicals⟩, ?_⟩
      rw [depthOfItems, Document.depthOfItems]
      omega
    · exact absurd h (by simp)

theorem canonical_of_memberValues? {n : Nat} : ∀ {ms : List (Literal × Document)}
    {entries members : List (String × Json)}, Document.depthOfMembers ms ≤ n →
      Entries.Sorted entries → (∀ e ∈ entries, e.2.Canonical ∧ e.2.depth ≤ n) →
        Document.memberValues? entries ms = some members →
          Entries.Sorted members ∧ ∀ e ∈ members, e.2.Canonical ∧ e.2.depth ≤ n
  | [], entries, members, _, hsorted, hall, h => by
    obtain rfl := Option.some.inj h
    exact ⟨hsorted, hall⟩
  | (key, d) :: ms, entries, members, hn, hsorted, hall, h => by
    rw [Document.depthOfMembers, Nat.max_le] at hn
    rw [Document.memberValues?_cons, Option.bind_eq_some_iff] at h
    obtain ⟨k, -, h⟩ := h
    obtain ⟨j, hj, h⟩ := Option.bind_eq_some_iff.mp h
    obtain ⟨hcanonical, hdepth⟩ := canonical_of_value? hj
    refine canonical_of_memberValues? hn.2 (Entries.sorted_insert hsorted) ?_ h
    exact Entries.forall_mem_insert hall ⟨hcanonical, Nat.le_trans hdepth hn.1⟩

end

theorem canonical_of_read? {text : String} {j : Json} (h : read? text = some j) :
    j.Canonical ∧ j.depth ≤ depthLimit := by
  rw [read?, Option.bind_eq_some_iff] at h
  obtain ⟨d, -, hd⟩ := h
  split at hd
  · rename_i hlimit
    obtain ⟨hcanonical, hdepth⟩ := canonical_of_value? hd
    exact ⟨hcanonical, Nat.le_trans hdepth hlimit⟩
  · exact absurd hd (by simp)

end AlertRules.Json
