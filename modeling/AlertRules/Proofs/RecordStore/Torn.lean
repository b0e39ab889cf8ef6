import AlertRules.Proofs.Json.Glued
import AlertRules.Proofs.RecordStore.Retention

/-!
# AlertRules.Proofs.RecordStore.Torn — records behind whatever a file holds

A record is put behind the last byte of a file, and reading ends at the first line that is no text.  So
what becomes of the record depends on what the file held before.  A file is **clean** if all its lines
are texts and only blanks stand behind the last line feed, as in one that only records have been written
to (`clean_write`).  In a clean file the new record is read, and so is every older one that is not among
those dropped; in any other file the new record is not read, and an older one on an unfinished last line
is lost with it (`stored_or_unread`).
-/

namespace AlertRules

namespace AlertRecord

open Json

/-! ## Records behind something else -/

theorem bare_ts : Bare "ts" :=
  fun _ _ => rfl

theorem ofLine?_blank_append {p : String} (h : Blank p.toList) (s : String) :
    ofLine? (p ++ s) = ofLine? s := by
  rw [ofLine?, ofLine?, Document.read?_blank_append h]

theorem ofLine?_blank {p : String} (h : Blank p.toList) : ofLine? p = none := by
  rw [ofLine?, Document.read?_blank h]
  rfl

theorem ofLine?_empty : ofLine? "" = none :=
  ofLine?_blank fun c hc => absurd hc (by simp)

theorem ofLine?_glued {p : String} (h : ¬ Blank p.toList) (r : AlertRecord) :
    ofLine? (p ++ r.toJson.compact) = none := by
  rw [ofLine?, toJson, Document.read?_glued h bare_ts]
  rfl

end AlertRecord

namespace RecordStore

open Text

/-! ## Lines that are texts -/

/-- The lines up to the first one that is no text. -/
def textsOf (lines : List (List UInt8)) : List String :=
  ((lines.map fun line => String.fromUTF8? ⟨line.toArray⟩).takeWhile Option.isSome).filterMap id

theorem textsOf_nil : textsOf [] = [] :=
  rfl

theorem textsOf_cons_text (s : String) (lines : List (List UInt8)) :
    textsOf (utf8Bytes s :: lines) = s :: textsOf lines := by
  have hs : String.fromUTF8? ⟨(utf8Bytes s).toArray⟩ = some s := fromUTF8?_eq_some_iff.mpr rfl
  rw [textsOf, List.map_cons, hs]
  rfl

theorem textsOf_cons_of_not_isText {line : List UInt8} (h : ¬ IsText line)
    (lines : List (List UInt8)) : textsOf (line :: lines) = [] := by
  have hnone : String.fromUTF8? ⟨line.toArray⟩ = none := by
    rw [← Option.not_isSome_iff_eq_none, isSome_fromUTF8?_iff]
    exact h
  rw [textsOf, List.map_cons, hnone]
  rfl

theorem textsOf_empty : textsOf [[]] = [""] :=
  textsOf_cons_text "" []

/-- Lines behind texts are read, and lines behind anything else are not. -/
theorem textsOf_append (lines lines' : List (List UInt8)) :
    (∀ line ∈ lines, IsText line) ∧ textsOf (lines ++ lines') = textsOf lines ++ textsOf lines' ∨
      ¬ (∀ line ∈ lines, IsText line) ∧ textsOf (lines ++ lines') = textsOf lines := by
  induction lines with
  | nil => exact .inl ⟨fun line hline => absurd hline (by simp), rfl⟩
  | cons line lines ih =>
    by_cases hline : IsText line
    · obtain ⟨s, rfl⟩ := hline
      rw [List.cons_append, textsOf_cons_text, textsOf_cons_text, List.forall_mem_cons]
      rcases ih with ⟨hall, happend⟩ | ⟨hsome, happend⟩
      · exact .inl ⟨⟨⟨s, rfl⟩, hall⟩, by rw [happend]; rfl⟩
      · exact .inr ⟨fun h => hsome h.2, by rw [happend]⟩
    · rw [List.cons_append, textsOf_cons_of_not_isText hline, textsOf_cons_of_not_isText hline]
      exact .inr ⟨fun h => hline (h line List.mem_cons_self), rfl⟩

/-! ## One more line -/

/-- **`Clean bytes`** — every line is a text, and only blanks stand behind the last line feed. -/
structure Clean (bytes : ByteArray) : Prop where
  texts : ∀ line ∈ pieces 10 bytes.toList, IsText line
  blank : ∀ s, (pieces 10 bytes.toList).getLast? = some (utf8Bytes s) → Json.Blank s.toList

theorem pieces_write (rs : List AlertRecord) :
    pieces 10 (write rs).toList = rs.map (fun r => utf8Bytes r.toJson.compact) ++ [[]] := by
  induction rs with
  | nil =>
    rw [toList_eq]
    rfl
  | cons r rs ih =>
    have hbytes : (write (r :: rs)).toList =
        utf8Bytes r.toJson.compact ++ 10 :: (write rs).toList := by
      rw [write_cons, toList_eq, ByteArray.toList_data_append, ← toList_eq (write rs)]
      show utf8Bytes (r.toJson.compact ++ "\n") ++ _ = _
      rw [utf8Bytes_line, List.append_assoc, List.singleton_append]
    have hfeed : (10 : UInt8) ∉ utf8Bytes r.toJson.compact :=
      lineFeed_notMem_utf8Bytes (Json.lineFeed_notMem_compact r.toJson)
    rw [hbytes, pieces_append_cons hfeed, ih, List.map_cons, List.cons_append]

/-- Whatever was written is clean, also after no record at all. -/
theorem clean_write (rs : List AlertRecord) : Clean (write rs) := by
  constructor
  · intro line hline
    rw [pieces_write, List.mem_append, List.mem_singleton] at hline
    rcases hline with hrecord | rfl
    · obtain ⟨r, -, rfl⟩ := List.mem_map.mp hrecord
      exact ⟨r.toJson.compact, rfl⟩
    · exact ⟨"", rfl⟩
  · intro s hs
    rw [pieces_write, List.getLast?_concat] at hs
    obtain rfl : "" = s := utf8Bytes_inj.mp (Option.some.inj hs)
    exact fun c hc => absurd hc (by simp)

/-- The new record continues the last line. -/
theorem exists_lines (c : File.Content) (r : AlertRecord) : ∃ lines last,
    pieces 10 c.bytes.toList = lines ++ [last] ∧
      lineTexts (extended c r) = textsOf (lines ++ [last ++ utf8Bytes r.toJson.compact, []]) := by
  obtain ⟨lines, last, hlines, happend⟩ := exists_lastPiece 10 c.bytes.toList
  refine ⟨lines, last, hlines, ?_⟩
  have hbytes : (extended c r).toList = c.bytes.toList ++ (utf8Bytes r.toJson.compact ++ [10]) := by
    rw [extended, toList_eq, ByteArray.toList_data_append, ← toList_eq]
    show _ ++ utf8Bytes (r.toJson.compact ++ "\n") = _
    rw [utf8Bytes_line]
  have hfeed : (10 : UInt8) ∉ utf8Bytes r.toJson.compact :=
    lineFeed_notMem_utf8Bytes (Json.lineFeed_notMem_compact r.toJson)
  rw [← happend _ hfeed, ← hbytes]
  rfl

/-- What stands before the line of a record is a text if both together are one. -/
theorem isText_of_append_compact {last : List UInt8} {r : AlertRecord}
    (h : IsText (last ++ utf8Bytes r.toJson.compact)) : IsText last := by
  obtain ⟨b, bs, hb, hbytes⟩ : ∃ b bs, b.toNat < 128 ∧ utf8Bytes r.toJson.compact = b :: bs := by
    rw [utf8Bytes_eq_flatMap]
    exact ⟨123, _, by decide, by rw [AlertRecord.toJson, Json.compact, String.toList_ofList]; rfl⟩
  rw [hbytes] at h
  exact h.of_append_cons hb

/-- In a clean file the new record is read behind the others. -/
theorem Clean.readAll_extended {c : File.Content} (h : Clean c.bytes) {r : AlertRecord}
    (hr : r.ReadsBack) : readAll (.present (extended c r)) = readAll c ++ [r] := by
  obtain ⟨lines, last, hlines, hextended⟩ := exists_lines c r
  have hall := h.texts
  rw [hlines, List.forall_mem_append] at hall
  obtain ⟨s, rfl⟩ := hall.2 last (by simp)
  have hblank : Json.Blank s.toList := h.blank s (by rw [hlines, List.getLast?_concat])
  have hold : lineTexts c.bytes = textsOf lines ++ [s] := by
    show textsOf (pieces 10 c.bytes.toList) = _
    rw [hlines]
    rcases textsOf_append lines [utf8Bytes s] with ⟨-, happend⟩ | ⟨hnot, -⟩
    · rw [happend, textsOf_cons_text, textsOf_nil]
    · exact absurd hall.1 hnot
  have hnew : lineTexts (extended c r) = textsOf lines ++ [s ++ r.toJson.compact, ""] := by
    rw [hextended, ← utf8Bytes_append]
    rcases textsOf_append lines [utf8Bytes (s ++ r.toJson.compact), []] with ⟨-, happend⟩ | ⟨hnot, -⟩
    · rw [happend, textsOf_cons_text, textsOf_empty]
    · exact absurd hall.1 hnot
  have hline : AlertRecord.ofLine? (s ++ r.toJson.compact) = some r := by
    rw [AlertRecord.ofLine?_blank_append hblank]
    exact hr
  show (lineTexts (extended c r)).filterMap _ = (lineTexts c.bytes).filterMap _ ++ [r]
  rw [hold, hnew, List.filterMap_append, List.filterMap_append, List.filterMap_cons_some hline,
    List.filterMap_cons_none (AlertRecord.ofLine?_blank hblank),
    List.filterMap_cons_none AlertRecord.ofLine?_empty, List.filterMap_nil, List.append_nil]

/-- In any other file nothing new is read. -/
theorem readAll_extended_of_not_clean {c : File.Content} (h : ¬ Clean c.bytes) (r : AlertRecord) :
    readAll (.present (extended c r)) <+: readAll c := by
  obtain ⟨lines, last, hlines, hextended⟩ := exists_lines c r
  show (lineTexts (extended c r)).filterMap AlertRecord.ofLine? <+:
    (textsOf (pieces 10 c.bytes.toList)).filterMap AlertRecord.ofLine?
  rw [hextended, hlines]
  rcases textsOf_append lines [last ++ utf8Bytes r.toJson.compact, []] with
    ⟨hall, hnew⟩ | ⟨hnot, hnew⟩
  · -- the last line is no text, and the new one neither, or it holds more than blanks
    have hprefix : textsOf lines <+: textsOf (lines ++ [last]) := by
      rcases textsOf_append lines [last] with ⟨-, hold⟩ | ⟨hnot, -⟩
      · rw [hold]
        exact List.prefix_append ..
      · exact absurd hall hnot
    have hnothing :
        (textsOf [last ++ utf8Bytes r.toJson.compact, []]).filterMap AlertRecord.ofLine? = [] := by
      by_cases hlast : IsText last
      · obtain ⟨s, rfl⟩ := hlast
        have hblank : ¬ Json.Blank s.toList := by
          intro hblank
          refine h ⟨?_, fun s' hs' => ?_⟩
          · rw [hlines, List.forall_mem_append]
            exact ⟨hall, fun line hline => ⟨s, (List.mem_singleton.mp hline).symm⟩⟩
          · rw [hlines, List.getLast?_concat] at hs'
            rw [← utf8Bytes_inj.mp (Option.some.inj hs')]
            exact hblank
        rw [← utf8Bytes_append, textsOf_cons_text, textsOf_empty,
          List.filterMap_cons_none (AlertRecord.ofLine?_glued hblank r),
          List.filterMap_cons_none AlertRecord.ofLine?_empty, List.filterMap_nil]
      · rw [textsOf_cons_of_not_isText fun htext => hlast (isText_of_append_compact htext)]
        rfl
    rw [hnew, List.filterMap_append, hnothing, List.append_nil]
    exact hprefix.filterMap AlertRecord.ofLine?
  · rw [hnew]
    rcases textsOf_append lines [last] with ⟨hall, -⟩ | ⟨-, hold⟩
    · exact absurd hall hnot
    · exact hold.symm ▸ List.prefix_rfl

theorem mem_of_mem_retain {α : Type} {rs : List α} {r : α} (h : r ∈ retain rs) : r ∈ rs := by
  unfold retain at h
  split at h
  · exact h
  · exact List.mem_of_mem_drop h

theorem readsBack_of_mem_readAll {c : File.Content} {r : AlertRecord} (h : r ∈ readAll c) :
    r.ReadsBack := by
  obtain ⟨line, -, hline⟩ := List.mem_filterMap.mp h
  exact AlertRecord.readsBack_of_ofLine? hline

/-- A file that is written anew holds what is left of its records. -/
theorem readAll_cut (bytes : ByteArray) :
    readAll (.present (if overflows bytes then cut bytes else bytes)) =
      retain (readAll (.present bytes)) := by
  by_cases hover : overflows bytes = true
  · rw [if_pos hover, cut]
    exact readAll_write fun r hr => readsBack_of_mem_readAll (mem_of_mem_retain hr)
  · rw [if_neg hover]
    have hfew : (readAll (.present bytes)).length ≤ maxRecords := by
      rw [overflows, decide_eq_true_eq] at hover
      exact Nat.not_lt.mp hover
    rw [retain, if_pos hfew]

end RecordStore

/-! ## Records that are put into a file -/

namespace RecordFile

open RecordStore

/-- **`f.Stored r f'`** — in the file `f'` the record is the newest, and the others are those of `f`, or
the last of them when there were too many. -/
structure Stored (f : RecordFile) (r : AlertRecord) (f' : RecordFile) : Prop where
  newest : recent 1 f'.content = [r]
  others : readAll f'.content = keep (readAll f.content) r

theorem Plain.readAll_append {f f' : RecordFile} (h : f.Plain) {r : AlertRecord}
    (happend : f.append r = (.ok (), f')) :
    readAll f'.content = retain (readAll (.present (extended f.content r))) := by
  rw [h.content_append happend, readAll_cut]

theorem recent_one_keep {c : File.Content} {kept : List AlertRecord} {r : AlertRecord}
    (h : readAll c = keep kept r) : recent 1 c = [r] := by
  obtain ⟨before, hbefore⟩ : ∃ before, readAll c = before ++ [r] := by
    rw [h, keep]
    split
    · exact ⟨kept.rtake 99, List.rtake_concat_succ ..⟩
    · exact ⟨kept, rfl⟩
  rw [recent, hbefore, lastOf, List.length_append, List.length_singleton, Nat.add_sub_cancel,
    List.drop_left]

/-- **`stored_or_unread`** — a record that was put into a file with success, and that its line gives
back, is stored if the file was clean; if it was not, nothing is read then that was not read before. -/
theorem stored_or_unread {f f' : RecordFile} {r : AlertRecord} (h : f.Plain) (hr : r.ReadsBack)
    (happend : f.append r = (.ok (), f')) :
    (Clean f.content.bytes → f.Stored r f') ∧
      (¬ Clean f.content.bytes → ∀ r' ∈ readAll f'.content, r' ∈ readAll f.content) := by
  have hread := h.readAll_append happend
  constructor
  · intro hclean
    have hothers : readAll f'.content = keep (readAll f.content) r := by
      rw [hread, hclean.readAll_extended hr, retain_concat]
    exact ⟨recent_one_keep hothers, hothers⟩
  · intro hclean r' hr'
    rw [hread] at hr'
    exact (readAll_extended_of_not_clean hclean r).subset (mem_of_mem_retain hr')

/-- A file whose only line is that of a record, without its end. -/
def unfinished (r : AlertRecord) : RecordFile :=
  ⟨.present r.toJson.compact.toUTF8, .missing⟩

theorem plain_unfinished (r : AlertRecord) : (unfinished r).Plain :=
  .inr ⟨_, rfl⟩

theorem pieces_unfinished (r : AlertRecord) :
    Text.pieces 10 (unfinished r).content.bytes.toList = [Text.utf8Bytes r.toJson.compact] := by
  dsimp only [unfinished, File.Content.bytes]
  rw [Text.toList_eq, ← Text.utf8Bytes, Text.pieces_of_notMem
    (Text.lineFeed_notMem_utf8Bytes (Json.lineFeed_notMem_compact r.toJson))]

theorem not_blank_compact (r : AlertRecord) : ¬ Json.Blank r.toJson.compact.toList := by
  intro hblank
  rw [Json.compact, String.toList_ofList, AlertRecord.toJson, Json.render] at hblank
  exact absurd (hblank _ List.mem_cons_self) (by decide)

theorem not_clean_unfinished (r : AlertRecord) : ¬ Clean (unfinished r).content.bytes := by
  intro hclean
  exact not_blank_compact r (hclean.blank _ (by rw [pieces_unfinished]; rfl))

theorem readAll_unfinished {r : AlertRecord} (h : r.ReadsBack) :
    readAll (unfinished r).content = [r] := by
  show (textsOf (Text.pieces 10 (unfinished r).content.bytes.toList)).filterMap
    AlertRecord.ofLine? = [r]
  rw [pieces_unfinished, textsOf_cons_text, textsOf_nil, List.filterMap_cons_some h]
  rfl

/-- Two records on one line are none. -/
theorem readAll_extended_unfinished (r r' : AlertRecord) :
    readAll (.present (extended (unfinished r).content r')) = [] := by
  obtain ⟨lines, last, hlines, hextended⟩ := exists_lines (unfinished r).content r'
  rw [pieces_unfinished] at hlines
  obtain ⟨hnone, hlast⟩ : lines = [] ∧ last = Text.utf8Bytes r.toJson.compact := by
    cases lines with
    | nil =>
      rw [List.nil_append, List.singleton_inj] at hlines
      exact ⟨rfl, hlines.symm⟩
    | cons line lines => simp at hlines
  show (lineTexts (extended (unfinished r).content r')).filterMap AlertRecord.ofLine? = []
  rw [hextended, hnone, hlast, List.nil_append, ← Text.utf8Bytes_append, textsOf_cons_text, textsOf_empty,
    List.filterMap_cons_none (AlertRecord.ofLine?_glued (not_blank_compact r) r'),
    List.filterMap_cons_none AlertRecord.ofLine?_empty, List.filterMap_nil]

theorem exists_append_unfinished (r r' : AlertRecord) :
    ∃ f', (unfinished r).append r' = (.ok (), f') := by
  obtain ⟨f', happend, -⟩ :=
    (plain_unfinished r).exists_append (fun reason => by simp [unfinished]) r'
  exact ⟨f', happend⟩

/-- Behind the line of a record another one is stored; behind the same line without its end one is put
with success too, and it is not read. -/
theorem stored_or_unread_numbered :
    (∃ f', RecordFile.append ⟨.present (write [numbered 0]), .missing⟩ (numbered 1) = (.ok (), f') ∧
      RecordFile.Stored ⟨.present (write [numbered 0]), .missing⟩ (numbered 1) f' ∧
      readAll f'.content = [numbered 0, numbered 1]) ∧
    ∃ f', (unfinished (numbered 0)).append (numbered 1) = (.ok (), f') ∧
      numbered 1 ∉ readAll f'.content := by
  constructor
  · have hplain : RecordFile.Plain ⟨.present (write [numbered 0]), .missing⟩ := .inr ⟨_, rfl⟩
    obtain ⟨f', happend, -⟩ := hplain.exists_append (fun reason => by simp) (numbered 1)
    have hstored := (stored_or_unread hplain (readsBack_numbered 1) happend).1 (clean_write _)
    refine ⟨f', happend, hstored, ?_⟩
    rw [hstored.others, readAll_write (by simp [readsBack_numbered])]
    rfl
  · obtain ⟨f', happend⟩ := exists_append_unfinished (numbered 0) (numbered 1)
    have hold := (stored_or_unread (plain_unfinished _) (readsBack_numbered 1) happend).2
      (not_clean_unfinished (numbered 0))
    refine ⟨f', happend, fun hmem => ?_⟩
    have hsame := hold _ hmem
    rw [readAll_unfinished (readsBack_numbered 0), List.mem_singleton] at hsame
    exact absurd (congrArg AlertRecord.title hsame) (by decide)

/-- **`not_stored_unfinished`** — a record that is put into a file with success need not be stored: when
the last line is a whole record without its end, neither that record nor the new one is read then. -/
theorem not_stored_unfinished : ∃ f',
    (unfinished (numbered 0)).append (numbered 1) = (.ok (), f') ∧
      (unfinished (numbered 0)).Plain ∧ (numbered 1).ReadsBack ∧
      readAll (unfinished (numbered 0)).content = [numbered 0] ∧
      ¬ (unfinished (numbered 0)).Stored (numbered 1) f' ∧ readAll f'.content = [] := by
  obtain ⟨f', happend⟩ := exists_append_unfinished (numbered 0) (numbered 1)
  have hnone : readAll f'.content = [] := by
    rw [(plain_unfinished _).readAll_append happend, readAll_extended_unfinished]
    rfl
  refine ⟨f', happend, plain_unfinished _, readsBack_numbered 1,
    readAll_unfinished (readsBack_numbered 0), fun hstored => ?_, hnone⟩
  have hnewest := hstored.newest
  rw [recent, hnone] at hnewest
  exact absurd hnewest (by simp [lastOf])

end RecordFile

end AlertRules
