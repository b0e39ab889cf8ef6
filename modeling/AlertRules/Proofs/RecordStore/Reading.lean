import Mathlib.Data.List.Induction
import AlertRules.Proofs.Json.OneLine
import AlertRules.Proofs.Json.Records
import AlertRules.Proofs.Json.RoundTrip
import AlertRules.Proofs.Text.Lines
import AlertRules.Proofs.Timestamp.RoundTrip
import AlertRules.RecordStore

/-!
# AlertRules.Proofs.RecordStore.Reading — the records in a file

A record that is written stands on a line of its own, whatever its texts are, since the line holds no
line feed but the one at its end.  So records whose lines read back are read from a file that was
written with them, in the same order (`readAll_write`).  Every text of a record is read as it was
written, and so the line of a record reads back iff its moment does (`AlertRecord.readsBack_iff`); a
record that has been read can therefore be written and read again (`AlertRecord.readsBack_of_ofLine?`).
-/

namespace AlertRules

namespace AlertRecord

open Json

/-! ## The line of a record -/

/-- From the line of the record the record is read. -/
def ReadsBack (r : AlertRecord) : Prop :=
  ofLine? r.toJson.compact = some r

/-- The members that are read from the line of the record. -/
def spelled (r : AlertRecord) : List (String × Document) :=
  [("ts", .str (some r.moment.text)), ("room_id", .str (some r.room)),
    ("rule_id", .str (some r.rule)), ("title", .str (some r.title)), ("body", .str (some r.body)),
    ("tag", .str (some r.tag))] ++ (r.audio.map fun a => ("audio", .str (some a))).toList

theorem view_doc (r : AlertRecord) :
    Source.view r.toJson.reread.doc = some (.obj r.spelled) := by
  obtain ⟨moment, room, rule, title, body, tag, audio⟩ := r
  cases audio <;> rfl

/-- A record is read field by field. -/
theorem build_eq_ok_iff {δ : Type} [Source δ] {lookup : Lookup δ} {r : AlertRecord} :
    record.build lookup = .ok r ↔
      (Record.required "ts" Read.moment).build lookup = .ok r.moment ∧
      (Record.required "room_id" Read.text).build lookup = .ok r.room ∧
      (Record.required "rule_id" Read.text).build lookup = .ok r.rule ∧
      (Record.required "title" Read.text).build lookup = .ok r.title ∧
      (Record.required "body" Read.text).build lookup = .ok r.body ∧
      (Record.required "tag" Read.text).build lookup = .ok r.tag ∧
      (Record.optional "audio" Read.text).build lookup = .ok r.audio := by
  unfold record
  simp only [Record.build_seq_eq_ok_iff, Record.build_map_eq_ok_iff]
  constructor
  · rintro ⟨_, audio, ⟨_, tag, ⟨_, body, ⟨_, title, ⟨_, rule, ⟨_, room, ⟨moment, hmoment, rfl⟩,
      hroom, rfl⟩, hrule, rfl⟩, htitle, rfl⟩, hbody, rfl⟩, htag, rfl⟩, haudio, rfl⟩
    exact ⟨hmoment, hroom, hrule, htitle, hbody, htag, haudio⟩
  · rintro ⟨hmoment, hroom, hrule, htitle, hbody, htag, haudio⟩
    exact ⟨_, _, ⟨_, _, ⟨_, _, ⟨_, _, ⟨_, _, ⟨_, _, ⟨_, hmoment, rfl⟩, hroom, rfl⟩, hrule, rfl⟩,
      htitle, rfl⟩, hbody, rfl⟩, htag, rfl⟩, haudio, rfl⟩

/-- Of what is written everything is read as it was but, perhaps, the moment. -/
theorem build_spelled_iff (r : AlertRecord) :
    record.build ⟨Record.memberNamed r.spelled, .missingField⟩ = .ok r ↔
      Timestamp.read r.moment.text = .ok r.moment := by
  obtain ⟨moment, room, rule, title, body, tag, audio⟩ := r
  have hts : Record.memberNamed (spelled ⟨moment, room, rule, title, body, tag, audio⟩) "ts" =
      .ok (some (.str (some moment.text))) := by
    cases audio <;> rfl
  rw [build_eq_ok_iff, Record.build_required_of_get hts, Read.moment_eq_ok_iff rfl]
  refine and_iff_left ?_
  cases audio <;> exact ⟨rfl, rfl, rfl, rfl, rfl, rfl⟩

/-- A record reads back iff its moment does. -/
theorem readsBack_iff (r : AlertRecord) :
    r.ReadsBack ↔ Timestamp.read r.moment.text = .ok r.moment := by
  have hline : ofLine? r.toJson.compact = (read r.toJson.reread.doc).toOption := by
    rw [ofLine?, compact, Document.read?_render]
    rfl
  have hread : read r.toJson.reread.doc = record.ofMembers r.spelled := by
    rw [read, Record.read, view_doc]
  rw [ReadsBack, hline, hread, ← build_spelled_iff, ← Record.ofMembers_eq_ok_iff]
  cases record.ofMembers r.spelled with
  | ok r' => simp [Except.toOption]
  | error refusal => simp [Except.toOption]

/-! ## Records that are read -/

theorem readsBack_of_valid {r : AlertRecord} (h : r.moment.Valid) : r.ReadsBack :=
  (readsBack_iff r).mpr h.read_text

theorem valid_of_moment {δ : Type} [Source δ] {d : δ} {t : Timestamp} (h : Read.moment d = .ok t) :
    t.Valid := by
  unfold Read.moment at h
  split at h
  · rename_i s _
    cases hs : Timestamp.read s with
    | error fault =>
      rw [hs] at h
      exact absurd h (by simp [Except.mapError])
    | ok t' =>
      rw [hs] at h
      obtain rfl : t' = t := Except.ok.inj h
      exact Timestamp.valid_of_read hs
  · exact absurd h (by simp)

theorem valid_of_build {δ : Type} [Source δ] {lookup : Lookup δ} {r : AlertRecord}
    (h : record.build lookup = .ok r) : r.moment.Valid := by
  obtain ⟨hts, -⟩ := build_eq_ok_iff.mp h
  unfold Record.required at hts
  dsimp only at hts
  split at hts
  · exact absurd hts (by simp)
  · exact absurd hts (by simp)
  · exact valid_of_moment hts

/-- What is read from a line can be written and read again. -/
theorem readsBack_of_ofLine? {s : String} {r : AlertRecord} (h : ofLine? s = some r) :
    r.ReadsBack := by
  obtain ⟨d, -, hd⟩ := Option.bind_eq_some_iff.mp h
  have hread : read d = .ok r := by
    cases hread : read d with
    | error refusal =>
      rw [hread] at hd
      exact absurd hd (by simp [Except.toOption])
    | ok r' =>
      rw [hread] at hd
      exact congrArg Except.ok (Option.some.inj hd)
  refine readsBack_of_valid ?_
  unfold read Record.read at hread
  split at hread
  · exact valid_of_build (Record.ofMembers_eq_ok_iff.mp hread)
  · unfold Record.ofItems at hread
    dsimp only at hread
    split at hread
    · exact absurd hread (by simp)
    · rename_i hbuild
      split at hread
      · obtain rfl := Except.ok.inj hread
        exact valid_of_build hbuild
      · exact absurd hread (by simp)
  · exact absurd hread (by simp)

end AlertRecord

namespace RecordStore

open Text (utf8Bytes)

/-! ## Lines -/

theorem utf8Bytes_line (text : String) : utf8Bytes (text ++ "\n") = utf8Bytes text ++ [10] :=
  Text.utf8Bytes_append text "\n"

/-- A text without line feeds is the first line of a file that begins with it. -/
theorem lineTexts_line_append {text : String} (h : '\n' ∉ text.toList) (rest : ByteArray) :
    lineTexts ((text ++ "\n").toUTF8 ++ rest) = text :: lineTexts rest := by
  have hbytes : ((text ++ "\n").toUTF8 ++ rest).toList = utf8Bytes text ++ 10 :: rest.toList := by
    rw [Text.toList_eq, ByteArray.toList_data_append, ← Text.toList_eq rest]
    show utf8Bytes (text ++ "\n") ++ _ = _
    rw [utf8Bytes_line, List.append_assoc, List.singleton_append]
  have htext : String.fromUTF8? ⟨(utf8Bytes text).toArray⟩ = some text :=
    Text.fromUTF8?_toUTF8 text
  rw [lineTexts, hbytes, Text.pieces_append_cons (Text.lineFeed_notMem_utf8Bytes h), List.map_cons,
    htext]
  rfl

theorem lineTexts_empty : lineTexts .empty = [""] := by
  have hpieces : Text.pieces 10 (ByteArray.empty).toList = [[]] := by
    rw [Text.toList_eq]
    rfl
  have hempty : String.fromUTF8? ⟨([] : List UInt8).toArray⟩ = some "" := Text.fromUTF8?_toUTF8 ""
  rw [lineTexts, hpieces, List.map_singleton, hempty]
  rfl

/-! ## Records -/

theorem readAll_line_append {r : AlertRecord} (h : r.ReadsBack) (rest : ByteArray) :
    readAll (.present (r.line.toUTF8 ++ rest)) = r :: readAll (.present rest) := by
  show (lineTexts (r.line.toUTF8 ++ rest)).filterMap AlertRecord.ofLine? = _
  rw [AlertRecord.line, lineTexts_line_append (Json.lineFeed_notMem_compact r.toJson),
    List.filterMap_cons_some h]
  rfl

theorem readAll_empty : readAll (.present .empty) = [] := by
  show (lineTexts .empty).filterMap AlertRecord.ofLine? = _
  rw [lineTexts_empty]
  rfl

theorem write_concat (rs : List AlertRecord) (r : AlertRecord) :
    write (rs ++ [r]) = write rs ++ r.line.toUTF8 := by
  rw [write, write, List.foldl_append, List.foldl_cons, List.foldl_nil]
  exact String.toByteArray_append

theorem write_cons (r : AlertRecord) (rs : List AlertRecord) :
    write (r :: rs) = r.line.toUTF8 ++ write rs := by
  induction rs using List.reverseRecOn with
  | nil =>
    show ("" ++ r.line).toUTF8 = r.line.toUTF8 ++ "".toUTF8
    rw [String.empty_append]
    exact ByteArray.append_empty.symm
  | append_singleton rs last ih =>
    rw [← List.cons_append, write_concat, ih, write_concat, ByteArray.append_assoc]

/-- What was written is read. -/
theorem readAll_write {rs : List AlertRecord} (h : ∀ r ∈ rs, r.ReadsBack) :
    readAll (.present (write rs)) = rs := by
  induction rs with
  | nil => exact readAll_empty
  | cons r rs ih =>
    obtain ⟨hr, hrs⟩ := List.forall_mem_cons.mp h
    rw [write_cons, readAll_line_append hr, ih hrs]

end RecordStore

end AlertRules
