import Mathlib.Data.List.DropRight
import AlertRules.Proofs.RecordStore.Reading

/-!
# AlertRules.Proofs.RecordStore.Retention — which records are left

After records were put one by one into a file that held nothing, the file holds exactly the text of the
records that are left of them (`Holds`): the step puts one record more into it (`Holds.append`), and a
run follows by induction.  Which ones are left can be told without the file (`retained`), and in closed
form: up to 200 records all are, and afterwards the last 100, 101, … 200, over and over
(`retained_eq_rtake`).
-/

namespace AlertRules

namespace RecordStore

/-! ## What is left of a list of records -/

section Retained

variable {α : Type}

/-- What is left when one more record comes: all with the new one last, or the last 100 when that would
be more than 200. -/
def keep (kept : List α) (r : α) : List α :=
  if 200 < (kept ++ [r]).length then (kept ++ [r]).rtake 100 else kept ++ [r]

/-- What is left after the records came one after the other. -/
def retained (rs : List α) : List α :=
  rs.foldl keep []

/-- How many are left of `n` records. -/
def retainedCount (n : Nat) : Nat :=
  if n ≤ 200 then n else 100 + (n - 201) % 101

theorem retain_concat (kept : List α) (r : α) : retain (kept ++ [r]) = keep kept r := by
  unfold retain keep
  by_cases hlength : (kept ++ [r]).length ≤ maxRecords
  · have hfew : ¬ 200 < (kept ++ [r]).length := Nat.not_lt.mpr hlength
    rw [if_pos hlength, if_neg hfew]
  · have hmany : 200 < (kept ++ [r]).length := Nat.not_le.mp hlength
    rw [if_neg hlength, if_pos hmany]
    rfl

theorem retained_concat (rs : List α) (r : α) :
    retained (rs ++ [r]) = keep (retained rs) r := by
  rw [retained, List.foldl_append]
  rfl

theorem retainedCount_le (n : Nat) : retainedCount n ≤ n := by
  unfold retainedCount
  split <;> omega

theorem retainedCount_le_max (n : Nat) : retainedCount n ≤ 200 := by
  unfold retainedCount
  split <;> omega

/-- One record more is left, until there are 200. -/
theorem retainedCount_succ (n : Nat) :
    retainedCount (n + 1) = if 200 < retainedCount n + 1 then 100 else retainedCount n + 1 := by
  unfold retainedCount
  split <;> split <;> split <;> omega

theorem length_rtake_of_le {n : Nat} {rs : List α} (h : n ≤ rs.length) :
    (rs.rtake n).length = n := by
  rw [List.rtake, List.length_drop]
  omega

theorem rtake_rtake_of_le {m n : Nat} (rs : List α) (hm : m ≤ n) (hn : n ≤ rs.length) :
    (rs.rtake n).rtake m = rs.rtake m := by
  rw [List.rtake, length_rtake_of_le hn, List.rtake, List.rtake, List.drop_drop]
  congr 1
  omega

/-- Always the last ones are left, and their number depends only on how many there were. -/
theorem retained_eq_rtake (rs : List α) : retained rs = rs.rtake (retainedCount rs.length) := by
  induction rs using List.reverseRecOn with
  | nil => rfl
  | append_singleton rs r ih =>
    have hle := retainedCount_le rs.length
    have hall : rs.rtake (retainedCount rs.length) ++ [r] =
        (rs ++ [r]).rtake (retainedCount rs.length + 1) := (List.rtake_concat_succ ..).symm
    have hlength : (rs ++ [r]).length = rs.length + 1 := List.length_append
    have hcount : ((rs ++ [r]).rtake (retainedCount rs.length + 1)).length =
        retainedCount rs.length + 1 := length_rtake_of_le (by omega)
    rw [retained_concat, ih, keep, hall, hcount, hlength, retainedCount_succ]
    split
    · exact rtake_rtake_of_le _ (by omega) (by omega)
    · rfl

theorem length_retained (rs : List α) : (retained rs).length = retainedCount rs.length := by
  rw [retained_eq_rtake, length_rtake_of_le (retainedCount_le rs.length)]

theorem retained_suffix (rs : List α) : retained rs <:+ rs := by
  rw [retained_eq_rtake]
  exact List.drop_suffix ..

/-- The newest record is left. -/
theorem getLast?_retained (rs : List α) : (retained rs).getLast? = rs.getLast? := by
  induction rs using List.reverseRecOn with
  | nil => rfl
  | append_singleton rs r _ =>
    rw [retained_concat, keep, List.getLast?_concat]
    split
    · rw [List.rtake_concat_succ, List.getLast?_concat]
    · exact List.getLast?_concat

end Retained

/-- A file that was written with records is written anew with what is left of them. -/
theorem cut_write {rs : List AlertRecord} (h : ∀ r ∈ rs, r.ReadsBack) :
    (if overflows (write rs) then cut (write rs) else write rs) = write (retain rs) := by
  rw [overflows, cut, readAll_write h]
  by_cases hlength : rs.length ≤ maxRecords
  · rw [if_neg (by simpa using hlength), retain, if_pos hlength]
  · rw [if_pos (by simpa using hlength)]

end RecordStore

/-! ## Files that hold what is left -/

namespace RecordFile

open RecordStore

/-- **`f.Appended rs f'`** — the records were put into the file one after the other, each of them with
success, and `f'` are the files then. -/
inductive Appended : RecordFile → List AlertRecord → RecordFile → Prop where
  | none (f : RecordFile) : Appended f [] f
  | next {f f' f'' : RecordFile} {r : AlertRecord} {rs : List AlertRecord}
      (first : f.append r = (.ok (), f')) (rest : Appended f' rs f'') : Appended f (r :: rs) f''

/-- There is no file, or one with bytes. -/
def Plain (f : RecordFile) : Prop :=
  f.content = .missing ∨ ∃ bytes, f.content = .present bytes

/-- **`f.Holds rs`** — the file holds the text of these records, which read back, and nothing else. -/
structure Holds (f : RecordFile) (rs : List AlertRecord) : Prop where
  plain : f.Plain
  bytes_eq : f.content.bytes = write rs
  readable : ∀ r ∈ rs, r.ReadsBack

theorem Holds.readAll_eq {f : RecordFile} {rs : List AlertRecord} (h : f.Holds rs) :
    readAll f.content = rs := by
  show (lineTexts f.content.bytes).filterMap AlertRecord.ofLine? = rs
  rw [h.bytes_eq]
  exact readAll_write h.readable

theorem holds_nil {f : RecordFile} (h : f.content = .missing ∨ f.content = .present .empty) :
    f.Holds [] := by
  refine ⟨h.imp_right fun hempty => ⟨.empty, hempty⟩, ?_, by simp⟩
  rcases h with hmissing | hempty
  · rw [hmissing]
    rfl
  · rw [hempty]
    rfl

/-- What putting a record into a file can do. -/
theorem Plain.append_eq {f : RecordFile} (h : f.Plain) (r : AlertRecord) :
    f.append r =
      if overflows (extended f.content r) then
        match f.draft with
        | .blocked reason => (.error reason, { f with content := .present (extended f.content r) })
        | _ => (.ok (), ⟨.present (cut (extended f.content r)), .missing⟩)
      else (.ok (), { f with content := .present (extended f.content r) }) := by
  obtain ⟨content, draft⟩ := f
  obtain rfl | ⟨bytes, rfl⟩ : content = .missing ∨ ∃ bytes, content = .present bytes := h
  · rfl
  · rfl

theorem Plain.content_append {f f' : RecordFile} (h : f.Plain) {r : AlertRecord}
    (happend : f.append r = (.ok (), f')) :
    f'.content = .present
      (if overflows (extended f.content r) then cut (extended f.content r)
        else extended f.content r) := by
  rw [h.append_eq] at happend
  split
  · rename_i hover
    rw [if_pos hover] at happend
    split at happend
    · exact absurd (Prod.mk.inj happend).1 (by simp)
    · rw [← (Prod.mk.inj happend).2]
  · rename_i hover
    rw [if_neg hover] at happend
    rw [← (Prod.mk.inj happend).2]

/-- One more record, and the file holds what is left then. -/
theorem Holds.append {f f' : RecordFile} {rs : List AlertRecord} {r : AlertRecord} (h : f.Holds rs)
    (hr : r.ReadsBack) (happend : f.append r = (.ok (), f')) : f'.Holds (keep rs r) := by
  have hall : ∀ r' ∈ rs ++ [r], r'.ReadsBack := by
    intro r' hmem
    rcases List.mem_append.mp hmem with hold | hnew
    · exact h.readable r' hold
    · rw [List.mem_singleton.mp hnew]
      exact hr
  have hextended : extended f.content r = write (rs ++ [r]) := by
    rw [extended, h.bytes_eq, write_concat]
  have hcontent : f'.content = .present (write (keep rs r)) := by
    rw [h.plain.content_append happend, hextended, cut_write hall, retain_concat]
  refine ⟨.inr ⟨_, hcontent⟩, by rw [hcontent]; rfl, ?_⟩
  intro r' hmem
  apply hall
  unfold keep at hmem
  split at hmem
  · exact List.mem_of_mem_drop hmem
  · exact hmem

/-- Every record more is put behind those that are left. -/
theorem Holds.appended {f f' : RecordFile} {kept rs : List AlertRecord} (h : f.Holds kept)
    (hrs : ∀ r ∈ rs, r.ReadsBack) (happended : f.Appended rs f') : f'.Holds (rs.foldl keep kept) := by
  induction happended generalizing kept with
  | none f => exact h
  | next first rest ih =>
    obtain ⟨hr, hrest⟩ := List.forall_mem_cons.mp hrs
    exact ih (h.append hr first) hrest

/-! ## Runs -/

/-- The file can be written anew beside its place. -/
def Writable (f : RecordFile) : Prop :=
  ∀ reason, f.draft ≠ .blocked reason

/-- Then a record can be put into it, and one more afterwards. -/
theorem Plain.exists_append {f : RecordFile} (h : f.Plain) (hwritable : f.Writable)
    (r : AlertRecord) : ∃ f', f.append r = (.ok (), f') ∧ f'.Plain ∧ f'.Writable := by
  rw [h.append_eq]
  split
  · split
    · rename_i reason heq
      exact absurd heq (hwritable reason)
    · exact ⟨_, rfl, .inr ⟨_, rfl⟩, fun reason => by simp⟩
  · exact ⟨_, rfl, .inr ⟨_, rfl⟩, hwritable⟩

/-- Beside a place where a file can be written anew, every record can be put into the file. -/
theorem Plain.exists_appended {f : RecordFile} (h : f.Plain) (hwritable : f.Writable)
    (rs : List AlertRecord) : ∃ f', f.Appended rs f' := by
  induction rs generalizing f with
  | nil => exact ⟨f, .none f⟩
  | cons r rs ih =>
    obtain ⟨f', hfirst, hplain, hwritable'⟩ := h.exists_append hwritable r
    obtain ⟨f'', hrest⟩ := ih hplain hwritable'
    exact ⟨f'', .next hfirst hrest⟩

/-- **`recent_appended`** — after records that read back were put one by one into a file that was
missing or empty, the last `n` records that are read are the last of those that are left of them; these
are the newest of the records in their order, at most 200, and the newest one is among them. -/
theorem recent_appended {f f' : RecordFile} {rs : List AlertRecord}
    (hstart : f.content = .missing ∨ f.content = .present .empty) (hrs : ∀ r ∈ rs, r.ReadsBack)
    (happended : f.Appended rs f') :
    (∀ n, recent n f'.content = (retained rs).rtake (min n (retained rs).length)) ∧
      retained rs <:+ rs ∧ (retained rs).getLast? = rs.getLast? ∧ (retained rs).length ≤ 200 := by
  have hholds : f'.Holds (retained rs) := (holds_nil hstart).appended hrs happended
  refine ⟨fun n => ?_, retained_suffix rs, getLast?_retained rs, ?_⟩
  · rw [recent, hholds.readAll_eq, lastOf, List.rtake]
    congr 1
    omega
  · rw [length_retained]
    exact retainedCount_le_max rs.length

/-- A record with the number as its title. -/
def numbered (i : Nat) : AlertRecord where
  moment := ⟨20508, 30052, 0⟩
  room := "!r:x"
  rule := "r"
  title := toString i
  body := "b"
  tag := "matrix"
  audio := .none

theorem readsBack_numbered (i : Nat) : (numbered i).ReadsBack :=
  have hmoment : Timestamp.read (Timestamp.text ⟨20508, 30052, 0⟩) = .ok ⟨20508, 30052, 0⟩ := by
    decide +kernel
  (AlertRecord.readsBack_iff (numbered i)).mpr hmoment

/-- **`recent_appended_201`** — of 201 records that were put into a new file the last 100 are left. -/
theorem recent_appended_201 : ∃ f,
    RecordFile.none.Appended ((List.range 201).map numbered) f ∧
      recent 150 f.content = ((List.range 201).drop 101).map numbered := by
  have hplain : RecordFile.none.Plain := .inl rfl
  obtain ⟨f, happended⟩ :=
    hplain.exists_appended (fun reason => by simp [RecordFile.none]) ((List.range 201).map numbered)
  have hrs : ∀ r ∈ (List.range 201).map numbered, r.ReadsBack := by
    intro r hr
    obtain ⟨i, -, rfl⟩ := List.mem_map.mp hr
    exact readsBack_numbered i
  obtain ⟨hrecent, -, -, -⟩ := recent_appended (.inl rfl) hrs happended
  have hleft : retained ((List.range 201).map numbered) =
      ((List.range 201).drop 101).map numbered := by
    rw [retained_eq_rtake, List.rtake, List.length_map, List.length_range, List.map_drop]
    rfl
  have hlength : (((List.range 201).drop 101).map numbered).length = 100 := by
    rw [List.length_map, List.length_drop, List.length_range]
  refine ⟨f, happended, ?_⟩
  rw [hrecent, hleft, List.rtake, hlength]
  rfl

end RecordFile

end AlertRules
