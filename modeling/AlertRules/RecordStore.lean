import AlertRules.File
import AlertRules.Record
import AlertRules.Text.Pieces

/-!
# AlertRules.RecordStore — the file of records

The file holds one record to a line.  Lines that hold no record are passed over, and reading ends at
the first line that is no text.  A new record is put behind whatever the file holds; when more than
`maxRecords` can be read then, the file is written anew with the last `keptRecords` of them.  That is
done beside the old file, whose place the new one takes only when it is complete (`RecordFile`).
-/

namespace AlertRules

namespace RecordStore

/-- How many records the file may hold. -/
def maxRecords : Nat := 200

/-- How many are left when there are too many. -/
def keptRecords : Nat := 100

/-- The last `n` of a list, or all of it. -/
def lastOf {α : Type} (n : Nat) (rs : List α) : List α :=
  rs.drop (rs.length - n)

/-- What is left of the records: all, or the last ones when there are too many. -/
def retain {α : Type} (rs : List α) : List α :=
  if rs.length ≤ maxRecords then rs else lastOf keptRecords rs

/-- The lines of a file, up to the first one that is no text. -/
def lineTexts (bytes : ByteArray) : List String :=
  ((Text.pieces 10 bytes.toList).map fun line => String.fromUTF8? ⟨line.toArray⟩).takeWhile
    Option.isSome |>.filterMap id

/-- The records of a file. -/
def readAll (c : File.Content) : List AlertRecord :=
  (lineTexts c.bytes).filterMap AlertRecord.ofLine?

/-- The last `n` records of a file. -/
def recent (n : Nat) (c : File.Content) : List AlertRecord :=
  lastOf n (readAll c)

/-- A file with these records. -/
def write (rs : List AlertRecord) : ByteArray :=
  (rs.foldl (fun text r => text ++ r.line) "").toUTF8

/-- What the file holds with one more record. -/
def extended (c : File.Content) (r : AlertRecord) : ByteArray :=
  -- a last line without its end is continued by the new record
  c.bytes ++ r.line.toUTF8

/-- There are too many records. -/
def overflows (bytes : ByteArray) : Bool :=
  maxRecords < (readAll (.present bytes)).length

/-- The file written anew with what is left of the records. -/
def cut (bytes : ByteArray) : ByteArray :=
  write (retain (readAll (.present bytes)))

/-- Where the records lie in the user's home. -/
def homePath (home : String) : String :=
  home ++ "/.config/push-rules/presented.jsonl"

end RecordStore

/-- The file of records, and what lies under the path beside it to which it is written anew.  That file
takes the place of the old one in the end. -/
structure RecordFile where
  content : File.Content
  draft : File.Content

/-- No file yet, and nothing beside it. -/
def RecordFile.none : RecordFile := ⟨.missing, .missing⟩

/-- Whether a record could be put into the file, and the files then.  When the file cannot be written
anew, the record is in it all the same. -/
def RecordFile.append (f : RecordFile) (r : AlertRecord) : Except String Unit × RecordFile :=
  match f.content with
  | .blocked reason => (.error reason, f)
  | .void => (.ok (), f)
  | c =>
    let bytes := RecordStore.extended c r
    if RecordStore.overflows bytes then
      match f.draft with
      | .blocked reason => (.error reason, { f with content := .present bytes })
      | _ => (.ok (), ⟨.present (RecordStore.cut bytes), .missing⟩)
    else (.ok (), { f with content := .present bytes })

end AlertRules
