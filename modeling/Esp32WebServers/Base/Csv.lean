import Esp32WebServers.Base.Bytes

/-!
# Comma-separated values

Library `Base`. Records of fields as `csv.writer` of Python writes them by default: a field is
quoted where it holds a comma, a quote or a byte of a line end, its quotes are doubled, and a
record of one empty field is quoted so that it is not an empty line. The reader takes such a
text byte by byte.
-/

namespace Esp32WebServers.Base.Csv

/-- Whether a byte makes the writer quote its field. -/
def special (b : UInt8) : Bool := b == 44 || b == 34 || b == 13 || b == 10

/-- The text of a field between its quotes. -/
def double : Bytes → Bytes
  | [] => []
  | b :: s => if b = 34 then 34 :: 34 :: double s else b :: double s

/-- A quoted field. -/
def quote (field : Bytes) : Bytes := 34 :: (double field ++ [34])

/-- A field, quoted where it has to be. -/
def writeField (field : Bytes) : Bytes := if field.any special then quote field else field

/-- Fields with commas between them. -/
def writeFields : List Bytes → Bytes
  | [] => []
  | [field] => writeField field
  | field :: fields => writeField field ++ 44 :: writeFields fields

/-- A record with its line end: what `writerow` writes. -/
def writeRow (fields : List Bytes) : Bytes :=
  (if fields = [[]] then quote [] else writeFields fields) ++ crlf

/-- Where a reader is: before a record, before a field, in an unquoted or a quoted field, behind
a quote in a quoted field, or behind the carriage return at the end of a record. -/
inductive Mode where
  | record
  | field
  | plain
  | quoted
  | closed
  | ending
  deriving DecidableEq

/-- A reader: the records and, of the next one, the fields that it has read, and the bytes of the
next field. -/
structure Reader where
  records : List (List Bytes)
  fields : List Bytes
  field : Bytes
  mode : Mode
  deriving DecidableEq

namespace Reader

/-- A reader in front of a text. -/
def start : Reader := ⟨[], [], [], .record⟩

/-- The field is complete. -/
def save (r : Reader) (mode : Mode) : Reader := ⟨r.records, r.fields ++ [r.field], [], mode⟩

/-- One more byte of the field. -/
def push (r : Reader) (b : UInt8) (mode : Mode) : Reader := { r with field := r.field ++ [b], mode }

/-- One byte of the text; `none` where no record can have it. -/
def step (r : Reader) (b : UInt8) : Option Reader :=
  match r.mode with
  | .record =>
    if b = 44 then some (r.save .field)
    else if b = 34 then some { r with mode := .quoted }
    else if b = 13 then some { r with mode := .ending }
    else if b = 10 then none
    else some (r.push b .plain)
  | .field =>
    if b = 44 then some (r.save .field)
    else if b = 34 then some { r with mode := .quoted }
    else if b = 13 then some (r.save .ending)
    else if b = 10 then none
    else some (r.push b .plain)
  | .plain =>
    if b = 44 then some (r.save .field)
    else if b = 13 then some (r.save .ending)
    else if b = 10 then none
    else some (r.push b .plain)
  | .quoted => if b = 34 then some { r with mode := .closed } else some (r.push b .quoted)
  | .closed =>
    if b = 44 then some (r.save .field)
    else if b = 34 then some (r.push b .quoted)
    else if b = 13 then some (r.save .ending)
    else none
  | .ending => if b = 10 then some ⟨r.records ++ [r.fields], [], [], .record⟩ else none

end Reader

/-- The records of a text; `none` where it is not a sequence of complete records. -/
def read (text : Bytes) : Option (List (List Bytes)) :=
  (text.foldlM Reader.step .start).bind fun r ↦
    if r.mode = .record then some r.records else none

section RoundTrip

variable {records : List (List Bytes)} {fields : List Bytes} {mode : Mode}

/-- Doubled quotes are read as the quotes of the field. -/
theorem foldlM_double (field s : Bytes) :
    (double s).foldlM Reader.step ⟨records, fields, field, .quoted⟩ =
      some ⟨records, fields, field ++ s, .quoted⟩ := by
  induction s generalizing field with
  | nil => rw [List.append_nil, double, List.foldlM_nil, Option.pure_def]
  | cons b s ih =>
    rw [double, List.append_cons]
    split
    · next hb =>
      subst hb
      exact ih (field ++ [34])
    · next hb =>
      have hstep : Reader.step ⟨records, fields, field, .quoted⟩ b =
          some ⟨records, fields, field ++ [b], .quoted⟩ := by
        simp only [Reader.step, if_neg hb, Reader.push]
      rw [List.foldlM_cons, hstep]
      exact ih (field ++ [b])

/-- Bytes that need no quotes are read as they are. -/
theorem foldlM_plain {s : Bytes} (field : Bytes) (h : s.any special = false) :
    s.foldlM Reader.step ⟨records, fields, field, .plain⟩ =
      some ⟨records, fields, field ++ s, .plain⟩ := by
  induction s generalizing field with
  | nil => rw [List.append_nil, List.foldlM_nil, Option.pure_def]
  | cons b s ih =>
    simp only [List.any_cons, Bool.or_eq_false_iff, special, beq_eq_false_iff_ne] at h
    obtain ⟨⟨⟨⟨hcomma, -⟩, hcr⟩, hlf⟩, hs⟩ := h
    have hstep : Reader.step ⟨records, fields, field, .plain⟩ b =
        some ⟨records, fields, field ++ [b], .plain⟩ := by
      simp only [Reader.step, if_neg hcomma, if_neg hcr, if_neg hlf, Reader.push]
    rw [List.foldlM_cons, hstep, List.append_cons field b s]
    exact ih (field ++ [b]) hs

/-- Behind a written field, a comma saves it, and so does a line end, unless the line is empty. -/
theorem foldlM_writeField (records : List (List Bytes)) (fields : List Bytes) (field : Bytes)
    (hmode : mode = .record ∨ mode = .field) :
    ∃ r, (writeField field).foldlM Reader.step ⟨records, fields, [], mode⟩ = some r ∧
      r.step 44 = some ⟨records, fields ++ [field], [], .field⟩ ∧
      (mode = .field ∨ field ≠ [] →
        r.step 13 = some ⟨records, fields ++ [field], [], .ending⟩) := by
  unfold writeField
  split
  · have hquote : Reader.step ⟨records, fields, [], mode⟩ 34 =
        some ⟨records, fields, [], .quoted⟩ := by
      rcases hmode with rfl | rfl <;> rfl
    refine ⟨⟨records, fields, field, .closed⟩, ?_, rfl, fun _ ↦ rfl⟩
    rw [quote, List.foldlM_cons, hquote, Option.bind_eq_bind, Option.bind_some,
      List.foldlM_append, foldlM_double]
    rfl
  · next hspecial =>
    rw [Bool.not_eq_true] at hspecial
    cases field with
    | nil =>
      refine ⟨_, rfl, ?_, ?_⟩
      · rcases hmode with rfl | rfl <;> rfl
      · rintro (rfl | hne)
        · rfl
        · exact absurd rfl hne
    | cons b s =>
      have hs := hspecial
      simp only [List.any_cons, Bool.or_eq_false_iff, special, beq_eq_false_iff_ne] at hs
      obtain ⟨⟨⟨⟨hcomma, hquote⟩, hcr⟩, hlf⟩, hs⟩ := hs
      have hstep : Reader.step ⟨records, fields, [], mode⟩ b =
          some ⟨records, fields, [b], .plain⟩ := by
        rcases hmode with rfl | rfl <;>
          simp only [Reader.step, hcomma, hquote, hcr, hlf, if_false, Reader.push, List.nil_append]
      refine ⟨⟨records, fields, b :: s, .plain⟩, ?_, rfl, fun _ ↦ rfl⟩
      rw [List.foldlM_cons, hstep]
      exact foldlM_plain [b] hs

/-- The fields of a record are read back. -/
theorem foldlM_writeFields {rest : List Bytes} (hrest : rest ≠ [])
    (hmode : mode = .field ∨ mode = .record ∧ rest ≠ [[]]) :
    (writeFields rest ++ crlf).foldlM Reader.step ⟨records, fields, [], mode⟩ =
      some ⟨records ++ [fields ++ rest], [], [], .record⟩ := by
  have hstart : mode = .record ∨ mode = .field := by
    rcases hmode with hfield | ⟨hrecord, -⟩
    · exact .inr hfield
    · exact .inl hrecord
  induction rest generalizing fields mode with
  | nil => exact absurd rfl hrest
  | cons field rest ih =>
    obtain ⟨r, hr, hcomma, hend⟩ := foldlM_writeField records fields field hstart
    cases rest with
    | nil =>
      have hfield : mode = .field ∨ field ≠ [] := by
        rcases hmode with hfield | ⟨-, hne⟩
        · exact .inl hfield
        · exact .inr fun h ↦ hne (by rw [h])
      rw [writeFields, List.foldlM_append, hr]
      change (r.step 13).bind (List.foldlM Reader.step · [10]) = _
      rw [hend hfield]
      rfl
    | cons next rest =>
      rw [writeFields, List.append_assoc, List.foldlM_append, hr, List.cons_append]
      · change (r.step 44).bind (List.foldlM Reader.step · (writeFields (next :: rest) ++ crlf)) = _
        rw [hcomma, Option.bind_some, ih (List.cons_ne_nil _ _) (.inl rfl) (.inr rfl),
          List.append_assoc, List.singleton_append]
      · exact List.cons_ne_nil _ _

/-- A record is read back, whatever its fields are. -/
theorem foldlM_writeRow (row : List Bytes) :
    (writeRow row).foldlM Reader.step ⟨records, [], [], .record⟩ =
      some ⟨records ++ [row], [], [], .record⟩ := by
  unfold writeRow
  split
  · next hrow =>
    subst hrow
    rfl
  · next hrow =>
    cases row with
    | nil => rfl
    | cons field rest =>
      rw [foldlM_writeFields (List.cons_ne_nil _ _) (.inr ⟨rfl, hrow⟩), List.nil_append]

/-- What is written is read back, record by record and field by field. -/
theorem read_writeRows (rows : List (List Bytes)) : read (rows.flatMap writeRow) = some rows := by
  have hrows : ∀ (rows records : List (List Bytes)),
      (rows.flatMap writeRow).foldlM Reader.step ⟨records, [], [], .record⟩ =
        some ⟨records ++ rows, [], [], .record⟩ := by
    intro rows
    induction rows with
    | nil =>
      intro records
      rw [List.append_nil, List.flatMap_nil, List.foldlM_nil, Option.pure_def]
    | cons row rows ih =>
      intro records
      rw [List.flatMap_cons, List.foldlM_append, foldlM_writeRow, Option.bind_eq_bind,
        Option.bind_some, ih, List.append_assoc, List.singleton_append]
  rw [read, Reader.start, hrows, Option.bind_some, if_pos rfl, List.nil_append]

end RoundTrip

/-- A record with a comma, a quote and an empty field. -/
example : read (writeRow [ascii "a,b", ascii "\"", []]) = some [[ascii "a,b", ascii "\"", []]] := by
  decide

end Esp32WebServers.Base.Csv
