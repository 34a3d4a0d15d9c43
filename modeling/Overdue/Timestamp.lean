import Overdue.Reading

/-! Timestamps: a clock reading with or without its offset from UTC. A timestamp without an offset is read on the
UTC clock. -/
namespace Overdue

/-- Whole seconds east of UTC, less than a day either way; an offset with a fraction of a second has no place here. -/
structure Offset where
  seconds : Int
  inRange : -86400 < seconds ∧ seconds < 86400
deriving DecidableEq

namespace Offset

def utc : Offset := ⟨0, by decide⟩

def ofSeconds? (seconds : Int) : Option Offset :=
  if inRange : -86400 < seconds ∧ seconds < 86400 then some ⟨seconds, inRange⟩ else none

def micros (offset : Offset) : Int := offset.seconds * secondMicros

/-- The text `+hh:mm`, with the seconds where there are any. -/
def text (offset : Offset) : List Char :=
  let size := offset.seconds.natAbs
  (if offset.seconds < 0 then '-' else '+') :: Text.padded 2 (size / 3600) ++ ':' :: Text.padded 2 (size / 60 % 60) ++
    if size % 60 = 0 then [] else ':' :: Text.padded 2 (size % 60)

end Offset

structure Timestamp where
  reading : Reading
  offset : Option Offset
deriving DecidableEq

namespace Timestamp

def utc (timestamp : Timestamp) : Except Failure Reading :=
  match timestamp.offset with
  | none => .ok timestamp.reading
  | some offset => timestamp.reading.shift (-offset.micros)

def ofUtc (reading : Reading) : Timestamp := ⟨reading, some .utc⟩

/-- A table cell keeps the reading and drops the offset. -/
def stored (timestamp : Timestamp) : Timestamp := ⟨timestamp.reading, none⟩

@[simp] theorem utc_ofUtc (reading : Reading) : (ofUtc reading).utc = .ok reading := by
  simp [ofUtc, utc, Reading.shift_eq_ok, Offset.utc, Offset.micros]

def iso (timestamp : Timestamp) : List Char :=
  timestamp.reading.iso ++ match timestamp.offset with
    | none => []
    | some offset => offset.text

/-- The offset `+hh:mm` or `+hh:mm:ss` that ends a text, or none. -/
def offsetOfText? : List Char → Option (Option Offset)
  | [] => some none
  | sign :: text => do
    guard (sign = '+' ∨ sign = '-')
    let (hours, text) ← Text.takeNumber? 2 text
    let ':' :: text := text | none
    let (minutes, text) ← Text.takeNumber? 2 text
    let (seconds, text) ← match text with
      | ':' :: text => Text.takeNumber? 2 text
      | text => some (0, text)
    guard (text = [])
    let size : Int := hours * 3600 + minutes * 60 + seconds
    return some (← Offset.ofSeconds? (if sign = '-' then -size else size))

/-- Reads `yyyy-mm-ddThh:mm:ss`, with decimals and an offset as `iso` writes them. -/
def ofIso? (text : List Char) : Option Timestamp := do
  let (reading, text) ← Reading.take? text
  return ⟨reading, ← offsetOfText? text⟩

end Timestamp
end Overdue
