import Overdue.Proofs.Civil
import Overdue.Proofs.HolidayText
import Overdue.Proofs.Text

/-! The grammar of holiday entries. The reader tries the ways to read a day, a month and a year in order; here an entry spells a
date when it is a day, a month and a year between slashes, and no entry does so in two ways. -/
namespace Overdue
namespace Holiday

/-- A number from 1 to 9, with or without a zero in front. -/
inductive SpellsUnit : List Char → Nat → Prop
  | plain {n : Nat} (first : 1 ≤ n) (last : n ≤ 9) : SpellsUnit [n.digitChar] n
  | zeroed {n : Nat} (first : 1 ≤ n) (last : n ≤ 9) : SpellsUnit ['0', n.digitChar] n

/-- The days 1 to 31; the second digit of the days 10 to 29 may be of any script. -/
inductive SpellsDay : List Char → Nat → Prop
  | unit {text : List Char} {n : Nat} (spells : SpellsUnit text n) : SpellsDay text n
  | tens {ten unit : Nat} {c : Char} (first : 1 ≤ ten) (last : ten ≤ 2) (digit : Text.digit? c = some unit) :
      SpellsDay [ten.digitChar, c] (10 * ten + unit)
  | thirties {unit : Nat} (last : unit ≤ 1) : SpellsDay ['3', unit.digitChar] (30 + unit)

/-- The months 1 to 12. -/
inductive SpellsMonth : List Char → Nat → Prop
  | unit {text : List Char} {n : Nat} (spells : SpellsUnit text n) : SpellsMonth text n
  | tens {unit : Nat} (last : unit ≤ 2) : SpellsMonth ['1', unit.digitChar] (10 + unit)

/-- Four digits of any script. -/
inductive SpellsYear : List Char → Nat → Prop
  | four {k h t u : Char} {thousands hundreds tens units : Nat} (first : Text.digit? k = some thousands)
      (second : Text.digit? h = some hundreds) (third : Text.digit? t = some tens) (fourth : Text.digit? u = some units) :
      SpellsYear [k, h, t, u] (1000 * thousands + 100 * hundreds + 10 * tens + units)

def Spells (text : List Char) (y m d : Nat) : Prop := ∃ day month year, text = day ++ '/' :: (month ++ '/' :: year) ∧
  SpellsDay day d ∧ SpellsMonth month m ∧ SpellsYear year y

variable {text rest : List Char} {n : Nat}

section Choices

variable {tens units : Char → Option Nat}

theorem mem_one : (n, rest) ∈ one units text ↔ ∃ c, units c = some n ∧ text = c :: rest := by
  cases text with
  | nil => simp [one]
  | cons c others =>
    cases read : units c with
    | none => simp [one, read]
    | some value => simp [one, read, eq_comm]

theorem mem_two : (n, rest) ∈ two tens units text ↔
    ∃ t ten u unit, tens t = some ten ∧ units u = some unit ∧ text = t :: u :: rest ∧ n = 10 * ten + unit := by
  cases text with
  | nil => simp [two]
  | cons t others =>
    cases read : tens t with
    | none => simp [two, read]
    | some ten =>
      simp only [two, read, List.mem_map, Prod.exists, mem_one, Prod.mk.injEq, List.cons.injEq]
      constructor
      · rintro ⟨unit, _, ⟨u, readToo, rfl⟩, rfl, rfl⟩
        exact ⟨t, ten, u, unit, read, readToo, ⟨rfl, rfl⟩, rfl⟩
      · rintro ⟨_, _, u, unit, readTen, readToo, ⟨rfl, rfl⟩, rfl⟩
        cases read.symm.trans readTen
        exact ⟨unit, rest, ⟨u, readToo, rfl⟩, rfl, rfl⟩

theorem between_digit {low high : Nat} (range : low ≤ high) (bound : high ≤ 9) {c : Char} :
    between low.digitChar high.digitChar c = some n ↔ low ≤ n ∧ n ≤ high ∧ c = n.digitChar := by
  have number {d : Nat} (small : d ≤ 9) : d.digitChar.toNat = 48 + d := Nat.toNat_digitChar_of_lt_ten (by omega)
  have zero : '0'.toNat = 48 := rfl
  have order (a b : Char) : a ≤ b ↔ a.toNat ≤ b.toNat := Iff.rfl
  simp only [between, Option.ite_none_right_eq_some, Option.some.injEq, order, zero]
  constructor
  · rintro ⟨⟨above, below⟩, rfl⟩
    rw [number bound] at below
    rw [number (by omega)] at above
    refine ⟨by omega, by omega, Char.toNat_inj.mp ?_⟩
    rw [number (by omega)]
    omega
  · rintro ⟨above, below, rfl⟩
    rw [number (by omega), number (by omega), number bound]
    omega

theorem mem_afterSlash {choices : Choices} {x : Nat × List Char} :
    x ∈ afterSlash choices text ↔ ∃ rest, text = '/' :: rest ∧ x ∈ choices rest := by
  unfold afterSlash
  split
  · simp
  next other =>
    refine iff_of_false List.not_mem_nil ?_
    rintro ⟨rest, rfl, _⟩
    exact other rest rfl

end Choices

theorem mem_unit : (n, rest) ∈ two (between '0' '0') (between '1' '9') text ++ one (between '1' '9') text ↔
    ∃ spelled, text = spelled ++ rest ∧ SpellsUnit spelled n := by
  change (n, rest) ∈ two (between (Nat.digitChar 0) (Nat.digitChar 0)) (between (Nat.digitChar 1) (Nat.digitChar 9)) text ++
    one (between (Nat.digitChar 1) (Nat.digitChar 9)) text ↔ _
  simp only [List.mem_append, mem_two, mem_one, between_digit, le_refl, Nat.reduceLeDiff]
  constructor
  · rintro (⟨_, ten, _, unit, ⟨_, none, rfl⟩, ⟨first, last, rfl⟩, rfl, rfl⟩ | ⟨_, ⟨first, last, rfl⟩, rfl⟩)
    · obtain rfl : ten = 0 := by omega
      rw [Nat.mul_zero, Nat.zero_add]
      exact ⟨['0', unit.digitChar], rfl, .zeroed first last⟩
    · exact ⟨[n.digitChar], rfl, .plain first last⟩
  · rintro ⟨spelled, rfl, spells⟩
    cases spells with
    | plain first last => exact .inr ⟨_, ⟨first, last, rfl⟩, rfl⟩
    | zeroed first last => exact .inl ⟨_, 0, _, n, ⟨le_rfl, le_rfl, rfl⟩, ⟨first, last, rfl⟩, rfl, by omega⟩

theorem mem_day (starts : text.head? ≠ some ' ') :
    (n, rest) ∈ day text ↔ ∃ spelled, text = spelled ++ rest ∧ SpellsDay spelled n := by
  have digits : day text = two (between (Nat.digitChar 3) (Nat.digitChar 3)) (between (Nat.digitChar 0) (Nat.digitChar 1)) text ++
      two (between (Nat.digitChar 1) (Nat.digitChar 2)) Text.digit? text ++
      (two (between '0' '0') (between '1' '9') text ++ one (between '1' '9') text) := by
    unfold day
    split
    · exact absurd rfl starts
    · rw [List.append_nil, List.append_assoc]
      rfl
  rw [digits, List.mem_append, mem_unit]
  simp only [List.mem_append, mem_two, between_digit, le_refl, Nat.reduceLeDiff]
  constructor
  · rintro ((⟨_, ten, _, unit, ⟨low, high, rfl⟩, ⟨_, last, rfl⟩, rfl, rfl⟩ | ⟨_, ten, u, unit, ⟨low, high, rfl⟩, digit, rfl, rfl⟩) |
      ⟨spelled, split, spells⟩)
    · obtain rfl : ten = 3 := by omega
      exact ⟨['3', unit.digitChar], rfl, .thirties last⟩
    · exact ⟨[ten.digitChar, u], rfl, .tens low high digit⟩
    · exact ⟨spelled, split, .unit spells⟩
  · rintro ⟨spelled, rfl, spells⟩
    cases spells with
    | unit spells => exact .inr ⟨spelled, rfl, spells⟩
    | tens first last digit => exact .inl (.inr ⟨_, _, _, _, ⟨first, last, rfl⟩, digit, rfl, rfl⟩)
    | thirties last => exact .inl (.inl ⟨_, 3, _, _, ⟨le_rfl, le_rfl, rfl⟩, ⟨Nat.zero_le _, last, rfl⟩, rfl, rfl⟩)

theorem mem_month : (n, rest) ∈ month text ↔ ∃ spelled, text = spelled ++ rest ∧ SpellsMonth spelled n := by
  have digits : month text = two (between (Nat.digitChar 1) (Nat.digitChar 1)) (between (Nat.digitChar 0) (Nat.digitChar 2)) text ++
      (two (between '0' '0') (between '1' '9') text ++ one (between '1' '9') text) := List.append_assoc _ _ _
  rw [digits, List.mem_append, mem_unit]
  simp only [mem_two, between_digit, le_refl, Nat.reduceLeDiff]
  constructor
  · rintro (⟨_, ten, _, unit, ⟨low, high, rfl⟩, ⟨_, last, rfl⟩, rfl, rfl⟩ | ⟨spelled, split, spells⟩)
    · obtain rfl : ten = 1 := by omega
      exact ⟨['1', unit.digitChar], rfl, .tens last⟩
    · exact ⟨spelled, split, .unit spells⟩
  · rintro ⟨spelled, rfl, spells⟩
    cases spells with
    | unit spells => exact .inr ⟨spelled, rfl, spells⟩
    | tens last => exact .inl ⟨_, 1, _, _, ⟨le_rfl, le_rfl, rfl⟩, ⟨Nat.zero_le _, last, rfl⟩, rfl, rfl⟩

theorem mem_year : (n, rest) ∈ year text ↔ ∃ spelled, text = spelled ++ rest ∧ SpellsYear spelled n := by
  simp only [year, List.mem_flatMap, List.mem_map, Prod.exists, mem_two, Prod.mk.injEq]
  constructor
  · rintro ⟨_, _, ⟨k, thousands, h, hundreds, first, second, rfl, rfl⟩, _, _, ⟨t, tens, u, units, third, fourth, rfl, rfl⟩, rfl, rfl⟩
    have same : 100 * (10 * thousands + hundreds) + (10 * tens + units) = 1000 * thousands + 100 * hundreds + 10 * tens + units := by
      omega
    rw [same]
    exact ⟨[k, h, t, u], rfl, .four first second third fourth⟩
  · rintro ⟨spelled, rfl, spells⟩
    cases spells with
    | four first second third fourth =>
      exact ⟨_, _, ⟨_, _, _, _, first, second, rfl, rfl⟩, _, _, ⟨_, _, _, _, third, fourth, rfl, rfl⟩, by omega, rfl⟩

/-- Digits and the number that they write. -/
structure Numeral (text : List Char) (n : Nat) : Prop where
  digits : ∀ c ∈ text, ∃ d, Text.digit? c = some d
  value : text.foldl (fun n c => 10 * n + (Text.digit? c).getD 0) 0 = n

theorem Numeral.unique {m : Nat} (numeral : Numeral text n) (other : Numeral text m) : n = m :=
  numeral.value.symm.trans other.value

theorem Numeral.slash_notMem (numeral : Numeral text n) : '/' ∉ text := by
  intro inside
  obtain ⟨d, read⟩ := numeral.digits '/' inside
  cases read

theorem digit?_digitChar {n : Nat} (small : n ≤ 9) : Text.digit? n.digitChar = some n := by
  have each : ∀ d : Fin 10, Text.digit? d.val.digitChar = some d.val := by decide
  exact each ⟨n, by omega⟩

theorem numeral_one {c : Char} (read : Text.digit? c = some n) : Numeral [c] n := by
  refine ⟨?_, ?_⟩ <;> simp [read]

theorem numeral_two {t u : Char} {ten unit : Nat} (first : Text.digit? t = some ten) (second : Text.digit? u = some unit) :
    Numeral [t, u] (10 * ten + unit) := by
  refine ⟨?_, ?_⟩ <;> simp [first, second]

theorem SpellsUnit.numeral (spells : SpellsUnit text n) : Numeral text n := by
  cases spells with
  | plain first last => exact numeral_one (digit?_digitChar last)
  | zeroed first last =>
    have zero : Text.digit? '0' = some 0 := digit?_digitChar (Nat.zero_le 9)
    simpa using numeral_two zero (digit?_digitChar last)

theorem SpellsDay.numeral (spells : SpellsDay text n) : Numeral text n := by
  cases spells with
  | unit spells => exact spells.numeral
  | tens first last digit => exact numeral_two (digit?_digitChar (by omega)) digit
  | thirties last => exact numeral_two (digit?_digitChar (show 3 ≤ 9 by omega)) (digit?_digitChar (by omega))

theorem SpellsMonth.numeral (spells : SpellsMonth text n) : Numeral text n := by
  cases spells with
  | unit spells => exact spells.numeral
  | tens last => exact numeral_two (digit?_digitChar (show 1 ≤ 9 by omega)) (digit?_digitChar (by omega))

theorem SpellsYear.numeral (spells : SpellsYear text n) : Numeral text n := by
  cases spells with
  | four first second third fourth =>
    refine ⟨?_, ?_⟩
    · simp [first, second, third, fourth]
    · simp [first, second, third, fourth]
      omega

theorem SpellsYear.length (spells : SpellsYear text n) : text.length = 4 := by
  cases spells
  rfl

def readings (text : List Char) : List (Nat × Nat × Nat × List Char) :=
  (day text).flatMap fun (d, rest) =>
    (afterSlash month rest).flatMap fun (m, rest) =>
      (afterSlash year rest).map fun (y, rest) => (d, m, y, rest)

variable {y m d : Nat} {date : Date}

theorem mem_readings (starts : text.head? ≠ some ' ') : (d, m, y, rest) ∈ readings text ↔ ∃ day month year,
    text = day ++ '/' :: (month ++ '/' :: (year ++ rest)) ∧ SpellsDay day d ∧ SpellsMonth month m ∧ SpellsYear year y := by
  simp only [readings, List.mem_flatMap, List.mem_map, Prod.exists, mem_day starts, mem_afterSlash, mem_month, mem_year, Prod.mk.injEq]
  constructor
  · rintro ⟨_, _, ⟨day, rfl, spellsDay⟩, _, _, ⟨_, rfl, month, rfl, spellsMonth⟩, _, _, ⟨_, rfl, year, rfl, spellsYear⟩, rfl, rfl, rfl, rfl⟩
    exact ⟨day, month, year, rfl, spellsDay, spellsMonth, spellsYear⟩
  · rintro ⟨day, month, year, rfl, spellsDay, spellsMonth, spellsYear⟩
    exact ⟨_, _, ⟨day, rfl, spellsDay⟩, _, _, ⟨_, rfl, month, rfl, spellsMonth⟩, _, _, ⟨_, rfl, year, rfl, spellsYear⟩, rfl, rfl, rfl, rfl⟩

/-- An entry is read in one way. -/
theorem readings_unique (starts : text.head? ≠ some ' ') {reading other : Nat × Nat × Nat × List Char} (read : reading ∈ readings text)
    (readToo : other ∈ readings text) : reading = other := by
  obtain ⟨d, m, y, rest⟩ := reading
  obtain ⟨d', m', y', rest'⟩ := other
  obtain ⟨day, month, year, split, spellsDay, spellsMonth, spellsYear⟩ := (mem_readings starts).mp read
  obtain ⟨day', month', year', splitToo, spellsDay', spellsMonth', spellsYear'⟩ := (mem_readings starts).mp readToo
  obtain ⟨rfl, later⟩ := Text.cut_inj spellsDay.numeral.slash_notMem spellsDay'.numeral.slash_notMem (split.symm.trans splitToo)
  obtain ⟨rfl, last⟩ := Text.cut_inj spellsMonth.numeral.slash_notMem spellsMonth'.numeral.slash_notMem later
  obtain ⟨rfl, rfl⟩ := List.append_inj last (spellsYear.length.trans spellsYear'.length.symm)
  rw [spellsDay.numeral.unique spellsDay'.numeral, spellsMonth.numeral.unique spellsMonth'.numeral,
    spellsYear.numeral.unique spellsYear'.numeral]

theorem Spells.mem_readings (starts : text.head? ≠ some ' ') (spells : Spells text y m d) : (d, m, y, []) ∈ readings text := by
  obtain ⟨day, month, year, rfl, spellsDay, spellsMonth, spellsYear⟩ := spells
  refine (Holiday.mem_readings starts).mpr ⟨day, month, year, ?_, spellsDay, spellsMonth, spellsYear⟩
  rw [List.append_nil]

theorem entry?_eq_some (starts : text.head? ≠ some ' ') :
    entry? text = some date ↔ Spells text date.year date.month date.dayOfMonth := by
  constructor
  · intro named
    dsimp only [ entry?] at named
    split at named
    next d m y others first =>
      have read : (d, m, y, []) ∈ readings text := by
        rw [readings, first]
        exact List.mem_cons_self
      obtain ⟨day, month, year, split, spells⟩ := (mem_readings starts).mp read
      obtain ⟨rfl, rfl, rfl⟩ := Date.ofCivil?_eq_some.mp named
      rw [List.append_nil] at split
      exact ⟨day, month, year, split, spells⟩
    next => cases named
  · intro spells
    have read := spells.mem_readings starts
    obtain ⟨first, others, some⟩ := List.exists_cons_of_ne_nil (List.ne_nil_of_mem read)
    have only := readings_unique starts read (some ▸ List.mem_cons_self)
    rw [← only, readings] at some
    simp only [ entry?, some]
    exact Date.ofCivil?_eq_some.mpr ⟨rfl, rfl, rfl⟩

example : ( entry? "1٢/12/2022".toList).isSome = true ∧ entry? "١2/12/2022".toList = none := ⟨rfl, rfl⟩

theorem exists_entry (starts : text.head? ≠ some ' ') :
    (∃ date, entry? text = some date) ↔ ∃ y m d, Spells text y m d ∧ Date.Exists y m d := by
  simp only [entry?_eq_some starts, Date.exists_iff]
  constructor
  · rintro ⟨date, spells⟩
    exact ⟨_, _, _, spells, date, rfl, rfl, rfl⟩
  · rintro ⟨_, _, _, spells, date, rfl, rfl, rfl⟩
    exact ⟨date, spells⟩

end Holiday
end Overdue
