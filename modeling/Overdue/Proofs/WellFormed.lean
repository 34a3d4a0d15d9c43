import Overdue.Proofs.GradeScore

/-! Assignments as they are stored. A new one is checked by its form and a change of one against the row that there is, and
both come to the same window, percentages and largest score. -/
namespace Overdue

open Failure

structure Within (openAt closeAt : Option Timestamp) (due : Reading) : Prop where
  opened : ∀ limit, openAt = some limit → ∃ opening, limit.utc = .ok opening ∧ opening.micros ≤ due.micros
  unclosed : ∀ limit, closeAt = some limit → ∃ closing, limit.utc = .ok closing ∧ due.micros ≤ closing.micros

variable {limit kept openAt closeAt : Option Timestamp} {due : Reading} {form : AssignmentForm} {row made : Assignment}
  {change : PolicyChange} {policy : Policy} {members : Members} {name : String}

theorem limited_congr (same : kept.map Timestamp.utc = limit.map Timestamp.utc) (broken : Reading → Bool) :
    limited kept broken = limited limit broken := by
  cases kept <;> cases limit <;> simp_all [limited]

theorem limited_eq_false {broken : Reading → Bool} : limited limit broken = .ok false ↔
    ∀ set, limit = some set → ∃ instant, set.utc = .ok instant ∧ broken instant = false := by
  cases limit with
  | none => simp [limited]
  | some set => simp [limited, map_eq_ok]

theorem windowError?_congr {openToo closeToo : Option Timestamp} (opens : openAt.map Timestamp.utc = openToo.map Timestamp.utc)
    (closes : closeAt.map Timestamp.utc = closeToo.map Timestamp.utc) (due : Reading) :
    windowError? due openAt closeAt = windowError? due openToo closeToo := by
  rw [windowError?, windowError?, limited_congr opens, limited_congr closes]

theorem windowError?_eq_none : windowError? due openAt closeAt = .ok none ↔ Within openAt closeAt due := by
  have opens : limited openAt due.lt = .ok false ↔
      ∀ limit, openAt = some limit → ∃ opening, limit.utc = .ok opening ∧ opening.micros ≤ due.micros := by
    simp [limited_eq_false, Reading.lt]
  have closes : limited closeAt (·.lt due) = .ok false ↔
      ∀ limit, closeAt = some limit → ∃ closing, limit.utc = .ok closing ∧ due.micros ≤ closing.micros := by
    simp [limited_eq_false, Reading.lt]
  constructor
  · intro inside
    obtain ⟨early, looked, rest⟩ := bind_eq_ok.mp inside
    cases early with
    | true => cases rest
    | false =>
      obtain ⟨late, lookedToo, rest⟩ := bind_eq_ok.mp rest
      cases late with
      | true => cases rest
      | false => exact ⟨opens.mp looked, closes.mp lookedToo⟩
  · rintro ⟨opened, unclosed⟩
    rw [windowError?, bind_of_ok (opens.mpr opened), if_neg (by decide), bind_of_ok (closes.mpr unclosed)]
    rfl

namespace AssignmentForm

def dueOn (form : AssignmentForm) (dueAt : Timestamp) : AssignmentForm :=
  { form with policy := { form.policy with dueAt := some dueAt } }

def judged (form : AssignmentForm) : Option WindowError → Checked AssignmentForm
  | none => .accepted form
  | some error => .rejected [⟨[], .rule error.message⟩]

theorem checkWindow_eq {dueAt : Timestamp} (sent : form.policy.dueAt = some dueAt) (dueUtc : dueAt.utc = .ok due) :
    form.checkWindow = (windowError? due form.openAt form.closeAt).map form.judged := by
  unfold checkWindow
  rw [sent]
  dsimp only
  split
  next unlimited =>
    rw [unlimited.1, unlimited.2]
    rfl
  next =>
    rw [bind_of_ok dueUtc]
    cases windowError? due form.openAt form.closeAt with
    | error failure => rfl
    | ok error => cases error <;> rfl

end AssignmentForm

namespace Service

theorem inUtc?_eq_some {sent : Option Timestamp} {instant : Timestamp} (converted : inUtc? sent = .ok (some instant)) :
    ∃ dueAt due, sent = some dueAt ∧ dueAt.utc = .ok due ∧ instant = .ofUtc due := by
  cases sent with
  | none => cases converted
  | some dueAt =>
    obtain ⟨moved, moves, same⟩ := map_eq_ok.mp converted
    obtain ⟨due, dueUtc, rfl⟩ := map_eq_ok.mp moves
    exact ⟨dueAt, due, rfl, dueUtc, (Option.some.inj same).symm⟩

/-- The limits of a row that is stored are the instants that the form had. -/
theorem window_stored (newly : newAssignment form = .ok row) (id : Int)
    (keeps : ({ row with id } : Assignment).stored? = some made) (due : Reading) :
    windowError? due made.openAt made.closeAt = windowError? due form.openAt form.closeAt := by
  obtain ⟨opens, closes, _⟩ := newAssignment_columns newly
  obtain ⟨_, _, rfl⟩ := Assignment.stored?_eq_some.mp keeps
  exact windowError?_congr (inUtc?_stored opens) (inUtc?_stored closes) due

/-- The check of a change against the stored row is the check of the form with that due instant. -/
theorem outside?_eq_checkWindow (newly : newAssignment form = .ok row) (id : Int)
    (keeps : ({ row with id } : Assignment).stored? = some made) {dueAt : Timestamp} (dueUtc : dueAt.utc = .ok due) :
    (form.dueOn dueAt).checkWindow = (outside? made (some (some dueAt))).map (form.dueOn dueAt).judged := by
  rw [AssignmentForm.checkWindow_eq rfl dueUtc, outside?, bind_of_ok dueUtc, window_stored newly id keeps]
  rfl

end Service

namespace Assignment

/-- A due instant is within the limits, the percentages are percentages, and some score can be reached. -/
structure WellFormed (row : Assignment) : Prop where
  window : ∀ dueAt, row.policy.dueAt = some dueAt → ∃ due, dueAt.utc = .ok due ∧ Within row.openAt row.closeAt due
  daily : 0 ≤ row.policy.daily ∧ row.policy.daily ≤ 100
  cap : 0 ≤ row.policy.cap ∧ row.policy.cap ≤ 100
  maxScore : Double.zero.lt row.maxScore = true

theorem WellFormed.created (read : AssignmentForm.read members = .ok (.accepted form))
    (newly : Service.newAssignment form = .ok row) {id : Int} (keeps : ({ row with id } : Assignment).stored? = some made) :
    made.WellFormed := by
  obtain ⟨filled, checked⟩ := AssignmentForm.read_eq_accepted.mp read
  obtain ⟨dailyBounds, capBounds, positive⟩ := AssignmentForm.fields_bounds filled
  obtain ⟨_, _, dues, largest, daily, cap⟩ := Service.newAssignment_columns newly
  have inside := Service.window_stored newly id keeps
  obtain ⟨kept, number, rfl⟩ := stored?_eq_some.mp keeps
  refine ⟨fun dueAt present => ?_, ?_, ?_, ?_⟩
  · obtain ⟨instant, set, rfl⟩ := Option.map_eq_some_iff.mp present
    rw [set] at dues
    obtain ⟨sent, due, formDue, dueUtc, rfl⟩ := Service.inUtc?_eq_some dues
    rw [AssignmentForm.checkWindow_eq formDue dueUtc, ← inside due] at checked
    obtain ⟨error, looked, accepted⟩ := map_eq_ok.mp checked
    cases error with
    | some error => cases accepted
    | none => exact ⟨due, rfl, windowError?_eq_none.mp looked⟩
  · exact daily ▸ dailyBounds
  · exact cap ▸ capBounds
  · rw [(Cell.number_lt number Double.zero).2]
    exact largest ▸ positive

theorem WellFormed.changed (wellFormed : row.WellFormed) (whole : row.stored? = some row)
    (read : PolicyChange.read members = .accepted change) (inside : Service.outside? row change.dueAt = .ok none)
    (changes : Service.changed row.policy change = .ok policy) (keeps : ({ row with policy } : Assignment).stored? = some made) :
    made.WellFormed := by
  have bounded {sent : Option Int} {before : Int} (bounds : ∀ n, sent = some n → 0 ≤ n ∧ n ≤ 100)
      (old : 0 ≤ before ∧ before ≤ 100) : 0 ≤ sent.getD before ∧ sent.getD before ≤ 100 := by
    cases sent with
    | none => exact old
    | some n => exact bounds n rfl
  obtain ⟨dailyBounds, capBounds⟩ := PolicyChange.read_bounds read
  obtain ⟨dues, _, daily, cap, _⟩ := Service.changed_eq_ok.mp changes
  cases (stored?_policy whole policy).symm.trans keeps
  refine ⟨fun dueAt present => ?_, ?_, ?_, wellFormed.maxScore⟩
  · obtain ⟨instant, set, rfl⟩ := Option.map_eq_some_iff.mp present
    rw [set] at dues
    unfold Service.dueAfter at dues
    cases sent : change.dueAt with
    | none =>
      -- nothing is checked here: the instant that stays was within the limits, which no change moves
      rw [sent] at dues
      have kept := Except.ok.inj dues
      obtain ⟨due, dueUtc, limits⟩ := wellFormed.window instant kept
      cases (Assignment.dueAt_of_stored whole kept).symm.trans dueUtc
      exact ⟨instant.reading, rfl, limits⟩
    | some due =>
      rw [sent] at dues inside
      obtain ⟨dueAt, due, rfl, dueUtc, rfl⟩ := Service.inUtc?_eq_some dues
      rw [Service.outside?, bind_of_ok dueUtc] at inside
      exact ⟨due, rfl, windowError?_eq_none.mp inside⟩
  · exact daily ▸ bounded dailyBounds wellFormed.daily
  · exact cap ▸ bounded capBounds wellFormed.cap

end Assignment

variable {tables after : Tables} {context : Context} {call : Call} {request : Request}

theorem Commit.wellFormed (commit : Commit context call tables after) (asked : request.call = .ok (.ok call))
    (sound : Sound tables) (wellFormed : ∀ row ∈ tables.assignments, row.WellFormed) :
    ∀ row ∈ after.assignments, row.WellFormed := by
  have put {row : Assignment} (saved : tables.putAssignment row = .ok after)
      (whole : ∀ kept, row.stored? = some kept → kept.WellFormed) : ∀ row ∈ after.assignments, row.WellFormed := by
    obtain ⟨_, kept, keeps, rfl⟩ := Tables.putAssignment_eq_ok.mp saved
    intro other inside
    rcases (Table.mem_put sound.assignments kept other).mp inside with rfl | ⟨old, _⟩
    · exact whole _ keeps
    · exact wellFormed other old
  have same (still : after.assignments = tables.assignments) : ∀ row ∈ after.assignments, row.WellFormed := by
    rw [still]
    exact wellFormed
  have filled := Request.call_filled asked
  cases commit with
  | create created newly saved =>
    subst created
    obtain ⟨members, _, read⟩ := Body.assignment_eq_accepted.mp filled
    exact put saved fun kept keeps => .created read newly keeps
  | changePolicy changed found inside changes saved =>
    subst changed
    obtain ⟨members, _, read⟩ := Body.fill_eq_accepted.mp filled
    have before := wellFormed _ (Table.mem_of_find? found)
    exact put saved fun kept keeps => before.changed (sound.assignment found) read inside changes keeps
  | start asked admitted allFinished saved => exact same (Tables.putSubmission_keeps saved).1
  | handIn asked found unfinished saved => exact same (Tables.putSubmission_keeps saved).1
  | judge found finishedAt placed judged => exact same judged.assignments
  | rescore found finishedAt charged scored saved => exact same (Tables.putSubmission_keeps saved).1
  | grade asked found finished placed inside charged scored saved => exact same (Tables.putSubmission_keeps saved).1

namespace History

theorem wellFormed (history : List Event) : ∀ row ∈ (History.tables history).assignments, row.WellFormed := by
  induction history with
  | nil =>
    intro row inside
    cases inside
  | cons event earlier ih =>
    exact carried_sound (fun reached => ∀ row ∈ reached.assignments, row.WellFormed) ih fun asked commit sound kept =>
      commit.wellFormed asked sound kept

/-- A payload with a null for a term of a policy is refused, whether it would make an assignment or change one. -/
theorem null_refused {event : Event} (body : event.request.body = .value (.obj members)) (named : name ∈ termNames)
    (null : Json.lookup? members name = some .null)
    (asks : (event.request.method = .post ∧ event.request.path = ["assignments"]) ∨
      (event.request.method = .patch ∧ ∃ place, Place.ofSegments? event.request.path = some (.policy place)))
    (history : List Event) : (∃ problems, answer event history = .ok (.refused (.invalid problems))) ∧
      History.tables (event :: history) = History.tables history := by
  obtain ⟨problems, refused⟩ : ∃ problems, event.request.call = .ok (.error (.invalid problems)) := by
    rcases asks with ⟨method, path⟩ | ⟨method, place, path⟩
    · obtain ⟨problems, rejected⟩ := AssignmentForm.read_null named null
      rw [Request.call, path, method, body]
      simp only [Place.ofSegments?, Call.ofPlace, Body.assignment, Body.members, rejected]
      exact ⟨_, rfl⟩
    · have refused : ∀ call, Call.changePolicy <$> Call.assignmentNumber place <*>
          Body.fill (.value (.obj members)) PolicyChange.read ≠ .accepted call := by
        intro call accepted
        obtain ⟨_, change, _, filled, _⟩ := Checked.seq_eq_accepted.mp accepted
        obtain ⟨_, same, read⟩ := Body.fill_eq_accepted.mp filled
        cases same
        exact PolicyChange.read_null named null change read
      obtain ⟨problems, told⟩ := Call.ofChecked_refused refused
      rw [Request.call, path, method, body]
      exact ⟨problems, congrArg Except.ok told⟩
  rw [answer, History.tables, Service.serve, refused]
  exact ⟨⟨problems, rfl⟩, rfl⟩

/-- After every history, with whatever faults, every assignment is well formed: its due instant is within its limits as
instants, its percentages are percentages and its largest score is positive, and no null for a term gets in. The check of a
form and the check of a change on what is stored of that form come to the same for every due instant. -/
theorem assignments_wellFormed (history : List Event) :
    (∀ row ∈ (History.tables history).assignments, row.WellFormed) ∧
    (∀ event members name, event.request.body = .value (.obj members) → name ∈ termNames →
      Json.lookup? members name = some .null →
      (event.request.method = .post ∧ event.request.path = ["assignments"] ∨
        event.request.method = .patch ∧ ∃ place, Place.ofSegments? event.request.path = some (.policy place)) →
      (∃ problems, answer event history = .ok (.refused (.invalid problems))) ∧
        History.tables (event :: history) = History.tables history) ∧
    ∀ (form : AssignmentForm) row id kept dueAt due, Service.newAssignment form = .ok row →
      ({ row with id } : Assignment).stored? = some kept → dueAt.utc = .ok due →
      (form.dueOn dueAt).checkWindow = (Service.outside? kept (some (some dueAt))).map (form.dueOn dueAt).judged :=
  ⟨wellFormed history, fun _ _ _ body named null asks => null_refused body named null asks history,
    fun _ _ id _ _ _ newly keeps dueUtc => Service.outside?_eq_checkWindow newly id keeps dueUtc⟩

/-- The assignment is due when it opens, and the change that fails would have been due when it closes. -/
def offsets : List Event := [
  { Event.plain 63845300000000000 .patch ["assignments", "1", "late-policy"] [("due_at", .str "2024-03-01T01:00:00+01:00")] with
    faultAfter := some 0 },
  .plain 63845200000000000 .patch ["assignments", "1", "late-policy"] [("daily_percentage_penalty", .int 10)],
  .plain 63830000000000000 .post ["assignments"]
    [("title", .str "Essay"), ("open_at", .str "2024-01-01T00:00:00+02:00"), ("due_at", .str "2023-12-31T22:00:00Z"),
      ("close_at", .str "2024-02-29T23:00:00-01:00")]]

def uncapped : Event :=
  .plain 63845400000000000 .patch ["assignments", "1", "late-policy"] [("max_percentage_penalty", .null)]

/-- It opens an hour before what the clock of its offset reads. -/
def hourAhead : AssignmentForm where
  policy := ⟨none, true, 5, 50, true⟩
  title := "Essay"
  description := none
  maxScore := .infinite false
  openAt := some ⟨⟨63840000000000000, by decide⟩, some ⟨3600, by decide⟩⟩
  closeAt := none

def opening : Timestamp := ⟨⟨63839996400000000, by decide⟩, none⟩

theorem assignments_wellFormed_offsets :
    (∃ row ∈ (History.tables offsets).assignments, row.id = 1 ∧ row.policy.dueAt = row.openAt ∧ row.policy.daily = 10 ∧
      row.WellFormed) ∧
    History.tables (uncapped :: offsets) = History.tables offsets ∧
    (hourAhead.dueOn opening).checkWindow = .ok (.accepted (hourAhead.dueOn opening)) := by
  obtain ⟨rows, nulls, checks⟩ := assignments_wellFormed offsets
  refine ⟨?_, ?_, ?_⟩
  · have facts : ∃ row ∈ (History.tables offsets).assignments, row.id = 1 ∧ row.policy.dueAt = row.openAt ∧
        row.policy.daily = 10 := by decide +kernel
    obtain ⟨row, member, own, due, daily⟩ := facts
    exact ⟨row, member, own, due, daily, rows row member⟩
  · exact (nulls uncapped _ capName rfl (by decide) rfl (.inr ⟨rfl, "1", rfl⟩)).2
  · obtain ⟨row, newly⟩ : ∃ row, Service.newAssignment hourAhead = .ok row := ⟨_, rfl⟩
    obtain ⟨kept, keeps⟩ : ∃ kept, ({ row with id := 1 } : Assignment).stored? = some kept := by
      cases newly
      exact ⟨_, rfl⟩
    have inside : Service.outside? kept (some (some opening)) = .ok none := by
      cases newly
      cases keeps
      decide
    have checked := checks hourAhead row 1 kept opening opening.reading newly keeps rfl
    rw [inside] at checked
    exact checked

end History
end Overdue
