import Overdue.Proofs.Table
import Overdue.Store.Session

/-! What the store keeps of a row, and what putting a row changes. Rows as they are kept are kept as they are, so that
a row that is read and put again changes in the columns that were set and in no other. -/
namespace Overdue

@[simp] theorem Timestamp.stored_stored (instant : Timestamp) : instant.stored.stored = instant.stored := rfl

theorem Cell.number_number {d kept : Double} (keeps : Cell.number d = some kept) : Cell.number kept = some kept := by
  cases d with
  | nan => cases keeps
  | infinite negative => cases keeps; rfl
  | finite negative units fits =>
    cases keeps
    by_cases zero : units = 0 <;> simp [Cell.number, zero]

theorem Cell.bind_number_number (cell : Option Double) : (cell.bind Cell.number).bind Cell.number = cell.bind Cell.number := by
  cases keeps : cell.bind Cell.number with
  | none => rfl
  | some kept =>
    obtain ⟨d, _, number⟩ := Option.bind_eq_some_iff.mp keeps
    exact Cell.number_number number

@[simp] theorem Policy.stored_stored (policy : Policy) : policy.stored.stored = policy.stored := by
  simp [Policy.stored, Function.comp_def]

@[simp] theorem Submission.stored_stored (row : Submission) : row.stored.stored = row.stored := by
  simp [Submission.stored, Cell.bind_number_number, Function.comp_def]

/-- A kept row with another penalty and another score is kept but for the score. -/
theorem Submission.stored_rescored {row : Submission} (kept : row.stored = row) (penalty : Int) (score : Option Double) :
    ({ row with penalty, score } : Submission).stored = { row with penalty, score := score.bind Cell.number } := by
  cases row
  simp only [stored, Submission.mk.injEq, true_and] at kept ⊢
  obtain ⟨started, finished, raw, _, graded⟩ := kept
  exact ⟨started, finished, raw, graded⟩

@[simp] theorem LateRecord.stored_stored (row : LateRecord) : row.stored.stored = row.stored := rfl

theorem Assignment.stored?_eq_some {row kept : Assignment} :
    row.stored? = some kept ↔ ∃ largest, Cell.number row.maxScore = some largest ∧
      kept = { row with
        maxScore := largest
        openAt := row.openAt.map Timestamp.stored
        closeAt := row.closeAt.map Timestamp.stored
        policy := row.policy.stored } := by
  cases number : Cell.number row.maxScore <;> simp [stored?, number, eq_comm]

theorem Assignment.stored?_stored? {row kept : Assignment} (keeps : row.stored? = some kept) : kept.stored? = some kept := by
  obtain ⟨largest, number, rfl⟩ := stored?_eq_some.mp keeps
  refine stored?_eq_some.mpr ⟨largest, Cell.number_number number, ?_⟩
  simp [Function.comp_def]

/-- A kept assignment with another policy is kept but for the policy. -/
theorem Assignment.stored?_policy {row : Assignment} (kept : row.stored? = some row) (policy : Policy) :
    ({ row with policy } : Assignment).stored? = some { row with policy := policy.stored } := by
  obtain ⟨largest, number, whole⟩ := stored?_eq_some.mp kept
  refine stored?_eq_some.mpr ⟨largest, number, ?_⟩
  cases row
  simp only [Assignment.mk.injEq, true_and, and_true] at whole ⊢
  obtain ⟨maxScore, openAt, closeAt, _⟩ := whole
  exact ⟨maxScore, openAt, closeAt⟩

namespace Tables

variable {tables after : Tables}

theorem putAssignment_eq_ok {row : Assignment} :
    tables.putAssignment row = .ok after ↔ row.fits ∧ ∃ kept, row.stored? = some kept ∧
      after = { tables with assignments := Table.put Assignment.id kept tables.assignments } := by
  unfold putAssignment
  cases row.fits <;> cases row.stored? <;> simp [eq_comm]

theorem putSubmission_eq_ok {row : Submission} :
    tables.putSubmission row = .ok after ↔ row.fits ∧ tables.submissions.any row.clashes = false ∧
      after = { tables with submissions := Table.put Submission.id row.stored tables.submissions } := by
  unfold putSubmission
  cases row.fits <;> cases tables.submissions.any row.clashes <;> simp [eq_comm]

theorem putLate_eq_ok {row : LateRecord} :
    tables.putLate row = .ok after ↔ row.fits ∧
      after = { tables with lateRecords := Table.put LateRecord.submission row.stored tables.lateRecords } := by
  unfold putLate
  cases row.fits <;> simp [eq_comm]

/-- A write fails because of what it writes: a cell that is too wide, or a constraint of the table. -/
theorem apply_fails {change : Write} {failure : Failure} (refused : tables.apply change = .error failure) :
    failure = .cellTooWide ∨ failure = .constraint := by
  cases change with
  | assignment row =>
    simp only [apply, putAssignment] at refused
    cases fits : row.fits <;> cases kept : row.stored? <;> simp_all
  | submission row =>
    simp only [apply, putSubmission] at refused
    cases fits : row.fits <;> cases clash : tables.submissions.any row.clashes <;> simp_all
  | late row =>
    simp only [apply, putLate] at refused
    cases fits : row.fits <;> simp_all
  | dropLate id => cases refused

/-- A write never fails as a commit does. -/
theorem apply_error {change : Write} {failure : Failure} (refused : tables.apply change = .error failure) :
    failure ≠ .commitFailed := by
  rcases apply_fails refused with rfl | rfl <;> simp

theorem applyAll_fails {writes : List Write} {failure : Failure} (refused : tables.applyAll writes = .error failure) :
    failure = .cellTooWide ∨ failure = .constraint := by
  unfold applyAll at refused
  induction writes generalizing tables with
  | nil => cases refused
  | cons change others ih =>
    rw [List.foldlM_cons] at refused
    cases applied : tables.apply change with
    | error first =>
      rw [applied] at refused
      cases refused
      exact apply_fails applied
    | ok middle =>
      rw [applied] at refused
      exact ih refused

end Tables
end Overdue
