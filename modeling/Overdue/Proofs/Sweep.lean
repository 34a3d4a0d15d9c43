import Overdue.Proofs.Repair

/-! Regrades of a whole assignment. A regrade changes the entry of its own submission and reads nothing that the regrade
of another one writes, so that each finished submission ends as if it alone had been regraded, whatever the order. -/
namespace Overdue

open Work

variable {tables after : Tables} {calendar : Calendar} {ids others : List Int} {id : Int}

theorem Settled.perm (settled : Settled calendar ids tables after) (order : others.Perm ids) :
    Settled calendar others tables after where
  held := settled.held
  assignments := settled.assignments
  settles := fun id inside => settled.settles id (order.mem_iff.mp inside)
  others := fun id outside => settled.others id fun inside => outside (order.mem_iff.mpr inside)

namespace Evaluation

/-- A regrade that returns leaves of its submission what it settles. -/
theorem regrade_settles {penalty : Int} (returns : (perform (regrade id calendar) none { stored := tables }).1 = .ok penalty) :
    Settles calendar tables id ((perform (regrade id calendar) none { stored := tables }).2.stored.entry id) := by
  obtain ⟨attempts, result, after, runs, regraded⟩ := regrade_yields id calendar tables
  rw [perform_eq runs] at returns ⊢
  cases returns
  exact regraded.settles.1

/-- Regrades that each would return alone return one after another. -/
theorem review_settled (held : Held tables) {rows : List Submission} (distinct : (rows.map Submission.id).Nodup)
    (settles : ∀ id ∈ rows.map Submission.id, ∃ entry, Settles calendar tables id entry) :
    ∃ after, perform (rows.forM fun row => discard (regrade row.id calendar)) none { stored := tables } =
        (.ok (), { stored := after }) ∧
      Settled calendar (rows.map Submission.id) tables after := by
  obtain ⟨attempts, result, after, runs, reviewed⟩ := review_yields calendar rows tables
  obtain rfl := reviewed.returns held distinct settles
  exact ⟨after, perform_eq runs none, (reviewed.settled rfl held distinct).1⟩

/-- A regrade of all is the regrades of the finished submissions, one after another. -/
theorem perform_regradeAll {assignment : Int} {row : Assignment} (fits : fitsWord assignment = true)
    (placed : tables.assignment? assignment = some row)
    (reviews : perform ((finishedOf assignment tables).forM fun row => discard (regrade row.id calendar)) none
      { stored := tables } = (.ok (), { stored := after })) :
    perform (regradeAll assignment calendar) none { stored := tables } =
      (.ok (finishedOf assignment tables).length, { stored := after }) := by
  obtain ⟨attempts, result, last, runs, reviewed⟩ := review_yields calendar (finishedOf assignment tables) tables
  rw [perform_eq runs none] at reviews
  obtain ⟨rfl, same⟩ := Prod.mk.inj reviews
  cases same
  have found : Runs (assignment? assignment) tables [] (.ok (some row)) tables := by
    simpa [within, fits, placed] using runs_assignment? assignment tables
  have course : Runs (regradeAll assignment calendar) tables _ (.ok (finishedOf assignment tables).length) after :=
    runs_bind found (runs_bind (runs_stored tables) (runs_bind runs (runs_pure _ _)))
  exact perform_eq course none

end Evaluation

open Evaluation

/-- Where each finished submission of an assignment can be regraded alone, a regrade of all of them returns how many they
are. It leaves of each what the regrade of it alone leaves, and all else as it was; and so do the regrades of them one
after another in any order. -/
theorem Held.swept (held : Held tables) {assignment : Int} {row : Assignment} (fits : fitsWord assignment = true)
    (placed : tables.assignment? assignment = some row) (calendar : Calendar)
    (returns : ∀ row ∈ finishedOf assignment tables, ∃ penalty,
      (perform (regrade row.id calendar) none { stored := tables }).1 = .ok penalty) :
    ∃ after,
      perform (regradeAll assignment calendar) none { stored := tables } =
        (.ok (finishedOf assignment tables).length, { stored := after }) ∧
      (∀ row ∈ finishedOf assignment tables,
        after.entry row.id = (perform (regrade row.id calendar) none { stored := tables }).2.stored.entry row.id) ∧
      after.assignments = tables.assignments ∧
      (∀ id, (∀ row ∈ finishedOf assignment tables, row.id ≠ id) → after.entry id = tables.entry id) ∧
      ∀ rows : List Submission, rows.Perm (finishedOf assignment tables) →
        perform (rows.forM fun row => discard (regrade row.id calendar)) none { stored := tables } =
          (.ok (), { stored := after }) := by
  have settles : ∀ id ∈ (finishedOf assignment tables).map Submission.id, ∃ entry, Settles calendar tables id entry := by
    intro id inside
    obtain ⟨row, member, rfl⟩ := List.mem_map.mp inside
    obtain ⟨penalty, alone⟩ := returns row member
    exact ⟨_, regrade_settles alone⟩
  have distinct : ((finishedOf assignment tables).map Submission.id).Nodup :=
    (finishedOf_sorted held assignment).imp Int.ne_of_lt
  obtain ⟨after, reviews, settled⟩ := review_settled held distinct settles
  refine ⟨after, perform_regradeAll fits placed reviews, ?_, settled.assignments, ?_, ?_⟩
  · intro row member
    obtain ⟨penalty, alone⟩ := returns row member
    exact (settled.settles row.id (List.mem_map_of_mem member)).unique (regrade_settles alone)
  · intro id apart
    apply settled.others
    intro inside
    obtain ⟨row, member, same⟩ := List.mem_map.mp inside
    exact apart row member same
  · intro rows order
    have orderIds := order.map Submission.id
    obtain ⟨last, reviewsToo, settledToo⟩ := review_settled held (orderIds.nodup_iff.mpr distinct)
      fun id inside => settles id (orderIds.mem_iff.mp inside)
    rw [reviewsToo, settledToo.unique (settled.perm orderIds)]

namespace History

/-- The due instant is moved twice, so that a regrade has a late record to delete, one to create, one to update and a
submission that stays without; a fifth attempt is open. -/
def redated : List Event := [
  .plain 63846200000000000 .patch ["assignments", "1", "late-policy"] [("due_at", .str "2024-03-05T00:00:00Z")],
  .plain 63846000000000000 .post ["submissions", "3", "finish"] [],
  .plain 63845400000000000 .post ["submissions", "2", "finish"] [],
  .plain 63845150000000000 .post ["submissions", "4", "finish"] [],
  .plain 63845100000000000 .patch ["assignments", "1", "late-policy"] [("due_at", .str "2024-03-10T00:00:00Z")],
  .plain 63845000000000000 .post ["submissions", "1", "finish"] [],
  .plain 63840000000000000 .post ["assignments", "1", "submissions"] [("student_id", .int 11)],
  .plain 63840000000000000 .post ["assignments", "1", "submissions"] [("student_id", .int 10)],
  .plain 63840000000000000 .post ["assignments", "1", "submissions"] [("student_id", .int 9)],
  .plain 63840000000000000 .post ["assignments", "1", "submissions"] [("student_id", .int 8)],
  .plain 63840000000000000 .post ["assignments", "1", "submissions"] [("student_id", .int 7)],
  .plain 63830000000000000 .post ["assignments"]
    [("title", .str "Essay"), ("due_at", .str "2024-03-02T00:00:00Z")]]

theorem swept_redated :
    let tables := History.tables redated
    let calendar : Calendar := ⟨[], .utc⟩
    ∃ after, perform (regradeAll 1 calendar) none { stored := tables } = (.ok 4, { stored := after }) ∧
      after.entry 3 = (perform (regrade 3 calendar) none { stored := tables }).2.stored.entry 3 ∧
      after.entry 5 = tables.entry 5 ∧
      perform ((finishedOf 1 tables).reverse.forM fun row => discard (regrade row.id calendar)) none { stored := tables } =
        (.ok (), { stored := after }) := by
  intro tables calendar
  have ids : (finishedOf 1 tables).map Submission.id = [1, 2, 3, 4] := by decide +kernel
  have placed : (tables.assignment? 1).isSome = true := by decide +kernel
  obtain ⟨row, placed⟩ := Option.isSome_iff_exists.mp placed
  have returns : [1, 2, 3, 4].map (fun id => (perform (regrade id calendar) none { stored := tables }).1) =
      [.ok 0, .ok 15, .ok 40, .ok 0] := by decide +kernel
  simp only [List.map_cons, List.map_nil, List.cons.injEq, and_true] at returns
  obtain ⟨first, second, third, fourth⟩ := returns
  obtain ⟨after, all, entries, _, others, orders⟩ := (History.held redated).swept (by decide) placed calendar fun row member => by
    have inside : row.id ∈ (finishedOf 1 tables).map Submission.id := List.mem_map_of_mem member
    rw [ids] at inside
    simp only [List.mem_cons, List.not_mem_nil, or_false] at inside
    rcases inside with same | same | same | same
    all_goals rw [same]
    exacts [⟨_, first⟩, ⟨_, second⟩, ⟨_, third⟩, ⟨_, fourth⟩]
  have count : (finishedOf 1 tables).length = 4 := by simpa using congrArg List.length ids
  refine ⟨after, count ▸ all, ?_, ?_, orders _ (List.reverse_perm _)⟩
  · have third : 3 ∈ (finishedOf 1 tables).map Submission.id := by simp [ids]
    obtain ⟨row, member, same⟩ := List.mem_map.mp third
    rw [← same]
    exact entries row member
  · apply others
    intro row member same
    have inside : 5 ∈ (finishedOf 1 tables).map Submission.id := List.mem_map.mpr ⟨row, member, same⟩
    rw [ids] at inside
    simp at inside

end History
end Overdue
