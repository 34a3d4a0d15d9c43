import Overdue.Proofs.Sound

/-! Evaluations in a session with other changes pending. A commit writes all of them, table by table and in the order of
their keys; a late record is as the one change of it leaves it, wherever that stands among the others. -/
namespace Overdue

open Failure

namespace Tables

variable {tables after : Tables} {id : Int} {change own : Write} {writes : List Write}

theorem apply_late?_other (applied : tables.apply change = .ok after) (apart : change.table = 2 → change.key ≠ id) :
    after.late? id = tables.late? id := by
  cases change with
  | assignment row =>
    obtain ⟨_, _, _, rfl⟩ := putAssignment_eq_ok.mp applied
    rfl
  | submission row =>
    obtain ⟨_, _, rfl⟩ := putSubmission_eq_ok.mp applied
    rfl
  | late row =>
    have other : row.submission ≠ id := apart rfl
    rw [late?_put applied, if_neg other.symm]
  | dropLate dropped =>
    have other : dropped ≠ id := apart rfl
    cases applied
    rw [late?_drop, if_neg other.symm]

theorem applyAll_cons : tables.applyAll (change :: writes) = .ok after ↔
    ∃ middle, tables.apply change = .ok middle ∧ middle.applyAll writes = .ok after := by
  rw [applyAll, List.foldlM_cons, bind_eq_ok]
  rfl

theorem applyAll_late?_other (applied : tables.applyAll writes = .ok after)
    (apart : ∀ change ∈ writes, change.table = 2 → change.key ≠ id) : after.late? id = tables.late? id := by
  induction writes generalizing tables with
  | nil =>
    cases applied
    rfl
  | cons change others ih =>
    obtain ⟨middle, first, rest⟩ := applyAll_cons.mp applied
    obtain ⟨apartFirst, apartRest⟩ := List.forall_mem_cons.mp apart
    rw [ih rest apartRest, apply_late?_other first apartFirst]

/-- The only change of a late record among others leaves it as it does on its own. -/
theorem applyAll_late? (applied : tables.applyAll writes = .ok after) (inside : own ∈ writes)
    (only : ∀ change ∈ writes, change.table = 2 → change.key = own.key → change = own) :
    ∃ before middle : Tables, before.apply own = .ok middle ∧ after.late? own.key = middle.late? own.key := by
  induction writes generalizing tables with
  | nil => cases inside
  | cons change others ih =>
    obtain ⟨middle, first, rest⟩ := applyAll_cons.mp applied
    obtain ⟨onlyFirst, onlyRest⟩ := List.forall_mem_cons.mp only
    by_cases later : own ∈ others
    · exact ih rest later onlyRest
    · obtain rfl : own = change := (List.mem_cons.mp inside).resolve_right later
      refine ⟨tables, middle, first, applyAll_late?_other rest fun change member isLate same => later ?_⟩
      rw [← onlyRest change member isLate same]
      exact member

end Tables

theorem Session.mem_addWrite {change other : Write} {pending : List Write} :
    other ∈ addWrite change pending ↔ other = change ∨ other ∈ pending ∧ other.sameRow change = false := by
  rw [addWrite, (Sorting.insert_perm _ _ _).mem_iff, List.mem_cons, List.mem_filter, Bool.not_eq_true']

namespace Work

variable {α β : Type} {session after : Session} {id : Int}

theorem bind_ends {x : Work α} {f : α → Work β} {value : β} : (x >>= f) session = .ok value after ↔
    ∃ first middle, x session = .ok first middle ∧ f first middle = .ok value after := by
  change EStateM.bind x f session = _ ↔ _
  rw [EStateM.bind]
  cases x session <;> simp

theorem lift_ends {result : Except Failure α} {value : α} (ends : lift result session = .ok value after) :
    result = .ok value ∧ session = after := by
  cases result with
  | error failure => cases ends
  | ok value =>
    cases ends
    exact ⟨rfl, rfl⟩

theorem late?_ends {record : Option LateRecord} (ends : late? id session = .ok record after) :
    session.stored.late? id = record ∧ session = after := by
  obtain ⟨_, _, asked, read⟩ := bind_ends.mp ends
  unfold require at asked
  split at asked <;> cases asked
  cases read
  exact ⟨rfl, rfl⟩

theorem commit_ends (ends : commit session = .ok () after) : session.stored.applyAll session.pending = .ok after.stored := by
  unfold commit at ends
  split at ends
  next => cases ends
  next =>
    dsimp only at ends
    split at ends
    next stored written =>
      cases ends
      exact written
    next => cases ends

/-- What a change of a late record leaves when it is committed with all others, and the work ends there. -/
theorem save_ends (change : Write) {value result : α} (late : change.table = 2)
    (ends : (do write change; commit; return value) session = .ok result after) :
    ∃ before middle : Tables, before.apply change = .ok middle ∧ after.stored.late? change.key = middle.late? change.key := by
  obtain ⟨_, changed, wrote, rest⟩ := bind_ends.mp ends
  obtain ⟨_, committed, commits, last⟩ := bind_ends.mp rest
  cases wrote
  cases last
  refine Tables.applyAll_late? (commit_ends commits) (Session.mem_addWrite.mpr (.inl rfl)) fun other member isLate same => ?_
  rcases Session.mem_addWrite.mp member with own | ⟨_, apart⟩
  · exact own
  · simp [Write.sameRow, isLate, late, same] at apart

theorem put_ends (row : LateRecord) {value result : α}
    (ends : (do write (.late row); commit; return value) session = .ok result after) :
    after.stored.late? row.submission = some row.stored := by
  obtain ⟨before, middle, saved, same⟩ := save_ends (.late row) rfl ends
  have left : after.stored.late? row.submission = middle.late? row.submission := same
  rw [left, Tables.late?_put saved, if_pos rfl]

theorem drop_ends (id : Int) {value result : α}
    (ends : (do write (.dropLate id); commit; return value) session = .ok result after) : after.stored.late? id = none := by
  obtain ⟨before, middle, dropped, same⟩ := save_ends (.dropLate id) rfl ends
  have left : after.stored.late? id = middle.late? id := same
  cases dropped
  rw [left, Tables.late?_drop, if_pos rfl]

theorem perform_ends {work : Work α} {fault : Option Nat} {value : α} (returned : (perform work fault session).1 = .ok value) :
    ∃ after, work { session with faultAfter := fault } = .ok value after ∧
      (perform work fault session).2.stored = after.stored := by
  unfold perform EStateM.run at returned ⊢
  cases ended : work { session with faultAfter := fault } with
  | ok result after =>
    rw [ended] at returned
    cases returned
    exact ⟨after, rfl, rfl⟩
  | error failure after =>
    rw [ended] at returned
    cases returned

end Work

namespace Evaluation

variable {id : Int} {finished : Timestamp} {policy : Policy} {session after : Session} {action : Action}

/-- An evaluation that ends has left a late record exactly if it found the finish late, whatever else was pending. -/
theorem evaluate_ends (ends : evaluate id finished policy session = .ok action after) :
    ∃ late, policy.isLate finished = .ok late ∧ (after.stored.late? id).isSome = late := by
  obtain ⟨record, middle, read, ends⟩ := Work.bind_ends.mp ends
  obtain ⟨found, rfl⟩ := Work.late?_ends read
  obtain ⟨late, middle, read, ends⟩ := Work.bind_ends.mp ends
  obtain ⟨decided, rfl⟩ := Work.lift_ends read
  refine ⟨late, decided, ?_⟩
  cases late with
  | true =>
    obtain ⟨terms, middle, read, ends⟩ := Work.bind_ends.mp ends
    obtain ⟨_, rfl⟩ := Work.lift_ends read
    cases record with
    | none =>
      obtain ⟨done, middle, read, ends⟩ := Work.bind_ends.mp ends
      obtain ⟨_, rfl⟩ := Work.lift_ends read
      have put : after.stored.late? id = some _ := Work.put_ends _ ends
      rw [put, Option.isSome_some]
    | some record =>
      have put : after.stored.late? record.submission = some _ := Work.put_ends { record with terms } ends
      rw [← Table.find?_key found, put, Option.isSome_some]
  | false =>
    cases record with
    | none =>
      cases ends
      rw [found, Option.isSome_none]
    | some record => rw [Work.drop_ends id ends, Option.isSome_none]

end Evaluation
end Overdue
