import Overdue.Sorting
import Overdue.Store.Row
import Overdue.Store.Table

/-! Sessions over the store. Changes of rows are pending until a commit writes all of them or, on a failure, none;
rows are read with their pending changes, while queries look at what is stored. A session may be told that one of its
next commits fails. -/
namespace Overdue

structure Tables where
  assignments : List Assignment := []
  submissions : List Submission := []
  lateRecords : List LateRecord := []
deriving DecidableEq

inductive Write where
  | assignment (row : Assignment)
  | submission (row : Submission)
  | late (row : LateRecord)
  | dropLate (submission : Int)
deriving DecidableEq

namespace Write

def table : Write → Nat
  | assignment _ => 0
  | submission _ => 1
  | late _ | dropLate _ => 2

def key : Write → Int
  | assignment row => row.id
  | submission row => row.id
  | late row => row.submission
  | dropLate id => id

def before (a b : Write) : Bool := a.table < b.table || (a.table = b.table && a.key < b.key)

def sameRow (a b : Write) : Bool := a.table = b.table && a.key = b.key

end Write

namespace Tables

def assignment? (tables : Tables) (id : Int) : Option Assignment := Table.find? Assignment.id id tables.assignments

def submission? (tables : Tables) (id : Int) : Option Submission := Table.find? Submission.id id tables.submissions

def late? (tables : Tables) (id : Int) : Option LateRecord := Table.find? LateRecord.submission id tables.lateRecords

def putAssignment (tables : Tables) (row : Assignment) : Except Failure Tables :=
  if row.fits then
    match row.stored? with
    | some row => .ok { tables with assignments := Table.put Assignment.id row tables.assignments }
    | none => .error .constraint
  else .error .cellTooWide

def putSubmission (tables : Tables) (row : Submission) : Except Failure Tables :=
  if row.fits then
    if tables.submissions.any row.clashes then .error .constraint
    else .ok { tables with submissions := Table.put Submission.id row.stored tables.submissions }
  else .error .cellTooWide

def putLate (tables : Tables) (row : LateRecord) : Except Failure Tables :=
  if row.fits then .ok { tables with lateRecords := Table.put LateRecord.submission row.stored tables.lateRecords }
  else .error .cellTooWide

def dropLate (tables : Tables) (id : Int) : Tables :=
  { tables with lateRecords := Table.erase LateRecord.submission id tables.lateRecords }

def apply (tables : Tables) : Write → Except Failure Tables
  | .assignment row => tables.putAssignment row
  | .submission row => tables.putSubmission row
  | .late row => tables.putLate row
  | .dropLate id => .ok (tables.dropLate id)

/-- Writes changes one after another; the first that fails undoes them all. -/
def applyAll (tables : Tables) (writes : List Write) : Except Failure Tables := writes.foldlM apply tables

end Tables

structure Session where
  stored : Tables
  pending : List Write := []
  /-- The commits that still succeed before one fails. -/
  faultAfter : Option Nat := none

abbrev Work := EStateM Failure Session

namespace Session

def addWrite (write : Write) (pending : List Write) : List Write :=
  Sorting.insert Write.before write (pending.filter fun other => !other.sameRow write)

def rolledBack (session : Session) : Session := { session with pending := [] }

def pendingAssignment? (session : Session) (id : Int) : Option Assignment :=
  session.pending.findSome? fun
    | .assignment row => if row.id = id then some row else none
    | _ => none

def pendingSubmission? (session : Session) (id : Int) : Option Submission :=
  session.pending.findSome? fun
    | .submission row => if row.id = id then some row else none
    | _ => none

def assignment? (session : Session) (id : Int) : Option Assignment :=
  (session.pendingAssignment? id).or (session.stored.assignment? id)

def submission? (session : Session) (id : Int) : Option Submission :=
  (session.pendingSubmission? id).or (session.stored.submission? id)

end Session

namespace Work

def lift : Except Failure α → Work α
  | .ok value => pure value
  | .error failure => throw failure

/-- An integer that is asked for must fit a cell. -/
def require (n : Int) : Work Unit := if fitsWord n then pure () else throw .cellTooWide

def stored : Work Tables := return (← get).stored

def assignment? (id : Int) : Work (Option Assignment) := do
  require id
  return (← get).assignment? id

def submission? (id : Int) : Work (Option Submission) := do
  require id
  return (← get).submission? id

def late? (id : Int) : Work (Option LateRecord) := do
  require id
  return (← get).stored.late? id

def write (write : Write) : Work Unit := modify fun session => { session with pending := Session.addWrite write session.pending }

/-- Writes what is pending to the store. The commit that is to fail does so before anything is written. -/
def commit : Work Unit := fun session =>
  match session.faultAfter with
  | some 0 => .error .commitFailed { session.rolledBack with faultAfter := none }
  | faultAfter =>
    let after := { session.rolledBack with faultAfter := faultAfter.map (· - 1) }
    match session.stored.applyAll session.pending with
    | .ok stored => .ok () { after with stored }
    | .error failure => .error failure after

def insertAssignment (row : Assignment) : Work Int := do
  let id := Table.nextKey Assignment.id (← stored).assignments
  write (.assignment { row with id })
  commit
  return id

def insertSubmission (row : Submission) : Work Int := do
  let id := Table.nextKey Submission.id (← stored).submissions
  write (.submission { row with id })
  commit
  return id

/-- Runs work to its end; a failure rolls back what is pending. A commit fault does not outlast the work. -/
def perform (work : Work α) (faultAfter : Option Nat) (session : Session) : Except Failure α × Session :=
  match work.run { session with faultAfter } with
  | .ok value session => (.ok value, { session with faultAfter := none })
  | .error failure session => (.error failure, { session.rolledBack with faultAfter := none })

end Work
end Overdue
