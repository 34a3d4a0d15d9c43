import Overdue.Double
import Overdue.Policy
import Overdue.Word

/-! The rows of the store: assignments with their late policy, submissions, and late records with the terms in force
when a submission was found late. A stored row keeps no offsets, no NaN and no negative zero. -/
namespace Overdue

structure Assignment where
  id : Int
  title : String
  description : Option String
  maxScore : Double
  openAt : Option Timestamp
  closeAt : Option Timestamp
  policy : Policy
deriving DecidableEq

structure Submission where
  id : Int
  assignment : Int
  student : Int
  attempt : Int
  content : Option String
  startedAt : Timestamp
  finishedAt : Option Timestamp
  rawScore : Option Double
  penalty : Int
  score : Option Double
  feedback : Option String
  gradedAt : Option Timestamp
deriving DecidableEq

structure LateRecord where
  submission : Int
  finishedAt : Timestamp
  terms : Terms
deriving DecidableEq

namespace Cell

/-- A number as a cell keeps it: NaN becomes null and the sign of zero is lost. -/
def number : Double → Option Double
  | .nan => none
  | .finite negative units fits => some (.finite (negative && units ≠ 0) units fits)
  | d => some d

end Cell

namespace Policy

def stored (policy : Policy) : Policy := { policy with dueAt := policy.dueAt.map Timestamp.stored }

def fits (policy : Policy) : Bool := fitsWord policy.daily && fitsWord policy.cap

end Policy

namespace Terms

def stored (terms : Terms) : Terms := { terms with dueAt := terms.dueAt.stored }

def fits (terms : Terms) : Bool := fitsWord terms.daily && fitsWord terms.cap

end Terms

namespace Assignment

/-- The row as the store keeps it; the largest score must be a number. -/
def stored? (row : Assignment) : Option Assignment := do
  return { row with
    maxScore := ← Cell.number row.maxScore
    openAt := row.openAt.map Timestamp.stored
    closeAt := row.closeAt.map Timestamp.stored
    policy := row.policy.stored }

def fits (row : Assignment) : Bool := fitsWord row.id && row.policy.fits

end Assignment

namespace Submission

def stored (row : Submission) : Submission :=
  { row with
    startedAt := row.startedAt.stored
    finishedAt := row.finishedAt.map Timestamp.stored
    rawScore := row.rawScore.bind Cell.number
    score := row.score.bind Cell.number
    gradedAt := row.gradedAt.map Timestamp.stored }

def fits (row : Submission) : Bool :=
  fitsWord row.id && fitsWord row.assignment && fitsWord row.student && fitsWord row.attempt && fitsWord row.penalty

/-- Two submissions that may not stand side by side: the same attempt of a student at an assignment. -/
def clashes (row other : Submission) : Bool :=
  row.id ≠ other.id && row.assignment = other.assignment && row.student = other.student && row.attempt = other.attempt

def isFinished (row : Submission) : Bool := row.finishedAt.isSome

end Submission

namespace LateRecord

def stored (row : LateRecord) : LateRecord := { row with finishedAt := row.finishedAt.stored, terms := row.terms.stored }

def fits (row : LateRecord) : Bool := fitsWord row.submission && row.terms.fits

end LateRecord
end Overdue
