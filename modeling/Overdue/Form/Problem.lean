import Overdue.Sorting

/-! Problems of a payload: where they are and of what type. -/
namespace Overdue

inductive ProblemType where
  | missing
  | notObject
  | notAttributes
  | malformed
  | notText
  | unpairedText
  | notInteger
  | integerText
  | fractional
  | notFinite
  | integerSize
  | notNumber
  | numberText
  | notBool
  | boolText
  | notInstant
  | instantRange
  | instantText
  | below
  | notAbove
  | above
  | rule (message : String)
deriving DecidableEq, Repr

namespace ProblemType

def name : ProblemType → String
  | missing => "missing"
  | notObject => "model_type"
  | notAttributes => "model_attributes_type"
  | malformed => "json_invalid"
  | notText => "string_type"
  | unpairedText => "string_unicode"
  | notInteger => "int_type"
  | integerText => "int_parsing"
  | fractional => "int_from_float"
  | notFinite => "finite_number"
  | integerSize => "int_parsing_size"
  | notNumber => "float_type"
  | numberText => "float_parsing"
  | notBool => "bool_type"
  | boolText => "bool_parsing"
  | notInstant => "datetime_type"
  | instantRange => "datetime_parsing"
  | instantText => "datetime_from_date_parsing"
  | below => "greater_than_equal"
  | notAbove => "greater_than"
  | above => "less_than_equal"
  | rule _ => "value_error"

/-- Only the rules explain themselves. -/
def message? : ProblemType → Option String
  | rule message => some ("Value error, " ++ message)
  | _ => none

end ProblemType

structure Problem where
  path : List String
  type : ProblemType
deriving DecidableEq, Repr

namespace Problem

def key (problem : Problem) : String :=
  "[" ++ ", ".intercalate (problem.path.map fun name => "\"" ++ name ++ "\"") ++ "]"

def sort (problems : List Problem) : List Problem := Sorting.sort (fun a b => a.key < b.key) problems

def under (name : String) (problem : Problem) : Problem := { problem with path := name :: problem.path }

end Problem

/-- A value, or all the problems that stand against it. -/
inductive Checked (α : Type) where
  | accepted (value : α)
  | rejected (problems : List Problem)
deriving Repr

namespace Checked

def map (f : α → β) : Checked α → Checked β
  | accepted value => accepted (f value)
  | rejected problems => rejected problems

def seq (f : Checked (α → β)) (x : Checked α) : Checked β :=
  match f, x with
  | accepted f, accepted value => accepted (f value)
  | accepted _, rejected problems => rejected problems
  | rejected problems, accepted _ => rejected problems
  | rejected problems, rejected others => rejected (problems ++ others)

def under (name : String) : Checked α → Checked α
  | accepted value => accepted value
  | rejected problems => rejected (problems.map (Problem.under name))

instance : Applicative Checked where
  pure := accepted
  map := map
  seq f x := seq f (x ())

end Checked
end Overdue
