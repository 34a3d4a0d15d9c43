import Overdue.Double

/-! JSON values. Integers are kept apart from other numbers, and so is a string with an unpaired surrogate, which
has no text. The members of an object stand in the order of the text. -/
namespace Overdue

inductive Json where
  | null
  | bool (value : Bool)
  | int (value : Int)
  | double (value : Double)
  | str (value : String)
  | unpaired
  | arr (elements : List Json)
  | obj (members : List (String × Json))
deriving Inhabited

namespace Json

/-- Of members with one name the last counts. -/
def lookup? (members : List (String × Json)) (name : String) : Option Json :=
  (members.reverse.find? fun member => member.1 = name).map Prod.snd

def member? (json : Json) (name : String) : Option Json :=
  match json with
  | obj members => lookup? members name
  | _ => none

def ofOption (encode : α → Json) : Option α → Json
  | none => null
  | some value => encode value

end Json
end Overdue
