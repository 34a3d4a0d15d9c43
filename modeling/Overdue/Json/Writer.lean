import Overdue.Double.Decimal
import Overdue.Json
import Overdue.Text.Quoted

/-! Writing JSON text on one line. A number that is not finite is written as `null`. -/
namespace Overdue.Json

def escapeChar (c : Char) : List Char :=
  if c = '\\' ∨ c = Text.doubleQuote then ['\\', c]
  else if c.toNat < 0x20 then '\\' :: 'u' :: Text.hex 4 c.toNat
  else [c]

def writeString (text : String) : String :=
  String.ofList (Text.doubleQuote :: text.toList.flatMap escapeChar ++ [Text.doubleQuote])

mutual

def write : Json → String
  | null => "null"
  | bool value => if value then "true" else "false"
  | int value => toString value
  | double value => if value.isFinite then value.text else "null"
  | str value => writeString value
  | unpaired => "null"
  | arr elements => "[" ++ ",".intercalate (writeAll elements) ++ "]"
  | obj members => "\x7b" ++ ",".intercalate (writeMembers members) ++ "\x7d"

def writeAll : List Json → List String
  | [] => []
  | first :: others => write first :: writeAll others

def writeMembers : List (String × Json) → List String
  | [] => []
  | (name, value) :: others => (writeString name ++ ":" ++ write value) :: writeMembers others

end

end Overdue.Json
