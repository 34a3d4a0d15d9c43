import Overdue.Text.Digit

/-! Paths of requests. A path ends at a query; a percent sign and two hexadecimal digits stand for a byte; slashes part
the segments. -/
namespace Overdue.Path

def endsPath (c : Char) : Bool := c == '?' || c == '#'

/-- The UTF-8 bytes of a text, with the bytes that are written as percent signs and digits. -/
def bytes : List Char → List UInt8
  | [] => []
  | '%' :: high :: low :: rest =>
    match Text.hexDigit? high, Text.hexDigit? low with
    | some high, some low => UInt8.ofNat (high * 16 + low) :: bytes rest
    | _, _ => UInt8.ofNat '%'.toNat :: bytes (high :: low :: rest)
  | c :: rest => String.utf8EncodeChar c ++ bytes rest

def slash : UInt8 := UInt8.ofNat '/'.toNat

def pieces : List UInt8 → List (List UInt8)
  | [] => [[]]
  | byte :: rest =>
    if byte = slash then [] :: pieces rest
    else match pieces rest with
      | [] => [[byte]]
      | piece :: others => (byte :: piece) :: others

/-- The text of some bytes; bytes that are no UTF-8 are shown as a replacement character. -/
def textOf (bytes : List UInt8) : String := (String.fromUTF8? ⟨bytes.toArray⟩).getD "\ufffd"

def withoutRoot : List String → List String
  | "" :: segments => segments
  | segments => segments

/-- The segments of a path; slashes at its end do not count. -/
def segments (path : String) : List String :=
  let texts := (pieces (bytes (path.toList.takeWhile fun c => !endsPath c))).map textOf
  (withoutRoot texts).reverse.dropWhile (· = "") |>.reverse

end Overdue.Path
