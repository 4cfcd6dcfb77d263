import QueryTypes.Text.Combining
import QueryTypes.Text.Invisible
import QueryTypes.Text.Unassigned

/-!
# Quoted names

Names as error messages and inspections show them: between double quotes, with the quote, the
backslash and every character that has no glyph of its own, or merges with its neighbour, escaped.
-/

namespace QueryTypes.Text

/-- Whether a character cannot be told from its glyph where it stands. -/
def isObscure (c : Char) : Bool := isInvisible c || isUnassigned c || isCombining c

/-- A character as it stands between the quotes. -/
def escape (c : Char) : List Char :=
  match c with
  | '"' => ['\\', '"']
  | '\\' => ['\\', '\\']
  | '\n' => ['\\', 'n']
  | '\r' => ['\\', 'r']
  | '\t' => ['\\', 't']
  | '\x00' => ['\\', '0']
  | c =>
    if isObscure c then ['\\', 'u', '\x7b'] ++ Nat.toDigits 16 c.toNat ++ ['\x7d'] else [c]

/-- A text between quotes. -/
def quoted (s : String) : String := "\"" ++ String.ofList (s.toList.flatMap escape) ++ "\""

end QueryTypes.Text
