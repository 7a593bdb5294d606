import TaintReplay.Text.Hex
import TaintReplay.Text.Shown

/-!
# Quoted text in messages

A text that a message quotes stands between double quotes. The quote and the backslash get a backslash, some control
characters a letter, and all other characters that are not shown their number in braces.
-/

namespace TaintReplay.Text

/-- A character of a quoted text. -/
def quotedChar (c : Char) : String :=
  match c with
  | '"' => "\\\""
  | '\\' => "\\\\"
  | '\n' => "\\n"
  | '\r' => "\\r"
  | '\t' => "\\t"
  | '\x00' => "\\0"
  | c => if isShown c then String.singleton c else "\\u\x7b" ++ hex c.toNat ++ "\x7d"

def quoted (s : String) : String := "\"" ++ String.join (s.toList.map quotedChar) ++ "\""

end TaintReplay.Text
