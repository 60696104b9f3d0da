import LadderDiagram.Text.Invisible

/-!
# Quoted text in messages

A text between double quotes. The quote, the backslash and the common controls
are written with a backslash; any other invisible character by its number.
-/

namespace LadderDiagram.Text

def quotedChar (c : Char) : String :=
  match c with
  | '"' => "\\\""
  | '\\' => "\\\\"
  | '\n' => "\\n"
  | '\r' => "\\r"
  | '\t' => "\\t"
  | '\x00' => "\\0"
  | c =>
    if isInvisible c then "\\u\x7b" ++ String.ofList (Nat.toDigits 16 c.toNat) ++ "\x7d"
    else c.toString

def quoted (s : String) : String :=
  "\"" ++ String.join (s.toList.map quotedChar) ++ "\""

end LadderDiagram.Text
