import MessagePipe.Text.Printable

/-!
# MessagePipe.Text.Quoted

A text between double quotes, on one line.  A zero byte, tab, line feed,
carriage return, backslash and double quote are written as two characters; any
other character that cannot be seen by itself is written as its number.
-/

namespace MessagePipe.Text

/-- A character by its number in hexadecimal. -/
def numbered (c : Char) : String :=
  "\\u\x7b" ++ String.ofList (Nat.toDigits 16 c.toNat) ++ "\x7d"

/-- One character of a quoted text. -/
def quotedChar (c : Char) : String :=
  if c = '\x00' then "\\0"
  else if c = '\t' then "\\t"
  else if c = '\n' then "\\n"
  else if c = '\r' then "\\r"
  else if c = '\\' then "\\\\"
  else if c = '"' then "\\\""
  else if standsAlone c then c.toString
  else numbered c

/-- A text in quotes. -/
def quoted (s : String) : String :=
  "\"" ++ String.join (s.toList.map quotedChar) ++ "\""

end MessagePipe.Text
