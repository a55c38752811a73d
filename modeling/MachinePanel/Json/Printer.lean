/-
Compact JSON text: no white space, members in the order of the value, and only
the escapes that are needed.
-/
import MachinePanel.Json.Value
import MachinePanel.Text.Numeral

namespace MachinePanel.Json

/-- The lower-case hexadecimal digit of a number below sixteen. -/
def hexDigit (n : Nat) : Char :=
  if n < 10 then Char.ofNat (48 + n) else Char.ofNat (87 + n)

/-- One character of a string. -/
def renderChar (c : Char) : List Char :=
  match c with
  | '"' => ['\\', '"']
  | '\\' => ['\\', '\\']
  | '\x08' => ['\\', 'b']
  | '\x0c' => ['\\', 'f']
  | '\n' => ['\\', 'n']
  | '\r' => ['\\', 'r']
  | '\t' => ['\\', 't']
  | c =>
    if c.toNat < 0x20 then
      ['\\', 'u', '0', '0', hexDigit (c.toNat / 16), hexDigit (c.toNat % 16)]
    else [c]

/-- A string with its quotes. -/
def renderString (s : String) : List Char :=
  '"' :: s.toList.flatMap renderChar ++ ['"']

/-- A number as it stands. -/
def renderNumber (n : Number) : List Char :=
  (if n.negative then ['-'] else []) ++ n.whole.map Numeral.digit ++
    (match n.fraction with
      | none => []
      | some ds => '.' :: ds.map Numeral.digit) ++
    (match n.exponent with
      | none => []
      | some e => 'e' :: (if e < 0 then ['-'] else []) ++ Numeral.digits e.natAbs)

mutual

/-- A value without white space. What has no characters is written as an empty string. -/
def render : Json → List Char
  | .null => ['n', 'u', 'l', 'l']
  | .bool true => ['t', 'r', 'u', 'e']
  | .bool false => ['f', 'a', 'l', 's', 'e']
  | .num n => renderNumber n
  | .str s => renderString (s.getD "")
  | .arr xs => '[' :: renderItems xs ++ [']']
  | .obj ms => '\x7b' :: renderMembers ms ++ ['\x7d']

/-- Items with commas between them. -/
def renderItems : List Json → List Char
  | [] => []
  | [x] => render x
  | x :: xs => render x ++ ',' :: renderItems xs

/-- Members with commas between them. -/
def renderMembers : List (Option String × Json) → List Char
  | [] => []
  | [(k, x)] => renderString (k.getD "") ++ ':' :: render x
  | (k, x) :: ms => renderString (k.getD "") ++ ':' :: render x ++ ',' :: renderMembers ms

end

/-- The compact text of a value. -/
def toText (v : Json) : String :=
  String.ofList (render v)

end MachinePanel.Json
