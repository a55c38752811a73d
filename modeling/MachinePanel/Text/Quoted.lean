/-
Quoted text for messages: a text between double quotes, in which everything a
reader could not see or could misread stands as an escape. Quotes and
backslashes take a backslash, the common control characters their letter, and
every other invisible or combining character its code point in braces.
-/

namespace MachinePanel.Text

/-- Control characters: the C0 and C1 sets and delete. -/
def isControl (n : Nat) : Bool :=
  n < 0x20 || (0x7F ≤ n && n ≤ 0x9F)

/-- Separators other than the plain space. -/
def isSeparator (n : Nat) : Bool :=
  n == 0xA0 || n == 0x1680 || (0x2000 ≤ n && n ≤ 0x200A) || n == 0x2028 || n == 0x2029 ||
    n == 0x202F || n == 0x205F || n == 0x3000

/-- Characters that only steer the layout of their neighbours. -/
def isFormat (n : Nat) : Bool :=
  n == 0xAD || (0x600 ≤ n && n ≤ 0x605) || n == 0x61C || n == 0x6DD || n == 0x70F ||
    n == 0x8E2 || n == 0x180E || (0x200B ≤ n && n ≤ 0x200F) || (0x202A ≤ n && n ≤ 0x202E) ||
    (0x2060 ≤ n && n ≤ 0x206F) || n == 0xFEFF || (0xFFF9 ≤ n && n ≤ 0xFFFB) ||
    (0xE0000 ≤ n && n ≤ 0xE007F)

/-- The blocks of combining marks, which would join the character before them. -/
def isCombining (n : Nat) : Bool :=
  (0x300 ≤ n && n ≤ 0x36F) || (0x483 ≤ n && n ≤ 0x489) || (0x591 ≤ n && n ≤ 0x5BD) ||
    (0x64B ≤ n && n ≤ 0x65F) || (0x1AB0 ≤ n && n ≤ 0x1ACE) || (0x1DC0 ≤ n && n ≤ 0x1DFF) ||
    (0x20D0 ≤ n && n ≤ 0x20F0) || (0xFE00 ≤ n && n ≤ 0xFE0F) || (0xFE20 ≤ n && n ≤ 0xFE2F) ||
    (0xE0100 ≤ n && n ≤ 0xE01EF)

/-- Code points for private use, which have no agreed shape. -/
def isPrivate (n : Nat) : Bool :=
  (0xE000 ≤ n && n ≤ 0xF8FF) || 0xF0000 ≤ n

/-- Characters written as their code point. -/
def isUnseen (n : Nat) : Bool :=
  isControl n || isSeparator n || isFormat n || isCombining n || isPrivate n

/-- One character of a quoted text. -/
def quoteChar (c : Char) : List Char :=
  match c with
  | '"' => ['\\', '"']
  | '\\' => ['\\', '\\']
  | '\n' => ['\\', 'n']
  | '\r' => ['\\', 'r']
  | '\t' => ['\\', 't']
  | '\x00' => ['\\', '0']
  | c =>
    if isUnseen c.toNat then ['\\', 'u', '\x7b'] ++ Nat.toDigits 16 c.toNat ++ ['\x7d'] else [c]

/-- A text in double quotes, with escapes. -/
def quote (s : String) : String :=
  String.ofList ('"' :: s.toList.flatMap quoteChar ++ ['"'])

/-- The quoted texts of a list, between square brackets. -/
def quoteAll (texts : List String) : String :=
  "[" ++ String.intercalate ", " (texts.map quote) ++ "]"

end MachinePanel.Text
