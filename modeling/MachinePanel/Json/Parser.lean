/-
Reading JSON text, strictly: one value with nothing but white space around it,
no comments, no trailing commas, no superfluous zeros or signs. A literal of a
number is kept as it stands; its value is the business of whoever needs it.

A reader of a part takes the characters that are left and gives back its part
and the rest, or nothing when the text is malformed.
-/
import MachinePanel.Json.Value
import MachinePanel.Text.Numeral

namespace MachinePanel.Json

/-- The result of reading a part: what was read, and the characters after it. -/
abbrev Part (α : Type) := Option (α × List Char)

/-- The white space of JSON. -/
def isSpace (c : Char) : Bool :=
  c == ' ' || c == '\n' || c == '\t' || c == '\r'

/-- Skips white space. -/
def skip (cs : List Char) : List Char :=
  cs.dropWhile isSpace

/-- The digits in front, and the rest. -/
def digitRun (cs : List Char) : List Nat × List Char :=
  (cs.takeWhile (Numeral.digitValue? · |>.isSome) |>.filterMap Numeral.digitValue?,
    cs.dropWhile (Numeral.digitValue? · |>.isSome))

/-- One digit or more. -/
def digits (cs : List Char) : Part (List Nat) :=
  match digitRun cs with
  | ([], _) => none
  | run => some run

/-- The integer part of a number: a lone zero, or digits that start with none. -/
def wholePart (cs : List Char) : Part (List Nat) :=
  match digits cs with
  | some (0 :: _ :: _, _) => none
  | part => part

/-- A point with its digits, if there is a point. -/
def fractionPart : List Char → Part (Option (List Nat))
  | '.' :: cs => (digits cs).map fun (ds, rest) => (some ds, rest)
  | cs => some (none, cs)

/-- The sign of an exponent. -/
def exponentSign : List Char → Bool × List Char
  | '-' :: cs => (true, cs)
  | '+' :: cs => (false, cs)
  | cs => (false, cs)

/-- An exponent, if there is one. -/
def exponentPart : List Char → Part (Option Int)
  | c :: cs =>
    if c == 'e' || c == 'E' then
      let (negative, cs) := exponentSign cs
      (digits cs).map fun (ds, rest) =>
        let n : Int := natOfDigits ds
        (some (if negative then -n else n), rest)
    else some (none, c :: cs)
  | [] => some (none, [])

/-- A number without its sign. -/
def unsignedNumber (negative : Bool) (cs : List Char) : Part Number :=
  match wholePart cs with
  | none => none
  | some (whole, cs) =>
    match fractionPart cs with
    | none => none
    | some (fraction, cs) =>
      (exponentPart cs).map fun (exponent, cs) => (⟨negative, whole, fraction, exponent⟩, cs)

/-- A number. -/
def number : List Char → Part Number
  | '-' :: cs => unsignedNumber true cs
  | cs => unsignedNumber false cs

/-- A piece of a string: a character, or the code of half a surrogate pair. -/
inductive Piece where
  | char (c : Char)
  | half (code : Nat)
  deriving DecidableEq, Repr

/-- The value of a hexadecimal digit. -/
def hexValue? (c : Char) : Option Nat :=
  let n := c.toNat
  if 48 ≤ n ∧ n ≤ 57 then some (n - 48)
  else if 97 ≤ n ∧ n ≤ 102 then some (n - 87)
  else if 65 ≤ n ∧ n ≤ 70 then some (n - 55)
  else none

/-- The code of four hexadecimal digits. -/
def hexCode? (cs : List Char) : Option Nat :=
  cs.foldlM (fun n c => (hexValue? c).map (16 * n + ·)) 0

/-- What a code of a `u` escape stands for. -/
def pieceOfCode (code : Nat) : Piece :=
  if 0xD800 ≤ code ∧ code ≤ 0xDFFF then .half code else .char (Char.ofNat code)

/-- The character of a one-letter escape. -/
def escape? : Char → Option Char
  | '"' => some '"'
  | '\\' => some '\\'
  | '/' => some '/'
  | 'b' => some '\x08'
  | 'f' => some '\x0c'
  | 'n' => some '\n'
  | 'r' => some '\r'
  | 't' => some '\t'
  | _ => none

/-- The pieces of a string after its opening quote, up to the closing one. -/
def pieces : List Char → Part (List Piece)
  | [] => none
  | '"' :: rest => some ([], rest)
  | '\\' :: 'u' :: a :: b :: c :: d :: rest =>
    match hexCode? [a, b, c, d] with
    | none => none
    | some code => (pieces rest).map fun (ps, rest) => (pieceOfCode code :: ps, rest)
  | '\\' :: c :: rest =>
    match escape? c with
    | none => none
    | some e => (pieces rest).map fun (ps, rest) => (.char e :: ps, rest)
  | c :: rest =>
    if c.toNat < 0x20 || c == '\\' then none
    else (pieces rest).map fun (ps, rest) => (.char c :: ps, rest)

/-- The characters of a string; a half that finds no partner has none. -/
def joinPieces : List Piece → Option (List Char)
  | [] => some []
  | .char c :: ps => (joinPieces ps).map (c :: ·)
  | .half high :: .half low :: ps =>
    if high < 0xDC00 ∧ 0xDC00 ≤ low then
      (joinPieces ps).map (Char.ofNat (0x10000 + (high - 0xD800) * 0x400 + (low - 0xDC00)) :: ·)
    else none
  | .half _ :: _ => none

/-- A string after its opening quote. -/
def string (cs : List Char) : Part (Option String) :=
  (pieces cs).map fun (ps, rest) => ((joinPieces ps).map String.ofList, rest)

mutual

/-- One value. Every step of the three readers takes a character, so that
`fuel` beyond the number of characters does not run out. -/
def value : Nat → List Char → Part Json
  | 0, _ => none
  | fuel + 1, cs =>
    match skip cs with
    | 'n' :: 'u' :: 'l' :: 'l' :: rest => some (.null, rest)
    | 't' :: 'r' :: 'u' :: 'e' :: rest => some (.bool true, rest)
    | 'f' :: 'a' :: 'l' :: 's' :: 'e' :: rest => some (.bool false, rest)
    | '"' :: rest => (string rest).map fun (s, rest) => (.str s, rest)
    | '[' :: rest =>
      match skip rest with
      | ']' :: rest => some (.arr [], rest)
      | rest => (items fuel rest).map fun (xs, rest) => (.arr xs, rest)
    | '\x7b' :: rest =>
      match skip rest with
      | '\x7d' :: rest => some (.obj [], rest)
      | rest => (members fuel rest).map fun (ms, rest) => (.obj ms, rest)
    | rest => (number rest).map fun (n, rest) => (.num n, rest)

/-- The items of an array, up to its closing bracket. -/
def items : Nat → List Char → Part (List Json)
  | 0, _ => none
  | fuel + 1, cs =>
    match value fuel cs with
    | none => none
    | some (x, rest) =>
      match skip rest with
      | ']' :: rest => some ([x], rest)
      | ',' :: rest => (items fuel rest).map fun (xs, rest) => (x :: xs, rest)
      | _ => none

/-- The members of an object, up to its closing brace. -/
def members : Nat → List Char → Part (List (Option String × Json))
  | 0, _ => none
  | fuel + 1, cs =>
    match skip cs with
    | '"' :: rest =>
      match string rest with
      | none => none
      | some (key, rest) =>
        match skip rest with
        | ':' :: rest =>
          match value fuel rest with
          | none => none
          | some (x, rest) =>
            match skip rest with
            | '\x7d' :: rest => some ([(key, x)], rest)
            | ',' :: rest => (members fuel rest).map fun (ms, rest) => ((key, x) :: ms, rest)
            | _ => none
        | _ => none
    | _ => none

end

/-- The value a text stands for. -/
def parse? (s : String) : Option Json :=
  match value (2 * s.toList.length + 2) s.toList with
  | some (v, rest) => if (skip rest).isEmpty then some v else none
  | none => none

end MachinePanel.Json
