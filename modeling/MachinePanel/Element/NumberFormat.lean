/-
Formats of displayed numbers. A format is written as an optional field width,
an optional number of decimal places after a point, and a letter: `f` for
fixed-point text, `d` for the integer part. Blanks around it and per cent signs in
front of it are ignored.
-/
import MachinePanel.Binary64.Fixed
import MachinePanel.Binary64.Integral
import MachinePanel.Error
import MachinePanel.Text.Blank

namespace MachinePanel

/-- What becomes of a number. -/
inductive Conversion where
  /-- Fixed-point text. -/
  | fixed
  /-- The integer toward zero. -/
  | integer
  deriving DecidableEq, Repr

/-- A format of displayed numbers. -/
structure NumberFormat where
  width : Nat
  precision : Option Nat
  conversion : Conversion
  deriving DecidableEq, Repr

namespace NumberFormat

/-- The places of a fixed format that gives none. -/
def defaultPrecision : Nat := 6

/-- The greatest width and the greatest number of places. -/
def maxField : Nat := 64

/-- The format of floats. -/
def float : NumberFormat := ⟨2, some 1, .fixed⟩

/-- The format of integers. -/
def integer : NumberFormat := ⟨0, none, .integer⟩

/-- The letter of a conversion. -/
def letter : Conversion → Char
  | .fixed => 'f'
  | .integer => 'd'

/-- The conversion of a letter. -/
def conversion? : Char → Option Conversion
  | 'f' => some .fixed
  | 'd' => some .integer
  | _ => none

/-- A number in a format: digits, after a plus sign or not. -/
def field? : List Char → Option Nat
  | '+' :: cs => Numeral.value? cs
  | cs => Numeral.value? cs

/-- The width in front of the point; nothing there is no width. -/
def width? (cs : List Char) : Option Nat :=
  if cs.isEmpty then some 0 else field? cs

/-- The places, given what begins with the point: no point says nothing, a bare
point says zero. -/
def precision? : List Char → Option (Option Nat)
  | [] => some none
  | [_] => some (some 0)
  | _ :: cs => (field? cs).map some

/-- The limits of a format, and no places for integers. -/
def admissible (f : NumberFormat) : Bool :=
  f.width ≤ maxField && f.precision.all (· ≤ maxField) &&
    !(f.conversion == .integer && f.precision.isSome)

/-- Reads a format without blanks and per cent signs. -/
def parseDirective? (cs : List Char) : Option NumberFormat :=
  let body := cs.dropLast
  match cs.getLast?.bind conversion?, width? (body.takeWhile (· != '.')),
      precision? (body.dropWhile (· != '.')) with
  | some conversion, some width, some precision =>
    let f : NumberFormat := ⟨width, precision, conversion⟩
    if f.admissible then some f else none
  | _, _, _ => none

/-- What is left of a text without the blanks around it and the per cent signs in front. -/
def directive (cs : List Char) : List Char :=
  (Text.trim cs).dropWhile (· == '%')

/-- Reads a format. The error carries the text as it was given. -/
def parse (s : String) : Except ValueError NumberFormat :=
  match parseDirective? (directive s.toList) with
  | some f => .ok f
  | none => .error (.invalidFormat s)

/-- The characters of a format. -/
def toChars (f : NumberFormat) : List Char :=
  (if f.width = 0 then [] else Numeral.digits f.width) ++
    (match f.precision with
      | none => []
      | some p => '.' :: Numeral.digits p) ++
    [letter f.conversion]

/-- The text of a format. -/
def text (f : NumberFormat) : String :=
  String.ofList f.toChars

/-- The characters of an integer. -/
def integerChars (n : Int) : List Char :=
  (if n < 0 then ['-'] else []) ++ Numeral.digits n.natAbs

/-- The text of a number in a format, at the right end of its field. -/
def format (f : NumberFormat) (x : Float) : String :=
  Text.alignRight f.width <|
    match f.conversion with
    | .fixed => Binary64.fixedText (f.precision.getD defaultPrecision) x
    | .integer => integerChars (Binary64.toIntWithin .s64 x)

end NumberFormat

end MachinePanel
