import DialogueScript.Decimal.Shortest
import DialogueScript.Text.Digit

/-!
# Decimal notation

How a version number is written in a message, and how one is read at the start of a value. The
written form has the fewest digits that read back; the reader takes the digits of any script.
-/

namespace DialogueScript.Decimal

/-! ## Writing -/

def digitsOf (n : Nat) : Text := Nat.toDigits 10 n

/-- A number whose leading digit stands for `10^-4` up to `10^15` is written positionally, with at
least one digit on either side of the point. -/
def isPositional (leading : Int) : Bool := -4 ≤ leading && leading < 16

def positional (digits : Text) (leading : Int) : Text :=
  if leading < 0 then
    ['0', '.'] ++ List.replicate (-leading - 1).toNat '0' ++ digits
  else
    let whole := leading.toNat + 1
    digits.take whole ++ List.replicate (whole - digits.length) '0' ++ ['.'] ++
      (if digits.length ≤ whole then ['0'] else digits.drop whole)

/-- One digit, the other digits behind a point if there are any, and a signed exponent of at
least two digits. -/
def scientific (digits : Text) (leading : Int) : Text :=
  let exponent := digitsOf leading.natAbs
  digits.take 1 ++ (if digits.length ≤ 1 then [] else '.' :: digits.drop 1) ++ ['e'] ++
    [if leading < 0 then '-' else '+'] ++ List.replicate (2 - exponent.length) '0' ++ exponent

def Number.written (n : Number) : Text :=
  let digits := digitsOf n.digits
  let leading := n.scale + digits.length - 1
  if isPositional leading then positional digits leading else scientific digits leading

/-- The text of a floating-point value: the fewest digits that read back as the value. Zero keeps
its sign. -/
def written (x : Float) : Text :=
  if x.isNaN then "nan".toList
  else
    (if Nat.pow 2 63 ≤ x.toBits.toNat then ['-'] else []) ++
      (if x.isInf then "inf".toList
        else if x == 0 then "0.0".toList
        else (Binary.ofFloat x).shortest.written)

/-! ## Reading -/

/-- Digits, and the digits behind a point if there are any. -/
structure Numeral where
  whole : Text
  fraction : Text
deriving DecidableEq, Repr

open Text in
/-- The longest numeral at the start of a text: digits, then a point and digits if digits stand
behind the point. -/
def Numeral.leading? (s : Text) : Option Numeral :=
  match s.takeWhile isDigit with
  | [] => none
  | whole =>
    match s.dropWhile isDigit with
    | '.' :: rest => some ⟨whole, rest.takeWhile isDigit⟩
    | _ => some ⟨whole, []⟩

/-- The value of a numeral, rounded to the nearest floating-point value. -/
def Numeral.toFloat (n : Numeral) : Float :=
  .ofScientific (Text.numberOf (n.whole ++ n.fraction)) true n.fraction.length

end DialogueScript.Decimal
