import Mathlib.Data.Int.Log
import Mathlib.Data.NNRat.Defs
import Mathlib.Algebra.Order.Ring.Rat
import Mathlib.Data.Rat.Floor
import Mathlib.Order.WithBot
import Mathlib.Tactic.Positivity

/-!
# Binary floating point

A double is a signed magnitude, an infinity or no number. Arithmetic is exact and then
rounded to the nearest of the numbers with 53 significant bits, ties to even; what reaches
2^1024 becomes infinite. A double is written with a fixed number of digits after the point,
rounded in the same way.
-/

namespace TradingEngine.BinaryFloats

open NNRat

inductive Double where
  | finite (negative : Bool) (magnitude : ℚ≥0)
  | infinite (negative : Bool)
  | nan

/-- The nearest natural number of a nonnegative number, ties to even. -/
def halfEven (number : ℚ) : ℕ :=
  let whole := ⌊number⌋.toNat
  let rest := number - whole
  if rest < 1 / 2 ∨ rest = 1 / 2 ∧ whole % 2 = 0 then whole else whole + 1

/-- The distance of the doubles around a positive number. -/
def spacing (number : ℚ) : ℚ := 2 ^ max (Int.log 2 number - 52) (-1074)

local instance twoNumeral : Nat.AtLeastTwo 2 := ⟨le_rfl⟩

/-- The nearest double of a magnitude. -/
def nearest (negative : Bool) (magnitude : ℚ) : Double :=
  let rounded : ℚ≥0 := ⟨halfEven (magnitude / spacing magnitude) * spacing magnitude,
    mul_nonneg (Nat.cast_nonneg _) (zpow_nonneg rfl _)⟩
  if 2 ^ 1024 ≤ rounded then .infinite negative else .finite negative rounded

namespace Double

/-- The number that a double stands for, with both infinities. -/
def extended : Double → Option (WithBot (WithTop ℚ))
  | finite negative magnitude =>
    some (WithBot.some (WithTop.some (if negative then -magnitude else magnitude)))
  | infinite true => some ⊥
  | infinite false => some ⊤
  | nan => none

/-- The double of a rational number; a zero takes the sign that is given. -/
def ofRat (negativeZero : Bool) (number : ℚ) : Double :=
  if number = 0 then finite negativeZero 0 else nearest (decide (number < 0)) |number|

/-- The double of an integer, unless it is too large. -/
def ofInt (number : ℤ) : Option Double :=
  match ofRat false number with
  | infinite _ => none
  | double => some double

def zero : Double := finite false 0
def one : Double := finite false 1

def isFinite : Double → Bool
  | finite _ _ => true
  | _ => false

def neg : Double → Double
  | finite negative magnitude => finite (!negative) magnitude
  | infinite negative => infinite (!negative)
  | nan => nan

def abs : Double → Double
  | finite _ magnitude => finite false magnitude
  | infinite _ => infinite false
  | nan => nan

def add : Double → Double → Double
  | nan, _ | _, nan => nan
  | infinite left, infinite right => if left = right then infinite left else nan
  | infinite negative, finite _ _ | finite _ _, infinite negative => infinite negative
  | finite left first, finite right second =>
    ofRat (left && right)
      ((if left then -first else first : ℚ) + (if right then -second else second : ℚ))

def sub (left right : Double) : Double := left.add right.neg

def mul : Double → Double → Double
  | nan, _ | _, nan => nan
  | infinite left, infinite right => infinite (left != right)
  | infinite left, finite right magnitude | finite right magnitude, infinite left =>
    if magnitude = 0 then nan else infinite (left != right)
  | finite left first, finite right second =>
    if first * second = 0 then finite (left != right) 0
    else nearest (left != right) (first * second)

/-- A quotient. A zero divisor, which raises, has none. -/
def div : Double → Double → Double
  | nan, _ | _, nan | infinite _, infinite _ => nan
  | infinite left, finite right _ => infinite (left != right)
  | finite left _, infinite right => finite (left != right) 0
  | finite left first, finite right second =>
    if second = 0 then nan
    else if first = 0 then finite (left != right) 0
    else nearest (left != right) (first / second)

def compare (holds : WithBot (WithTop ℚ) → WithBot (WithTop ℚ) → Bool)
    (left right : Double) : Bool :=
  match left.extended, right.extended with
  | some first, some second => holds first second
  | _, _ => false

def lt : Double → Double → Bool := compare fun first second => decide (first < second)
def le : Double → Double → Bool := compare fun first second => decide (first ≤ second)

/-- The first of two doubles unless the second is larger. -/
def maximum (first second : Double) : Double := if first.lt second then second else first

/-- The first of two doubles unless the second is smaller. -/
def minimum (first second : Double) : Double := if second.lt first then second else first

/-- A double with a fixed number of digits after the point. -/
def fixed (digits : ℕ) : Double → String
  | nan => "nan"
  | infinite negative => if negative then "-inf" else "inf"
  | finite negative magnitude =>
    let scaled := halfEven (magnitude * 10 ^ digits)
    let fraction := toString (scaled % 10 ^ digits)
    (if negative then "-" else "") ++ toString (scaled / 10 ^ digits) ++ "." ++
      String.ofList (List.replicate (digits - fraction.length) '0') ++ fraction

theorem extended_of_isFinite {double : Double} (within : double.isFinite = true) :
    ∃ number, double.extended = some number := by
  cases double with
  | finite negative magnitude => exact ⟨_, rfl⟩
  | infinite negative => cases within
  | nan => cases within

end Double

end TradingEngine.BinaryFloats
