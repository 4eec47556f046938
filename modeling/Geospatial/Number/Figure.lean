import Geospatial.Number.Numeral

/-!
# Figures

A figure is a number as an answer shows it: its text, and where the value of that text stands in
the order of numbers. The forms of the answers are records of how many digits are kept and from what
size on a number counts as zero.
-/

namespace Geospatial

/-- Where a number stands in the order of numbers: at a value, or at an end of the order. What is
not a number stands nowhere. -/
inductive Standing where
  | nowhere
  | least
  | finite (value : Rat)
  | greatest
  deriving DecidableEq, Inhabited

namespace Standing

/-- The order of standings. What stands nowhere is neither equal to nor before anything, and nothing
is before it. -/
def compare : Standing → Standing → Ordering
  | nowhere, _ => .gt
  | _, nowhere => .gt
  | least, least => .eq
  | least, _ => .lt
  | _, least => .gt
  | greatest, greatest => .eq
  | greatest, _ => .gt
  | _, greatest => .lt
  | finite a, finite b => if a < b then .lt else if b < a then .gt else .eq

end Standing

structure Figure where
  text : String
  standing : Standing
  deriving Inhabited

inductive Digits where
  | significant (count : Nat)
  | places (count : Nat)

structure NumberForm where
  digits : Digits
  /-- Numbers of smaller size are shown as zero. -/
  threshold : Float := 0
  /-- Whether a number that is rounded to zero keeps its sign. -/
  signedZero : Bool := true

namespace NumberForm

/-- Enough digits to tell every two doubles apart. -/
def exact : NumberForm := { digits := .significant 17 }

def computed : NumberForm := { digits := .significant 12, threshold := 1e-12 }

def coarse : NumberForm := { digits := .significant 9, threshold := 1e-9 }

def displacement : NumberForm := { digits := .significant 5, threshold := 1e-9 }

def vertex : NumberForm := { digits := .places 9, signedZero := false }

def limit : NumberForm := { digits := .places 11 }

def decimal (form : NumberForm) (negative : Bool) (b : Binary) : Decimal :=
  match form.digits with
  | .significant count => .significant count negative b.numerator.natAbs b.denominator
  | .places count => .places count negative b.numerator.natAbs b.denominator

def render (form : NumberForm) (d : Decimal) : String :=
  match form.digits with
  | .significant count => d.general count
  | .places _ => d.fixed

def figure (form : NumberForm) (x : Float) : Figure :=
  match Binary.ofFloat? x with
  | none =>
    if x < 0 then ⟨"-Infinity", .least⟩
    else if 0 < x then ⟨"Infinity", .greatest⟩
    else ⟨"NaN", .nowhere⟩
  | some b =>
    if x.abs < form.threshold then ⟨"0", .finite 0⟩
    else
      let d := form.decimal (Numeral.isNegative x) b
      let d := if d.digits = 0 ∧ !form.signedZero then { d with negative := false } else d
      ⟨form.render d, .finite d.toRat⟩

end NumberForm

end Geospatial
