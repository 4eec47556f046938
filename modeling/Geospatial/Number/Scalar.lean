/-!
# Numbers

What the geometry asks of its numbers beyond the field operations and the order. Every algorithm
is written once over these classes: it runs on doubles, and its laws are stated over exact
numbers. A double that is not a number compares with nothing, so each definition below says in
which direction it decides such a case.
-/

namespace Geospatial

class Root (α : Type) where
  /-- The non-negative square root of a non-negative number. -/
  sqrt : α → α

class Rounding (α : Type) where
  /-- `modulo a m` differs from `a` by a whole multiple of `m` and has the sign of `m`. -/
  modulo : α → α → α
  /-- The least whole number that is not below the given one. -/
  ceiling : α → Int
  /-- The greatest whole number that is not above the given one. -/
  floor : α → Int
  /-- The nearest whole number, the even one of two. -/
  nearest : α → Int

class Trigonometry (α : Type) where
  pi : α
  sin : α → α
  cos : α → α
  arcsin : α → α
  arccos : α → α
  /-- `arctan2 y x` is the direction of the vector `(x, y)`, from `-pi` to `pi`. -/
  arctan2 : α → α → α

section Comparison

variable {α : Type} [OfNat α 0] [OfNat α 1] [Neg α] [LT α] [DecidableLT α]

def magnitude (a : α) : α := if a < 0 then -a else a

/-- The nearest number of `[0, 1]`; what cannot be compared becomes `1`. -/
def clampUnit (t : α) : α :=
  let capped := if t < 1 then t else 1
  if 0 < capped then capped else 0

end Comparison

instance natCastFloat : NatCast Float := ⟨Float.ofNat⟩

instance intCastFloat : IntCast Float := ⟨Float.ofInt⟩

instance : Root Float := ⟨Float.sqrt⟩

instance : Trigonometry Float where
  pi := 3.141592653589793
  sin := Float.sin
  cos := Float.cos
  arcsin := Float.asin
  arccos := Float.acos
  arctan2 := Float.atan2

end Geospatial
