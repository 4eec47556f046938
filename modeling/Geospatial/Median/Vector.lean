import Geospatial.Number.Scalar

/-!
# Vectors

Points of the plane and of space as vectors of two or three numbers. Sums run from the first entry
to the last.
-/

namespace Geospatial

abbrev Vec (α : Type) (d : Nat) := Vector α d

namespace Vec

variable {α : Type} {d : Nat} [Add α] [Sub α] [Mul α] [Div α] [OfNat α 0] [Root α]

def ofList? (d : Nat) (entries : List α) : Option (Vec α d) :=
  if h : entries.toArray.size = d then some ⟨entries.toArray, h⟩ else none

def zero : Vec α d := Vector.replicate d 0

def plus (u v : Vec α d) : Vec α d := Vector.zipWith (· + ·) u v

def minus (u v : Vec α d) : Vec α d := Vector.zipWith (· - ·) u v

def times (v : Vec α d) (k : α) : Vec α d := v.map (· * k)

def dividedBy (v : Vec α d) (k : α) : Vec α d := v.map (· / k)

def sum (vs : List (Vec α d)) : Vec α d := vs.foldl plus zero

def norm (v : Vec α d) : α := Root.sqrt ((v.map fun x => x * x).foldl (· + ·) 0)

def mean [NatCast α] (vs : List (Vec α d)) : Vec α d := (sum vs).dividedBy (vs.length : α)

end Vec

end Geospatial
