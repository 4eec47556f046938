import Geospatial.Geometry.Basic

/-!
# Families of geometries

Points, lines and areas are the three families that operations distinguish. A collection belongs
to the family that all its parts share and is mixed when they share none.
-/

namespace Geospatial

inductive Family where
  | puntal
  | lineal
  | polygonal
  | mixed
  deriving DecidableEq, Repr, Inhabited

namespace Family

def name : Family → String
  | puntal => "puntal"
  | lineal => "lineal"
  | polygonal => "polygonal"
  | mixed => "mixed"

def ofName? (name : String) : Option Family :=
  [puntal, lineal, polygonal, mixed].find? (·.name == name)

/-- The one family of a list, mixed where the list is empty or holds several. -/
def shared : List Family → Family
  | [] => mixed
  | f :: rest => if rest.all (· == f) then f else mixed

end Family

namespace Geometry

variable {α : Type}

mutual

/-- The family of a geometry. Only a geometry of an unknown kind has none. -/
def family : Geometry α → Except Failure Family
  | point _ => .ok .puntal
  | multiPoint _ => .ok .puntal
  | lineString _ => .ok .lineal
  | linearRing _ => .ok .lineal
  | multiLineString _ => .ok .lineal
  | polygon _ => .ok .polygonal
  | multiPolygon _ => .ok .polygonal
  | collection parts => (families parts).map Family.shared
  | unknown name => .error (.unsupportedGeometry name none)

def families : List (Geometry α) → Except Failure (List Family)
  | [] => .ok []
  | part :: rest => do
    let f ← family part
    let fs ← families rest
    return f :: fs

end

end Geometry

end Geospatial
