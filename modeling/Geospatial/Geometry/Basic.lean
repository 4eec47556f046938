import Geospatial.Failure

/-!
# Geometries

Positions have two coordinates and, where given, a height. Single geometries are points, lines,
closed rings and polygons; multi-geometries hold several of one family, and a collection holds any
geometries, collections included. A geometry of an unknown kind is only a name.
-/

namespace Geospatial

/-- A position in the plane, with its height where it has one. -/
structure Position (α : Type) where
  x : α
  y : α
  z : Option α := none
  deriving DecidableEq, Repr, Inhabited

/-- The positions that a line joins, in order. -/
abbrev Path (α : Type) := List (Position α)

/-- A shell and the holes cut out of it; all are closed paths. An empty polygon has an empty
shell. -/
structure Polygon (α : Type) where
  shell : Path α
  holes : List (Path α) := []
  deriving DecidableEq, Repr, Inhabited

inductive Geometry (α : Type) where
  /-- A point; without a position it is empty. -/
  | point (position : Option (Position α))
  | lineString (path : Path α)
  | linearRing (path : Path α)
  | polygon (polygon : Polygon α)
  /-- Points, some of which may be empty. -/
  | multiPoint (points : List (Option (Position α)))
  | multiLineString (paths : List (Path α))
  | multiPolygon (polygons : List (Polygon α))
  | collection (parts : List (Geometry α))
  /-- A geometry of a kind that is known by its name only. -/
  | unknown (name : String)
  deriving Inhabited

namespace Position

variable {α β : Type}

def map (f : α → β) (p : Position α) : Position β := ⟨f p.x, f p.y, p.z.map f⟩

def flat (p : Position α) : Position α := { p with z := none }

def hasHeight (p : Position α) : Bool := p.z.isSome

end Position

namespace Polygon

variable {α β : Type}

def isEmpty (p : Polygon α) : Bool := p.shell.isEmpty

def rings (p : Polygon α) : List (Path α) := if p.isEmpty then [] else p.shell :: p.holes

def positions (p : Polygon α) : List (Position α) := p.shell ++ p.holes.flatten

def map (f : α → β) (p : Polygon α) : Polygon β :=
  ⟨p.shell.map (Position.map f), p.holes.map (List.map (Position.map f))⟩

end Polygon

namespace Geometry

variable {α β : Type}

def ofPoints (points : List (Position α)) : Geometry α := multiPoint (points.map some)

def typeName : Geometry α → String
  | point _ => "Point"
  | lineString _ => "LineString"
  | linearRing _ => "LinearRing"
  | polygon _ => "Polygon"
  | multiPoint _ => "MultiPoint"
  | multiLineString _ => "MultiLineString"
  | multiPolygon _ => "MultiPolygon"
  | collection _ => "GeometryCollection"
  | unknown name => name

def isUnknown : Geometry α → Bool
  | unknown _ => true
  | _ => false

def readable (g : Geometry α) : Except Failure (Geometry α) :=
  if g.isUnknown then .error .opaqueGeometry else .ok g

mutual

/-- All positions: those of the parts in their order, of a polygon the shell before the holes. -/
def positions : Geometry α → List (Position α)
  | point p => p.toList
  | lineString path => path
  | linearRing path => path
  | polygon p => p.positions
  | multiPoint points => points.filterMap id
  | multiLineString paths => paths.flatten
  | multiPolygon polygons => polygons.flatMap Polygon.positions
  | collection parts => positionsOfParts parts
  | unknown _ => []

def positionsOfParts : List (Geometry α) → List (Position α)
  | [] => []
  | part :: rest => positions part ++ positionsOfParts rest

end

def hasHeight (g : Geometry α) : Bool := g.positions.any Position.hasHeight

/-- All positions, each with a height as soon as one has a height. A missing height becomes zero
divided by zero, which among doubles is not a number. -/
def evenPositions [Div α] [OfNat α 0] (g : Geometry α) : List (Position α) :=
  if g.hasHeight then g.positions.map fun p => { p with z := some (p.z.getD (0 / 0)) }
  else g.positions

mutual

def isEmpty : Geometry α → Bool
  | point p => p.isNone
  | lineString path => path.isEmpty
  | linearRing path => path.isEmpty
  | polygon p => p.isEmpty
  | multiPoint points => points.all Option.isNone
  | multiLineString paths => paths.all List.isEmpty
  | multiPolygon polygons => polygons.all Polygon.isEmpty
  | collection parts => allEmpty parts
  | unknown _ => false

def allEmpty : List (Geometry α) → Bool
  | [] => true
  | part :: rest => isEmpty part && allEmpty rest

end

mutual

def map (f : α → β) : Geometry α → Geometry β
  | point p => point (p.map (Position.map f))
  | lineString path => lineString (path.map (Position.map f))
  | linearRing path => linearRing (path.map (Position.map f))
  | polygon p => polygon (p.map f)
  | multiPoint points => multiPoint (points.map (Option.map (Position.map f)))
  | multiLineString paths => multiLineString (paths.map (List.map (Position.map f)))
  | multiPolygon polygons => multiPolygon (polygons.map (Polygon.map f))
  | collection parts => collection (mapParts f parts)
  | unknown name => unknown name

def mapParts (f : α → β) : List (Geometry α) → List (Geometry β)
  | [] => []
  | part :: rest => map f part :: mapParts f rest

end

end Geometry

end Geospatial
