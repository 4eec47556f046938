import Geospatial.Geometry.Family

/-!
# Taking geometries apart and putting them together

The components of a geometry are its single parts that are not empty, however deeply collections
nest them. Components of one family are put together to the multi-geometry of that family.
-/

namespace Geospatial.Geometry

variable {α : Type}

mutual

/-- The points, lines, rings and polygons of a geometry in their order, empty ones left out. -/
def components : Geometry α → List (Geometry α)
  | point p => if p.isSome then [point p] else []
  | lineString path => if path.isEmpty then [] else [lineString path]
  | linearRing path => if path.isEmpty then [] else [linearRing path]
  | polygon p => if p.isEmpty then [] else [polygon p]
  | multiPoint points => (points.filterMap id).map fun p => point (some p)
  | multiLineString paths => (paths.filter fun path => !path.isEmpty).map lineString
  | multiPolygon polygons => (polygons.filter fun p => !p.isEmpty).map polygon
  | collection parts => componentsOfParts parts
  | unknown _ => []

def componentsOfParts : List (Geometry α) → List (Geometry α)
  | [] => []
  | part :: rest => components part ++ componentsOfParts rest

end

/-! ## Parts of a multi-geometry -/

/-- The parts of a multi-geometry or collection; others have none. -/
def parts : Geometry α → List (Geometry α)
  | multiPoint points => points.map point
  | multiLineString paths => paths.map lineString
  | multiPolygon polygons => polygons.map polygon
  | collection parts => parts
  | point _ | lineString _ | linearRing _ | polygon _ | unknown _ => []

def asPoint : Geometry α → Except Failure (Position α)
  | point (some p) => .ok p
  | point none => .error .emptyPart
  | _ => .error .foreignPart

/-- A geometry as a part of a multi-line; a ring counts as the line of its positions. -/
def asPath : Geometry α → Except Failure (Path α)
  | lineString path => if path.isEmpty then .error .emptyPart else .ok path
  | linearRing path => if path.isEmpty then .error .emptyPart else .ok path
  | _ => .error .foreignPart

def asPolygon : Geometry α → Except Failure (Polygon α)
  | polygon p => .ok p
  | unknown _ => .error .foreignPart
  | _ => .error .notPolygon

def isMultiPolygon : Geometry α → Bool
  | multiPolygon _ => true
  | _ => false

/-- Geometries as the parts of a multi-polygon. Empty ones are left out; a multi-polygon among them
is refused first. -/
def asPolygons (parts : List (Geometry α)) : Except Failure (List (Polygon α)) :=
  let parts := parts.filter fun part => !part.isEmpty
  if parts.any isMultiPolygon then .error .notPolygon else parts.mapM asPolygon

/-- The multi-geometry of a family with the given parts. Empty parts of a multi-polygon are left
out; elsewhere they are refused. -/
def assemble (family : Family) (parts : List (Geometry α)) : Except Failure (Geometry α) :=
  match family with
  | .puntal => (parts.mapM asPoint).map ofPoints
  | .lineal => (parts.mapM asPath).map multiLineString
  | .polygonal => (asPolygons parts).map multiPolygon
  | .mixed => .error .mixedFamily

def regroup (g : Geometry α) (parts : List (Geometry α)) : Except Failure (Geometry α) :=
  match g with
  | multiPoint _ => assemble .puntal parts
  | multiLineString _ => assemble .lineal parts
  | multiPolygon _ => assemble .polygonal parts
  | _ => .ok (collection parts)

def collect (parts : List (Geometry α)) : Except Failure (Geometry α) :=
  if parts.any isUnknown then .error .foreignPart else .ok (collection parts)

def pointCount : Geometry α → Except Failure Nat
  | lineString path => .ok path.length
  | g => .error (.unsupportedGeometry g.typeName
      (some (Failure.unsupportedText g.typeName ++ ", only LineString geometry is supported.")))

end Geospatial.Geometry
