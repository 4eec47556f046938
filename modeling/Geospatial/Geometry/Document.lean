import Geospatial.Geometry.Canonical
import Geospatial.Geometry.Components
import Geospatial.Json.Writer

/-!
# Geometries as documents

A geometry is read from a JSON object with its kind and its positions, each a list of two or three
numbers. Rings may leave out their closing position. What cannot be a geometry of its kind is
refused. A geometry is written the same way, every number as the text of its figure.
-/

namespace Geospatial

open Json

/-- A number, also one that is spelled out because it has no digits. -/
def Json.Value.numeral? : Json.Value → Option Numeral
  | .number n => some n
  | .text "NaN" => some (.real (0 / 0))
  | .text "Infinity" => some (.real (1 / 0))
  | .text "-Infinity" => some (.real (-1 / 0))
  | _ => none

def Json.Value.float (v : Json.Value) : Except Failure Float :=
  match v.numeral? with
  | some n => .ok n.toFloat
  | none => .error .malformedGeometry

def Json.Value.entries (v : Json.Value) : Except Failure (List Json.Value) :=
  match v with
  | .list items => .ok items
  | _ => .error .malformedGeometry

namespace Position

def ofValue (v : Json.Value) : Except Failure (Position Float) := do
  match ← (← v.entries).mapM Json.Value.float with
  | [x, y] => return ⟨x, y, none⟩
  | [x, y, z] => return ⟨x, y, some z⟩
  | _ => .error .malformedGeometry

def agrees (p q : Position Float) : Bool :=
  p.x == q.x && p.y == q.y &&
    match p.z, q.z with
    | none, none => true
    | some a, some b => a == b
    | _, _ => false

end Position

def ofOneKind (path : Path Float) : Except Failure (Path Float) :=
  if path.all Position.hasHeight || path.all fun p => !p.hasHeight then .ok path
  else .error .raggedPositions

def positionsOfValue (v : Json.Value) : Except Failure (Path Float) := do
  ofOneKind (← (← v.entries).mapM Position.ofValue)

/-- A line has no position or at least two. -/
def pathOfValue (v : Json.Value) : Except Failure (Path Float) := do
  let path ← positionsOfValue v
  if path.length = 1 then .error .shortLine else .ok path

/-- A ring is closed by its first position when it does not end there, or has just three. A first
position that equals none closes nothing. -/
def ringOfValue (v : Json.Value) : Except Failure (Path Float) := do
  let path ← positionsOfValue v
  match path.head?, path.getLast? with
  | some first, some last =>
    if path.length < 3 then .error .shortRing
    else if !(first.flat.agrees first.flat) then .error .openRing
    else if path.length = 3 || !first.agrees last then .ok (path ++ [first])
    else .ok path
  | _, _ => .ok []

def Polygon.ofValue (v : Json.Value) : Except Failure (Polygon Float) := do
  match ← (← v.entries).mapM ringOfValue with
  | [] => return ⟨[], []⟩
  | shell :: holes =>
    if shell.isEmpty && holes.any fun hole => !hole.isEmpty then .error .holesWithoutShell
    else return ⟨shell, holes⟩

def Json.Value.coordinates (v : Json.Value) : Json.Value :=
  (v.field? "coordinates").getD (.list [])

/-- A part of a multi-line cannot be empty. -/
def partOfValue (v : Json.Value) : Except Failure (Path Float) := do
  let path ← pathOfValue v
  if path.isEmpty then .error .emptyPart else .ok path

mutual

def Geometry.ofValue : Nat → Json.Value → Except Failure (Geometry Float)
  | 0, _ => .error .malformedGeometry
  | depth + 1, v => do
    let points := v.coordinates
    match v.field? "type" with
    | some (.text "Point") =>
      match points with
      | .list [] => return .point none
      | _ => return .point (some (← Position.ofValue points))
    | some (.text "LineString") => return .lineString (← pathOfValue points)
    | some (.text "LinearRing") => return .linearRing (← ringOfValue points)
    | some (.text "Polygon") => return .polygon (← Polygon.ofValue points)
    | some (.text "MultiPoint") => return .ofPoints (← positionsOfValue points)
    | some (.text "MultiLineString") =>
      return .multiLineString (← (← points.entries).mapM partOfValue)
    | some (.text "MultiPolygon") =>
      let polygons ← (← points.entries).mapM Polygon.ofValue
      return .multiPolygon (polygons.filter fun p => !p.isEmpty)
    | some (.text "GeometryCollection") =>
      Geometry.collect (← Geometry.partsOfValues depth
        (← ((v.field? "geometries").getD (.list [])).entries))
    | some (.text name) => return .unknown name
    | _ => .error .malformedGeometry

def Geometry.partsOfValues : Nat → List Json.Value → Except Failure (List (Geometry Float))
  | 0, _ => .error .malformedGeometry
  | _, [] => .ok []
  | depth + 1, v :: rest => do
    let part ← Geometry.ofValue depth v
    let parts ← Geometry.partsOfValues depth rest
    return part :: parts

end

mutual

/-- A bound on how deep a value nests and how long its lists are. -/
def Json.Value.extent : Json.Value → Nat
  | .list items => extentOfItems items + 1
  | .object fields => extentOfFields fields + 1
  | _ => 1

def Json.Value.extentOfItems : List Json.Value → Nat
  | [] => 1
  | v :: rest => v.extent + extentOfItems rest + 1

def Json.Value.extentOfFields : List (String × Json.Value) → Nat
  | [] => 1
  | (_, v) :: rest => v.extent + extentOfFields rest + 1

end

def Geometry.ofDocument (v : Json.Value) : Except Failure (Geometry Float) :=
  Geometry.ofValue (v.extent + 1) v

/-! ## Writing -/

def Position.toValue (p : Position Figure) : Json.Value :=
  .list (p.figures.map fun figure => .text figure.text)

def pointToValue (p : Option (Position Figure)) : Json.Value :=
  (p.map Position.toValue).getD (.list [])

def pathToValue (path : Path Figure) : Json.Value := .list (path.map Position.toValue)

def Polygon.toValue (p : Polygon Figure) : Json.Value := .list (p.rings.map pathToValue)

mutual

def Geometry.toValue : Geometry Figure → Json.Value
  | .point p => object "Point" (pointToValue p)
  | .lineString path => object "LineString" (pathToValue path)
  | .linearRing path => object "LinearRing" (pathToValue path)
  | .polygon p => object "Polygon" p.toValue
  | .multiPoint points => object "MultiPoint" (.list (points.map pointToValue))
  | .multiLineString paths => object "MultiLineString" (.list (paths.map pathToValue))
  | .multiPolygon polygons => object "MultiPolygon" (.list (polygons.map Polygon.toValue))
  | .collection parts =>
    .object [
      ("type", .text "GeometryCollection"),
      ("geometries", .list (Geometry.partsToValues parts))]
  | .unknown name => .object [("type", .text name)]
where
  object (typeName : String) (coordinates : Json.Value) : Json.Value :=
    .object [("type", .text typeName), ("coordinates", coordinates)]

def Geometry.partsToValues : List (Geometry Figure) → List Json.Value
  | [] => []
  | part :: rest => part.toValue :: Geometry.partsToValues rest

end

end Geospatial
