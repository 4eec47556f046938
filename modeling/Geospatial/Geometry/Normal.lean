import Geospatial.Geometry.Components
import Geospatial.Planar.Turn
import Geospatial.Sorting

/-!
# Normal form

A geometry in normal form has lines, rings and polygons that start and turn in a fixed way, and
parts in ascending order of their coordinates. Parts are compared by their rows of coordinates
alone: the first row that differs decides, a list that ends first comes first, and a row whose
height is missing where its geometry has heights compares with nothing.
-/

namespace Geospatial

/-! ## Order of rows -/

section Order

variable {α : Type} [LT α] [DecidableLT α] [BEq α]

inductive Verdict where
  | equal
  | decided (first : Bool)
  deriving DecidableEq

/-- The verdict on two numbers; what is not equal is below or not. -/
def Verdict.ofNumbers (a b : α) : Verdict :=
  if a == b then .equal else .decided (decide (a < b))

def Verdict.orElse (v : Verdict) (next : Unit → Verdict) : Verdict :=
  match v with
  | .equal => next ()
  | .decided first => .decided first

/-- The coordinates of a position as a row: two of them, or three with the height that may be
missing. -/
structure Row (α : Type) where
  x : α
  y : α
  /-- The third entry where the row has one; its inside is missing where there is no height. -/
  z : Option (Option α)

/-- Heights compare as numbers; a missing height is neither equal to nor below anything. -/
def Verdict.ofHeights : Option (Option α) → Option (Option α) → Verdict
  | none, none => .equal
  | none, some _ => .decided true
  | some _, none => .decided false
  | some (some a), some (some b) => Verdict.ofNumbers a b
  | some _, some _ => .decided false

def Row.compare (p q : Row α) : Verdict :=
  (Verdict.ofNumbers p.x q.x).orElse fun _ =>
    (Verdict.ofNumbers p.y q.y).orElse fun _ => Verdict.ofHeights p.z q.z

def rowsBelow : List (Row α) → List (Row α) → Bool
  | _, [] => false
  | [], _ :: _ => true
  | p :: ps, q :: qs =>
    match p.compare q with
    | .equal => rowsBelow ps qs
    | .decided first => first

/-- The rows of a geometry: with heights as soon as one of its positions has one. -/
def Geometry.rows (g : Geometry α) : List (Row α) :=
  let tall := g.hasHeight
  g.positions.map fun p => ⟨p.x, p.y, if tall then some p.z else none⟩

def Geometry.precedes (g h : Geometry α) : Bool := rowsBelow g.rows h.rows

/-! ## Normal form of compound geometries -/

/-- The normal form of single parts and of geometries without positions, where they have one. Points
have no other form. -/
structure PartForm (α : Type) where
  path : Path α → Except Failure (Path α)
  ring : Path α → Except Failure (Path α)
  polygon : Polygon α → Except Failure (Polygon α)
  empty : Geometry α → Except Failure (Geometry α)

/-- The normal form of a geometry that is not sorted part by part. -/
def PartForm.apply (form : PartForm α) : Geometry α → Except Failure (Geometry α)
  | .lineString path => (form.path path).map .lineString
  | .linearRing path => (form.ring path).map .linearRing
  | .polygon p => (form.polygon p).map .polygon
  | .point p => .ok (.point p)
  | .unknown name => .ok (.unknown name)
  | g => form.empty g

def sortParts (parts : List (Geometry α)) : List (Geometry α) :=
  Sorting.sort Geometry.precedes parts

/-- The normal form of a multi-geometry: its parts are normalized, sorted by their rows and put
together again. That fails beside an empty point or line, and drops empty polygons. -/
def Geometry.normalizeMulti (form : PartForm α) (g : Geometry α) : Except Failure (Geometry α) :=
  if g.isEmpty then form.apply g
  else do
    let normal ← g.parts.mapM form.apply
    g.regroup (sortParts normal)

mutual

/-- The normal form, given that of single parts and of geometries without positions. -/
def Geometry.normalizeWith (form : PartForm α) : Geometry α → Except Failure (Geometry α)
  | .collection parts =>
    if (Geometry.collection parts).isEmpty then form.apply (.collection parts)
    else do
      let normal ← Geometry.normalizeParts form parts
      return .collection (sortParts normal)
  | .multiPoint points => (Geometry.multiPoint points).normalizeMulti form
  | .multiLineString paths => (Geometry.multiLineString paths).normalizeMulti form
  | .multiPolygon polygons => (Geometry.multiPolygon polygons).normalizeMulti form
  | .point p => form.apply (.point p)
  | .lineString path => form.apply (.lineString path)
  | .linearRing path => form.apply (.linearRing path)
  | .polygon p => form.apply (.polygon p)
  | .unknown name => form.apply (.unknown name)

def Geometry.normalizeParts (form : PartForm α) :
    List (Geometry α) → Except Failure (List (Geometry α))
  | [] => .ok []
  | part :: rest => do
    let normal ← part.normalizeWith form
    let others ← Geometry.normalizeParts form rest
    return normal :: others

end

end Order

/-! ## Normal form of single parts -/

section Single

def placeBelow (p q : Position Float) : Bool := (Planar.Point.ofPosition p).below (.ofPosition q)

def samePlace (p q : Position Float) : Bool := p.x == q.x && p.y == q.y

/-- Whether the first position that differs from its counterpart from the end comes after it. -/
def descends (path : Path Float) : Bool :=
  let pairs := (path.zip path.reverse).take ((path.length + 1) / 2)
  match pairs.find? fun (p, q) => !samePlace p q with
  | some (p, q) => placeBelow q p
  | none => false

def leastPlace (p : Position Float) (path : Path Float) : Position Float :=
  path.foldl (fun best q => if placeBelow q best then q else best) p

/-- A path round a ring, its closing position left out, from its smallest place on. One whose
smallest place equals none of its places stays as it is. -/
def rollToLeast (around : Path Float) : Path Float :=
  match around with
  | [] => []
  | p :: rest =>
    let i := (around.findIdx? (samePlace (leastPlace p rest))).getD 0
    around.drop i ++ around.take i

def turnsLeft (ring : Path Float) : Except Failure Bool :=
  match Planar.turnOf (ring.map Planar.Point.ofPosition) with
  | .left => .ok true
  | .other => .ok false
  | .undefined => .error .undefinedTurn

/-- The ring of a polygon from its smallest place on, turning to the right as asked or else to the
left. It is closed anew, unless the places before and after its closing position are one. -/
def normalRing (clockwise : Bool) (ring : Path Float) : Except Failure (Path Float) := do
  let rolled := rollToLeast ring.dropLast
  let closed := match rolled.head?, rolled.getLast? with
    | some first, some last => if samePlace first last then rolled else rolled ++ [first]
    | _, _ => rolled
  if 3 < closed.length then
    return if (← turnsLeft closed) == clockwise then closed.reverse else closed
  else return closed

/-- A line from its smaller end on; a closed one from its smallest place on, turning to the
right. -/
def normalPath (path : Path Float) : Except Failure (Path Float) := do
  match path.head?, path.getLast? with
  | some first, some last =>
    if samePlace first last then
      let rolled := rollToLeast path.dropLast
      let closed := rolled ++ rolled.take 1
      if 4 ≤ closed.length then
        return if ← turnsLeft closed then closed.reverse else closed
      else return closed
    else return if descends path then path.reverse else path
  | _, _ => return path

def placesBelow : Path Float → Path Float → Bool
  | p :: ps, q :: qs =>
    if placeBelow p q then true else if placeBelow q p then false else placesBelow ps qs
  | _, _ => false

/-- Order of closed paths: by the number of positions, then by their places. -/
def ringBelow (a b : Path Float) : Bool :=
  if a.length = b.length then placesBelow a b else decide (a.length < b.length)

/-- The shell turns to the right, the holes to the left; greater holes come first. -/
def Polygon.normal (p : Polygon Float) : Except Failure (Polygon Float) := do
  if p.isEmpty then return p
  else
    let shell ← normalRing true p.shell
    let holes ← p.holes.mapM (normalRing false)
    return ⟨shell, Sorting.sortPlain (fun a b => ringBelow b a) holes⟩

/-! ### Geometries without positions -/

def Geometry.rank {α : Type} : Geometry α → Nat
  | .unknown _ => 8
  | .collection _ => 7
  | .multiPolygon _ => 6
  | .polygon _ => 5
  | .multiLineString _ => 4
  | .linearRing _ => 3
  | .lineString _ => 2
  | .multiPoint _ => 1
  | .point _ => 0

mutual

/-- The parts of collections without positions in descending order of their kinds. Parts of one kind
keep their order; in collections of more than sixteen parts they need not. -/
def Geometry.sortEmpty {α : Type} : Geometry α → Geometry α
  | .collection parts =>
    .collection (Sorting.sortPlain (fun a b => decide (b.rank < a.rank))
      (Geometry.sortEmptyParts parts))
  | .point p => .point p
  | .lineString path => .lineString path
  | .linearRing path => .linearRing path
  | .polygon p => .polygon p
  | .multiPoint points => .multiPoint points
  | .multiLineString paths => .multiLineString paths
  | .multiPolygon polygons => .multiPolygon polygons
  | .unknown name => .unknown name

def Geometry.sortEmptyParts {α : Type} : List (Geometry α) → List (Geometry α)
  | [] => []
  | part :: rest => part.sortEmpty :: Geometry.sortEmptyParts rest

end

def PartForm.planar : PartForm Float :=
  ⟨normalPath, normalPath, Polygon.normal, fun g => .ok g.sortEmpty⟩

def Geometry.normalize (g : Geometry Float) : Except Failure (Geometry Float) :=
  g.normalizeWith .planar

end Single

end Geospatial
