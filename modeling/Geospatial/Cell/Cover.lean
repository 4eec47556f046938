import Geospatial.Cell.Search
import Geospatial.Cell.Shape
import Geospatial.Geometry.Components

/-!
# Coverings

The covering of a geometry at a level are the cells of the level that hold a position of it or whose
shapes meet one of its components. The coverings of the components are merged: sorted, each cell
once.
-/

namespace Geospatial

/-- What covering asks of cells and of the plane. -/
structure Atlas (α Area : Type) where
  /-- The cell of the finest level at a position. -/
  leaf : Position α → Except Failure CellId
  /-- The area of a cell in the plane. -/
  shape : CellId → Area
  /-- Areas that hold the shapes of all descendants of a cell. -/
  bounds : CellId → List Area
  /-- Whether a component shares a point with an area. -/
  meets : Geometry α → Area → Bool

abbrev Level := Fin (maxLevel + 1)

/-- The level that a value gives: a whole number in the range of levels, written as such. -/
def Level.ofValue (v : Json.Value) : Except Failure Level :=
  match v with
  | .number (.integer n) =>
    if h : 0 ≤ n ∧ n.toNat < maxLevel + 1 then .ok ⟨n.toNat, h.2⟩ else .error (.levelOutOfRange v)
  | _ => .error (.levelOutOfRange v)

namespace Cover

variable {α Area : Type}

def sieve (atlas : Atlas α Area) (component : Geometry α) : Sieve where
  keeps cell := atlas.meets component (atlas.shape cell)
  reaches cell := (atlas.bounds cell).any (atlas.meets component)

def vertexCells (atlas : Atlas α Area) (level : Level) (component : Geometry α) :
    Except Failure (List CellId) :=
  component.positions.mapM fun p => (atlas.leaf p).map (CellId.ancestor level)

def isPoint : Geometry α → Bool
  | .point _ => true
  | _ => false

/-- The cells of a component; a point has only the one that holds it. -/
def componentCells (atlas : Atlas α Area) (level : Level) (component : Geometry α) :
    Except Failure (List CellId) := do
  let vertices ← vertexCells atlas level component
  if isPoint component then return vertices
  else return vertices ++ (sieve atlas component).search level

def insertCell (cell : CellId) : List CellId → List CellId
  | [] => [cell]
  | c :: rest =>
    if cell.val < c.val then cell :: c :: rest
    else if cell.val = c.val then c :: rest
    else c :: insertCell cell rest

def sortDistinct (cells : List CellId) : List CellId := cells.foldr insertCell []

def cover (atlas : Atlas α Area) (g : Geometry α) (level : Level) : Except Failure (List CellId) :=
  do
    let cells ← (← g.readable).components.mapM (componentCells atlas level)
    return sortDistinct cells.flatten

end Cover

/-! ## The plane of longitudes and latitudes -/

namespace Globe

open Planar

/-- A position in the first place of a path, if any, lies in a region or on its boundary. -/
def touches (r : Region) (path : List Point) : Bool :=
  match path.head? with
  | some p => r.placeOf p != .outside
  | none => false

/-- Whether some paths, and what they bound if they bound something, share a point with a region. -/
def meetsRegion (paths : List (List Point)) (bounding : Bool) (r : Region) : Bool :=
  let frame := Box.ofPoints paths.flatten
  let near (box : Box) (s : Segment) : Bool := box.meets ⟨s.low, s.high⟩
  let mine := (paths.flatMap segmentsOf).filter (near r.box)
  let theirs := r.segments.filter (near frame)
  anyMeet mine theirs || paths.any (touches r) ||
    (bounding && r.rings.any fun ring => touches ⟨paths.headD [], paths.drop 1⟩ ring)

/-- Whether a component, which lies within the rectangle around its first path, shares a point with
an area. -/
def meetsArea (paths : List (List Point)) (bounding : Bool) (area : List Region) : Bool :=
  let frame := (area.map Region.box).foldl Box.join .empty
  (Box.ofPoints (paths.headD [])).meets frame && area.any (meetsRegion paths bounding)

def meets (component : Geometry Float) (area : List Region) : Bool :=
  let pathOf (path : Path Float) : List Point := path.map Point.ofPosition
  match component with
  | .point (some p) => area.any fun r => touches r [Point.ofPosition p]
  | .lineString path => meetsArea [pathOf path] false area
  | .linearRing path => meetsArea [pathOf path] false area
  | .polygon p => meetsArea (p.rings.map pathOf) true area
  | _ => false

def boxRegion (box : Box) : Region := ⟨box.path, []⟩

def atlas : Atlas Float (List Region) where
  leaf p := CellId.ofDegrees p.x p.y
  shape id := ((Cell.ofId? id).bind fun c => c.shape.toOption).getD []
  bounds id := ((Cell.ofId? id).map fun c => c.boxes.map fun box => [boxRegion box]).getD []
  meets := meets

end Globe

end Geospatial
