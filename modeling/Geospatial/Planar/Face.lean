import Geospatial.Planar.Graph
import Geospatial.Planar.Region

/-!
# Faces

The closed walks of a planar graph fall into simple loops. A loop that turns to the left is the
shell of an area; one that turns to the right is the outline of what lies in a hole, and belongs to
the smallest shell around it.
-/

namespace Geospatial.Planar

namespace Graph

/-- The open walk, its last edge first, without the loop that ends with the given node, and that
loop. -/
def closeLoop (g : Graph) (node : Nat) : List Nat → List Nat → List Nat × List Nat
  | [], loop => ([], loop)
  | h :: rest, loop =>
    if g.origin h = node then (rest, h :: loop) else closeLoop g node rest (h :: loop)

/-- A closed walk as simple loops: a loop closes as soon as a node comes again. -/
def loops (g : Graph) (walk : List Nat) : List (List Nat) :=
  let start : List Nat × List (List Nat) × Array Bool :=
    ([], [], Array.replicate g.nodes.size false)
  let (_, found, _) := walk.foldl (fun (path, found, passed) h =>
    let passed := passed.setIfInBounds (g.origin h) true
    let path := h :: path
    let node := g.target h
    if passed.getD node false then
      let (rest, loop) := closeLoop g node path []
      let passed := loop.foldl (fun (passed : Array Bool) k =>
        passed.setIfInBounds (g.origin k) false) passed
      (rest, loop :: found, passed)
    else (path, found, passed)) start
  found.reverse

def loopNodes (g : Graph) (loop : List Nat) : List Nat := loop.map g.origin

def loopPoints (g : Graph) (loop : List Nat) : List Point :=
  let points := (g.loopNodes loop).map g.point
  points ++ points.take 1

def windsLeft (g : Graph) (loop : List Nat) : Bool := Planar.windsLeft (g.loopPoints loop)

structure Shell where
  loop : List Nat
  nodes : List Nat
  points : List Point
  box : Box

def shellOf (g : Graph) (loop : List Nat) : Shell :=
  let points := g.loopPoints loop
  ⟨loop, g.loopNodes loop, points, Box.ofPoints points⟩

/-- Whether a loop lies in a shell: a node of it that is not on the shell is inside. -/
def Shell.surrounds (g : Graph) (shell : Shell) (loop : List Nat) : Bool :=
  let nodes := g.loopNodes loop
  shell.box.holds (Box.ofPoints (nodes.map g.point)) &&
    match nodes.find? fun n => !shell.nodes.contains n with
    | some n => placeIn (segmentsOf shell.points) (g.point n) == .inside
    | none => false

def enclosing (g : Graph) (shells : List Shell) (loop : List Nat) : Option Nat :=
  let around := shells.zipIdx.filter fun (shell, _) => Shell.surrounds g shell loop
  match around with
  | [] => none
  | first :: rest => some (rest.foldl (fun best candidate =>
      if candidate.1.box.size < best.1.box.size then candidate else best) first).2

/-- An area of a graph: its region, and the directed edges that have it to their left. -/
structure Face where
  region : Region
  edges : List Nat
  deriving Inhabited

def faces (g : Graph) (counts : Nat → Bool) : List Face :=
  let found := (g.walks counts).flatMap g.loops
  let shells := (found.filter g.windsLeft).map g.shellOf
  let outlines := (found.filter fun loop => !g.windsLeft loop).filterMap fun loop =>
    (g.enclosing shells loop).map fun i => (i, loop)
  shells.zipIdx.map fun (shell, i) =>
    let holes := (outlines.filter fun (j, _) => j == i).map (·.2)
    ⟨⟨shell.points, holes.map g.loopPoints⟩, shell.loop ++ holes.flatten⟩

end Graph

/-! ## Sides of edges -/

/-- How often the pieces of a boundary run along a directed edge with their area to the left, less
how often they do so with it to the right. -/
def leftCount (counts : Array Int) (h : Nat) : Int :=
  let n := counts.getD (h / 2) 0
  if h % 2 = 0 then n else -n

namespace Graph

def indexOfEdge (g : Graph) (u v : Nat) : Option Nat :=
  search 0 (g.ends.size / 2)
where
  search (low high : Nat) : Option Nat :=
    if low < high then
      let middle := (low + high) / 2
      let (a, b) := g.ends.getD (2 * middle) (0, 0)
      if a = u ∧ b = v then some middle
      else if u < a ∨ (u = a ∧ v < b) then search low middle
      else search (middle + 1) high
    else none
  termination_by high - low

def directed (g : Graph) (p q : Point) : Option Nat :=
  match indexIn g.nodes p, indexIn g.nodes q with
  | some u, some v =>
    (g.indexOfEdge (min u v) (max u v)).map fun k => if u < v then 2 * k else 2 * k + 1
  | _, _ => none

/-- For each edge how often some pieces run along it from its lesser node to its greater one, less
how often they run the other way. -/
def runs (g : Graph) (pieces : List Segment) : Array Int :=
  pieces.foldl (fun counts s =>
    match g.directed s.a s.b with
    | some h => counts.modify (h / 2) (· + if h % 2 = 0 then 1 else -1)
    | none => counts) (Array.replicate (g.ends.size / 2) 0)

/-- Whether a face lies in a region, given how the boundary of the region runs along the edges: by
an edge of the face that the boundary runs along, or else by a node of it off the boundary. -/
def faceLiesIn (g : Graph) (r : Region) (counts : Array Int) (face : Face) : Bool :=
  match face.edges.find? fun h => leftCount counts h != 0 with
  | some h => decide (0 < leftCount counts h)
  | none =>
    let places := face.edges.map fun h => r.placeOf (g.point (g.origin h))
    places.find? (· != .boundary) == some .inside

/-- Whether the sector clockwise of a directed edge, around the node that it leaves, lies inside,
given how a boundary runs along the edges: the next edge of the boundary in that direction tells. -/
def sectorInside (g : Graph) (counts : Array Int) (h : Nat) : Option Bool :=
  let hs := g.around.getD (g.origin h) #[]
  let i := g.place.getD h 0
  let turn := (List.range hs.size).map fun k => hs.getD ((i + hs.size - k) % hs.size) h
  (turn.find? fun k => leftCount counts k != 0).map fun k => decide (0 < leftCount counts k)

/-- Whether around every node in a rectangle inside and outside take turns, given how a boundary
runs along the edges. -/
def sidesAlternate (g : Graph) (counts : Array Int) (within : Box) : Bool :=
  (g.nodes.zip g.around).all fun (p, hs) =>
    let signs := (hs.toList.map (leftCount counts)).filterMap fun n =>
      if n = 0 then none else some (decide (0 < n))
    !within.holds ⟨p, p⟩ || (signs.zip (signs.drop 1 ++ signs.take 1)).all fun (a, b) => a != b

end Graph

def areas (segments : List Segment) : List Region :=
  ((Graph.ofSegments segments).boundaries.faces fun _ => true).map (·.region)

end Geospatial.Planar
