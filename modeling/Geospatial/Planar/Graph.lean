import Geospatial.Planar.Noding

/-!
# Planar graphs

Noded segments form a graph drawn in the plane. Each edge is two directed edges, the even and the
odd one of a pair. Around every node the directed edges that leave it are known in counter-clockwise
order, and walking on from each directed edge to the next one clockwise from its way back goes
round the area to its left.
-/

namespace Geospatial.Planar

structure Graph where
  nodes : Array Point
  /-- The nodes from and to which each directed edge runs. -/
  ends : Array (Nat × Nat)
  /-- The directed edges that leave each node, counter-clockwise. -/
  around : Array (Array Nat)
  /-- The place of each directed edge around the node that it leaves. -/
  place : Array Nat
  deriving Inhabited

def twin (h : Nat) : Nat := if h % 2 = 0 then h + 1 else h - 1

/-- Whether the direction to a point is above the horizontal, or due right. -/
def upper (o p : Point) : Bool := o.y < p.y || (p.y == o.y && o.x < p.x)

/-- Whether the direction to `p` comes before that to `q`, counter-clockwise from due right. -/
def turnsBefore (o p q : Point) : Bool :=
  if upper o p != upper o q then upper o p else side o p q == .left

namespace Graph

def origin (g : Graph) (h : Nat) : Nat := (g.ends.getD h (0, 0)).1

def target (g : Graph) (h : Nat) : Nat := (g.ends.getD h (0, 0)).2

def point (g : Graph) (n : Nat) : Point := g.nodes.getD n default

def ofEdges (nodes : Array Point) (edges : Array (Nat × Nat)) : Graph :=
  let ends := edges.flatMap fun (u, v) => #[(u, v), (v, u)]
  let leaving := ends.zipIdx.foldl (fun (lists : Array (Array Nat)) ((u, _), h) =>
    lists.modify u (·.push h)) (Array.replicate nodes.size #[])
  let aim (h : Nat) : Point := nodes.getD (ends.getD h (0, 0)).2 default
  let around := leaving.zipIdx.map fun (hs, u) =>
    let o := nodes.getD u default
    (hs.toList.mergeSort fun a b => !turnsBefore o (aim b) (aim a)).toArray
  let place := around.foldl (fun (places : Array Nat) (hs : Array Nat) =>
    hs.zipIdx.foldl (fun (places : Array Nat) (h, i) => places.setIfInBounds h i) places)
    (Array.replicate ends.size 0)
  ⟨nodes, ends, around, place⟩

/-- The graph of noded segments; segments between the same points are one edge. -/
def ofSegments (segments : List Segment) : Graph :=
  let nodes := distinct (segments.flatMap fun s => [s.a.plain, s.b.plain]).toArray
  let edges := segments.filterMap fun s =>
    match indexIn nodes s.a, indexIn nodes s.b with
    | some u, some v => if u = v then none else some (min u v, max u v)
    | _, _ => none
  let sorted := edges.toArray.qsort fun (a, b) (c, d) => a < c || (a == c && b < d)
  let once := sorted.foldl (fun (kept : Array (Nat × Nat)) e =>
    if kept.back? == some e then kept else kept.push e) #[]
  ofEdges nodes once

def edges (g : Graph) : Array (Nat × Nat) :=
  ((Array.range (g.ends.size / 2)).map fun k => g.ends.getD (2 * k) (0, 0))

def degrees (g : Graph) : Array Nat := g.around.map Array.size

/-- The next of the directed edges that count, clockwise from the way back. -/
def next (g : Graph) (counts : Nat → Bool) (h : Nat) : Nat :=
  let back := twin h
  let hs := g.around.getD (g.origin back) #[]
  let i := g.place.getD back 0
  let turn := (List.range hs.size).map fun k => hs.getD ((i + hs.size - 1 - k) % hs.size) back
  (turn.find? counts).getD back

def follow (step : Nat → Nat) : Nat → Nat → Array Bool → List Nat → List Nat × Array Bool
  | 0, _, visited, walked => (walked.reverse, visited)
  | fuel + 1, h, visited, walked =>
    if visited.getD h true then (walked.reverse, visited)
    else follow step fuel (step h) (visited.setIfInBounds h true) (h :: walked)

def walks (g : Graph) (counts : Nat → Bool) : List (List Nat) :=
  let start : List (List Nat) × Array Bool := ([], Array.replicate g.ends.size false)
  let (found, _) := (List.range g.ends.size).foldl (fun (found, visited) h =>
    if counts h && !(visited.getD h true) then
      let (walk, visited) := follow (g.next counts) (g.ends.size + 1) h visited []
      (walk :: found, visited)
    else (found, visited)) start
  found.reverse

/-- The graph without the edges that end at a node where no other edge goes on, and without those
that then end so. -/
def withoutDeadEnds : Nat → Graph → Graph
  | 0, g => g
  | fuel + 1, g =>
    let degrees := g.degrees
    let kept := g.edges.filter fun (u, v) => 1 < degrees.getD u 0 && 1 < degrees.getD v 0
    if kept.size = g.edges.size then g else withoutDeadEnds fuel (ofEdges g.nodes kept)

def walkNumbers (g : Graph) (walks : List (List Nat)) : Array Nat :=
  walks.zipIdx.foldl (fun (numbers : Array Nat) (walk, i) =>
    walk.foldl (fun (numbers : Array Nat) h => numbers.setIfInBounds h i) numbers)
    (Array.replicate g.ends.size walks.length)

/-- The graph without the edges that have the same area on both sides. -/
def withoutBridges (g : Graph) : Graph :=
  let numbers := g.walkNumbers (g.walks fun _ => true)
  let kept := (Array.range (g.ends.size / 2)).filterMap fun k =>
    if numbers.getD (2 * k) 0 = numbers.getD (2 * k + 1) 0 then none
    else some (g.ends.getD (2 * k) (0, 0))
  ofEdges g.nodes kept

def boundaries (g : Graph) : Graph := (withoutDeadEnds g.edges.size g).withoutBridges

end Graph

end Geospatial.Planar
