import Geospatial.Failure
import Geospatial.Planar.Chain
import Geospatial.Planar.Face

/-!
# Nets

A net is linework in edges: paths that meet one another in their ends only. The ends of edges are
nodes: the ends of the lines, the points that lines have in common with others or pass twice, and
the points where a line turns back on itself. What a line or a region has in common with a net are
edges and single nodes; the areas between rings and a net are its faces.
-/

namespace Geospatial.Planar

abbrev Net := List (List Point)

/-! ## Edges between nodes -/

def trace : List Segment → List Point
  | [] => []
  | s :: rest => s.a :: (s :: rest).map (·.b)

/-- The points that paths pass more than once in all, in ascending order. -/
def passedTwice (paths : List (List Point)) : Array Point :=
  let all := paths.flatten.toArray
  let points := distinct all
  let counts := all.foldl (fun (counts : Array Nat) p =>
    match indexIn points p with
    | some i => counts.modify i (· + 1)
    | none => counts) (Array.replicate points.size 0)
  (points.zip counts).filterMap fun (p, n) => if 1 < n then some p else none

/-- The rest of a path in edges; `edge` is the edge so far, its last point first. -/
def cutAtNodes (isNode : Point → Bool) (edge : List Point) : List Point → List (List Point)
  | [] => [edge.reverse]
  | p :: rest =>
    match edge, rest with
    | [], _ => cutAtNodes isNode [p] rest
    | before :: _, after :: _ =>
      if isNode p || before.same after then
        (p :: edge).reverse :: cutAtNodes isNode [p] rest
      else cutAtNodes isNode (p :: edge) rest
    | _, [] => [(p :: edge).reverse]

def edgesOf (paths : List (List Point)) : List (List (List Point)) :=
  let traces := (nodedLists (paths.map segmentsOf)).map trace
  let nodes := passedTwice traces
  traces.map fun path =>
    (cutAtNodes (fun p => (indexIn nodes p).isSome) [] path).filter fun edge => !edge.isEmpty

/-- The edges of each of some paths. Where comparisons have no answer, or the ways along an edge
cannot be told apart, coordinates that are infinite make all points one and leave no edges; others
cannot be noded. -/
def nodedEdges (paths : List (List Point)) : Except Failure (List (List (List Point))) :=
  let edges := edgesOf paths
  if comparable paths && comparable edges.flatten && edges.flatten.all hasDirection then .ok edges
  else if paths.any (·.any fun p => p.x.isInf || p.y.isInf) then .ok (paths.map fun _ => [])
  else .error .unnodable

def sameEdge (e f : List Point) : Bool := e == f || e == f.reverse

def distinctEdges (edges : List (List Point)) : List (List Point) :=
  (edges.foldl (fun (kept : Array (List Point)) e =>
    if kept.any (sameEdge e) then kept else kept.push e) #[]).toList

def Net.ofPaths (paths : List (List Point)) : Except Failure Net := do
  return distinctEdges (← nodedEdges paths).flatten

def Net.box (net : Net) : Box := (net.map Box.ofPoints).foldl Box.join .empty

/-! ## Common parts -/

def endsOf (edge : List Point) : List Point :=
  match edge.head?, edge.getLast? with
  | some p, some q => [p, q]
  | _, _ => []

/-- What a line or a region has in common with a net: edges, and nodes that are ends of none of
them. -/
structure Common where
  edges : List (List Point) := []
  nodes : List Point := []

/-- The common edges with the common nodes that are ends of none of them, in ascending order. -/
def Common.ofEdges (edges mine theirs : List (List Point)) : Common :=
  let nodes (paths : List (List Point)) : Array Point := distinct (paths.flatMap endsOf).toArray
  let others := nodes theirs
  let covered := nodes edges
  ⟨edges, ((nodes mine).filter fun p =>
    (indexIn others p).isSome && (indexIn covered p).isNone).toList⟩

def commonOfPath (path : List Point) (net : Net) : Except Failure Common := do
  if (Box.ofPoints path).meets net.box then
    let edges ← nodedEdges (path :: net)
    let mine := distinctEdges (edges.headD [])
    let theirs := distinctEdges (edges.drop 1).flatten
    let shared := mine.filter fun e => theirs.any (sameEdge e)
    return .ofEdges shared mine theirs
  else return {}

/-- Whether an edge that is not part of the boundary of a region lies in it, given how the boundary
runs along the edges of a graph. Of the ends on the boundary the greater one tells, by the sector
into which the edge runs; without such an end both ends do. -/
def edgeLiesIn (g : Graph) (counts : Array Int) (r : Region) (edge : List Point) : Bool :=
  let sectorFrom (path : List Point) : Option (Point × Bool) :=
    match path with
    | p :: q :: _ => do return (p, ← g.sectorInside counts (← g.directed p q))
    | _ => none
  match sectorFrom edge, sectorFrom edge.reverse with
  | some (p, atStart), some (q, atStop) => if p.below q then atStop else atStart
  | some (_, inside), none => inside
  | none, some (_, inside) => inside
  | none, none => (endsOf edge).all fun p => r.placeOf p != .outside

/-- The rectangle in which a region can meet a net: around what their rectangles, with a margin,
have in common, and around the segments of the boundary that reach into it. -/
def meetingBox (r : Region) (net : Net) : Box :=
  let common := r.box.widened.overlap net.box.widened
  r.segments.foldl (fun box s =>
    if common.meets ⟨s.low, s.high⟩ then box.join ⟨s.low, s.high⟩ else box) common

/-- Whether inside and outside of a region take turns around every point of its boundary in a
rectangle. -/
def hasSides (r : Region) (within : Box) : Bool :=
  let boundary := (nodedLists [r.boundary]).flatten
  let g := Graph.ofSegments boundary
  g.sidesAlternate (g.runs boundary) within

/-- The edges of a net that lie in a region or on its boundary, and the single nodes that the
boundary and the net share. A region whose boundary crosses itself there has no sides. -/
def commonOfRegion (r : Region) (net : Net) : Except Failure Common := do
  if r.box.meets net.box then
    let edges ← nodedEdges (r.rings ++ net)
    let mine := edges.take r.rings.length
    let theirs := distinctEdges (edges.drop r.rings.length).flatten
    if hasSides r (meetingBox r net) then
      let g := Graph.ofSegments (edges.flatten.flatMap segmentsOf)
      let counts := g.runs ((mine.zip r.leftOfRings).flatMap fun (edges, left) =>
        Region.turned left (edges.flatMap segmentsOf))
      let rings := distinctEdges mine.flatten
      let shared := rings.filter fun e => theirs.any (sameEdge e)
      let inside := theirs.filter fun e => !rings.any (sameEdge e) && edgeLiesIn g counts r e
      return .ofEdges (shared ++ inside) rings theirs
    else .error .unnodable
  else return {}

def facesBetween (rings : List (List Point)) (net : Net) : Except Failure (List Region) := do
  let edges ← nodedEdges (rings ++ net)
  return areas (edges.flatten.flatMap segmentsOf)

end Geospatial.Planar
