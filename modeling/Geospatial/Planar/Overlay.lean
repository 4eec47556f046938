import Geospatial.Planar.Face

/-!
# Overlays

The areas between the boundaries of several regions are joined where they belong to the result;
edges with the result on both sides vanish, nodes on the remaining edges stay. On which side of an
edge a region lies is known from the way its boundary runs along the edge, so that areas too narrow
to hold a point of doubles are told apart as well.
-/

namespace Geospatial.Planar

/-- The areas between the boundaries of some regions that are chosen by which of the regions they
lie in, joined. -/
def joined (regions : List Region) (chosen : List Bool → Bool) : List Region :=
  let boundaries := nodedLists (regions.map Region.boundary)
  let g := (Graph.ofSegments boundaries.flatten).boundaries
  let runs := regions.zip (boundaries.map g.runs)
  let selected := (g.faces fun _ => true).filter fun face =>
    chosen (runs.map fun (r, counts) => g.faceLiesIn r counts face)
  let left := selected.foldl (fun (left : Array Bool) face =>
    face.edges.foldl (fun (left : Array Bool) h => left.setIfInBounds h true) left)
    (Array.replicate g.ends.size false)
  let counts (h : Nat) : Bool := left.getD h false && !(left.getD (twin h) false)
  (g.faces counts).map (·.region)

def Region.clip (r : Region) (box : Box) : List Region :=
  joined [r, ⟨box.path, []⟩] fun places => places.all id

def union (regions : List Region) : List Region := joined regions fun places => places.any id

/-! ## Common points -/

def anyMeet (segments others : List Segment) : Bool :=
  segments.any fun s => others.any fun t => s.meets t

end Geospatial.Planar
