import Geospatial.Planar.Point

/-!
# Noding

Segments are cut at every point that they share with another segment: where they cross, where an
end of one lies on the other, and at both ends of a common stretch. A crossing is the exact one
rounded to doubles, computed once for the pair, so both segments are cut at the same point. Where
rounding makes the pieces cross again, close points are taken for one. Segments with a coordinate
that is not finite are not cut.
-/

namespace Geospatial.Planar

/-- The points at which two segments cut each other: those on the first and those on the second. -/
def contacts (s t : Segment) : List Point × List Point :=
  if s.boxesMeet t then
    if s.crosses t then
      let p := (s.crossing t).plain
      ([p], [p])
    else ([t.a, t.b].filter s.holds, [s.a, s.b].filter t.holds)
  else ([], [])

def Segment.leads (s : Segment) (p q : Point) : Bool :=
  let dx := s.b.x - s.a.x
  let dy := s.b.y - s.a.y
  let ahead (u v d : Float) : Bool := if 0 < d then u < v else v < u
  let first := if dy.abs <= dx.abs then ahead p.x q.x dx else ahead p.y q.y dy
  let behind := if dy.abs <= dx.abs then ahead q.x p.x dx else ahead q.y p.y dy
  if first then true
  else if behind then false
  else if dy.abs <= dx.abs then ahead p.y q.y dy else ahead p.x q.x dx

def Segment.cutAt (s : Segment) (points : List Point) : List Segment :=
  let inner := points.mergeSort fun p q => !s.leads q p
  segmentsOf (dropRepeats (s.a :: inner ++ [s.b]))

/-- The finite segments with their indices, by ascending left end. -/
def byLeftEnd (segments : Array Segment) : List (Nat × Segment) :=
  let finite := (segments.toList.zipIdx.map fun (s, i) => (i, s)).filter fun s => s.2.isFinite
  finite.mergeSort fun a b => a.2.low.x <= b.2.low.x

/-- Run through the pairs of segments whose ranges on the first axis, widened by a margin, meet:
each segment with those after it that start before it ends. -/
def foldPairs {σ : Type} (margin : Float) (f : σ → Nat × Segment → Nat × Segment → σ) :
    σ → List (Nat × Segment) → σ
  | state, [] => state
  | state, s :: later =>
    let near := later.takeWhile fun t => t.2.low.x <= s.2.high.x + margin
    foldPairs margin f (near.foldl (fun state t => f state s t) state) later

def note (points : Array (List Point)) (m : Nat) (onFirst : List Point) (n : Nat)
    (onSecond : List Point) : Array (List Point) :=
  let points := if onFirst.isEmpty then points else points.modify m (onFirst ++ ·)
  if onSecond.isEmpty then points else points.modify n (onSecond ++ ·)

def cutPairs (segments : Array Segment) (margin : Float)
    (cause : Segment → Segment → List Point × List Point) : Array (List Segment) :=
  let points := foldPairs margin (fun points (m, s) (n, t) =>
    let (onFirst, onSecond) := cause s t
    note points m onFirst n onSecond) (Array.replicate segments.size []) (byLeftEnd segments)
  (segments.zip points).map fun (s, points) => s.cutAt points

def apart (s t : Segment) : Bool :=
  let inner (u v : Segment) (p : Point) : Bool :=
    !p.same u.a && !p.same u.b && u.holds p && v.holds p
  !(s.boxesMeet t) ||
    (!s.crosses t && !inner s t t.a && !inner s t t.b && !inner t s s.a && !inner t s s.b)

def settled (segments : Array Segment) : Bool :=
  foldPairs 0 (fun calm (_, s) (_, t) => calm && apart s t) true (byLeftEnd segments)

/-! ## Snapping

Rounding moves crossings off their segments, so the pieces of nearly parallel segments may cross
again. Then points closer to one another, or to a segment, than a small part of the greatest
coordinate count as one, or as on the segment. -/

/-- The part of the greatest coordinate below which points count as one. -/
def snapDistance (segments : Array Segment) : Float :=
  (segments.foldl (fun most s =>
    max (max (max most s.a.x.abs) s.a.y.abs) (max s.b.x.abs s.b.y.abs)) 0) / 1e12

def snapTo (distance : Float) (points : List Point) (p : Point) : Point :=
  (points.find? fun q =>
    Float.sqrt ((p.x - q.x) * (p.x - q.x) + (p.y - q.y) * (p.y - q.y)) <= distance).getD p

def Segment.distance (s : Segment) (p : Point) : Float :=
  let dx := s.b.x - s.a.x
  let dy := s.b.y - s.a.y
  let t := clampUnit (((p.x - s.a.x) * dx + (p.y - s.a.y) * dy) / (dx * dx + dy * dy))
  let ex := p.x - (s.a.x + t * dx)
  let ey := p.y - (s.a.y + t * dy)
  Float.sqrt (ex * ex + ey * ey)

/-- The points at which two segments cut each other when points close to a segment count as on
it. -/
def closeContacts (distance : Float) (points : List Point) (s t : Segment) :
    List Point × List Point :=
  let near (u : Segment) (p : Point) : Bool := u.distance p <= distance
  let onFirst := [t.a, t.b].filter (near s)
  let onSecond := [s.a, s.b].filter (near t)
  if s.crosses t then
    let p := snapTo distance points (s.crossing t).plain
    (p :: onFirst, p :: onSecond)
  else (onFirst, onSecond)

def snappedPieces (segments : Array Segment) : Array (List Segment) :=
  let distance := snapDistance segments
  let ends := segments.toList.flatMap fun s => [s.a, s.b]
  let points := ends.foldl (fun (kept : List Point) p =>
    if (snapTo distance kept p).same p && !kept.contains p then kept ++ [p] else kept) []
  let moved := segments.map fun s =>
    (⟨snapTo distance points s.a, snapTo distance points s.b⟩ : Segment)
  cutPairs moved distance (closeContacts distance points)

def nodedPieces (segments : Array Segment) : Array (List Segment) :=
  let pieces := cutPairs segments 0 contacts
  if settled (pieces.toList.flatten).toArray then pieces else snappedPieces segments

/-- Points in ascending order, each once. Points without numbers for coordinates are left out. -/
def distinct (points : Array Point) : Array Point :=
  (dropRepeats ((points.filter Point.isDefined).qsort Point.below).toList).toArray

def indexIn (points : Array Point) (p : Point) : Option Nat :=
  search 0 points.size
where
  search (low high : Nat) : Option Nat :=
    if low < high then
      let middle := (low + high) / 2
      match points[middle]? with
      | some q =>
        if p.same q then some middle
        else if p.below q then search low middle
        else search (middle + 1) high
      | none => none
    else none
  termination_by high - low

def nodedLists (lists : List (List Segment)) : List (List Segment) :=
  share (nodedPieces lists.flatten.toArray).toList lists
where
  share (pieces : List (List Segment)) : List (List Segment) → List (List Segment)
    | [] => []
    | list :: rest =>
      (pieces.take list.length).flatten :: share (pieces.drop list.length) rest

end Geospatial.Planar
