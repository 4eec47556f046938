import Geospatial.Cell.Square

/-!
# Outlines of cells

The outline of a cell in the plane of longitude and latitude follows its edges, which are great
circles. Each edge is sampled so that neither the arc nor the longitude between its ends is divided
into steps of more than a quarter degree. Then the samples are unwrapped: each longitude is taken
nearest to that of the sample before, so that the outline is one line in the plane. At a pole all
longitudes meet; the outline runs along the pole's latitude there.
-/

namespace Geospatial

/-! ## Longitudes -/

/-- An angle difference in `[-180, 180)`. -/
def wrapDegrees {α : Type} [Add α] [Sub α] [OfScientific α] [Rounding α] (angle : α) : α :=
  Rounding.modulo (angle + 180.0) 360.0 - 180.0

section Sampling

variable {α : Type} [Add α] [Sub α] [Mul α] [Div α] [Neg α] [OfNat α 0] [LT α] [LE α]
  [DecidableLT α] [DecidableLE α] [OfScientific α] [NatCast α] [Root α] [Rounding α]
  [Trigonometry α]

/-- The distance from the axis below which a direction counts as a pole. -/
def poleDistance : α := 1e-12

/-- A number limited to `[-1, 1]`; one that compares with nothing stays. -/
def clampSigned (t : α) : α := if t < -1.0 then -1.0 else if 1.0 < t then 1.0 else t

def arcDegrees (start stop : Direction α) : α :=
  toDegrees (Trigonometry.arccos (clampSigned (start.dot stop)))

/-- The difference of the longitudes of two directions, in degrees; none at a pole. -/
def sweepDegrees (start stop : Direction α) : α :=
  if poleDistance < start.axisDistance ∧ poleDistance < stop.axisDistance then
    let difference := wrapDegrees (stop.longitude - start.longitude)
    if difference < 0 then -difference else difference
  else 0

def quarterDegrees (start stop : Direction α) : α :=
  let arc := arcDegrees start stop
  let sweep := sweepDegrees start stop
  (if arc < sweep then sweep else arc) / 0.25

def edgeSteps (start stop : Direction α) : Nat :=
  max 1 (Rounding.ceiling (quarterDegrees start stop)).toNat

/-- The number of steps of an edge between given directions. Directions that are not numbers have
none: the angle between them does not compare with itself. -/
def edgeCount (start stop : Direction α) : Except Failure Nat :=
  let angle := quarterDegrees start stop
  if angle ≤ angle then .ok (edgeSteps start stop) else .error .undefinedCount

/-- The sample a fraction along the chord of an edge, on the sphere. -/
def sampleAt (start stop : Direction α) (t : α) : Direction α :=
  let chord := (start.scale (1.0 - t)).plus (stop.scale t)
  ⟨chord.x / chord.norm, chord.y / chord.norm, chord.z / chord.norm⟩

def edgeSamples (start stop : Direction α) : List (Direction α) :=
  let steps := edgeSteps start stop
  (List.range steps).map fun (k : Nat) => sampleAt start stop ((k : α) / (steps : α))

def ringSamples (corners : List (Direction α)) : List (Direction α) :=
  (corners.zip (corners.drop 1 ++ corners.take 1)).flatMap fun (start, stop) =>
    edgeSamples start stop

end Sampling

/-! ## Unwrapping -/

structure Sample (α : Type) where
  lng : α
  lat : α
  atPole : Bool

structure Vertex (α : Type) where
  lng : α
  lat : α
  deriving Repr, Inhabited

/-- The way along an outline so far: the longitude reached, the longitude of the last sample as it
was given, the pole passed since, and the vertices. -/
structure Trace (α : Type) where
  lng : α
  given : α
  pole : Option α
  vertices : List (Vertex α)

section Unwrapping

variable {α : Type} [Add α] [Sub α] [Mul α] [Div α] [Neg α] [OfNat α 0] [LT α] [DecidableLT α]
  [OfScientific α] [IntCast α] [Rounding α]

def poleLatitude (lat : α) : α := if 0 < lat then 90.0 else -90.0

namespace Trace

/-- Begin at a sample, its longitude taken nearest to that of the centre. -/
def start (center : α) (s : Sample α) : Trace α :=
  let lng := center + wrapDegrees (s.lng - center)
  ⟨lng, s.lng, none, [⟨lng, s.lat⟩]⟩

def alongPole (pole : Option α) (before after : α) : List (Vertex α) :=
  match pole with
  | some lat => [⟨before, lat⟩, ⟨after, lat⟩]
  | none => []

/-- Go on to a sample. One at a pole only leaves a mark. -/
def extend (t : Trace α) (s : Sample α) : Trace α :=
  if s.atPole then { t with pole := some (poleLatitude s.lat) }
  else
    let lng := t.lng + wrapDegrees (s.lng - t.given)
    ⟨lng, s.lng, none, t.vertices ++ alongPole t.pole t.lng lng ++ [⟨lng, s.lat⟩]⟩

def winding (t : Trace α) (first : Vertex α) (given : α) : α :=
  t.lng + wrapDegrees (given - t.given) - first.lng

/-- The vertices that close an outline: along a pole passed last, or along the pole that it goes
round. -/
def closing (t : Trace α) (first : Vertex α) (winding : α) : List (Vertex α) :=
  match t.pole with
  | some lat => [⟨t.lng, lat⟩, ⟨first.lng, lat⟩]
  | none =>
    let turn := if winding < 0 then -winding else winding
    if 180.0 < turn then
      let last := first.lng + 360.0 * ((Rounding.nearest (winding / 360.0) : Int) : α)
      let pole := poleLatitude first.lat
      [⟨last, first.lat⟩, ⟨last, pole⟩, ⟨first.lng, pole⟩]
    else []

end Trace

/-- The samples from the first that is not at a pole on, and those before it. -/
def rollToDefined (samples : List (Sample α)) : List (Sample α) :=
  samples.dropWhile (·.atPole) ++ samples.takeWhile (·.atPole)

/-- The vertices of an outline in the plane, given the longitude of the centre. Samples that are all
at a pole have no vertices, so that there is no first one to close the outline at. -/
def unwrap (center : α) (samples : List (Sample α)) : Except Failure (List (Vertex α)) :=
  match rollToDefined samples with
  | [] => .error .indexOutOfRange
  | s :: rest =>
    if s.atPole then .error .indexOutOfRange
    else
      let first : Vertex α := ⟨center + wrapDegrees (s.lng - center), s.lat⟩
      let t := rest.foldl Trace.extend (Trace.start center s)
      .ok (t.vertices ++ t.closing first (t.winding first s.lng))

end Unwrapping

section Samples

variable {α : Type} [Add α] [Sub α] [Mul α] [Div α] [Neg α] [LT α] [DecidableLT α]
  [OfScientific α] [Root α] [Trigonometry α]

def Direction.sample (p : Direction α) : Sample α :=
  ⟨p.longitude, p.latitude, decide (p.axisDistance < poleDistance)⟩

end Samples

def Cell.outline (c : Cell) : Except Failure (List (Vertex Float)) :=
  unwrap c.centerLongitude ((ringSamples c.corners).map Direction.sample)

end Geospatial
