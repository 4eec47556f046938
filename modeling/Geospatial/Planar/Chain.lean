import Geospatial.Planar.Location
import Geospatial.Sorting

/-!
# Monotone chains

Which segments of some paths are compared when common points are looked for. Paths are broken into
chains that run into one quadrant, and two chains whose rectangles meet are compared by halves,
down to single segments. A comparison asks on which side of one segment the ends of the other lie,
and has no answer for an end with a coordinate that is not finite. `comparable` says whether all
comparisons that are made have an answer; `hasDirection` whether the two ways along an edge can be
told apart.
-/

namespace Geospatial.Planar

inductive Quadrant where
  | northEast
  | southEast
  | northWest
  | southWest
  deriving DecidableEq

def quadrant (p q : Point) : Quadrant :=
  if p.x <= q.x then (if p.y <= q.y then .northEast else .southEast)
  else if p.y <= q.y then .northWest else .southWest

/-- The remaining points of a path in chains; `chain` is the chain so far, its last point first, and
`heading` its quadrant. -/
def breakChains (heading : Quadrant) (chain : List Point) : List Point → List (List Point)
  | [] => [chain.reverse]
  | p :: rest =>
    match chain with
    | [] => breakChains heading [p] rest
    | last :: _ =>
      if quadrant last p = heading then breakChains heading (p :: chain) rest
      else chain.reverse :: breakChains (quadrant last p) [p, last] rest

def chainsOf : List Point → List (Array Point)
  | p :: q :: rest => (breakChains (quadrant p q) [q, p] rest).map List.toArray
  | _ => []

def chainBox (chain : Array Point) : Box :=
  let a := chain.getD 0 default
  let b := chain.getD (chain.size - 1) default
  let (left, right) := if a.x < b.x then (a.x, b.x) else (b.x, a.x)
  let (low, high) := if a.y < b.y then (a.y, b.y) else (b.y, a.y)
  ⟨⟨left, low⟩, ⟨right, high⟩⟩

/-! ## Comparisons -/

/-- Whether the rectangles around two segments are not seen to be apart. -/
def notApart (s t : Segment) : Bool :=
  let least (a b : Float) : Float := if b < a then b else a
  let most (a b : Float) : Float := if a < b then b else a
  let apart (a b c d : Float) : Bool := most c d < least a b || most a b < least c d
  !apart s.a.x s.b.x t.a.x t.b.x && !apart s.a.y s.b.y t.a.y t.b.y

/-- Whether the comparison of two segments has an answer: the ends of the second are looked at
first, and those of the first only if that does not settle it. -/
def comparablePair (s t : Segment) : Bool :=
  !notApart s t || (t.isFinite && (s.oneSided t || s.isFinite))

def comparableStretches (chain : Array Point) (i j : Nat) (other : Array Point) (k l : Nat) :
    Bool :=
  let span (points : Array Point) (m n : Nat) : Segment :=
    ⟨points.getD m default, points.getD n default⟩
  if j ≤ i + 1 ∧ l ≤ k + 1 then comparablePair (span chain i j) (span other k l)
  else if !notApart (span chain i j) (span other k l) then true
  else
    let m := (i + j) / 2
    let n := (k + l) / 2
    (if i < m then
      (if k < n then comparableStretches chain i m other k n else true) &&
        (if n < l then comparableStretches chain i m other n l else true)
      else true) &&
    (if m < j then
      (if k < n then comparableStretches chain m j other k n else true) &&
        (if n < l then comparableStretches chain m j other n l else true)
      else true)
termination_by (j - i) + (l - k)

def comparableChains (chain other : Array Point) : Bool :=
  !(chainBox chain).meets (chainBox other) ||
    comparableStretches chain 0 (chain.size - 1) other 0 (other.size - 1)

def allPairs {β : Type} (holds : β → β → Bool) : List β → Bool
  | [] => true
  | a :: rest => rest.all (holds a) && allPairs holds rest

/-- Chains from bottom to top, those of one height from left to right. -/
def stacked (chains : List (Array Point)) : List (Array Point) :=
  let byKey (key : Box → Float) (chains : List (Array Point)) : List (Array Point) :=
    Sorting.sortPlain (fun a b => key (chainBox a) < key (chainBox b)) chains
  byKey (fun box => box.low.y + box.high.y) (byKey (fun box => box.low.x + box.high.x) chains)

/-- Whether all comparisons between the segments of some paths have answers. Between points that
are finite they have. -/
def comparable (paths : List (List Point)) : Bool :=
  paths.all (·.all Point.isFinite) || allPairs comparableChains (stacked (paths.flatMap chainsOf))

/-! ## Directions -/

def ordered (p q : Point) : Bool := p.below q || q.below p

/-- Whether the two ways along an edge can be told apart, by its ends or else by the points next to
them. -/
def hasDirection (edge : List Point) : Bool :=
  match edge, edge.reverse with
  | p :: q :: _, r :: s :: _ => ordered p r || ordered q s
  | _, _ => true

end Geospatial.Planar
