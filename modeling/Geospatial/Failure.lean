import Geospatial.Json.Value

/-!
# Failures

Why an operation refuses its input. Each cause is a constructor that holds what its message
quotes; the wording of the messages is in one function.
-/

namespace Geospatial

inductive Failure where
  /-- A geometry of a kind that the operation does not handle; the text replaces the usual one. -/
  | unsupportedGeometry (typeName : String) (text : Option String)
  /-- An iteration used up its steps without coming to rest. -/
  | notConverged (tolerance cap : Numeral)
  | negativeTolerance (tolerance : Numeral)
  | tooFewIterations (cap : Numeral)
  | levelOutOfRange (level : Json.Value)
  /-- A parameter is refused for a reason given in words. -/
  | configuration (text : String)
  /-- A failure of this library without a closer cause. -/
  | general (text : String)
  | mixedFamily
  /-- The name of a family is not one of the known names. -/
  | unknownFamily (name : String)
  | divisionByZero
  /-- A multi-geometry cannot hold an empty point or line. -/
  | emptyPart
  | foreignPart
  | notPolygon
  | shortRing
  /-- A ring does not end where it starts: its first position equals none. -/
  | openRing
  | shortLine
  /-- The positions of one line have different numbers of coordinates. -/
  | raggedPositions
  | holesWithoutShell
  /-- A coordinate is missing or is no number. -/
  | malformedGeometry
  /-- Which way a ring turns is not defined. -/
  | undefinedTurn
  /-- Lines have no nodes at their common points, or the areas between them no consistent sides. -/
  | unnodable
  /-- The number names no cell, or a direction has no cell. -/
  | noCell
  | infiniteAngle
  | undefinedCount
  | indexOutOfRange
  /-- The geometry is of a kind whose content cannot be read. -/
  | opaqueGeometry

namespace Failure

def unsupportedText (typeName : String) : String := "Unsupported geometry type: " ++ typeName

def message? : Failure → Option String
  | unsupportedGeometry typeName text => some (text.getD (unsupportedText typeName))
  | notConverged tolerance cap =>
    some ("Median failed to converge within " ++ tolerance.scaledText ++ " after " ++ cap.text
      ++ " iterations.")
  | negativeTolerance tolerance =>
    some ("tolerance must be non-negative, got " ++ tolerance.text)
  | tooFewIterations cap => some ("max_iterations must be at least 1, got " ++ cap.text)
  | levelOutOfRange level =>
    some ("level must be an integer between 0 and 30, got " ++ level.quoted)
  | configuration text => some text
  | general text => some text
  | mixedFamily => some "No Multi-geometry exists for family GeometryFamily.MIXED"
  | _ => none

end Failure

end Geospatial
