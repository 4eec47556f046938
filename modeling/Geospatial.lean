import Geospatial.Json.Reader
import Geospatial.Geometry.Document
import Geospatial.Recurrence
import Geospatial.Session
import Geospatial.Proofs.Path.Division
import Geospatial.Proofs.Path.Boundaries
import Geospatial.Proofs.Median.Solve
import Geospatial.Proofs.Cell.Cover
import Geospatial.Proofs.Median.Convergence
import Geospatial.Proofs.Geometry.Rows
import Geospatial.Proofs.Geometry.Reordering
import Geospatial.Proofs.Path.Passing
import Geospatial.Proofs.Path.Halves
import Geospatial.Proofs.Path.Rounds
import Geospatial.Proofs.Split.Lines
import Geospatial.Proofs.Split.Rounds
import Geospatial.Proofs.Path.Mirror
import Geospatial.Proofs.Path.Clear
import Geospatial.Proofs.Split.Reversal
import Geospatial.Proofs.Geometry.Document
import Geospatial.Proofs.Cell.Containment
import Geospatial.Proofs.Split.Length
import Geospatial.Proofs.Median.Hull
import Geospatial.Proofs.Planar.Areas
import Geospatial.Proofs.Split.Componentwise
import Geospatial.Proofs.Split.Faces
import Geospatial.Proofs.Median.Stationary
import Geospatial.Proofs.Median.Motion
import Geospatial.Proofs.Path.Slivers
import Geospatial.Proofs.Doubles
import Geospatial.Proofs.Path.Order
import Geospatial.Proofs.Split.Heights
import Geospatial.Proofs.Median.Exhaustion
import Geospatial.Proofs.Geometry.NormalForm
import Geospatial.Proofs.Cell.Unwrapping
import Geospatial.Proofs.Cell.Spacing
import Geospatial.Proofs.Geometry.Classification
import Geospatial.Proofs.Cell.Coarsening
import Geospatial.Proofs.Geometry.Rebuilding
import Geospatial.Proofs.Cell.Descent
