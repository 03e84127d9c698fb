import VectorPaint.Text.Basic
import VectorPaint.Text.DecimalDigit
import VectorPaint.Text.LetterCase
import VectorPaint.Text.Quoted
import VectorPaint.Text.Search
import VectorPaint.Fault
import VectorPaint.Journal
import VectorPaint.Number.Exact
import VectorPaint.Number.Coord
import VectorPaint.Number.Shortest
import VectorPaint.Number.Written
import VectorPaint.Number.Literal
import VectorPaint.Markup.Tag
import VectorPaint.Record
import VectorPaint.Markup.Attribute
import VectorPaint.Palette
import VectorPaint.Viewport
import VectorPaint.Markup.Reuse
import VectorPaint.Document
import VectorPaint.Curve
import VectorPaint.Canvas.Basic
import VectorPaint.Font
import VectorPaint.Canvas.Raster
import VectorPaint.Canvas.Shape
import VectorPaint.Canvas.Picture
import VectorPaint.Path.Basic
import VectorPaint.Path.Run
import VectorPaint.Scene.Basic
import VectorPaint.Markup.Depth
import VectorPaint.Scene.Ellipse
import VectorPaint.Scene.Element
import VectorPaint.Scene.Reading
import VectorPaint.Rendering
import VectorPaint.Text.Utf8
import VectorPaint.FileName
import VectorPaint.Png
import VectorPaint.Disk
import VectorPaint.Saver
import VectorPaint.Session.Options
import VectorPaint.Session.Run
import VectorPaint.Main
import VectorPaint.Proofs.Acts
import VectorPaint.Proofs.Layer
import VectorPaint.Proofs.Moments
import VectorPaint.Proofs.Coverage
import VectorPaint.Proofs.Nesting
import VectorPaint.Proofs.Dispatch
import VectorPaint.Proofs.Boundaries
import VectorPaint.Proofs.Expansion
import VectorPaint.Proofs.Sequence
import VectorPaint.Proofs.Float.Digits
import VectorPaint.Proofs.Float.Arithmetic
import VectorPaint.Proofs.Float.Order
import VectorPaint.Proofs.Coordinates
import VectorPaint.Proofs.Faults
import VectorPaint.Proofs.Turns
import VectorPaint.Proofs.Arguments
import VectorPaint.Proofs.Conversions
import VectorPaint.Proofs.Savers
import VectorPaint.Proofs.Marks
import VectorPaint.Proofs.Closers
import VectorPaint.Proofs.Cutting
import VectorPaint.Proofs.Bending
import VectorPaint.Proofs.Batches
import VectorPaint.Proofs.Positions
import VectorPaint.Proofs.Discs
import VectorPaint.Proofs.InnerEnds
import VectorPaint.Proofs.Float.Estimates
import VectorPaint.Proofs.RowBounds
import VectorPaint.Proofs.HiddenRows
import VectorPaint.Proofs.Detours
import VectorPaint.Proofs.Spellings
import VectorPaint.Proofs.Gaps
import VectorPaint.Proofs.Continuity
import VectorPaint.Proofs.Precedence
import VectorPaint.Proofs.Colors
import VectorPaint.Proofs.Attributes
import VectorPaint.Proofs.PathTags
import VectorPaint.Proofs.Cutouts
import VectorPaint.Proofs.Float.Decimals
import VectorPaint.Proofs.Literals
import VectorPaint.Proofs.Float.Intervals
import VectorPaint.Proofs.Numerals
import VectorPaint.Proofs.Distances
import VectorPaint.Proofs.Splicing
import VectorPaint.Proofs.Float.Monotone
import VectorPaint.Proofs.Rectangles
import VectorPaint.Proofs.Viewports
import VectorPaint.Proofs.Polylines
import VectorPaint.Proofs.Captions
import VectorPaint.Proofs.Stacking
import VectorPaint.Proofs.Placement
import VectorPaint.Proofs.Fonts
import VectorPaint.Proofs.Halving
