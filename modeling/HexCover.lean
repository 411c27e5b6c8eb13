import HexCover.FixedPoint
import HexCover.Grid.Toy
import HexCover.H3.Grid
import HexCover.H3.Indexer
import HexCover.H3.Requests
import HexCover.Json.Forms
import HexCover.Proofs.Binary.Conversion
import HexCover.Proofs.Binary.Patterns
import HexCover.Proofs.Binary.Rounding
import HexCover.Proofs.Binary.Units
import HexCover.Proofs.Binary.Value
import HexCover.Proofs.Bounds
import HexCover.Proofs.Coefficients
import HexCover.Proofs.H3.Ancestry
import HexCover.Proofs.H3.Climb
import HexCover.Proofs.H3.Compaction
import HexCover.Proofs.H3.Cover
import HexCover.Proofs.H3.Expansion
import HexCover.Proofs.H3.Generation
import HexCover.Proofs.H3.Layers
import HexCover.Proofs.H3.Levels
import HexCover.Proofs.H3.Levelwise
import HexCover.Proofs.H3.Members
import HexCover.Proofs.H3.Merging
import HexCover.Proofs.H3.Packing
import HexCover.Proofs.H3.Requests
import HexCover.Proofs.Inversion
import HexCover.Proofs.Lists
import HexCover.Proofs.Pool
import HexCover.Proofs.Raster.Bands
import HexCover.Proofs.Raster.Buffer
import HexCover.Proofs.Raster.Choice
import HexCover.Proofs.Raster.Compaction
import HexCover.Proofs.Raster.Groups
import HexCover.Proofs.Raster.Keys
import HexCover.Proofs.Raster.Merging
import HexCover.Proofs.Raster.Nodata
import HexCover.Proofs.Raster.Order
import HexCover.Proofs.Raster.Representable
import HexCover.Proofs.Raster.Rows
import HexCover.Proofs.Raster.Scan
import HexCover.Proofs.Raster.Tolerance
import HexCover.Proofs.Sphere.Area
import HexCover.Proofs.Vector.Batch
import HexCover.Proofs.Vector.Compaction
import HexCover.Proofs.Vector.Convert
import HexCover.Proofs.Vector.Join
import HexCover.Proofs.Vector.Partition
import HexCover.Proofs.Vector.Stream.Open
import HexCover.Proofs.Vector.Stream.Progress
import HexCover.Proofs.Vector.Stream.Run
import HexCover.Proofs.Vector.Stream.Step
import HexCover.Proofs.Vector.Table
import HexCover.Proofs.Vector.Union
import HexCover.Proofs.Wkb.Buffers
import HexCover.Proofs.Wkb.Decode
import HexCover.Proofs.Wkb.Frame
import HexCover.Proofs.Wkb.Grammar
import HexCover.Proofs.Wkb.Layout
import HexCover.Proofs.Wkb.Members
import HexCover.Proofs.Wkb.NormalForm
import HexCover.Proofs.Wkb.Prefixes
import HexCover.Proofs.Wkb.Shape
import HexCover.Proofs.Wkb.Steps
import HexCover.Proofs.Wkb.Tape
import HexCover.Proofs.Wkb.Walk
import HexCover.Raster.Convert
import HexCover.Sample
import HexCover.Vector.Stream
import HexCover.Vector.Toy
