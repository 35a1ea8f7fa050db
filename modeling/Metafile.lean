import Metafile.Convert
import Metafile.Proofs.Bitmap.PlainRows
import Metafile.Proofs.Bytes.Bulk
import Metafile.Proofs.Decimal.Canonical
import Metafile.Proofs.Geometry.Projection
import Metafile.Proofs.Geometry.Subdivision
import Metafile.Proofs.Geometry.Wrapper
import Metafile.Proofs.Playback.Areas
import Metafile.Proofs.Playback.Balance
import Metafile.Proofs.Playback.ClipLines
import Metafile.Proofs.Playback.Codecs
import Metafile.Proofs.Playback.Encoded
import Metafile.Proofs.Playback.Halted
import Metafile.Proofs.Playback.Held
import Metafile.Proofs.Playback.Indexes
import Metafile.Proofs.Playback.Narrowing
import Metafile.Proofs.Playback.OpenPath
import Metafile.Proofs.Playback.Page
import Metafile.Proofs.Playback.PathPaint
import Metafile.Proofs.Playback.PathValues
import Metafile.Proofs.Playback.Patterns
import Metafile.Proofs.Playback.Position
import Metafile.Proofs.Playback.Qualified
import Metafile.Proofs.Playback.Saves
import Metafile.Proofs.Playback.TextForms
import Metafile.Proofs.Playback.Trail
import Metafile.Proofs.Playback.TypedPoints
import Metafile.Proofs.Playback.Unplayed
import Metafile.Proofs.Playback.Values
import Metafile.Proofs.Playback.Wrapping
import Metafile.Proofs.Plus.Boundaries
import Metafile.Proofs.Plus.Dual
import Metafile.Proofs.Plus.ObjectBytes
import Metafile.Proofs.Plus.PathBytes
import Metafile.Proofs.Plus.PathFigures
import Metafile.Proofs.Plus.SavedStates
import Metafile.Proofs.Plus.Splitting
import Metafile.Proofs.Plus.Worlds
