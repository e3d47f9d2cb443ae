import Pluck.Main
import Pluck.Proofs.Query.Collecting
import Pluck.Proofs.Query.Composing
import Pluck.Proofs.Query.FirstMisfit
import Pluck.Proofs.Query.Locality
import Pluck.Proofs.Query.Pieces
import Pluck.Proofs.Query.Reordering
import Pluck.Proofs.Query.RoundTrip
import Pluck.Proofs.Request.Piping
import Pluck.Proofs.Selection.Logging
import Pluck.Proofs.Escape.OnePass
import Pluck.Proofs.Binary64.Nearest
import Pluck.Proofs.Document.Numbers
import Pluck.Proofs.Json.Returning
import Pluck.Proofs.Request.Echoing
import Pluck.Proofs.Lexicon.Anchoring
import Pluck.Proofs.Selection.Arranging
