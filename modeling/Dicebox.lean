import Dicebox.Main
import Dicebox.Proofs.Lexing
import Dicebox.Proofs.Reading
import Dicebox.Proofs.WellFormed
import Dicebox.Proofs.RoundTrip
import Dicebox.Proofs.Drawing
import Dicebox.Proofs.OwnDice
import Dicebox.Proofs.Replaying
import Dicebox.Proofs.Accounts
import Dicebox.Proofs.WithinLimits
import Dicebox.Proofs.ConstantSum
import Dicebox.Proofs.Joining
import Dicebox.Proofs.Stages
import Dicebox.Proofs.Ranking
import Dicebox.Proofs.KeptCount
import Dicebox.Proofs.Spelling
import Dicebox.Proofs.Reordering
import Dicebox.Proofs.FirstFlaw
import Dicebox.Proofs.Courses
import Dicebox.Proofs.TokenPlaces
import Dicebox.Proofs.Objections
import Dicebox.Proofs.Rejections
import Dicebox.Proofs.JsonText
import Dicebox.Proofs.Storing
import Dicebox.Proofs.Windows
import Dicebox.Proofs.DropOrder
import Dicebox.Proofs.Supply
import Dicebox.Proofs.Cascades
import Dicebox.Proofs.GroupBounds
import Dicebox.Proofs.Safety
import Dicebox.Proofs.Evidence
import Dicebox.Proofs.Particulars
import Dicebox.Proofs.LongestMatch
import Dicebox.Proofs.RecordedTotal
import Dicebox.Proofs.Respelling
import Dicebox.Proofs.TokenSpans
import Dicebox.Proofs.FairDice
import Dicebox.Proofs.ChatLines
import Dicebox.Proofs.Lookahead
import Dicebox.Proofs.Sessions
