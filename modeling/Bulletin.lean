import Bulletin.Bytes
import Bulletin.Clock
import Bulletin.Demo
import Bulletin.Digest.Blake3
import Bulletin.Error
import Bulletin.Format
import Bulletin.Freshness
import Bulletin.Hub
import Bulletin.Json.Record
import Bulletin.Json.Shape
import Bulletin.Json.Token
import Bulletin.Json.Value
import Bulletin.Main
import Bulletin.Name.Basic
import Bulletin.Name.Stamp
import Bulletin.Name.Uri
import Bulletin.Name.Wire
import Bulletin.Note
import Bulletin.Pair
import Bulletin.Policy
import Bulletin.Proofs.Deadlines
import Bulletin.Proofs.Effects
import Bulletin.Proofs.Invariant
import Bulletin.Proofs.Receipt.Events
import Bulletin.Proofs.Receipt.Fate
import Bulletin.Proofs.Run
import Bulletin.Publication.Basic
import Bulletin.Publication.Id
import Bulletin.Publication.Series
import Bulletin.Reconcile
import Bulletin.Session.Answer
import Bulletin.Session.Basic
import Bulletin.Session.Config
import Bulletin.Session.Publish
import Bulletin.Session.Receive
import Bulletin.Session.Subscription
import Bulletin.Session.Table
import Bulletin.Session.Timers
import Bulletin.Summary
import Bulletin.Text.Hidden
import Bulletin.Text.Lossy
import Bulletin.Text.Quoted
import Bulletin.Time.Duration
import Bulletin.Time.Timestamp
import Bulletin.Wire.Element
import Bulletin.Wire.Number
import Bulletin.Proofs.Delivery
import Bulletin.Proofs.Replay
import Bulletin.Proofs.Exchange.Transfer
import Bulletin.Proofs.Exchange.Convergence
import Bulletin.Proofs.Validity
import Bulletin.Proofs.Merging
import Bulletin.Proofs.Paging
import Bulletin.Proofs.Storing
import Bulletin.Proofs.LifeCycle
import Bulletin.Proofs.Agreement
import Bulletin.Proofs.Accounts
import Bulletin.Proofs.Staleness
import Bulletin.Proofs.Wire.Framing
import Bulletin.Proofs.Wire.RoundTrip
import Bulletin.Proofs.Wire.Identity
import Bulletin.Proofs.Wire.Order
import Bulletin.Proofs.Wire.Numeral
import Bulletin.Proofs.Wire.Grammar
import Bulletin.Proofs.Uri.Escaping
import Bulletin.Proofs.Uri.RoundTrip
import Bulletin.Proofs.Uri.Grammar
import Bulletin.Proofs.Roster
import Bulletin.Proofs.Network.Schedule
import Bulletin.Proofs.Network.Provenance
import Bulletin.Proofs.Answer.Reordering
import Bulletin.Proofs.Answer.Receipts
import Bulletin.Proofs.Answer.Reply
import Bulletin.Proofs.Answer.Repetition
import Bulletin.Proofs.Closing
import Bulletin.Proofs.Intake
import Bulletin.Proofs.Json.Lexing
import Bulletin.Proofs.Json.Reading
import Bulletin.Proofs.Wire.Integer
import Bulletin.Proofs.Json.RoundTrip
