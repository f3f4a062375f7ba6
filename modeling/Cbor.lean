import Cbor.Command.World
import Cbor.Json.Reading
import Cbor.Diagnostic.Place
import Cbor.Main
import Cbor.Proofs.Accounting
import Cbor.Proofs.Agreement
import Cbor.Proofs.Composing
import Cbor.Proofs.Containment
import Cbor.Proofs.Display
import Cbor.Proofs.Grammar
import Cbor.Proofs.RoundTrip
import Cbor.Proofs.Scripts
import Cbor.Proofs.Sequences
import Cbor.Proofs.StickyFailure
import Cbor.Script
import Cbor.Writer.Writable
import Cbor.Encoding.Contents
import Cbor.Walk.Forest
import Cbor.Proofs.Canonical
import Cbor.Text.Apart
import Cbor.Encoding.Apart
import Cbor.Proofs.Unambiguous
import Cbor.Diagnostic.Cut
import Cbor.Proofs.Truncation
import Cbor.Cursor.Basic
import Cbor.Cursor.Follows
import Cbor.Reader.Outcome
import Cbor.Proofs.Consumption
import Cbor.Writer.Heads
import Cbor.Proofs.Heads
import Cbor.Command.Frame
import Cbor.Proofs.Commands
import Cbor.Reader.Passage
import Cbor.Cursor.Trace
import Cbor.Proofs.Locality
import Cbor.Writer.Puts
import Cbor.Writer.Levels
import Cbor.Proofs.Interchange
import Cbor.Reader.Written
import Cbor.Proofs.Embedding
import Cbor.Typed
import Cbor.Proofs.TypedValues
import Cbor.Writer.Slots
import Cbor.Proofs.OpenContainers
import Cbor.Reader.Advance
import Cbor.Tour
import Cbor.Walk.Tour
import Cbor.Diagnostic.Tour
import Cbor.Proofs.Visits
