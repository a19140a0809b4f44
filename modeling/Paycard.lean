import Paycard.Batch
import Paycard.Luhn.Bytes
import Paycard.Main
import Paycard.Proofs.Agreement
import Paycard.Proofs.Batch
import Paycard.Proofs.Command.Arguments
import Paycard.Proofs.Command.Consistency
import Paycard.Proofs.Detection.Acceptance
import Paycard.Proofs.Detection.Masking
import Paycard.Proofs.Detection.Overlap
import Paycard.Proofs.Detection.Refusal
import Paycard.Proofs.Detection.Rephrasing
import Paycard.Proofs.Dictionary.Envelope
import Paycard.Proofs.Dictionary.RoundTrip
import Paycard.Proofs.Fetch.Retry
import Paycard.Proofs.Luhn.CheckDigit
import Paycard.Proofs.Luhn.Total
import Paycard.Proofs.Luhn.Transposition
import Paycard.Proofs.Luhn.Typo
import Paycard.Proofs.Number
import Paycard.Proofs.Ordered
import Paycard.Proofs.Rule.Grammar
import Paycard.Proofs.Rule.Matching
import Paycard.Proofs.Rule.Meaning
import Paycard.Proofs.Rule.RoundTrip
import Paycard.Proofs.Rule.Wire
import Paycard.Proofs.Scheme.Wire
import Paycard.Proofs.Service.Concurrent
import Paycard.Proofs.Service.Loading
import Paycard.Proofs.Service.Serving
import Paycard.Proofs.Service.Settings
import Paycard.Proofs.Store.Concurrent
import Paycard.Proofs.Store.Session
import Paycard.Proofs.Text.Numeral
import Paycard.Proofs.Text.Pieces
import Paycard.Scheme.Wire
import Paycard.Service.Concurrent
import Paycard.Service.Handler
import Paycard.Service.Startup
import Paycard.Store.Session
