import OfferAllocation.Config.Text
import OfferAllocation.Session
import OfferAllocation.SharedStore
import OfferAllocation.Proofs.Pool
import OfferAllocation.Proofs.FirstFit
import OfferAllocation.Proofs.Withdrawals
import OfferAllocation.Proofs.History
import OfferAllocation.Proofs.Life
import OfferAllocation.Proofs.Accounting
import OfferAllocation.Proofs.Retention
import OfferAllocation.Proofs.Registry
import OfferAllocation.Proofs.Session
import OfferAllocation.Proofs.Log
import OfferAllocation.Proofs.Rounding
import OfferAllocation.Proofs.Double
import OfferAllocation.Proofs.Amount
import OfferAllocation.Proofs.Refusal
import OfferAllocation.Proofs.LetterCase
import OfferAllocation.Proofs.Reordering
import OfferAllocation.Proofs.SharedStore
import OfferAllocation.Proofs.Threads
import OfferAllocation.Proofs.Validation
import OfferAllocation.Proofs.Consumption
import OfferAllocation.Proofs.Records
import OfferAllocation.Proofs.RoundTrip
import OfferAllocation.Proofs.Admission
import OfferAllocation.Proofs.Pieces
import OfferAllocation.Proofs.Words
import OfferAllocation.Proofs.Growth
import OfferAllocation.Proofs.Likeness
import OfferAllocation.Proofs.Lines
import OfferAllocation.Proofs.Attributes
import OfferAllocation.Proofs.Positions
import OfferAllocation.Proofs.Settings
