import JsonAudit.Conversion.Types
import JsonAudit.Session.Iterate
import JsonAudit.Proofs.Path.Indices
import JsonAudit.Proofs.Path.Navigation
import JsonAudit.Json.Part
import JsonAudit.Proofs.Path.Keys
import JsonAudit.Session.Script
import JsonAudit.Proofs.Json.Reading
import JsonAudit.Proofs.Session.Histories
import JsonAudit.Proofs.Session.Context
import JsonAudit.Proofs.Session.Results
import JsonAudit.Proofs.Session.Phases
import JsonAudit.Proofs.Session.Correspondence
import JsonAudit.Proofs.Session.Resets
import JsonAudit.Proofs.Path.Retracing
import JsonAudit.Proofs.Session.Presentation
import JsonAudit.Proofs.Path.Resplitting
import JsonAudit.Proofs.Path.Printing
import JsonAudit.Proofs.Path.BareLiterals
import JsonAudit.Proofs.Path.Positions
import JsonAudit.Proofs.Session.Captures
import JsonAudit.Proofs.Json.Reordering
import JsonAudit.Proofs.Path.Candidates
import JsonAudit.Proofs.Path.MemberOrder
import JsonAudit.Proofs.Session.Failures
import JsonAudit.Proofs.Session.Replay
import JsonAudit.Proofs.Session.Iterations
import JsonAudit.Proofs.Session.Lookups
import JsonAudit.Proofs.Session.Comparisons
import JsonAudit.Proofs.Path.Shortening
import JsonAudit.Proofs.Session.ResetEvents
import JsonAudit.Proofs.Path.Notes
import JsonAudit.Proofs.Path.WellFormed
import JsonAudit.Proofs.Path.Bounds
import JsonAudit.Proofs.Path.Rescanning
import JsonAudit.Proofs.Path.Offsets
