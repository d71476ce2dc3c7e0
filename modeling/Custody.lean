import Custody.Client.Bench
import Custody.Cluster.Session
import Custody.Contention
import Custody.Json.Reader
import Custody.Main
import Custody.Store.Transcript
import Custody.Proofs.Store.Keys
import Custody.Proofs.Store.Visits
import Custody.Proofs.Store.Fates
import Custody.Proofs.Store.Marks
import Custody.Proofs.Store.Separation
import Custody.Proofs.Client.Halves
import Custody.Proofs.Client.Heard
import Custody.Proofs.Cluster.Frame
import Custody.Proofs.Cluster.Inversion
import Custody.Proofs.Cluster.Rules
import Custody.Proofs.Cluster.Load
import Custody.Proofs.Cluster.Settle
import Custody.Proofs.History
import Custody.Proofs.Scene.Basic
import Custody.Proofs.Scene.Simulation
import Custody.Proofs.Coherence.Hand
import Custody.Proofs.Coherence.Routing
import Custody.Proofs.Coherence.Invariant
import Custody.Proofs.Coherence.Exclusive
import Custody.Proofs.Coherence.Fresh
import Custody.Proofs.Coherence.Lossless
import Custody.Proofs.Coherence.Quiescent
import Custody.Proofs.Calls.Docket
import Custody.Proofs.Calls.Inquiry
import Custody.Proofs.Calls.Accounts
import Custody.Proofs.Calls.Booking
import Custody.Proofs.Calls.Truth
import Custody.Proofs.Calls.Stock
import Custody.Proofs.Calls.Kept
import Custody.Proofs.Calls.Moves
import Custody.Proofs.Calls.Acts
import Custody.Proofs.Calls.Endings
import Custody.Proofs.Stop.Desertion
import Custody.Proofs.Contention.Moves
import Custody.Proofs.Contention.Tally
import Custody.Proofs.Contention.Standing
import Custody.Proofs.Contention.Invariant
import Custody.Proofs.Contention.Serving
import Custody.Proofs.Contention.Working
import Custody.Proofs.Contention.Outcome
import Custody.Proofs.Calls.Onward
import Custody.Proofs.Stop.Record
import Custody.Proofs.Stop.Outcome
import Custody.Proofs.Session.Reports
import Custody.Proofs.Session.Ledger
import Custody.Proofs.Session.Account
import Custody.Proofs.Order.Fares
import Custody.Proofs.Order.Issued
import Custody.Proofs.Order.Lane
import Custody.Proofs.Order.Errand
import Custody.Proofs.Order.Refit
import Custody.Proofs.Order.Depth
import Custody.Proofs.Order.Told
import Custody.Proofs.Stop.Lifetimes
import Custody.Proofs.Store.Renaming
import Custody.Proofs.Client.Register
import Custody.Proofs.Alone.Apart
import Custody.Proofs.Alone.Mirror
import Custody.Proofs.Alone.Undisturbed
import Custody.Proofs.Alone.Sole
import Custody.Proofs.Session.Calm
import Custody.Proofs.Session.Counter
import Custody.Proofs.Session.Roll
import Custody.Proofs.Session.Beside
import Custody.Proofs.Session.Agreement
import Custody.Proofs.Store.Single
import Custody.Proofs.Walkthrough.Moves
import Custody.Proofs.Walkthrough.Table
import Custody.Proofs.Walkthrough.Hand
import Custody.Proofs.Walkthrough.Trip
import Custody.Proofs.Walkthrough.Stages
import Custody.Proofs.Walkthrough.Closing
import Custody.Proofs.Walkthrough.Course
import Custody.Proofs.Walkthrough.Progress
import Custody.Proofs.Walkthrough.Outcome
import Custody.Proofs.Json.Scan
import Custody.Proofs.Json.RoundTrip
import Custody.Proofs.Json.Forms
import Custody.Proofs.Store.Canonical
import Custody.Proofs.Store.Departures
import Custody.Proofs.Store.Vanished
import Custody.Proofs.Client.Replies
import Custody.Proofs.Away.Abandon
import Custody.Proofs.Away.Steps
import Custody.Proofs.Away.Lockstep
import Custody.Proofs.Away.Bystanders
import Custody.Proofs.Held.Prospects
import Custody.Proofs.Held.Voided
import Custody.Proofs.Held.Looks
import Custody.Proofs.Text.Quoted
import Custody.Proofs.Trace.Lines
import Custody.Proofs.CommandLine.Spelling
import Custody.Proofs.CommandLine.Pieces
import Custody.Proofs.CommandLine.Layout
import Custody.Proofs.CommandLine.RoundTrip
import Custody.Proofs.CommandLine.Refusals
import Custody.Proofs.Walkthrough.Swift
import Custody.Proofs.Output
import Custody.Proofs.Parking.Keeping
import Custody.Proofs.Parking.Sights
import Custody.Proofs.Parking.Arrivals
import Custody.Proofs.Parking.Looks
import Custody.Proofs.Parking.Vigil
import Custody.Proofs.Parking.Standing
import Custody.Proofs.Parking.Outcome
import Custody.Proofs.Parking.Metered
import Custody.Proofs.Walkthrough.Lookout
