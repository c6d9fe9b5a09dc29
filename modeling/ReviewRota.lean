import ReviewRota.Json.Writer
import ReviewRota.Logging
import ReviewRota.Session.Turn
import ReviewRota.Proofs.Contents
import ReviewRota.Proofs.Integrity
import ReviewRota.Proofs.Selection
import ReviewRota.Proofs.Programs
import ReviewRota.Proofs.Outcome
import ReviewRota.Proofs.Steps
import ReviewRota.Proofs.Calls
import ReviewRota.Proofs.History
import ReviewRota.Proofs.Changes
import ReviewRota.Proofs.ReviewerCount
import ReviewRota.Proofs.JoinedFailure
import ReviewRota.Proofs.Lifecycle
import ReviewRota.Proofs.Serializability
import ReviewRota.Proofs.Nesting
import ReviewRota.Proofs.Backends
import ReviewRota.Proofs.RowLocks
import ReviewRota.Proofs.Atomicity
import ReviewRota.Proofs.Service
import ReviewRota.Proofs.HistoryIndependence
import ReviewRota.Proofs.Commuting
import ReviewRota.Proofs.Reassignment
import ReviewRota.Proofs.Creation
import ReviewRota.Proofs.Confidential
import ReviewRota.Proofs.Guards
import ReviewRota.Proofs.Uniformity
import ReviewRota.Proofs.Worklists
import ReviewRota.Proofs.Rosters
import ReviewRota.Proofs.Additions
import ReviewRota.Proofs.Filters
import ReviewRota.Proofs.Fetching
import ReviewRota.Proofs.InPlace
import ReviewRota.Proofs.WrittenRecords
import ReviewRota.Proofs.Addresses
