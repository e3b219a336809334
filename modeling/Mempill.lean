import Mempill.Types
import Mempill.Lib.HalfOpen
import Mempill.Lib.LockedTasks
import Mempill.Lib.Timeline
import Mempill.Lib.StampedLog
import Mempill.Lib.RowTable
import Mempill.Lib.Pages
import Mempill.Lib.FirstOccurrence
import Mempill.Lib.Walks
import Mempill.Lib.DigitText
import Mempill.Lib.Calendar
import Mempill.Lib.Timestamp
import Mempill.Lib.DateText
import Mempill.Lib.Transition
import Mempill.Lib.Unwinding
import Mempill.ValidTimeHelpers
import Mempill.TruthEngine
import Mempill.Ledger
import Mempill.Gate
import Mempill.Persistence
import Mempill.IngestClaim
import Mempill.AssertValidity
import Mempill.SubmitAdjudication
import Mempill.Sweep
import Mempill.Reconcile
import Mempill.QueryMemory
import Mempill.QueryHistory
import Mempill.Queries
import Mempill.Engine
import Mempill.EndFact
import Mempill.ActiveBound
import Mempill.Rows
import Mempill.SuccessionSelect
import Mempill.ArrivalOrder
import Mempill.TimelineWindows
import Mempill.TimelineRecall
import Mempill.ValidAtPass
import Mempill.ConflictFlag
import Mempill.LatestDisposition
import Mempill.AuditPages
import Mempill.Lineage
import Mempill.FixedHistory
import Mempill.Steps
import Mempill.Invariants
import Mempill.HistoryAgreement
import Mempill.HonestWindows
import Mempill.PointInTime
import Mempill.RowEffects
import Mempill.CheapPath
import Mempill.WriteGate
import Mempill.QueueRows
import Mempill.NamedIncumbent
import Mempill.ClaimLog
import Mempill.ConflictSurfacing
import Mempill.SingleBound
import Mempill.BoundEffect
import Mempill.BoundRounds
import Mempill.PendingRows
import Mempill.AffirmSettles
import Mempill.CleanSuccession
import Mempill.Answers
import Mempill.ContestedRivals
import Mempill.ModelOutput
import Mempill.SetValuedLine
import Mempill.ReconcilePass
import Mempill.Verdicts
import Mempill.WrittenClaims
import Mempill.DeniedClaims
import Mempill.HandleCalls
import Mempill.HandleOnce
import Mempill.HandleRuns
import Mempill.QueueCorrespondence
import Mempill.SweepDrains
import Mempill.ReconcileStable
import Mempill.SettledLines
import Mempill.LivenessAgreement
import Mempill.RecallReentry
import Mempill.AnsweredHistory
import Mempill.EndedFact
import Mempill.PortReads
import Mempill.OverlappingQuery
import Mempill.WritePhases
import Mempill.FailedWrites
import Mempill.Supersession
import Mempill.SqliteRows
import Mempill.PlannedWrites
import Mempill.RowRoundTrip
import Mempill.ConcurrentHandles
import Mempill.RacingCalls
import Mempill.QuarantineParking
import Mempill.CallDiscipline
import Mempill.CascadeMarker
import Mempill.LostReads
import Mempill.SqliteConnection
import Mempill.SharedStore
import Mempill.TimestampOrder
import Mempill.AdjudicationDeadline
import Mempill.LenientDates
import Mempill.AgentView
import Mempill.AgentIsolation
import Mempill.AgentPlans
import Mempill.Lib.Ddl
import Mempill.Lib.Transactions
import Mempill.Migrations
import Mempill.AgentFiles
import Mempill.LedgerSequence
import Mempill.Ergonomic
import Mempill.ShownFacts
import Mempill.CallNotes
import Mempill.ToldFacts
