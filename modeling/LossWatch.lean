import LossWatch.Feedback
import LossWatch.Main
import LossWatch.Proofs.Estimator.LossReports
import LossWatch.Proofs.Monitor.Mirror
import LossWatch.Proofs.TimerQueue.Refinement
import LossWatch.Replay
import LossWatch.Report.Text
import LossWatch.Scenario.Toml
import LossWatch.Time.Cadence
import LossWatch.Toml.Document
import LossWatch.Trace
import LossWatch.Proofs.Estimator.Exchanges
import LossWatch.Proofs.Estimator.Recall
import LossWatch.Proofs.Feedback.Listing
import LossWatch.Proofs.Feedback.Reconciliation
import LossWatch.Proofs.SinglePath.Completeness
import LossWatch.Proofs.SinglePath.Stall
import LossWatch.Proofs.CrossPath.Coverage
import LossWatch.Proofs.Monitor.Polling
import LossWatch.Proofs.CrossPath.Phases
import LossWatch.Proofs.Estimator.SinceReset
import LossWatch.Proofs.CrossPath.History
import LossWatch.Proofs.CrossPath.PhaseData
import LossWatch.Proofs.CrossPath.Expiry
import LossWatch.Proofs.CrossPath.Reports
import LossWatch.Proofs.CrossPath.FlowGaps
import LossWatch.Proofs.CrossPath.HandOver
import LossWatch.Proofs.LossLedger.FullHistory
import LossWatch.Proofs.Feedback.Balance
import LossWatch.Proofs.Monitor.Restart
import LossWatch.Proofs.Feedback.Tallies
import LossWatch.Proofs.Monitor.Chronology
import LossWatch.Proofs.Replay.Balance
import LossWatch.Proofs.Replay.Order
import LossWatch.Proofs.SinglePath.PhaseData
import LossWatch.Proofs.Estimator.Stalls
import LossWatch.Proofs.Feedback.Repairs
import LossWatch.Proofs.LossLedger.Accounts
import LossWatch.Proofs.Estimator.Redelivery
import LossWatch.Proofs.TimerQueue.Handles
import LossWatch.Proofs.Feedback.RepeatedRequests
import LossWatch.Proofs.SinglePath.GapFill
import LossWatch.Proofs.Flow.Arrivals
import LossWatch.Proofs.CrossPath.FlowOrder
import LossWatch.Proofs.Predictor.Memory
import LossWatch.Proofs.SequenceNumber.Counters
import LossWatch.Proofs.TimerQueue.Representation
