import DeadlineQueue.Builder.Trial
import DeadlineQueue.Lane.Lemmas
import DeadlineQueue.Limits.Json
import DeadlineQueue.Outcome.Json
import DeadlineQueue.Proofs.Accounting
import DeadlineQueue.Proofs.Binding
import DeadlineQueue.Proofs.Callers
import DeadlineQueue.Proofs.Cancelling
import DeadlineQueue.Proofs.Deferral
import DeadlineQueue.Proofs.Delivery
import DeadlineQueue.Proofs.Dropping
import DeadlineQueue.Proofs.Dues
import DeadlineQueue.Proofs.Endings
import DeadlineQueue.Proofs.Errands.Theorems
import DeadlineQueue.Proofs.Fates
import DeadlineQueue.Proofs.History
import DeadlineQueue.Proofs.Journal.Agreement
import DeadlineQueue.Proofs.Journal.Life
import DeadlineQueue.Proofs.Json.Parts
import DeadlineQueue.Proofs.Lane.Chronicle
import DeadlineQueue.Proofs.Lane.Order
import DeadlineQueue.Proofs.Limits.Layouts
import DeadlineQueue.Proofs.Limits.Reload
import DeadlineQueue.Proofs.Losses
import DeadlineQueue.Proofs.Naive.Refinement
import DeadlineQueue.Proofs.Ordered
import DeadlineQueue.Proofs.Pacing
import DeadlineQueue.Proofs.Plans
import DeadlineQueue.Proofs.Progress
import DeadlineQueue.Proofs.Provenance
import DeadlineQueue.Proofs.Readings
import DeadlineQueue.Proofs.Routine
import DeadlineQueue.Proofs.Schedule.Theorems
import DeadlineQueue.Proofs.Seconds
import DeadlineQueue.Proofs.Session.Extra
import DeadlineQueue.Proofs.Settlement
import DeadlineQueue.Proofs.Shutdown
import DeadlineQueue.Proofs.Simulation.Calls
import DeadlineQueue.Proofs.Simulation.Course
import DeadlineQueue.Proofs.Simulation.Outlook
import DeadlineQueue.Proofs.Simulation.Outstanding
import DeadlineQueue.Proofs.Simulation.Passage
import DeadlineQueue.Proofs.Simulation.Play
import DeadlineQueue.Proofs.Simulation.Turns
import DeadlineQueue.Proofs.Sound
import DeadlineQueue.Proofs.Spans
import DeadlineQueue.Proofs.Stack
import DeadlineQueue.Proofs.Survival
import DeadlineQueue.Proofs.Termination
import DeadlineQueue.Proofs.Tick.Dispatch
import DeadlineQueue.Proofs.Tick.Repetition
import DeadlineQueue.Proofs.Tick.Starts
import DeadlineQueue.Proofs.Tick.Timeouts
import DeadlineQueue.Proofs.Tick.Upcoming
import DeadlineQueue.Proofs.Tokens
import DeadlineQueue.Proofs.Tracking
import DeadlineQueue.Proofs.Transition
import DeadlineQueue.Proofs.Translation
import DeadlineQueue.Proofs.Verdicts
import DeadlineQueue.Queue.Lemmas
import DeadlineQueue.Seconds
import DeadlineQueue.Simulation.Plan
import DeadlineQueue.Text.Description
import DeadlineQueue.Uuid.Reader
