import Engagement.Json.Reader
import Engagement.Json.Writer
import Engagement.Time.Text
import Engagement.Condition.Evaluation
import Engagement.Campaign.Codec
import Engagement.Digest
import Engagement.Step
import Engagement.Conversion
import Engagement.Analytics
import Engagement.Journey.Id
import Engagement.Completion
import Engagement.Store.Basic
import Engagement.Engine.Session
import Engagement.Host.Codec
import Engagement.Settings.Loader
import Engagement.CommandLine.Outcome
import Engagement.Main
import Engagement.Proofs.Engine.Admission
import Engagement.Proofs.Engine.Arrivals
import Engagement.Proofs.Engine.Attention
import Engagement.Proofs.Engine.Calm
import Engagement.Proofs.Engine.Change
import Engagement.Proofs.Engine.Conversions
import Engagement.Proofs.Engine.Deadlines
import Engagement.Proofs.Engine.Deeds
import Engagement.Proofs.Engine.Dismissals
import Engagement.Proofs.Engine.Driving
import Engagement.Proofs.Engine.Flights
import Engagement.Proofs.Engine.Gate
import Engagement.Proofs.Engine.Handling
import Engagement.Proofs.Engine.Identity
import Engagement.Proofs.Engine.Intact
import Engagement.Proofs.Engine.Presentations
import Engagement.Proofs.Engine.Wakes
import Engagement.Proofs.Journey.Transitions
import Engagement.Proofs.Session.ComingUp
import Engagement.Proofs.Session.Conservation
import Engagement.Proofs.Session.Conversions
import Engagement.Proofs.Session.Courses
import Engagement.Proofs.Session.Deadlines
import Engagement.Proofs.Session.Dismissals
import Engagement.Proofs.Session.Durability
import Engagement.Proofs.Session.Entries
import Engagement.Proofs.Session.Evolution
import Engagement.Proofs.Session.Moves
import Engagement.Proofs.Session.Presentations
import Engagement.Proofs.Session.Progress
import Engagement.Proofs.Session.Reentry
import Engagement.Proofs.Session.Restarts
import Engagement.Proofs.Session.Restoration
import Engagement.Proofs.Session.Stalls
import Engagement.Proofs.Session.Steps
import Engagement.Proofs.Session.Wakes
import Engagement.Proofs.Store.Balance
import Engagement.Proofs.Store.Consistency
import Engagement.Proofs.Store.Recovery
import Engagement.Proofs.Store.Retention
import Engagement.Proofs.Store.Tally
import Engagement.Proofs.Store.Writes
import Engagement.Proofs.Time.Spans
import Engagement.Proofs.Engine.Bookkeeping
import Engagement.Proofs.Campaign.Graphs
import Engagement.Proofs.Session.Findings
import Engagement.Proofs.Campaign.Wording
import Engagement.Proofs.Engine.Places
import Engagement.Proofs.Session.Places
import Engagement.Proofs.Engine.GoalReports
import Engagement.Proofs.Session.GoalReports
import Engagement.Proofs.Engine.Checks
import Engagement.Proofs.Session.Checks
import Engagement.Proofs.Engine.StepLimit
import Engagement.Proofs.Session.StepLimit
import Engagement.Proofs.Engine.GoalChecks
import Engagement.Proofs.Session.ConversionTimes
import Engagement.Proofs.Session.Withdrawals
import Engagement.Proofs.Engine.Sight
import Engagement.Proofs.Session.StartUp
import Engagement.Proofs.Condition.ShortCircuit
import Engagement.Proofs.Host.Failures
import Engagement.Proofs.Engine.Work
import Engagement.Proofs.Session.Screen
import Engagement.Proofs.Engine.Rechecks
import Engagement.Proofs.Session.Jobs
import Engagement.Proofs.Session.Occurrences
import Engagement.Proofs.Session.EarliestConversions
import Engagement.Proofs.Condition.Validity
import Engagement.Proofs.Campaign.Conditions
import Engagement.Proofs.Engine.Conditions
import Engagement.Proofs.Session.Conditions
import Engagement.Proofs.Journey.Trails
import Engagement.Proofs.Engine.Trails
import Engagement.Proofs.Session.Trails
import Engagement.Proofs.Store.Documents
import Engagement.Proofs.Store.Interchange
import Engagement.Proofs.Json.Records
import Engagement.Proofs.Condition.RoundTrip
import Engagement.Proofs.Campaign.RoundTrip
import Engagement.Proofs.Journey.RoundTrip
import Engagement.Proofs.Store.RoundTrip
import Engagement.Proofs.Journey.Waits
import Engagement.Proofs.Journey.RandomBranches
import Engagement.Proofs.Store.Seeds
import Engagement.Proofs.Session.Seeds
import Engagement.Proofs.Engine.Timelines
import Engagement.Proofs.Session.Replays
import Engagement.Proofs.Journey.Records
import Engagement.Proofs.Condition.Comparisons
import Engagement.Proofs.Host.Windows
import Engagement.Proofs.Store.Refusals
import Engagement.Proofs.Engine.LongerSpans
import Engagement.Proofs.Session.Isolation
