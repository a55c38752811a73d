import MachinePanel.Machine.Record
import MachinePanel.Scenario.Run
import MachinePanel.Scenario.Timing
import MachinePanel.Proofs.JsonText
import MachinePanel.Proofs.Records
import MachinePanel.Proofs.Operation
import MachinePanel.Proofs.History
import MachinePanel.Proofs.Emission
import MachinePanel.Proofs.Ledger
import MachinePanel.Proofs.Updates
import MachinePanel.Proofs.Homing
import MachinePanel.Proofs.Mirror
import MachinePanel.Proofs.EventOrder
import MachinePanel.Proofs.Exactness
import MachinePanel.Proofs.Passes
import MachinePanel.Proofs.Alarms
import MachinePanel.Proofs.Program
import MachinePanel.Proofs.StoreFacts
import MachinePanel.Proofs.Traversal
import MachinePanel.Proofs.Outcome
import MachinePanel.Proofs.Rounds
import MachinePanel.Proofs.Intact
import MachinePanel.Proofs.Requests
import MachinePanel.Proofs.Aside
import MachinePanel.Proofs.Books
import MachinePanel.Proofs.Simulation
import MachinePanel.Proofs.Polls
import MachinePanel.Proofs.Protection
import MachinePanel.Proofs.Construction
import MachinePanel.Proofs.WatchClock
import MachinePanel.Proofs.WatchProtocol
import MachinePanel.Proofs.Departures
import MachinePanel.Proofs.Onlookers
import MachinePanel.Proofs.Isolation
import MachinePanel.Proofs.Watching
import MachinePanel.Proofs.Holding
import MachinePanel.Proofs.Visibility
import MachinePanel.Proofs.TypedReads
import MachinePanel.Proofs.RadioButtons
import MachinePanel.Proofs.Preorder
import MachinePanel.Proofs.Growth
import MachinePanel.Proofs.Calls
import MachinePanel.Proofs.Stopwatch
import MachinePanel.Proofs.NumberTexts
import MachinePanel.Proofs.EnableFlag
import MachinePanel.Proofs.Blueprints
import MachinePanel.Proofs.GeneratedNames
import MachinePanel.Proofs.Displays
import MachinePanel.Proofs.ExactValues
import MachinePanel.Proofs.Ranges
import MachinePanel.Proofs.Dials
import MachinePanel.Proofs.Rounding
import MachinePanel.Proofs.Arithmetic
import MachinePanel.Proofs.WholeNumbers
import MachinePanel.Proofs.CanonicalFormats
import MachinePanel.Proofs.Interlock
import MachinePanel.Proofs.StaleChoices
import MachinePanel.Proofs.PinNames
import MachinePanel.Proofs.Subscriptions
import MachinePanel.Proofs.Followers
import MachinePanel.Proofs.Images
import MachinePanel.Proofs.Gauges
import MachinePanel.Proofs.AxisSets
