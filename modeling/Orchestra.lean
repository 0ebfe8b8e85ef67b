import Orchestra.Main
import Orchestra.Scenario.Run
import Orchestra.Proofs.Abandonment
import Orchestra.Proofs.Assembly
import Orchestra.Proofs.Attendance
import Orchestra.Proofs.Binding
import Orchestra.Proofs.Cancelling
import Orchestra.Proofs.Conduct
import Orchestra.Proofs.Deadlock
import Orchestra.Proofs.Departure
import Orchestra.Proofs.Dispatching
import Orchestra.Proofs.Independence
import Orchestra.Proofs.Isolation
import Orchestra.Proofs.LeastOrder
import Orchestra.Proofs.Lockstep
import Orchestra.Proofs.Orderability
import Orchestra.Proofs.Precedence
import Orchestra.Proofs.Recursion
import Orchestra.Proofs.Reentrance
import Orchestra.Proofs.Serving
import Orchestra.Proofs.Shapes
import Orchestra.Proofs.Tidings
import Orchestra.Proofs.Uniqueness
import Orchestra.Proofs.Unorderable
import Orchestra.Proofs.Withdrawal
import Orchestra.Proofs.Workers
import Orchestra.Proofs.Checking
import Orchestra.Proofs.Clock
import Orchestra.Proofs.Timing
import Orchestra.Proofs.Parting
import Orchestra.Proofs.Grace
import Orchestra.Proofs.Asking
import Orchestra.Proofs.Decoding
import Orchestra.Proofs.Forwarding
import Orchestra.Proofs.Sessions
