import IntMachine.Cascade
import IntMachine.Forest.Query
import IntMachine.Main
import IntMachine.Proofs.Refinement
import IntMachine.Proofs.Requests
import IntMachine.Proofs.Suspension
import IntMachine.Proofs.Feedback
import IntMachine.Proofs.Breakpoints
import IntMachine.Proofs.Queries
import IntMachine.Proofs.Grammar
import IntMachine.Proofs.Operations
import IntMachine.Proofs.Stopped
import IntMachine.Proofs.Waiting
import IntMachine.Proofs.Dialogue
import IntMachine.Proofs.Printed
import IntMachine.Proofs.Limits
import IntMachine.Proofs.Modes
import IntMachine.Proofs.Reports
import IntMachine.Proofs.Relay
import IntMachine.Proofs.Cuts
import IntMachine.Proofs.OneShot
import IntMachine.Proofs.Reuse
import IntMachine.Proofs.Rearranged
import IntMachine.Proofs.Delivery
import IntMachine.Proofs.Intake
import IntMachine.Proofs.Showing
import IntMachine.Proofs.Unfed
import IntMachine.Proofs.Rejected
import IntMachine.Proofs.Distance
import IntMachine.Proofs.Accounts
import IntMachine.Proofs.Encoding
import IntMachine.Proofs.LineEnds
import IntMachine.Proofs.Restarts
import IntMachine.Proofs.Listings
import IntMachine.Proofs.Disassembly
