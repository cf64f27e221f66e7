import DronePilot.Chat.Launch
import DronePilot.Chat.Stamp
import DronePilot.Detector.Exchange
import DronePilot.Document.Reader
import DronePilot.Document.Writer
import DronePilot.Interface
import DronePilot.Main
import DronePilot.Plan.Executor
import DronePilot.Proofs.Delivery
import DronePilot.Proofs.Grammar
import DronePilot.Proofs.Return
import DronePilot.Robot.Fleet
import DronePilot.Service.Detection
import DronePilot.Service.Router
import DronePilot.Skill.Workshop
import DronePilot.Vision.Sight
import DronePilot.Proofs.Meaning
import DronePilot.Proofs.Structured
import DronePilot.Proofs.Chunking
import DronePilot.Proofs.Agreement
import DronePilot.Proofs.Heeding
import DronePilot.Proofs.Plainness
import DronePilot.Proofs.Replanning
import DronePilot.Proofs.Bookkeeping
import DronePilot.Proofs.Leaves
import DronePilot.Proofs.Conduct
import DronePilot.Proofs.Waiting
import DronePilot.Proofs.Execution
import DronePilot.Proofs.Messages
import DronePilot.Proofs.Mission
import DronePilot.Proofs.FirstCall
import DronePilot.Proofs.CallText
import DronePilot.Proofs.Quotation
import DronePilot.Proofs.Custody
import DronePilot.Proofs.Traffic
import DronePilot.Proofs.Conservation
import DronePilot.Proofs.Tenure
import DronePilot.Proofs.Sharing
import DronePilot.Proofs.Pairing
import DronePilot.Proofs.Backlog
import DronePilot.Proofs.Standstill
import DronePilot.Proofs.Stock
import DronePilot.Proofs.Expansion
import DronePilot.Proofs.Recursion
import DronePilot.Proofs.Isolation
import DronePilot.Proofs.Giving
import DronePilot.Proofs.Clients
import DronePilot.Proofs.Padding
import DronePilot.Proofs.Spacing
import DronePilot.Proofs.Insensitivity
import DronePilot.Proofs.Completion
import DronePilot.Proofs.Compound
import DronePilot.Proofs.Binding
import DronePilot.Proofs.Reckoning
import DronePilot.Proofs.Vacating
import DronePilot.Proofs.Maneuver
import DronePilot.Proofs.Reclaiming
import DronePilot.Proofs.Stopping
import DronePilot.Proofs.Watching
import DronePilot.Proofs.Reevaluation
import DronePilot.Proofs.Inference
import DronePilot.Proofs.Pasting
import DronePilot.Proofs.Mending
import DronePilot.Proofs.Wraparound
import DronePilot.Proofs.Freshness
import DronePilot.Proofs.Tracking
import DronePilot.Proofs.DeadReckoning
import DronePilot.Proofs.Lookup
import DronePilot.Proofs.Refusal
import DronePilot.Proofs.Approach
import DronePilot.Proofs.Joining
import DronePilot.Proofs.Shortening
import DronePilot.Proofs.Display
