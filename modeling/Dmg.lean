import Dmg.FileTree
import Dmg.Main
import Dmg.Probe
import Dmg.Proofs.Course
import Dmg.Status
import Dmg.Proofs.Enabling
import Dmg.Proofs.InterruptEnable
import Dmg.Proofs.Arbitration
import Dmg.Proofs.Session
import Dmg.Proofs.Window
import Dmg.Proofs.Wiring
import Dmg.Proofs.MemoryMap
import Dmg.Proofs.Edges
import Dmg.Proofs.Overflow
import Dmg.Proofs.Pieces
import Dmg.Proofs.Waking
import Dmg.Proofs.Atomic
import Dmg.Proofs.Refusal
import Dmg.Proofs.Chronicle
import Dmg.Proofs.Divider
import Dmg.Proofs.Requests
import Dmg.Proofs.Checked.Arithmetic
import Dmg.Proofs.Checked.Decoding
import Dmg.Proofs.Checked.Memory
import Dmg.Proofs.Checked.Execution
import Dmg.Proofs.Checked.Runs
import Dmg.Proofs.Coherence
import Dmg.Proofs.Transparency
import Dmg.Proofs.Fibonacci
import Dmg.Proofs.StackDiscipline
import Dmg.Proofs.Listeners
import Dmg.Proofs.BuiltIn
import Dmg.Proofs.DisabledLine
import Dmg.Proofs.AttachmentOrder
import Dmg.Proofs.Command
import Dmg.Proofs.Encoding
import Dmg.Proofs.Executing
import Dmg.Proofs.Ticking
import Dmg.Proofs.Accumulator
import Dmg.Proofs.Modification
import Dmg.Proofs.Loading
import Dmg.Proofs.ControlFlow
import Dmg.Proofs.WriteTrace
import Dmg.Proofs.InstructionFrame
import Dmg.Proofs.CarryChain
import Dmg.Proofs.PackedDecimal
import Dmg.Proofs.ShiftChain
import Dmg.Proofs.Adders
import Dmg.Proofs.PlainRam
import Dmg.Proofs.EchoedRam
import Dmg.Proofs.SerialHistory
import Dmg.Proofs.CartridgeImages
import Dmg.Proofs.TraceLines
import Dmg.Proofs.Filtering
