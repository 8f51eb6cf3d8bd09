import NodeScript.Main
import NodeScript.Proofs.Graph.Arrangement
import NodeScript.Proofs.Build.Lowering
import NodeScript.Proofs.Build.Faults
import NodeScript.Proofs.Build.Reordering
import NodeScript.Proofs.Decompile.Printing
import NodeScript.Proofs.Script.Alignment
import NodeScript.Proofs.Command.Transactions
import NodeScript.Proofs.Graph.Interfaces
import NodeScript.Proofs.Build.InterfaceHistories
import NodeScript.Proofs.Build.PairedZones
import NodeScript.Proofs.Decompile.Reach
import NodeScript.Proofs.Script.Rejections
