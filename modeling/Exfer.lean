import Exfer.Proof.Script.Soundness
import Exfer.Proof.Script.Memory
import Exfer.Proof.Script.Cost
import Exfer.Proof.Script.CostMono
import Exfer.Proof.Script.Refinement
import Exfer.Proof.Script.Merkle
import Exfer.Proof.Covenants.Builder
import Exfer.Proof.Covenants.Htlc
import Exfer.Proof.Block.Atomic
import Exfer.Proof.Block.AssumeValid
import Exfer.Proof.Block.Accepted
import Exfer.Proof.Block.Supply
import Exfer.Proof.Node.Triggers
import Exfer.Proof.Open.Snapshot
import Exfer.Proof.Network.FrameBudget
import Exfer.Proof.Network.Session
import Exfer.Proof.Network.Handshake
import Exfer.Proof.Network.Abuse
import Exfer.Proof.Network.Sockets
import Exfer.Proof.Network.StageA
import Exfer.Proof.Network.TipValidation
import Exfer.Proof.Mempool.CleanUp
