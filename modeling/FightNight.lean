import FightNight.Token.Factory
import FightNight.Game.GameWarden
import FightNight.Supervisor.Head
import FightNight.Preimage.LargePreimages
import FightNight.Dispute.Finality
import FightNight.Challenger.Positions
import FightNight.Challenger.LocalInputs
import FightNight.Challenger.Duplicates
import FightNight.Monitor.Agreement
import FightNight.Dispute.Bonds
import FightNight.Dispute.Clocks
import FightNight.Derive.ChannelBank
import FightNight.Batcher.BlockConservation
import FightNight.Batcher.Shutdown
import FightNight.Supervisor.Recovery
import FightNight.Supervisor.Structure
import FightNight.Preimage.Bonds
import FightNight.Preimage.TreeAgreement
import FightNight.Eth.BlobCanonical
import FightNight.Cannon.StepAgreement
import FightNight.Reth.TreeState
import FightNight.Node.SafeDB
import FightNight.Node.SyncHeads
import FightNight.Reth.ExExRuns
import FightNight.Reth.ForkId
import FightNight.Reth.InMemoryLocks
import FightNight.Token.Curve
import FightNight.Contracts.SafeCall
