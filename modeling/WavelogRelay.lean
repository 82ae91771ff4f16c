import WavelogRelay.Configuration.Endpoint
import WavelogRelay.Configuration.Load
import WavelogRelay.Daemon.Exit
import WavelogRelay.Listener.Law
import WavelogRelay.Poller.Cadence
import WavelogRelay.Poller.Fresh
import WavelogRelay.Poller.Held
import WavelogRelay.Queue.Atomic
import WavelogRelay.Queue.Cap
import WavelogRelay.Queue.Durability
import WavelogRelay.Queue.Exclusive
import WavelogRelay.Queue.Idempotent
import WavelogRelay.Queue.Identity
import WavelogRelay.Queue.Refinement
import WavelogRelay.Relay.Click
import WavelogRelay.Relay.Origin
import WavelogRelay.Relay.Recovery
import WavelogRelay.Relay.Spacing
import WavelogRelay.Rig.Backoff
import WavelogRelay.Rig.Cut
import WavelogRelay.Rig.Linear
import WavelogRelay.Rig.Sync
import WavelogRelay.Shutdown
import WavelogRelay.Wavelog.Station
import WavelogRelay.Ws.Stream
import WavelogRelay.Wsjtx.Adif
import WavelogRelay.Wsjtx.Delivery
import WavelogRelay.Wsjtx.Fields
import WavelogRelay.Wsjtx.Handoff
import WavelogRelay.Wsjtx.NoLoss
import WavelogRelay.Wsjtx.Outcome
