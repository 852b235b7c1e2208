import MessagePipe.Clock
import MessagePipe.Main
import MessagePipe.Pipe.Alone
import MessagePipe.Pipe.Plain
import MessagePipe.Reaper.Scene
import MessagePipe.Ring.Guarded
import MessagePipe.Ring.Sweep
import MessagePipe.Session.Moves
import MessagePipe.Session.Tasks
import MessagePipe.Session.Threads
import MessagePipe.Proofs.Ring.Frame
import MessagePipe.Proofs.Ring.Imprint
import MessagePipe.Proofs.Ring.InRange
import MessagePipe.Proofs.Ring.Occupancy
import MessagePipe.Proofs.Ring.Refinement
import MessagePipe.Proofs.Ring.Secrecy
import MessagePipe.Proofs.Pipe.Closing
import MessagePipe.Proofs.Pipe.Confluence
import MessagePipe.Proofs.Pipe.Counters
import MessagePipe.Proofs.Pipe.Expiry
import MessagePipe.Proofs.Pipe.Linearization
import MessagePipe.Proofs.Pipe.Refusals
import MessagePipe.Proofs.Pipe.Solo
import MessagePipe.Proofs.Pipe.Traceless
import MessagePipe.Proofs.Pipe.WaitModes
import MessagePipe.Proofs.Reaper.Shutdown
import MessagePipe.Proofs.Stream.Attention
import MessagePipe.Proofs.Stream.Delivery
import MessagePipe.Proofs.Stream.Items
import MessagePipe.Proofs.Stream.Polls
import MessagePipe.Proofs.Stream.Refusals
import MessagePipe.Proofs.Stream.Scripts
import MessagePipe.Session.Timing
import MessagePipe.Proofs.Stream.Reapers
import MessagePipe.Proofs.Stream.Retries
import MessagePipe.Proofs.Stream.Schedule
import MessagePipe.Proofs.Ring.Sweep
import MessagePipe.Proofs.Ring.Clearing
import MessagePipe.Proofs.Ring.FreeSweep
import MessagePipe.Proofs.Pipe.InForce
