import MessagePipe.Duration
import MessagePipe.Text.Fields

/-!
# MessagePipe.Stream.Config

How often a waiting task looks at the pipe by itself.  Calls made through the
stream wake the tasks that may go on; a change made behind its back is seen
after one poll interval at the latest, and without an interval at once.
-/

namespace MessagePipe

/-- The configuration of a stream. -/
structure StreamConfig where
  pollInterval : Duration
deriving DecidableEq

namespace StreamConfig

def default : StreamConfig := ⟨.ofMillis 10⟩

/-- For pipes that are often changed behind the stream's back. -/
def lowLatency : StreamConfig := ⟨.ofMillis 1⟩

def withPollInterval (_ : StreamConfig) (interval : Duration) : StreamConfig := ⟨interval⟩

def text (c : StreamConfig) : String :=
  Text.fields "StreamConfig" [Text.field "poll_interval" c.pollInterval.text]

end StreamConfig

end MessagePipe
