import Sponge.Packet.Parser
import Sponge.Support.While
import Sponge.TCPConnection.Model

/-!
# The benchmark

`tcp_benchmark` connects two connections in one process: `x` sends a string,
`y` ends its own stream at once and reads, and in every turn of the loop the
segments on the outgoing queues are handed to the other side, those of `x` in
reverse order if the order is to be disturbed.

The clock and the throughput it prints are left out.  The string is a parameter,
where the source draws its bytes at random.
-/

namespace Sponge
namespace TCPBenchmark

open Support

/-- `x` and `y` after the segments that `x` has put out were received by `y`. -/
def moveSegments (x y : TCPConnection) (reorder : Bool) :
    TCPConnection × TCPConnection :=
  let segments :=
    if reorder then x.segmentsOut.reverse else x.segmentsOut
  ({ x with segmentsOut := [] },
    segments.foldl (fun y seg => y.segmentReceived seg.toTCPSegment) y)

/-- The variables of `main_loop`. -/
structure State where
  x : TCPConnection
  y : TCPConnection
  bytesToSend : List UInt8
  xClosed : Bool
  stringReceived : List UInt8
deriving DecidableEq

/-- The loop that writes input into `x`, for at most the given number of turns.
What was written is at most what there was, so that `remove_prefix` does not
throw. -/
def writeInput : ℕ → State → Except Exception State
  | 0, b => .ok b
  | fuel + 1, b =>
      if b.bytesToSend.length ≠ 0 ∧ b.x.remainingOutboundCapacity ≠ 0 then
        let want :=
          min b.x.remainingOutboundCapacity b.bytesToSend.length
        let (x, written) := b.x.write (b.bytesToSend.take want)
        if want ≠ written then
          .error (.runtimeError ("want = " ++ toString want ++
            ", written = " ++ toString written))
        else
          writeInput fuel
            { b with x := x, bytesToSend := b.bytesToSend.drop written }
      else .ok b

/-- `x` is closed once everything was written. -/
def closeInput (b : State) : State :=
  if b.bytesToSend.length = 0 ∧ b.xClosed = false then
    { b with x := b.x.endInputStream, xClosed := true }
  else b

def exchange (b : State) (reorder : Bool) : State :=
  let (x, y) := moveSegments b.x b.y reorder
  let (y, x) := moveSegments y x false
  { b with x := x, y := y }

/-- Reading from the inbound stream of `y`. -/
def readOutput (b : State) : State :=
  let availableOutput := b.y.inboundStream.bufferSize
  if 0 < availableOutput then
    let (stream, output) := b.y.inboundStream.read availableOutput
    { b with
      y :=
        { b.y with
          receiver :=
            { b.y.receiver with
              reassembler :=
                { b.y.receiver.reassembler with output := stream } } }
      stringReceived := b.stringReceived ++ output }
  else b

/-- Time passes. -/
def tick (b : State) : State :=
  { b with x := b.x.tick 1000, y := b.y.tick 1000 }

/-- The body of both loops.  Every turn of the loop that writes takes a byte at
least. -/
def loop (reorder : Bool) (b : State) : Except Exception State := do
  let b ← writeInput b.bytesToSend.length b
  return tick (readOutput (exchange (closeInput b) reorder))

def start (config : TCPConfig) (randomX randomY : UInt32)
    (stringToSend : List UInt8) : State where
  x := (TCPConnection.new config randomX).connect
  y := (TCPConnection.new config randomY).endInputStream
  bytesToSend := stringToSend
  xClosed := false
  stringReceived := []

/-- `main_loop` with at most `fuel` turns for each of its two loops. -/
def mainLoop (reorder : Bool) (config : TCPConfig)
    (randomX randomY : UInt32) (stringToSend : List UInt8) (fuel : ℕ) :
    Option (Except Exception Unit) :=
  match whileLoop (fun b => !b.y.inboundStream.eof) (loop reorder) fuel
      (start config randomX randomY stringToSend) with
  | none => none
  | some (.error e) => some (.error e)
  | some (.ok b) =>
      if b.stringReceived ≠ stringToSend then
        some (.error
          (.runtimeError "strings sent vs. received don't match"))
      else
        (whileLoop (fun b => b.x.active || b.y.active) (loop reorder) fuel
          b).map (Except.map fun _ => ())

end TCPBenchmark
end Sponge
