import Sponge.EventLoop.Passes
import Sponge.FdAdapter.Model
import Sponge.TCPConnection.State

/-!
# Sockets over a TCP connection

`TCPSpongeSocket` runs a connection in an event loop of four rules.  It reads
what the owner writes from a local stream socket, `_thread_data`, and writes to
it what the owner shall read; segments come from a datagram adapter and go to
it.

Besides its state a socket remembers the segments that the adapter has returned
and those that it has taken; no operation looks at them.  What is printed for
debugging is left out.
-/

namespace Sponge

/-! ## The names of states -/

def TCPReceiverStateSummary.text : TCPReceiverStateSummary → String
  | .error => "error (connection was reset)"
  | .listen => "waiting for SYN: ackno is empty"
  | .synRecv =>
      "SYN received (ackno exists), and input to stream hasn't ended"
  | .finRecv => "input to stream has ended"

def TCPSenderStateSummary.text : TCPSenderStateSummary → String
  | .error => "error (connection was reset)"
  | .closed => "waiting for stream to begin (no SYN sent)"
  | .synSent => "stream started but nothing acknowledged"
  | .synAcked => "stream ongoing"
  | .finSent => "stream finished (FIN sent) but not fully acknowledged"
  | .finAcked => "stream finished and fully acknowledged"

def TCPState.name (s : TCPState) : String :=
  "sender=`" ++ s.sender.text ++ "`, receiver=`" ++ s.receiver.text ++
    "`, active=" ++ toString s.active.toNat ++
    ", linger_after_streams_finish=" ++
    toString s.lingerAfterStreamsFinish.toNat

namespace TCPSpongeSocket

variable {A : Type*}

/-! ## The rules -/

/-- What the callbacks work on. -/
structure World (A : Type*) where
  tcp : TCPConnection
  threadData : FileDescriptor
  adapter : A
  inboundShutdown : Bool := false
  outboundShutdown : Bool := false
  fullyAcked : Bool := false
  arrived : List TCPSegment := []
  wire : List SentSegment := []

namespace World

/-- `_fully_acked` is set when the outbound stream was acknowledged. -/
def noteAcked (w : World A) : World A :=
  if w.threadData.eof ∧ w.tcp.bytesInFlight = 0 ∧ ¬w.fullyAcked then
    { w with fullyAcked := true }
  else w

variable [FdAdapter A]

/-- Rule 1: read a datagram and pass it to the connection. -/
def receiveDatagram (w : World A) : World A × Except Failure Unit :=
  match FdAdapter.read w.adapter with
  | (adapter, .error e) => ({ w with adapter := adapter }, .error e)
  | (adapter, .ok none) => ({ w with adapter := adapter }.noteAcked, .ok ())
  | (adapter, .ok (some seg)) =>
      ({ w with
         adapter := adapter
         tcp := w.tcp.segmentReceived seg
         arrived := w.arrived ++ [seg] }.noteAcked, .ok ())

def endOutbound (w : World A) : World A :=
  { w with tcp := w.tcp.endInputStream, outboundShutdown := true }

/-- Rule 2: read from the owner into the outbound stream. -/
def readOwner (w : World A) : World A × Except Failure Unit :=
  match w.threadData.read w.tcp.remainingOutboundCapacity with
  | (threadData, .error e) => ({ w with threadData := threadData }, .error e)
  | (threadData, .ok data) =>
      let len := data.length
      let (tcp, amountWritten) := w.tcp.write data
      let w := { w with threadData := threadData, tcp := tcp }
      if amountWritten ≠ len then
        (w, .error (.exception (.runtimeError
          "TCPConnection::write() accepted less than advertised length")))
      else (if threadData.eof then w.endOutbound else w, .ok ())

/-- `pop_output` on the inbound stream of the connection. -/
def popInbound (w : World A) (len : ℕ) : World A :=
  let stream := w.tcp.inboundStream.popOutput len
  { w with
    tcp :=
      { w.tcp with
        receiver :=
          { w.tcp.receiver with
            reassembler :=
              { w.tcp.receiver.reassembler with output := stream } } } }

/-- Rule 3: write from the inbound stream to the owner. -/
def writeOwner (w : World A) : World A × Except Failure Unit :=
  let inbound := w.tcp.inboundStream
  let amountToWrite := min 65536 inbound.bufferSize
  let buffer := inbound.peekOutput amountToWrite
  match w.threadData.write [buffer] false with
  | (threadData, .error e) => ({ w with threadData := threadData }, .error e)
  | (threadData, .ok bytesWritten) =>
      let w := { w with threadData := threadData }.popInbound bytesWritten
      if w.tcp.inboundStream.eof ∨ w.tcp.inboundStream.error then
        match w.threadData.shutdownWr with
        | (threadData, .error e) =>
            ({ w with threadData := threadData }, .error e)
        | (threadData, .ok ()) =>
            ({ w with threadData := threadData, inboundShutdown := true },
              .ok ())
      else (w, .ok ())

/-- The loop of rule 4, over the segments that are left. -/
def sendSegments : List SentSegment → World A → World A × Except Failure Unit
  | [], w => (w, .ok ())
  | seg :: segments, w =>
      match FdAdapter.write w.adapter seg.toTCPSegment with
      | (adapter, .error e) => ({ w with adapter := adapter }, .error e)
      | (adapter, .ok ()) =>
          sendSegments segments
            { w with
              adapter := adapter
              tcp := { w.tcp with segmentsOut := segments }
              wire := w.wire ++ [seg] }

/-- Rule 4: write the segments of the connection as datagrams. -/
def sendDatagrams (w : World A) : World A × Except Failure Unit :=
  sendSegments w.tcp.segmentsOut w

end World

inductive Name where
  | receiveDatagram
  | readOwner
  | writeOwner
  | sendDatagrams
deriving DecidableEq

variable [FdAdapter A]

def rule : Name → Rule (World A)
  | .receiveDatagram =>
      { fd := fun w => FdAdapter.fd w.adapter
        direction := .pollIn
        callback := World.receiveDatagram
        interest := fun w => w.tcp.active }
  | .readOwner =>
      { fd := World.threadData
        direction := .pollIn
        callback := World.readOwner
        interest := fun w =>
          w.tcp.active && !w.outboundShutdown &&
            0 < w.tcp.remainingOutboundCapacity
        cancel := World.endOutbound }
  | .writeOwner =>
      { fd := World.threadData
        direction := .pollOut
        callback := World.writeOwner
        interest := fun w =>
          !w.tcp.inboundStream.bufferEmpty ||
            ((w.tcp.inboundStream.eof || w.tcp.inboundStream.error) &&
              !w.inboundShutdown) }
  | .sendDatagrams =>
      { fd := fun w => FdAdapter.fd w.adapter
        direction := .pollOut
        callback := World.sendDatagrams
        interest := fun w => !w.tcp.segmentsOut.isEmpty }

/-- The rules in the order in which they are added. -/
def allRules : List Name :=
  [.receiveDatagram, .readOwner, .writeOwner, .sendDatagrams]

/-! ## The socket -/

/-- Where the program is: in the loop of `connect` or `listen_and_accept`, in
that of `_tcp_main`, or after it; or an exception was thrown. -/
inductive Phase where
  | connecting
  | listening
  | main
  | finished
  | failed (e : Failure)
deriving DecidableEq

end TCPSpongeSocket

/-- A socket with a connection. -/
structure TCPSpongeSocket (A : Type*) where
  rules : List TCPSpongeSocket.Name
  world : TCPSpongeSocket.World A
  phase : TCPSpongeSocket.Phase

namespace TCPSpongeSocket

variable {A : Type*} [FdAdapter A]

/-- What comes from outside in one turn of a loop: the answer of `poll`, whether
the owner has set `_abort`, and the time since the last turn. -/
structure Turn where
  answer : PollAnswer
  abort : Bool := false
  ms : ℕ := 0
deriving DecidableEq

/-- The condition of the loop. -/
def continues (phase : Phase) (state : TCPState) : Bool :=
  match phase with
  | .connecting => state = .ofState .synSent
  | .listening =>
      state = .ofState .listen || state = .ofState .synRcvd ||
        state = .ofState .synSent
  | .main => true
  | .finished | .failed _ => false

/-- What follows the loop. -/
def next : Phase → Phase
  | .connecting | .listening => .main
  | .main | .finished => .finished
  | .failed e => .failed e

/-- The connection and the adapter are told of the time. -/
def tick (s : TCPSpongeSocket A) (ms : ℕ) : TCPSpongeSocket A :=
  if s.world.tcp.active then
    let w := { s.world with tcp := s.world.tcp.tick ms }
    match FdAdapter.tick w.adapter ms with
    | (adapter, .error e) =>
        { s with world := { w with adapter := adapter }, phase := .failed e }
    | (adapter, .ok ()) => { s with world := { w with adapter := adapter } }
  else s

/-- A turn of the loop in `_tcp_loop`, with its condition. -/
def tcpLoop (s : TCPSpongeSocket A) (turn : Turn) : TCPSpongeSocket A :=
  if continues s.phase s.world.tcp.state then
    match EventLoop.waitNextEvent rule s.rules turn.answer s.world with
    | (w, .error e) => { s with world := w, phase := .failed e }
    | (w, .ok (rules, result)) =>
        let s := { s with rules := rules, world := w }
        if result = .exit ∨ turn.abort then { s with phase := next s.phase }
        else s.tick turn.ms
  else { s with phase := next s.phase }

/-- `_initialize_TCP`, and the assignment to the configuration of the adapter. -/
def initializeTCP (threadData : FileDescriptor) (adapter : A) (cTcp : TCPConfig)
    (random : UInt32) (cAd : FdAdapterConfig) : World A where
  tcp := .new cTcp random
  threadData := threadData
  adapter := FdAdapter.setConfig adapter cAd

/-- `connect` up to its loop. -/
def connect (threadData : FileDescriptor) (adapter : A) (cTcp : TCPConfig)
    (random : UInt32) (cAd : FdAdapterConfig) : TCPSpongeSocket A :=
  let w := initializeTCP threadData adapter cTcp random cAd
  let w := { w with tcp := w.tcp.connect }
  { rules := allRules
    world := w
    phase :=
      if w.tcp.state ≠ .ofState .synSent then
        .failed (.exception (.runtimeError
          ("After TCPConnection::connect(), state was " ++ w.tcp.state.name ++
            " but expected " ++ (TCPState.ofState .synSent).name)))
      else .connecting }

/-- `listen_and_accept` up to its loop. -/
def listenAndAccept (threadData : FileDescriptor) (adapter : A)
    (cTcp : TCPConfig) (random : UInt32) (cAd : FdAdapterConfig) :
    TCPSpongeSocket A :=
  let w := initializeTCP threadData adapter cTcp random cAd
  { rules := allRules
    world := { w with adapter := FdAdapter.setListening w.adapter true }
    phase := .listening }

end TCPSpongeSocket
end Sponge
