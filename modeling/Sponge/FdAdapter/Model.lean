import Sponge.EventLoop.FileDescriptor
import Sponge.NetworkInterface.Model

/-!
# Adapters between segments and devices

An adapter reads segments from a device and writes segments to it: as the
payloads of UDP datagrams, in IPv4 datagrams on a TUN device, or in IPv4
datagrams in Ethernet frames.  A class says what a socket needs of an adapter.

A function that throws leaves the adapter as it was when the exception was
thrown.
-/

namespace Sponge

/-- What a socket needs of an adapter; `set_config` is an assignment to
`config_mut()`. -/
class FdAdapter (A : Type*) where
  fd : A → FileDescriptor
  config : A → FdAdapterConfig
  setConfig : A → FdAdapterConfig → A
  setListening : A → Bool → A
  read : A → A × Except Failure (Option TCPSegment)
  write : A → TCPSegment → A × Except Failure Unit
  tick : A → ℕ → A × Except Failure Unit

/-- The limit of a read without one. -/
def FileDescriptor.noLimit : ℕ := 2 ^ 64 - 1

/-! ## IPv4 datagrams on a TUN device -/

structure TCPOverIPv4OverTunFdAdapter extends TCPOverIPv4Adapter where
  tun : FileDescriptor

namespace TCPOverIPv4OverTunFdAdapter

def read (a : TCPOverIPv4OverTunFdAdapter) :
    TCPOverIPv4OverTunFdAdapter × Except Failure (Option TCPSegment) :=
  match a.tun.read FileDescriptor.noLimit with
  | (tun, .error e) => ({ a with tun := tun }, .error e)
  | (tun, .ok str) =>
      let a := { a with tun := tun }
      match IPv4Datagram.parse {} str with
      | (.noError, ipDgram) =>
          let (adapter, result) :=
            a.toTCPOverIPv4Adapter.unwrapTcpInIp ipDgram
          ({ a with toTCPOverIPv4Adapter := adapter },
            result.mapError .exception)
      | _ => (a, .ok none)

def write (a : TCPOverIPv4OverTunFdAdapter) (seg : TCPSegment) :
    TCPOverIPv4OverTunFdAdapter × Except Failure Unit :=
  match (a.wrapTcpInIp seg).2 >>= IPv4Datagram.serialize with
  | .error e => (a, .error (.exception e))
  | .ok buffer =>
      let (tun, result) := a.tun.write buffer true
      ({ a with tun := tun }, result.map fun _ => ())

instance : FdAdapter TCPOverIPv4OverTunFdAdapter where
  fd a := a.tun
  config a := a.config
  setConfig a config := { a with config := config }
  setListening a listening := { a with listening := listening }
  read := read
  write := write
  tick a _ := (a, .ok ())

end TCPOverIPv4OverTunFdAdapter

/-! ## IPv4 datagrams in Ethernet frames -/

/-- A network interface over a device, which is a TAP device or one end of a pair
of sockets. -/
structure EthernetAdapter extends TCPOverIPv4Adapter where
  device : FileDescriptor
  interface : NetworkInterface
  nextHop : Address

namespace EthernetAdapter

/-- The loop of `send_pending`, over the frames that are left. -/
def sendFrames : List SentFrame → EthernetAdapter →
    EthernetAdapter × Except Failure Unit
  | [], a => (a, .ok ())
  | frame :: frames, a =>
      match a.device.write frame.serialize true with
      | (device, .error e) => ({ a with device := device }, .error e)
      | (device, .ok _) =>
          sendFrames frames
            { a with
              device := device
              interface := { a.interface with framesOut := frames } }

def sendPending (a : EthernetAdapter) :
    EthernetAdapter × Except Failure Unit :=
  sendFrames a.interface.framesOut a

/-- The rest of `read`, when the interface has taken the frame. -/
def finishRead (a : EthernetAdapter) (ipDgram : Option IPv4Datagram) :
    EthernetAdapter × Except Failure (Option TCPSegment) :=
  match a.sendPending with
  | (a, .error e) => (a, .error e)
  | (a, .ok ()) =>
      match ipDgram with
      | none => (a, .ok none)
      | some ipDgram =>
          let (adapter, result) :=
            a.toTCPOverIPv4Adapter.unwrapTcpInIp ipDgram
          ({ a with toTCPOverIPv4Adapter := adapter },
            result.mapError .exception)

def read (a : EthernetAdapter) :
    EthernetAdapter × Except Failure (Option TCPSegment) :=
  match a.device.read FileDescriptor.noLimit with
  | (device, .error e) => ({ a with device := device }, .error e)
  | (device, .ok str) =>
      let a := { a with device := device }
      match EthernetFrame.parse {} str with
      | (.noError, frame) =>
          match a.interface.recvFrame frame with
          | (interface, .error e) =>
              ({ a with interface := interface }, .error (.exception e))
          | (interface, .ok ipDgram) =>
              { a with interface := interface }.finishRead ipDgram
      | _ => (a, .ok none)

def write (a : EthernetAdapter) (seg : TCPSegment) :
    EthernetAdapter × Except Failure Unit :=
  match (a.wrapTcpInIp seg).2 with
  | .error e => (a, .error (.exception e))
  | .ok ipDgram =>
      match a.interface.sendDatagram ipDgram a.nextHop with
      | (interface, .error e) =>
          ({ a with interface := interface }, .error (.exception e))
      | (interface, .ok ()) => { a with interface := interface }.sendPending

def tick (a : EthernetAdapter) (msSinceLastTick : ℕ) :
    EthernetAdapter × Except Failure Unit :=
  { a with interface := a.interface.tick msSinceLastTick }.sendPending

instance : FdAdapter EthernetAdapter where
  fd a := a.device
  config a := a.config
  setConfig a config := { a with config := config }
  setListening a listening := { a with listening := listening }
  read := read
  write := write
  tick := tick

end EthernetAdapter

/-- With a TAP device, to which a frame is written at the start. -/
def TCPOverIPv4OverEthernetAdapter.new (tap : FileDescriptor)
    (ethAddress : EthernetAddress) (ipAddress nextHop : Address) :
    EthernetAdapter × Except Failure Unit :=
  let dummyFrame : EthernetFrame := {}
  let (tap, result) := tap.write dummyFrame.serialize true
  ({ device := tap
     interface := { ethernetAddress := ethAddress, ipAddress := ipAddress }
     nextHop := nextHop },
    result.map fun _ => ())

/-- With one end of a pair of sockets. -/
def NetworkInterfaceAdapter.new (first : FileDescriptor)
    (ethAddress : EthernetAddress) (ipAddress nextHop : Address) :
    EthernetAdapter where
  device := first
  interface := { ethernetAddress := ethAddress, ipAddress := ipAddress }
  nextHop := nextHop

/-! ## UDP datagrams -/

/-- A UDP socket; as with other descriptors, what the kernel answers to the
coming calls is part of the state. -/
structure UDPSocket extends FileDescriptor where
  recvs : List (Option (Address × List UInt8)) := []
  sends : List (Option ℕ) := []
  received : List (Address × List UInt8) := []
  sent : List (Address × List UInt8) := []

namespace UDPSocket

def mtu : ℕ := 65536

def recv (s : UDPSocket) : UDPSocket × Except Failure (Address × List UInt8) :=
  match s.recvs with
  | [] => (s, .error (.unixError "recvfrom"))
  | none :: recvs => ({ s with recvs := recvs }, .error (.unixError "recvfrom"))
  | some datagram :: recvs =>
      let s := { s with recvs := recvs }
      if mtu < datagram.2.length then
        (s, .error (.exception
          (.runtimeError "recvfrom (oversized datagram)")))
      else
        ({ s with
           toFileDescriptor := s.toFileDescriptor.registerRead
           received := s.received ++ [datagram] }, .ok datagram)

def sendto (s : UDPSocket) (destination : Address) (payload : BufferList) :
    UDPSocket × Except Failure Unit :=
  match s.sends with
  | [] => (s, .error (.unixError "sendmsg"))
  | none :: sends => ({ s with sends := sends }, .error (.unixError "sendmsg"))
  | some bytesSent :: sends =>
      let s := { s with sends := sends }
      if bytesSent ≠ payload.size then
        (s, .error (.exception
          (.runtimeError "datagram payload too big for sendmsg()")))
      else
        ({ s with
           toFileDescriptor := s.toFileDescriptor.registerWrite
           sent := s.sent ++ [(destination, payload.concatenate)] }, .ok ())

end UDPSocket

structure TCPOverUDPSocketAdapter where
  config : FdAdapterConfig := {}
  listening : Bool := false
  sock : UDPSocket

namespace TCPOverUDPSocketAdapter

/-- The ports of the segment are not looked at. -/
def read (a : TCPOverUDPSocketAdapter) :
    TCPOverUDPSocketAdapter × Except Failure (Option TCPSegment) :=
  match a.sock.recv with
  | (sock, .error e) => ({ a with sock := sock }, .error e)
  | (sock, .ok (sourceAddress, payload)) =>
      let a := { a with sock := sock }
      if ¬a.listening ∧ sourceAddress ≠ a.config.destination then (a, .ok none)
      else
        match TCPSegment.parse {} payload 0 with
        | (.noError, seg) =>
            if a.listening then
              if seg.header.syn ∧ ¬seg.header.rst then
                ({ a with
                   config := { a.config with destination := sourceAddress }
                   listening := false }, .ok (some seg))
              else (a, .ok none)
            else (a, .ok (some seg))
        | _ => (a, .ok none)

def write (a : TCPOverUDPSocketAdapter) (seg : TCPSegment) :
    TCPOverUDPSocketAdapter × Except Failure Unit :=
  let seg :=
    { seg with
      header :=
        { seg.header with
          sport := a.config.source.port
          dport := a.config.destination.port } }
  match seg.serialize 0 with
  | .error e => (a, .error (.exception e))
  | .ok payload =>
      let (sock, result) := a.sock.sendto a.config.destination payload
      ({ a with sock := sock }, result)

instance : FdAdapter TCPOverUDPSocketAdapter where
  fd a := a.sock.toFileDescriptor
  config a := a.config
  setConfig a config := { a with config := config }
  setListening a listening := { a with listening := listening }
  read := read
  write := write
  tick a _ := (a, .ok ())

end TCPOverUDPSocketAdapter

/-! ## Lossy adapters -/

/-- An adapter that loses segments at random.  `rand` are the numbers that will
be drawn, and the loss rates are those of the configuration. -/
structure LossyFdAdapter (A : Type*) where
  adapter : A
  lossRateDn : UInt16 := 0
  lossRateUp : UInt16 := 0
  rand : ℕ → UInt32

namespace LossyFdAdapter

variable {A : Type*}

def shouldDrop (a : LossyFdAdapter A) (uplink : Bool) :
    LossyFdAdapter A × Bool :=
  let loss := if uplink then a.lossRateUp else a.lossRateDn
  if loss ≠ 0 then
    ({ a with rand := fun n => a.rand (n + 1) }, (a.rand 0).toUInt16 < loss)
  else (a, false)

theorem adapter_shouldDrop (a : LossyFdAdapter A) (uplink : Bool) :
    (a.shouldDrop uplink).1.adapter = a.adapter := by
  cases uplink with
  | false =>
      simp only [shouldDrop, Bool.false_eq_true, if_false]
      split <;> rfl
  | true =>
      simp only [shouldDrop, if_true]
      split <;> rfl

variable [FdAdapter A]

def read (a : LossyFdAdapter A) :
    LossyFdAdapter A × Except Failure (Option TCPSegment) :=
  match FdAdapter.read a.adapter with
  | (adapter, .error e) => ({ a with adapter := adapter }, .error e)
  | (adapter, .ok ret) =>
      let (a, drop) := { a with adapter := adapter }.shouldDrop false
      (a, .ok (if drop then none else ret))

def write (a : LossyFdAdapter A) (seg : TCPSegment) :
    LossyFdAdapter A × Except Failure Unit :=
  let (a, drop) := a.shouldDrop true
  if drop then (a, .ok ())
  else
    let (adapter, result) := FdAdapter.write a.adapter seg
    ({ a with adapter := adapter }, result)

def tick (a : LossyFdAdapter A) (msSinceLastTick : ℕ) :
    LossyFdAdapter A × Except Failure Unit :=
  let (adapter, result) := FdAdapter.tick a.adapter msSinceLastTick
  ({ a with adapter := adapter }, result)

instance : FdAdapter (LossyFdAdapter A) where
  fd a := FdAdapter.fd a.adapter
  config a := FdAdapter.config a.adapter
  setConfig a config :=
    { a with adapter := FdAdapter.setConfig a.adapter config }
  setListening a listening :=
    { a with adapter := FdAdapter.setListening a.adapter listening }
  read := read
  write := write
  tick := tick

end LossyFdAdapter

/-! ## Reads are counted -/

/-- A call of `read` that returns has read once from the device. -/
class CountsReads (A : Type*) [FdAdapter A] : Prop where
  readCount : ∀ (a : A) (seg : Option TCPSegment),
    (FdAdapter.read a).2 = .ok seg →
      (FdAdapter.fd (FdAdapter.read a).1).readCount =
        (FdAdapter.fd a).readCount + 1

instance : CountsReads TCPOverIPv4OverTunFdAdapter where
  readCount := by
    intro a seg h
    change a.read.2 = .ok seg at h
    change a.read.1.tun.readCount = a.tun.readCount + 1
    unfold TCPOverIPv4OverTunFdAdapter.read at h ⊢
    rcases hread : a.tun.read FileDescriptor.noLimit with ⟨tun, e | str⟩
    · rw [hread] at h
      cases h
    · have hcount := (FileDescriptor.read_of_ok (congrArg Prod.snd hread)).2.2
      rw [hread] at hcount
      dsimp only
      split
      · exact hcount
      · exact hcount

theorem EthernetAdapter.readCount_sendFrames (frames : List SentFrame)
    (a : EthernetAdapter) :
    (sendFrames frames a).1.device.readCount = a.device.readCount := by
  induction frames generalizing a with
  | nil => rfl
  | cons frame frames ih =>
      obtain ⟨n, hwrote⟩ := FileDescriptor.exists_wrote_writeLoop true
        a.device.writes frame.serialize 0 a.device
      have hcount := hwrote.reading.readCount
      unfold sendFrames
      rcases hwrite : a.device.write frame.serialize true with
        ⟨device, e | count⟩
      · rw [FileDescriptor.write] at hwrite
        rw [hwrite] at hcount
        exact hcount
      · rw [FileDescriptor.write] at hwrite
        rw [hwrite] at hcount
        exact (ih _).trans hcount

theorem EthernetAdapter.readCount_finishRead (a : EthernetAdapter)
    (ipDgram : Option IPv4Datagram) :
    (a.finishRead ipDgram).1.device.readCount = a.device.readCount := by
  have hcount := readCount_sendFrames a.interface.framesOut a
  unfold finishRead sendPending
  rcases hsend : sendFrames a.interface.framesOut a with ⟨a', e | ⟨⟩⟩
  · rw [hsend] at hcount
    exact hcount
  · rw [hsend] at hcount
    cases ipDgram with
    | none => exact hcount
    | some ipDgram => exact hcount

instance : CountsReads EthernetAdapter where
  readCount := by
    intro a seg h
    change a.read.2 = .ok seg at h
    change a.read.1.device.readCount = a.device.readCount + 1
    unfold EthernetAdapter.read at h ⊢
    rcases hread : a.device.read FileDescriptor.noLimit with ⟨device, e | str⟩
    · rw [hread] at h
      cases h
    · have hcount := (FileDescriptor.read_of_ok (congrArg Prod.snd hread)).2.2
      rw [hread] at hcount h
      dsimp only at h ⊢
      split
      · rename_i frame hframe
        rw [hframe] at h
        dsimp only at h
        rcases hrecv : a.interface.recvFrame frame with
          ⟨interface, e | ipDgram⟩
        · rw [hrecv] at h
          cases h
        · exact (EthernetAdapter.readCount_finishRead _ ipDgram).trans hcount
      · exact hcount

instance : CountsReads TCPOverUDPSocketAdapter where
  readCount := by
    intro a seg h
    change a.read.2 = .ok seg at h
    change a.read.1.sock.readCount = a.sock.readCount + 1
    have hrecv : ∀ datagram, a.sock.recv.2 = .ok datagram →
        a.sock.recv.1.readCount = a.sock.readCount + 1 := by
      intro datagram hok
      unfold UDPSocket.recv at hok ⊢
      split at hok
      · cases hok
      · cases hok
      · dsimp only at hok ⊢
        split at hok
        · cases hok
        · rename_i hle
          rw [if_neg hle]
          rfl
    unfold TCPOverUDPSocketAdapter.read at h ⊢
    rcases hread : a.sock.recv with ⟨sock, e | ⟨source, payload⟩⟩
    · rw [hread] at h
      cases h
    · have hcount := hrecv _ (congrArg Prod.snd hread)
      rw [hread] at hcount
      dsimp only
      split
      · exact hcount
      split
      · split
        · split <;> exact hcount
        · exact hcount
      · exact hcount

instance {A : Type*} [FdAdapter A] [CountsReads A] :
    CountsReads (LossyFdAdapter A) where
  readCount := by
    intro a seg h
    change a.read.2 = .ok seg at h
    change (FdAdapter.fd a.read.1.adapter).readCount =
      (FdAdapter.fd a.adapter).readCount + 1
    unfold LossyFdAdapter.read at h ⊢
    rcases hread : FdAdapter.read a.adapter with ⟨adapter, e | ret⟩
    · rw [hread] at h
      cases h
    · have hcount := CountsReads.readCount a.adapter ret
        (congrArg Prod.snd hread)
      rw [hread] at hcount
      dsimp only
      rw [LossyFdAdapter.adapter_shouldDrop]
      exact hcount

end Sponge
