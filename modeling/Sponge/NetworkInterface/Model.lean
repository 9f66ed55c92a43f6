import Mathlib.Data.FinEnum
import Sponge.Packet.TCPOverIP
import Sponge.Support.Table

/-!
# The network interface

`NetworkInterface` puts datagrams into frames.  It learns the Ethernet address of
the next hop by ARP, and keeps one datagram for each next hop that it waits for.

The two hash maps are functions from IP addresses to optional entries.

A call that throws leaves the state as it was when the exception was thrown.
The frames carry the next hop and the datagram that they were made for, which no
operation reads; they are there to be spoken about.
-/

namespace Sponge

/-- A frame on `frames_out`, and what it was made for if it carries a
datagram. -/
structure SentFrame extends EthernetFrame where
  datagram : Option (UInt32 × IPv4Datagram) := none
deriving DecidableEq

structure NetworkInterface where
  ethernetAddress : EthernetAddress
  ipAddress : Address
  framesOut : List SentFrame := []
  addrMp : UInt32 → Option (ℕ × EthernetAddress) := fun _ => none
  dataMp : UInt32 → Option IPv4Datagram := fun _ => none

namespace NetworkInterface

def pushFrame (n : NetworkInterface) (frame : SentFrame) : NetworkInterface :=
  { n with framesOut := n.framesOut ++ [frame] }

/-! ## Frames -/

/-- The frame of type IPv4 in which a datagram is sent to `address`. -/
def ipv4Frame (n : NetworkInterface) (address : EthernetAddress)
    (payload : BufferList) (nextHopIp : UInt32) (dgram : IPv4Datagram) :
    SentFrame where
  header :=
    { dst := address
      src := n.ethernetAddress
      type := EthernetHeader.typeIPv4 }
  payload := payload
  datagram := some (nextHopIp, dgram)

def arpFrame (n : NetworkInterface) (address : EthernetAddress)
    (payload : List UInt8) : SentFrame where
  header :=
    { dst := address
      src := n.ethernetAddress
      type := EthernetHeader.typeARP }
  payload := [payload]

/-- The request for the Ethernet address of the next hop. -/
def arpRequest (n : NetworkInterface) (nextHopIp : UInt32) : ARPMessage where
  opcode := ARPMessage.opcodeRequest
  senderIpAddress := n.ipAddress.ipv4Numeric
  senderEthernetAddress := n.ethernetAddress
  targetEthernetAddress := .zero
  targetIpAddress := nextHopIp

/-- The answer to the request `am`. -/
def arpReply (n : NetworkInterface) (am : ARPMessage) : ARPMessage where
  opcode := ARPMessage.opcodeReply
  senderIpAddress := am.targetIpAddress
  targetIpAddress := am.senderIpAddress
  senderEthernetAddress := n.ethernetAddress
  targetEthernetAddress := am.senderEthernetAddress

/-! ## Sending -/

def sendDatagram (n : NetworkInterface) (dgram : IPv4Datagram)
    (nextHop : Address) : NetworkInterface × Except Exception Unit :=
  let nextHopIp := nextHop.ipv4Numeric
  match n.addrMp nextHopIp with
  | some (_, address) =>
      if address ≠ .broadcast then
        match dgram.serialize with
        | .error e => (n, .error e)
        | .ok payload =>
            (n.pushFrame (n.ipv4Frame address payload nextHopIp dgram), .ok ())
      else (n, .ok ())
  | none =>
      match (n.arpRequest nextHopIp).serialize with
      | .error e => (n, .error e)
      | .ok payload =>
          let n := n.pushFrame (n.arpFrame .broadcast payload)
          ({ n with
             addrMp := Function.update n.addrMp nextHopIp
               (some (5000, .broadcast))
             dataMp := Function.update n.dataMp nextHopIp (some dgram) },
            .ok ())

/-! ## Receiving -/

/-- The sender of an ARP message is entered into the table. -/
def learn (n : NetworkInterface) (am : ARPMessage) : NetworkInterface :=
  { n with
    addrMp := Function.update n.addrMp am.senderIpAddress
      (some (30000, am.senderEthernetAddress)) }

/-- The datagram that waited for the sender of an ARP message is sent. -/
def sendHeld (n : NetworkInterface) (am : ARPMessage) :
    NetworkInterface × Except Exception Unit :=
  match n.dataMp am.senderIpAddress with
  | none => (n, .ok ())
  | some dgram =>
      match dgram.serialize with
      | .error e => (n, .error e)
      | .ok payload =>
          let frame := n.ipv4Frame am.senderEthernetAddress payload
            am.senderIpAddress dgram
          let n :=
            { n with
              dataMp := Function.update n.dataMp am.senderIpAddress none }
          (n.pushFrame frame, .ok ())

/-- A request for the own address is answered. -/
def answer (n : NetworkInterface) (am : ARPMessage) :
    NetworkInterface × Except Exception Unit :=
  if am.opcode = ARPMessage.opcodeRequest ∧
      am.targetIpAddress = n.ipAddress.ipv4Numeric then
    match (n.arpReply am).serialize with
    | .error e => (n, .error e)
    | .ok payload =>
        (n.pushFrame (n.arpFrame am.senderEthernetAddress payload), .ok ())
  else (n, .ok ())

/-- What is done with an ARP message that was parsed without error. -/
def processArp (n : NetworkInterface) (am : ARPMessage) :
    NetworkInterface × Except Exception Unit :=
  match (n.learn am).sendHeld am with
  | (n, .error e) => (n, .error e)
  | (n, .ok ()) => n.answer am

def recvFrame (n : NetworkInterface) (frame : EthernetFrame) :
    NetworkInterface × Except Exception (Option IPv4Datagram) :=
  if frame.header.type = EthernetHeader.typeIPv4 ∧
      frame.header.dst = n.ethernetAddress then
    match frame.payload.toBuffer with
    | .error e => (n, .error e)
    | .ok buffer =>
        match IPv4Datagram.parse {} buffer with
        | (.noError, ret) => (n, .ok (some ret))
        | _ => (n, .ok none)
  else if frame.header.type = EthernetHeader.typeARP then
    match frame.payload.toBuffer with
    | .error e => (n, .error e)
    | .ok buffer =>
        match ARPMessage.parse {} buffer with
        | (.noError, am) =>
            match n.processArp am with
            | (n, .error e) => (n, .error e)
            | (n, .ok ()) => (n, .ok none)
        | _ => (n, .ok none)
  else (n, .ok none)

/-! ## Time -/

/-- An entry of the table after `ms` milliseconds. -/
def ageEntry (ms : ℕ) : ℕ × EthernetAddress → Option (ℕ × EthernetAddress)
  | (releaseTime, address) =>
      if releaseTime > ms then some (releaseTime - ms, address) else none

/-- Every entry of the table is visited once, and aged or erased.  This is what
the loop of the source is meant to do, and what it does as long as no entry
expires; where one does, its behaviour is undefined, see `Expires`. -/
def tick (n : NetworkInterface) (ms : ℕ) : NetworkInterface :=
  { n with addrMp := fun ip => (n.addrMp ip).bind (ageEntry ms) }

/-- Some entry of the table expires within `ms` milliseconds.  The source erases
it inside the loop over the table, and the loop goes on from the entry that is
gone, which C++ leaves undefined. -/
def Expires (n : NetworkInterface) (ms : ℕ) : Prop :=
  ∃ ip, ∃ entry ∈ n.addrMp ip, ageEntry ms entry = none

instance (n : NetworkInterface) (ms : ℕ) : Decidable (n.Expires ms) :=
  inferInstanceAs (Decidable (∃ ip, ∃ entry ∈ n.addrMp ip,
    ageEntry ms entry = none))

/-! ## What the operations do -/

theorem supported_arpRequest (n : NetworkInterface) (nextHopIp : UInt32) :
    (n.arpRequest nextHopIp).Supported :=
  ⟨rfl, rfl, rfl, rfl, Or.inl rfl⟩

theorem supported_arpReply (n : NetworkInterface) (am : ARPMessage) :
    (n.arpReply am).Supported :=
  ⟨rfl, rfl, rfl, rfl, Or.inr rfl⟩

theorem serialize_of_supported {am : ARPMessage} (h : am.Supported) :
    am.serialize = .ok am.fields := by
  rw [ARPMessage.serialize, if_neg (not_not.mpr h)]

/-- The interface that asks for a next hop and keeps the datagram. -/
def asking (n : NetworkInterface) (nextHopIp : UInt32) (dgram : IPv4Datagram) :
    NetworkInterface :=
  { n with
    framesOut := n.framesOut ++
      [n.arpFrame .broadcast (n.arpRequest nextHopIp).fields]
    addrMp := Function.update n.addrMp nextHopIp (some (5000, .broadcast))
    dataMp := Function.update n.dataMp nextHopIp (some dgram) }

/-- Sending asks for a next hop that is not in the table. -/
theorem sendDatagram_of_unknown {n : NetworkInterface} {nextHop : Address}
    (h : n.addrMp nextHop.ipv4Numeric = none) (dgram : IPv4Datagram) :
    n.sendDatagram dgram nextHop =
      (n.asking nextHop.ipv4Numeric dgram, .ok ()) := by
  have hrequest := serialize_of_supported
    (n.supported_arpRequest nextHop.ipv4Numeric)
  simp only [sendDatagram, h, hrequest]
  rfl

/-- Sending does nothing while a request is pending. -/
theorem sendDatagram_of_pending {n : NetworkInterface} {nextHop : Address}
    {time : ℕ} (h : n.addrMp nextHop.ipv4Numeric = some (time, .broadcast))
    (dgram : IPv4Datagram) : n.sendDatagram dgram nextHop = (n, .ok ()) := by
  simp [sendDatagram, h]

/-- Sending to a known next hop makes a frame. -/
theorem sendDatagram_of_known {n : NetworkInterface} {nextHop : Address}
    {time : ℕ} {address : EthernetAddress}
    (h : n.addrMp nextHop.ipv4Numeric = some (time, address))
    (hknown : address ≠ .broadcast) {dgram : IPv4Datagram}
    (hdgram : dgram.Serializable) :
    n.sendDatagram dgram nextHop =
      (n.pushFrame (n.ipv4Frame address dgram.wire nextHop.ipv4Numeric dgram),
        .ok ()) := by
  simp [sendDatagram, h, hknown, IPv4Datagram.serialize_eq hdgram]

/-- The three things that sending can do. -/
theorem sendDatagram_cases (n : NetworkInterface) {dgram : IPv4Datagram}
    (hdgram : dgram.Serializable) (nextHop : Address) :
    n.sendDatagram dgram nextHop =
        (n.asking nextHop.ipv4Numeric dgram, .ok ()) ∨
      n.sendDatagram dgram nextHop = (n, .ok ()) ∨
      ∃ time address,
        n.addrMp nextHop.ipv4Numeric = some (time, address) ∧
          address ≠ .broadcast ∧
          n.sendDatagram dgram nextHop =
            (n.pushFrame (n.ipv4Frame address dgram.wire nextHop.ipv4Numeric
              dgram), .ok ()) := by
  cases hentry : n.addrMp nextHop.ipv4Numeric with
  | none => exact Or.inl (sendDatagram_of_unknown hentry dgram)
  | some entry =>
      obtain ⟨time, address⟩ := entry
      by_cases hknown : address = .broadcast
      · subst hknown
        exact Or.inr (Or.inl (sendDatagram_of_pending hentry dgram))
      · exact Or.inr (Or.inr ⟨time, address, rfl, hknown,
          sendDatagram_of_known hentry hknown hdgram⟩)

theorem snd_sendDatagram (n : NetworkInterface) {dgram : IPv4Datagram}
    (hdgram : dgram.Serializable) (nextHop : Address) :
    (n.sendDatagram dgram nextHop).2 = .ok () := by
  rcases n.sendDatagram_cases hdgram nextHop with
    hasks | hwaits | ⟨time, address, -, -, hsends⟩
  · rw [hasks]
  · rw [hwaits]
  · rw [hsends]

/-- What sending can do to the interface when the datagram may be one that cannot
be serialized. -/
theorem fst_sendDatagram_cases (n : NetworkInterface) (dgram : IPv4Datagram)
    (nextHop : Address) :
    (n.addrMp nextHop.ipv4Numeric = none ∧
        (n.sendDatagram dgram nextHop).1 =
          n.asking nextHop.ipv4Numeric dgram) ∨
      (n.sendDatagram dgram nextHop).1 = n ∨
      ∃ time address,
        n.addrMp nextHop.ipv4Numeric = some (time, address) ∧
          address ≠ .broadcast ∧
          (n.sendDatagram dgram nextHop).1 =
            n.pushFrame (n.ipv4Frame address dgram.wire nextHop.ipv4Numeric
              dgram) := by
  cases hentry : n.addrMp nextHop.ipv4Numeric with
  | none => exact Or.inl ⟨rfl, by rw [sendDatagram_of_unknown hentry dgram]⟩
  | some entry =>
      obtain ⟨time, address⟩ := entry
      refine Or.inr ?_
      by_cases hknown : address = .broadcast
      · subst hknown
        exact Or.inl (by rw [sendDatagram_of_pending hentry dgram])
      by_cases hdgram : dgram.Serializable
      · exact Or.inr ⟨time, address, rfl, hknown, by
          rw [sendDatagram_of_known hentry hknown hdgram]⟩
      · obtain ⟨e, he⟩ := dgram.serialize_eq_error_iff.mpr hdgram
        exact Or.inl (by simp [sendDatagram, hentry, hknown, he])

/-- The frames with the datagram that waits for the sender of an ARP message. -/
def heldFrames (n : NetworkInterface) (am : ARPMessage) : List SentFrame :=
  ((n.dataMp am.senderIpAddress).map fun dgram =>
    n.ipv4Frame am.senderEthernetAddress dgram.wire am.senderIpAddress
      dgram).toList

/-- The frames with the answer to an ARP message. -/
def answerFrames (n : NetworkInterface) (am : ARPMessage) : List SentFrame :=
  if am.opcode = ARPMessage.opcodeRequest ∧
      am.targetIpAddress = n.ipAddress.ipv4Numeric then
    [n.arpFrame am.senderEthernetAddress (n.arpReply am).fields]
  else []

theorem mem_heldFrames {n : NetworkInterface} {am : ARPMessage}
    {frame : SentFrame} :
    frame ∈ n.heldFrames am ↔
      ∃ dgram, n.dataMp am.senderIpAddress = some dgram ∧
        n.ipv4Frame am.senderEthernetAddress dgram.wire am.senderIpAddress
          dgram = frame := by
  simp [heldFrames]

theorem mem_answerFrames {n : NetworkInterface} {am : ARPMessage}
    {frame : SentFrame} :
    frame ∈ n.answerFrames am ↔
      (am.opcode = ARPMessage.opcodeRequest ∧
        am.targetIpAddress = n.ipAddress.ipv4Numeric) ∧
        frame = n.arpFrame am.senderEthernetAddress
          (n.arpReply am).fields := by
  unfold answerFrames
  split <;> simp [*]

/-- The interface after an ARP message. -/
def processed (n : NetworkInterface) (am : ARPMessage) : NetworkInterface :=
  { n with
    framesOut := n.framesOut ++ (n.heldFrames am ++ n.answerFrames am)
    addrMp := Function.update n.addrMp am.senderIpAddress
      (some (30000, am.senderEthernetAddress))
    dataMp := Function.update n.dataMp am.senderIpAddress none }

theorem answer_eq (n : NetworkInterface) (am : ARPMessage) :
    n.answer am =
      ({ n with framesOut := n.framesOut ++ n.answerFrames am }, .ok ()) := by
  unfold answer answerFrames
  split
  · rw [serialize_of_supported (n.supported_arpReply am)]
    rfl
  · rw [List.append_nil]

/-- If the datagram that waits can be serialized, then nothing is thrown. -/
theorem processArp_eq {n : NetworkInterface} {am : ARPMessage}
    (h : ∀ dgram, n.dataMp am.senderIpAddress = some dgram →
      dgram.Serializable) :
    n.processArp am = (n.processed am, .ok ()) := by
  cases hheld : n.dataMp am.senderIpAddress with
  | none =>
      have hsend : (n.learn am).sendHeld am = (n.learn am, .ok ()) := by
        simp [sendHeld, learn, hheld]
      have hsame : Function.update n.dataMp am.senderIpAddress none =
          n.dataMp := by
        rw [Function.update_eq_self_iff, hheld]
      simp only [processArp, hsend, answer_eq, processed, hsame, heldFrames,
        hheld, Option.map_none, Option.toList_none, List.nil_append]
      rfl
  | some dgram =>
      have hserialize := IPv4Datagram.serialize_eq (h dgram hheld)
      simp only [processArp, sendHeld, learn, hheld, hserialize, answer_eq,
        processed, heldFrames, Option.map_some, Option.toList_some]
      simp only [pushFrame, List.append_assoc]
      rfl

/-- If it cannot, then the sender has been entered when the exception is
thrown, and nothing else has been done. -/
theorem processArp_cases (n : NetworkInterface) (am : ARPMessage) :
    n.processArp am = (n.processed am, .ok ()) ∨
      ∃ e, n.processArp am = (n.learn am, .error e) := by
  by_cases hheld : ∀ dgram, n.dataMp am.senderIpAddress = some dgram →
      dgram.Serializable
  · exact Or.inl (processArp_eq hheld)
  · push Not at hheld
    obtain ⟨dgram, hdata, hdgram⟩ := hheld
    obtain ⟨e, he⟩ := dgram.serialize_eq_error_iff.mpr hdgram
    refine Or.inr ⟨e, ?_⟩
    simp only [processArp, sendHeld, learn, hdata, he]

/-- Everything that is held can be serialized. -/
def HoldsSerializable (n : NetworkInterface) : Prop :=
  ∀ ip dgram, n.dataMp ip = some dgram → dgram.Serializable

theorem HoldsSerializable.asking {n : NetworkInterface}
    (h : n.HoldsSerializable) {dgram : IPv4Datagram}
    (hdgram : dgram.Serializable) (nextHopIp : UInt32) :
    (n.asking nextHopIp dgram).HoldsSerializable :=
  Support.Table.forall_insert h hdgram

theorem HoldsSerializable.processed {n : NetworkInterface}
    (h : n.HoldsSerializable) (am : ARPMessage) :
    (n.processed am).HoldsSerializable :=
  Support.Table.forall_erase h am.senderIpAddress

/-- The ARP message that a frame makes an interface process. -/
def arpMessage? (frame : EthernetFrame) : Option ARPMessage :=
  if frame.header.type = EthernetHeader.typeARP then
    match frame.payload.toBuffer with
    | .error _ => none
    | .ok buffer =>
        match ARPMessage.parse {} buffer with
        | (.noError, am) => some am
        | _ => none
  else none

theorem arpMessage?_of_ipv4 {frame : EthernetFrame}
    (htype : frame.header.type = EthernetHeader.typeIPv4) :
    arpMessage? frame = none := by
  have hne : ¬frame.header.type = EthernetHeader.typeARP := by
    rw [htype]
    decide
  exact if_neg hne

/-- A supported message in one buffer is read as it was written. -/
theorem arpMessage?_of_arp {frame : EthernetFrame} {am : ARPMessage}
    (htype : frame.header.type = EthernetHeader.typeARP)
    (hpayload : frame.payload = [am.fields]) (hsupported : am.Supported) :
    arpMessage? frame = some am := by
  simp only [arpMessage?, htype, hpayload, BufferList.toBuffer,
    ARPMessage.parse_fields hsupported, if_true]

/-- A frame without an ARP message does not change the interface. -/
theorem recvFrame_of_none (n : NetworkInterface) {frame : EthernetFrame}
    (h : arpMessage? frame = none) : (n.recvFrame frame).1 = n := by
  unfold arpMessage? at h
  unfold recvFrame
  split_ifs with hipv4 harp
  · cases frame.payload.toBuffer with
    | error e => rfl
    | ok buffer =>
        dsimp only
        split <;> rfl
  · rw [if_pos harp] at h
    cases hbuffer : frame.payload.toBuffer with
    | error e => rfl
    | ok buffer =>
        rw [hbuffer] at h
        dsimp only at h ⊢
        split at h
        · cases h
        · rfl
  · rfl

/-- A frame with an ARP message is processed, and no datagram is returned. -/
theorem recvFrame_of_some (n : NetworkInterface) {frame : EthernetFrame}
    {am : ARPMessage} (h : arpMessage? frame = some am) :
    n.recvFrame frame =
      ((n.processArp am).1, (n.processArp am).2.map fun _ => none) := by
  unfold arpMessage? at h
  split_ifs at h with harp
  have hipv4 : ¬(frame.header.type = EthernetHeader.typeIPv4 ∧
      frame.header.dst = n.ethernetAddress) := by
    rintro ⟨htype, -⟩
    rw [harp] at htype
    exact absurd htype (by decide)
  unfold recvFrame
  rw [if_neg hipv4, if_pos harp]
  cases hbuffer : frame.payload.toBuffer with
  | error e =>
      rw [hbuffer] at h
      cases h
  | ok buffer =>
      rw [hbuffer] at h
      dsimp only at h ⊢
      split at h
      · cases h
        rcases n.processArp am with ⟨n', e | u⟩ <;> rfl
      · cases h

end NetworkInterface
end Sponge
