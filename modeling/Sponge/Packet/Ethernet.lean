import Sponge.Packet.Parser

/-!
# Ethernet frames and ARP messages

An Ethernet address is an array of six bytes.  `EthernetFrame::parse` drops the
result of the header parser, like the other packet parsers.
-/

namespace Sponge

/-! ## Addresses -/

structure EthernetAddress where
  bytes : List UInt8
  length_eq : bytes.length = 6
deriving DecidableEq

namespace EthernetAddress

/-- A value-initialized array. -/
def zero : EthernetAddress := ⟨[0, 0, 0, 0, 0, 0], rfl⟩

def broadcast : EthernetAddress :=
  ⟨[0xff, 0xff, 0xff, 0xff, 0xff, 0xff], rfl⟩

/-- The loop that reads an address byte by byte. -/
def read (p : NetParser) : EthernetAddress × NetParser :=
  (⟨(p.bytes 6).1, p.length_bytes 6⟩, (p.bytes 6).2)

/-- The loop that writes an address byte by byte. -/
def write (address : EthernetAddress) : List UInt8 :=
  address.bytes.flatMap NetUnparser.u8

theorem write_eq (address : EthernetAddress) :
    address.write = address.bytes := by
  simp [write, funext NetUnparser.u8_eq]

@[simp] theorem length_write (address : EthernetAddress) :
    address.write.length = 6 := by
  rw [write_eq, address.length_eq]

@[simp] theorem read_append (address : EthernetAddress) (rest : List UInt8) :
    read ⟨address.write ++ rest, .noError⟩ =
      (address, ⟨rest, .noError⟩) := by
  have hbytes := NetParser.bytes_append address.bytes rest
  rw [address.length_eq] at hbytes
  simp only [read, write_eq, hbytes]

theorem exists_write {b : List UInt8} (h : 6 ≤ b.length) :
    ∃ address rest, b = write address ++ rest := by
  refine ⟨⟨b.take 6, List.length_take_of_le h⟩, b.drop 6, ?_⟩
  rw [write_eq, List.take_append_drop]

end EthernetAddress

/-! ## Frames -/

structure EthernetHeader where
  dst : EthernetAddress := .zero
  src : EthernetAddress := .zero
  type : UInt16 := 0
deriving DecidableEq

namespace EthernetHeader

def length : ℕ := 14

def typeIPv4 : UInt16 := 0x800

def typeARP : UInt16 := 0x806

def parse (h : EthernetHeader) (p : NetParser) :
    ParseResult × EthernetHeader × NetParser :=
  if p.buffer.length < length then (.packetTooShort, h, p)
  else
    let (dst, p) := EthernetAddress.read p
    let (src, p) := EthernetAddress.read p
    let (type, p) := p.u16
    (p.error, ⟨dst, src, type⟩, p)

def serialize (h : EthernetHeader) : List UInt8 :=
  h.dst.write ++ h.src.write ++ NetUnparser.u16 h.type

theorem parse_serialize (h fresh : EthernetHeader) (rest : List UInt8) :
    fresh.parse ⟨h.serialize ++ rest, .noError⟩ =
      (.noError, h, ⟨rest, .noError⟩) := by
  have hlen : ¬(h.serialize ++ rest).length < length := by
    simp only [serialize, List.length_append, EthernetAddress.length_write,
      NetUnparser.length_u16, length]
    omega
  simp only [parse, if_neg hlen]
  simp only [serialize, List.append_assoc, EthernetAddress.read_append,
    NetParser.u16_append]

/-- Bytes enough for a header begin with a serialized one. -/
theorem exists_serialize {b : List UInt8} (h : length ≤ b.length) :
    ∃ header rest, b = serialize header ++ rest := by
  unfold length at h
  obtain ⟨dst, b₁, rfl⟩ := EthernetAddress.exists_write (b := b) (by omega)
  rw [List.length_append, EthernetAddress.length_write] at h
  obtain ⟨src, b₂, rfl⟩ := EthernetAddress.exists_write (b := b₁) (by omega)
  rw [List.length_append, EthernetAddress.length_write] at h
  obtain ⟨type, rest, rfl⟩ := NetUnparser.exists_u16 (b := b₂) (by omega)
  refine ⟨⟨dst, src, type⟩, rest, ?_⟩
  simp only [serialize, List.append_assoc]

end EthernetHeader

structure EthernetFrame where
  header : EthernetHeader := {}
  payload : BufferList := []
deriving DecidableEq

namespace EthernetFrame

def parse (frame : EthernetFrame) (buffer : Buffer) :
    ParseResult × EthernetFrame :=
  let p : NetParser := { buffer := buffer }
  let (_, header, p) := frame.header.parse p
  (p.error, ⟨header, [p.buffer]⟩)

def serialize (frame : EthernetFrame) : BufferList :=
  [frame.header.serialize] ++ frame.payload

/-- A frame is parsed to itself after it was serialized, with its payload in one
buffer. -/
theorem parse_serialize (frame fresh : EthernetFrame) :
    fresh.parse frame.serialize.concatenate =
      (.noError, ⟨frame.header, [frame.payload.concatenate]⟩) := by
  have hbytes : frame.serialize.concatenate =
      frame.header.serialize ++ frame.payload.concatenate := by
    simp [serialize, BufferList.concatenate]
  simp only [parse, hbytes, EthernetHeader.parse_serialize]

/-- Bytes enough for a header are serialized to themselves after they were
parsed. -/
theorem serialize_parse (fresh : EthernetFrame) {b : List UInt8}
    (h : EthernetHeader.length ≤ b.length) :
    (fresh.parse b).2.serialize.concatenate = b := by
  obtain ⟨header, rest, rfl⟩ := EthernetHeader.exists_serialize h
  simp [parse, EthernetHeader.parse_serialize, serialize,
    BufferList.concatenate]

end EthernetFrame

/-! ## ARP messages -/

/-- `ARPMessage` with its defaults. -/
structure ARPMessage where
  hardwareType : UInt16 := 1
  protocolType : UInt16 := EthernetHeader.typeIPv4
  hardwareAddressSize : UInt8 := 6
  protocolAddressSize : UInt8 := 4
  opcode : UInt16 := 0
  senderEthernetAddress : EthernetAddress := .zero
  senderIpAddress : UInt32 := 0
  targetEthernetAddress : EthernetAddress := .zero
  targetIpAddress : UInt32 := 0
deriving DecidableEq

namespace ARPMessage

def length : ℕ := 28

def typeEthernet : UInt16 := 1

def opcodeRequest : UInt16 := 1

def opcodeReply : UInt16 := 2

def Supported (m : ARPMessage) : Prop :=
  m.hardwareType = typeEthernet ∧ m.protocolType = EthernetHeader.typeIPv4 ∧
    m.hardwareAddressSize = 6 ∧ m.protocolAddressSize = 4 ∧
    (m.opcode = opcodeRequest ∨ m.opcode = opcodeReply)

instance (m : ARPMessage) : Decidable m.Supported :=
  inferInstanceAs (Decidable (_ ∧ _))

def parse (m : ARPMessage) (buffer : Buffer) : ParseResult × ARPMessage :=
  let p : NetParser := { buffer := buffer }
  if p.buffer.length < length then (.packetTooShort, m)
  else
    let (hardwareType, p) := p.u16
    let (protocolType, p) := p.u16
    let (hardwareAddressSize, p) := p.u8
    let (protocolAddressSize, p) := p.u8
    let (opcode, p) := p.u16
    let m :=
      { m with
        hardwareType := hardwareType
        protocolType := protocolType
        hardwareAddressSize := hardwareAddressSize
        protocolAddressSize := protocolAddressSize
        opcode := opcode }
    if ¬m.Supported then (.unsupported, m)
    else
      let (senderEthernetAddress, p) := EthernetAddress.read p
      let (senderIpAddress, p) := p.u32
      let (targetEthernetAddress, p) := EthernetAddress.read p
      let (targetIpAddress, p) := p.u32
      (p.error,
        { m with
          senderEthernetAddress := senderEthernetAddress
          senderIpAddress := senderIpAddress
          targetEthernetAddress := targetEthernetAddress
          targetIpAddress := targetIpAddress })

/-- What `serialize` writes once its check has passed, up to the addresses. -/
def fieldsFront (m : ARPMessage) : List UInt8 :=
  NetUnparser.u16 m.hardwareType ++ NetUnparser.u16 m.protocolType ++
    NetUnparser.u8 m.hardwareAddressSize ++
    NetUnparser.u8 m.protocolAddressSize ++ NetUnparser.u16 m.opcode

def fields (m : ARPMessage) : List UInt8 :=
  m.fieldsFront ++ m.senderEthernetAddress.write ++
    NetUnparser.u32 m.senderIpAddress ++ m.targetEthernetAddress.write ++
    NetUnparser.u32 m.targetIpAddress

def serialize (m : ARPMessage) : Except Exception (List UInt8) :=
  if ¬m.Supported then
    .error (.runtimeError ("ARPMessage::serialize(): unsupported field " ++
      "combination (must be Ethernet/IP, and request or reply)"))
  else .ok m.fields

theorem length_fieldsFront (m : ARPMessage) : m.fieldsFront.length = 8 := by
  simp [fieldsFront]

theorem length_fields (m : ARPMessage) : m.fields.length = length := by
  simp [fields, length_fieldsFront, length]

/-- After a message was serialized, `parse` gives it back if it is supported, and
stops after the check otherwise. -/
theorem parse_fields_append (m fresh : ARPMessage) (rest : List UInt8) :
    fresh.parse (m.fields ++ rest) =
      if m.Supported then (.noError, m)
      else (.unsupported,
        { fresh with
          hardwareType := m.hardwareType
          protocolType := m.protocolType
          hardwareAddressSize := m.hardwareAddressSize
          protocolAddressSize := m.protocolAddressSize
          opcode := m.opcode }) := by
  have hlen : ¬(m.fields ++ rest).length < length := by
    rw [List.length_append, length_fields]
    omega
  simp only [parse, if_neg hlen]
  simp only [fields, fieldsFront, List.append_assoc, NetParser.u16_append,
    NetParser.u8_append, EthernetAddress.read_append, NetParser.u32_append]
  exact ite_not _ _ _

theorem parse_of_short (fresh : ARPMessage) {b : List UInt8}
    (h : b.length < length) : fresh.parse b = (.packetTooShort, fresh) := by
  simp only [parse, if_pos h]

/-- A supported message is parsed to itself after it was serialized. -/
theorem parse_fields {m : ARPMessage} (h : m.Supported) (fresh : ARPMessage) :
    fresh.parse m.fields = (.noError, m) := by
  have hparse := parse_fields_append m fresh []
  rwa [List.append_nil, if_pos h] at hparse

/-- Bytes enough for a message begin with one that was serialized, supported or
not. -/
theorem exists_fields {b : List UInt8} (h : length ≤ b.length) :
    ∃ m rest, b = fields m ++ rest := by
  unfold length at h
  obtain ⟨hardwareType, b₁, rfl⟩ :=
    NetUnparser.exists_u16 (b := b) (by omega)
  rw [List.length_append, NetUnparser.length_u16] at h
  obtain ⟨protocolType, b₂, rfl⟩ :=
    NetUnparser.exists_u16 (b := b₁) (by omega)
  rw [List.length_append, NetUnparser.length_u16] at h
  obtain ⟨hardwareAddressSize, b₃, rfl⟩ :=
    NetUnparser.exists_u8 (b := b₂) (by omega)
  rw [List.length_append, NetUnparser.length_u8] at h
  obtain ⟨protocolAddressSize, b₄, rfl⟩ :=
    NetUnparser.exists_u8 (b := b₃) (by omega)
  rw [List.length_append, NetUnparser.length_u8] at h
  obtain ⟨opcode, b₅, rfl⟩ := NetUnparser.exists_u16 (b := b₄) (by omega)
  rw [List.length_append, NetUnparser.length_u16] at h
  obtain ⟨senderEthernetAddress, b₆, rfl⟩ :=
    EthernetAddress.exists_write (b := b₅) (by omega)
  rw [List.length_append, EthernetAddress.length_write] at h
  obtain ⟨senderIpAddress, b₇, rfl⟩ :=
    NetUnparser.exists_u32 (b := b₆) (by omega)
  rw [List.length_append, NetUnparser.length_u32] at h
  obtain ⟨targetEthernetAddress, b₈, rfl⟩ :=
    EthernetAddress.exists_write (b := b₇) (by omega)
  rw [List.length_append, EthernetAddress.length_write] at h
  obtain ⟨targetIpAddress, rest, rfl⟩ :=
    NetUnparser.exists_u32 (b := b₈) (by omega)
  refine ⟨⟨hardwareType, protocolType, hardwareAddressSize,
    protocolAddressSize, opcode, senderEthernetAddress, senderIpAddress,
    targetEthernetAddress, targetIpAddress⟩, rest, ?_⟩
  simp only [fields, fieldsFront, List.append_assoc]

/-- Ethernet and IPv4 with addresses of 6 and 4 bytes, and the opcode of a
request or a reply. -/
def SupportedFront (b : List UInt8) : Prop :=
  b.take 8 = [0, 1, 8, 0, 6, 4, 0, 1] ∨ b.take 8 = [0, 1, 8, 0, 6, 4, 0, 2]

instance (b : List UInt8) : Decidable (SupportedFront b) :=
  inferInstanceAs (Decidable (_ ∨ _))

/-- Whether a message is supported can be seen from its first eight bytes. -/
theorem supportedFront_fields_iff (m : ARPMessage) (rest : List UInt8) :
    SupportedFront (m.fields ++ rest) ↔ m.Supported := by
  have hfront : (m.fields ++ rest).take 8 = m.fieldsFront := by
    simp only [fields, List.append_assoc]
    exact List.take_left' m.length_fieldsFront
  have hrequest : ([0, 1, 8, 0, 6, 4, 0, 1] : List UInt8) =
      fieldsFront { opcode := opcodeRequest } := by decide
  have hreply : ([0, 1, 8, 0, 6, 4, 0, 2] : List UInt8) =
      fieldsFront { opcode := opcodeReply } := by decide
  rw [SupportedFront, hfront, hrequest, hreply]
  simp only [fieldsFront, List.append_assoc, NetUnparser.u16_append_inj,
    NetUnparser.u8_append_inj, NetUnparser.u16_inj, Supported,
    typeEthernet]
  tauto

end ARPMessage

/-! ## Both codecs -/

/-- **The link-layer codecs are mutually inverse.**  A supported ARP message is
parsed to itself after it was serialized, whatever bytes follow it.  `parse`
accepts exactly the strings of at least 28 bytes whose first eight are those of a
supported message, and serializing what it gives writes the first 28 bytes
again.  An Ethernet frame is parsed to itself after it was serialized, with its
payload in one buffer, and a string of at least 14 bytes is serialized to itself
after it was parsed. -/
theorem link_layer_codecs_inverse :
    (∀ (m fresh : ARPMessage) (rest : List UInt8), m.Supported →
      ∃ bytes, m.serialize = .ok bytes ∧
        fresh.parse (bytes ++ rest) = (.noError, m)) ∧
    (∀ (fresh : ARPMessage) (b : List UInt8),
      ((fresh.parse b).1 = .noError ↔
        28 ≤ b.length ∧ ARPMessage.SupportedFront b) ∧
      ((fresh.parse b).1 = .noError →
        (fresh.parse b).2.serialize = .ok (b.take 28))) ∧
    (∀ frame fresh : EthernetFrame,
      fresh.parse frame.serialize.concatenate =
        (.noError, ⟨frame.header, [frame.payload.concatenate]⟩)) ∧
    (∀ (fresh : EthernetFrame) (b : List UInt8), 14 ≤ b.length →
      (fresh.parse b).2.serialize.concatenate = b) := by
  refine ⟨?_, ?_, ?_, ?_⟩
  · intro m fresh rest h
    refine ⟨m.fields, if_neg (not_not.mpr h), ?_⟩
    rw [ARPMessage.parse_fields_append, if_pos h]
  · intro fresh b
    by_cases hlen : 28 ≤ b.length
    · obtain ⟨m, rest, rfl⟩ := ARPMessage.exists_fields hlen
      have htake : (m.fields ++ rest).take 28 = m.fields :=
        List.take_left' m.length_fields
      rw [ARPMessage.parse_fields_append,
        ARPMessage.supportedFront_fields_iff, htake]
      by_cases h : m.Supported
      · rw [if_pos h]
        exact ⟨iff_of_true rfl ⟨hlen, h⟩, fun _ => if_neg (not_not.mpr h)⟩
      · rw [if_neg h]
        exact ⟨iff_of_false nofun fun hboth => h hboth.2, nofun⟩
    · rw [fresh.parse_of_short (Nat.lt_of_not_le hlen)]
      exact ⟨iff_of_false nofun fun hboth => hlen hboth.1, nofun⟩
  · intro frame fresh
    exact frame.parse_serialize fresh
  · intro fresh b h
    exact fresh.serialize_parse h

/-- A request from 10.0.0.1 for 10.0.0.2, followed by padding. -/
theorem link_layer_codecs_inverse_request :
    let b : List UInt8 := [0, 1, 8, 0, 6, 4, 0, 1, 2, 0, 0, 0, 0, 1, 10, 0, 0,
      1, 0, 0, 0, 0, 0, 0, 10, 0, 0, 2, 0, 0]
    (ARPMessage.parse {} b).1 = .noError ∧
      (ARPMessage.parse {} b).2.serialize = .ok (b.take 28) := by
  intro b
  obtain ⟨haccepts, hwrites⟩ := link_layer_codecs_inverse.2.1 {} b
  have h := haccepts.mpr (by decide)
  exact ⟨h, hwrites h⟩

end Sponge
