import Sponge.Packet.Ethernet
import Sponge.Packet.Faults
import Sponge.Packet.TCP

/-!
# The packet parsers are total

The parsers of all packet formats over the parser with faults.  The lengths of
the options are differences of unsigned numbers, and the checksum of an IPv4
header is read from the buffer as it was before the header was parsed.  The
order of the checks in the source makes sure that none of this is ever a fault,
so that each parser returns what the corresponding parser of the model returns.
-/

namespace Sponge.Checked

open Support

/-! ## Ethernet frames and ARP messages -/

/-- The loop that reads an address, for its six bytes. -/
def EthernetAddress.read (p : NetParser) :
    Except Fault (EthernetAddress × NetParser) := do
  let (b₀, p) ← p.u8
  let (b₁, p) ← p.u8
  let (b₂, p) ← p.u8
  let (b₃, p) ← p.u8
  let (b₄, p) ← p.u8
  let (b₅, p) ← p.u8
  return (⟨[b₀, b₁, b₂, b₃, b₄, b₅], rfl⟩, p)

def EthernetHeader.parse (h : EthernetHeader) (p : NetParser) :
    Except Fault (ParseResult × EthernetHeader × NetParser) := do
  if p.buffer.size < EthernetHeader.length then return (.packetTooShort, h, p)
  let (dst, p) ← EthernetAddress.read p
  let (src, p) ← EthernetAddress.read p
  let (type, p) ← p.u16
  return (p.error, ⟨dst, src, type⟩, p)

def EthernetFrame.parse (frame : EthernetFrame) (buffer : Util.Buffer) :
    Except Fault (ParseResult × EthernetFrame) := do
  let p : NetParser := { buffer := buffer }
  let (_, header, p) ← EthernetHeader.parse frame.header p
  return (p.error, ⟨header, [p.buffer.str]⟩)

def ARPMessage.parse (m : ARPMessage) (buffer : Util.Buffer) :
    Except Fault (ParseResult × ARPMessage) := do
  let p : NetParser := { buffer := buffer }
  if p.buffer.size < ARPMessage.length then return (.packetTooShort, m)
  let (hardwareType, p) ← p.u16
  let (protocolType, p) ← p.u16
  let (hardwareAddressSize, p) ← p.u8
  let (protocolAddressSize, p) ← p.u8
  let (opcode, p) ← p.u16
  let m :=
    { m with
      hardwareType := hardwareType
      protocolType := protocolType
      hardwareAddressSize := hardwareAddressSize
      protocolAddressSize := protocolAddressSize
      opcode := opcode }
  if ¬m.Supported then return (.unsupported, m)
  let (senderEthernetAddress, p) ← EthernetAddress.read p
  let (senderIpAddress, p) ← p.u32
  let (targetEthernetAddress, p) ← EthernetAddress.read p
  let (targetIpAddress, p) ← p.u32
  return (p.error,
    { m with
      senderEthernetAddress := senderEthernetAddress
      senderIpAddress := senderIpAddress
      targetEthernetAddress := targetEthernetAddress
      targetIpAddress := targetIpAddress })

/-! ## IPv4 datagrams -/

/-- The fields of the header, in the order in which they are read. -/
def IPv4Header.readFields (p : NetParser) :
    Except Fault (IPv4Header × NetParser) := do
  let (firstByte, p) ← p.u8
  let (tos, p) ← p.u8
  let (len, p) ← p.u16
  let (id, p) ← p.u16
  let (foVal, p) ← p.u16
  let (ttl, p) ← p.u8
  let (proto, p) ← p.u8
  let (cksum, p) ← p.u16
  let (src, p) ← p.u32
  let (dst, p) ← p.u32
  return (
    { ver := firstByte >>> 4
      hlen := firstByte &&& 0x0f
      tos := tos
      len := len
      id := id
      df := foVal &&& 0x4000 != 0
      mf := foVal &&& 0x2000 != 0
      offset := foVal &&& 0x1fff
      ttl := ttl
      proto := proto
      cksum := cksum
      src := src
      dst := dst }, p)

def IPv4Header.parse (h : IPv4Header) (p : NetParser) :
    Except Fault (ParseResult × IPv4Header × NetParser) := do
  let originalSerializedVersion := p.buffer
  let dataSize := p.buffer.size
  if dataSize < IPv4Header.length then return (.packetTooShort, h, p)
  let (h, p) ← IPv4Header.readFields p
  if dataSize < 4 * h.hlen.toNat then return (.packetTooShort, h, p)
  if h.ver ≠ 4 then return (.wrongIPVersion, h, p)
  if h.hlen < 5 then return (.headerTooShort, h, p)
  if dataSize ≠ h.len.toNat then return (.truncatedPacket, h, p)
  let options ← subtract (h.hlen.toNat * 4) IPv4Header.length
  let p ← p.removePrefix options
  if p.error ≠ .noError then return (p.error, h, p)
  let header ← front originalSerializedVersion (4 * h.hlen.toNat)
  let check := InternetChecksum.add {} header
  if check.value ≠ 0 then return (.badChecksum, h, p)
  return (.noError, h, p)

def IPv4Datagram.parse (d : IPv4Datagram) (buffer : Util.Buffer) :
    Except Fault (ParseResult × IPv4Datagram) := do
  let p : NetParser := { buffer := buffer }
  let (_, header, p) ← IPv4Header.parse d.header p
  let payload : BufferList := [p.buffer.str]
  if payload.size ≠ header.payloadLength.toNat then
    return (.packetTooShort, ⟨header, payload⟩)
  return (p.error, ⟨header, payload⟩)

/-! ## TCP segments -/

/-- The fields of the header, in the order in which they are read. -/
def TCPHeader.readFields (p : NetParser) :
    Except Fault (TCPHeader × NetParser) := do
  let (sport, p) ← p.u16
  let (dport, p) ← p.u16
  let (seqno, p) ← p.u32
  let (ackno, p) ← p.u32
  let (doff, p) ← p.u8
  let (flB, p) ← p.u8
  let (win, p) ← p.u16
  let (cksum, p) ← p.u16
  let (uptr, p) ← p.u16
  return (
    { sport := sport
      dport := dport
      seqno := ⟨seqno⟩
      ackno := ⟨ackno⟩
      doff := doff >>> 4
      urg := flB &&& 0b00100000 != 0
      ack := flB &&& 0b00010000 != 0
      psh := flB &&& 0b00001000 != 0
      rst := flB &&& 0b00000100 != 0
      syn := flB &&& 0b00000010 != 0
      fin := flB &&& 0b00000001 != 0
      win := win
      cksum := cksum
      uptr := uptr }, p)

def TCPHeader.parse (p : NetParser) :
    Except Fault (ParseResult × TCPHeader × NetParser) := do
  let (h, p) ← TCPHeader.readFields p
  if h.doff < 5 then return (.headerTooShort, h, p)
  let options ← subtract (h.doff.toNat * 4) TCPHeader.length
  let p ← p.removePrefix options
  if p.error ≠ .noError then return (p.error, h, p)
  return (.noError, h, p)

def TCPSegment.parse (seg : TCPSegment) (buffer : Util.Buffer)
    (datagramLayerChecksum : UInt32) :
    Except Fault (ParseResult × TCPSegment) := do
  let check := InternetChecksum.add { sum := datagramLayerChecksum } buffer.str
  if check.value ≠ 0 then return (.badChecksum, seg)
  let (_, header, p) ← TCPHeader.parse { buffer := buffer }
  return (p.error, ⟨header, p.buffer.str⟩)

/-! ## No parser reaches a fault -/

/-- What a header parser returns, with the bytes of its buffer only. -/
def shownResult {H : Type} (result : ParseResult × H × NetParser) :
    ParseResult × H × Sponge.NetParser :=
  (result.1, result.2.1, result.2.2.shown)

/-- What a reader of fields returns, with the bytes of its buffer only. -/
def shownFields {H : Type} (result : H × NetParser) : H × Sponge.NetParser :=
  (result.1, result.2.shown)

theorem NetParser.shown_start (buffer : Util.Buffer) :
    ({ buffer := buffer } : NetParser).shown = { buffer := buffer.str } :=
  rfl

theorem NetParser.error_eq (p : NetParser) : p.error = p.shown.error :=
  rfl

/-- The parser after an address. -/
def NetParser.skipAddress (p : NetParser) : NetParser :=
  (((((p.skip 1).skip 1).skip 1).skip 1).skip 1).skip 1

theorem EthernetAddress.read_eq (p : NetParser) :
    EthernetAddress.read p =
      .ok ((Sponge.EthernetAddress.read p.shown).1, p.skipAddress) := by
  simp only [EthernetAddress.read, Sponge.EthernetAddress.read,
    Sponge.NetParser.bytes, bind, Except.bind, pure, Except.pure,
    NetParser.u8_eq, NetParser.shown_skip_u8, NetParser.skipAddress]

theorem NetParser.shown_skipAddress (p : NetParser) :
    p.skipAddress.shown = (Sponge.EthernetAddress.read p.shown).2 := by
  simp only [Sponge.EthernetAddress.read, Sponge.NetParser.bytes,
    NetParser.shown_skip_u8, NetParser.skipAddress]

theorem EthernetHeader.yields_parse (h : EthernetHeader) (p : NetParser) :
    Yields shownResult (EthernetHeader.parse h p) (h.parse p.shown) := by
  refine Yields.ite (fun _ => .ok rfl) fun _ => ?_
  simp only [EthernetAddress.read_eq, NetParser.u16_eq, bind, Except.bind,
    NetParser.shown_skipAddress]
  apply Yields.ok
  simp only [shownResult, NetParser.error_eq, NetParser.shown_skip_u16,
    NetParser.shown_skipAddress]

theorem EthernetFrame.parse_eq (frame : EthernetFrame)
    (buffer : Util.Buffer) :
    EthernetFrame.parse frame buffer = .ok (frame.parse buffer.str) := by
  rw [← yields_id, Sponge.EthernetFrame.parse]
  apply (EthernetHeader.yields_parse frame.header _).bind
  rintro ⟨result, header, p⟩ hheader
  rw [NetParser.shown_start] at hheader
  rw [← hheader]
  exact Yields.ok rfl

theorem ARPMessage.parse_eq (m : ARPMessage) (buffer : Util.Buffer) :
    ARPMessage.parse m buffer = .ok (m.parse buffer.str) := by
  simp only [ARPMessage.parse, Sponge.ARPMessage.parse, bind, Except.bind,
    pure, Except.pure, NetParser.u8_eq, NetParser.u16_eq, NetParser.u32_eq,
    EthernetAddress.read_eq, NetParser.error_eq, NetParser.shown_skip_u8,
    NetParser.shown_skip_u16, NetParser.shown_skip_u32,
    NetParser.shown_skipAddress, NetParser.shown_start, Util.Buffer.size,
    apply_ite Except.ok]

theorem IPv4Header.yields_readFields (p : NetParser) :
    Yields shownFields (IPv4Header.readFields p)
      (Sponge.IPv4Header.readFields p.shown) := by
  simp only [IPv4Header.readFields, Sponge.IPv4Header.readFields, bind,
    Except.bind, pure, Except.pure, NetParser.u8_eq, NetParser.u16_eq,
    NetParser.u32_eq, NetParser.shown_skip_u8, NetParser.shown_skip_u16,
    NetParser.shown_skip_u32]
  apply Yields.ok
  simp only [shownFields, NetParser.shown_skip_u8, NetParser.shown_skip_u16,
    NetParser.shown_skip_u32]

/-- The options are skipped, and the checksum is read, only after the header
length was compared with both the minimum and the size of the buffer. -/
theorem IPv4Header.yields_parse (h : IPv4Header) (p : NetParser) :
    Yields shownResult (IPv4Header.parse h p) (h.parse p.shown) := by
  rw [IPv4Header.parse, Sponge.IPv4Header.parse]
  refine Yields.ite (fun _ => .ok rfl) fun _ => ?_
  apply (IPv4Header.yields_readFields p).bind
  rintro ⟨header, p₁⟩ hread
  rw [← hread]
  refine Yields.ite (fun _ => .ok rfl) fun hsize => ?_
  refine Yields.ite (fun _ => .ok rfl) fun _ => ?_
  refine Yields.ite (fun _ => .ok rfl) fun hhlen => ?_
  refine Yields.ite (fun _ => .ok rfl) fun _ => ?_
  have hoptions : IPv4Header.length ≤ header.hlen.toNat * 4 := by
    have hge : 5 ≤ header.hlen.toNat := Nat.not_lt.mp hhlen
    rw [IPv4Header.length]
    omega
  apply (yields_subtract hoptions).bind
  rintro options rfl
  apply (p₁.yields_removePrefix _).bind
  rintro p₂ hskip
  simp only [← hskip]
  refine Yields.ite (fun _ => .ok rfl) fun _ => ?_
  apply (yields_front (Nat.not_lt.mp hsize)).bind
  rintro bytes rfl
  exact Yields.ite (fun _ => .ok rfl) fun _ => .ok rfl

theorem IPv4Datagram.parse_eq (d : IPv4Datagram) (buffer : Util.Buffer) :
    IPv4Datagram.parse d buffer = .ok (d.parse buffer.str) := by
  rw [← yields_id, Sponge.IPv4Datagram.parse]
  apply (IPv4Header.yields_parse d.header _).bind
  rintro ⟨result, header, p⟩ hheader
  rw [NetParser.shown_start] at hheader
  rw [← hheader]
  exact Yields.ite (fun _ => .ok rfl) fun _ => .ok rfl

theorem TCPHeader.yields_readFields (p : NetParser) :
    Yields shownFields (TCPHeader.readFields p)
      (Sponge.TCPHeader.readFields p.shown) := by
  simp only [TCPHeader.readFields, Sponge.TCPHeader.readFields, bind,
    Except.bind, pure, Except.pure, NetParser.u8_eq, NetParser.u16_eq,
    NetParser.u32_eq, NetParser.shown_skip_u8, NetParser.shown_skip_u16,
    NetParser.shown_skip_u32]
  apply Yields.ok
  simp only [shownFields, NetParser.shown_skip_u8, NetParser.shown_skip_u16,
    NetParser.shown_skip_u32]

/-- The options are skipped only after the data offset was compared with the
minimum; that they are there is checked by the parser. -/
theorem TCPHeader.yields_parse (p : NetParser) :
    Yields shownResult (TCPHeader.parse p)
      (Sponge.TCPHeader.parse p.shown) := by
  rw [TCPHeader.parse, Sponge.TCPHeader.parse]
  apply (TCPHeader.yields_readFields p).bind
  rintro ⟨header, p₁⟩ hread
  rw [← hread]
  refine Yields.ite (fun _ => .ok rfl) fun hdoff => ?_
  have hoptions : TCPHeader.length ≤ header.doff.toNat * 4 := by
    have hge : 5 ≤ header.doff.toNat := Nat.not_lt.mp hdoff
    rw [TCPHeader.length]
    omega
  apply (yields_subtract hoptions).bind
  rintro options rfl
  apply (p₁.yields_removePrefix _).bind
  rintro p₂ hskip
  simp only [← hskip]
  exact Yields.ite (fun _ => .ok rfl) fun _ => .ok rfl

theorem TCPSegment.parse_eq (seg : TCPSegment) (buffer : Util.Buffer)
    (sum : UInt32) :
    TCPSegment.parse seg buffer sum = .ok (seg.parse buffer.str sum) := by
  rw [← yields_id, Sponge.TCPSegment.parse]
  refine Yields.ite (fun _ => .ok rfl) fun _ => ?_
  apply (TCPHeader.yields_parse _).bind
  rintro ⟨result, header, p⟩ hheader
  rw [NetParser.shown_start] at hheader
  rw [← hheader]
  exact Yields.ok rfl

/-- **The parsers are total.**  On every buffer, each parser returns what the
parser of the model returns on the bytes that the buffer shows: no exception is
thrown, no length is below 0, and no byte past the end is read.  After an error
all further reads give 0 and consume nothing. -/
theorem parsers_total (buffer : Util.Buffer) :
    (∀ frame : EthernetFrame,
        EthernetFrame.parse frame buffer = .ok (frame.parse buffer.str)) ∧
      (∀ m : ARPMessage,
        ARPMessage.parse m buffer = .ok (m.parse buffer.str)) ∧
      (∀ d : IPv4Datagram,
        IPv4Datagram.parse d buffer = .ok (d.parse buffer.str)) ∧
      (∀ (seg : TCPSegment) (datagramLayerChecksum : UInt32),
        TCPSegment.parse seg buffer datagramLayerChecksum =
          .ok (seg.parse buffer.str datagramLayerChecksum)) ∧
      ∀ p : NetParser, p.error ≠ .noError → ∀ reads,
        ∃ vals p', readAll p reads = .ok (vals, p') ∧
          (∀ val ∈ vals, val = 0) ∧ p'.buffer = p.buffer ∧
          p'.error ≠ .noError := by
  refine ⟨fun frame => EthernetFrame.parse_eq frame buffer,
    fun m => ARPMessage.parse_eq m buffer,
    fun d => IPv4Datagram.parse_eq d buffer,
    fun seg sum => TCPSegment.parse_eq seg buffer sum, ?_⟩
  intro p herror reads
  exact stuck_readAll herror reads

/-- A header that claims 60 bytes in a buffer of 20, and reads after an
error. -/
theorem parsers_total_long_header :
    let buffer : Util.Buffer := .ofString (0x4f :: List.replicate 19 0)
    IPv4Datagram.parse {} buffer =
        .ok (Sponge.IPv4Datagram.parse {} buffer.str) ∧
      ∃ vals p', readAll ⟨buffer, .packetTooShort⟩
          [.u32, .removePrefix 4, .u8] = .ok (vals, p') ∧
        (∀ val ∈ vals, val = 0) ∧ p'.buffer = buffer ∧
        p'.error ≠ .noError := by
  intro buffer
  obtain ⟨-, -, hdatagram, -, hreads⟩ := parsers_total buffer
  refine ⟨hdatagram {}, hreads ⟨buffer, .packetTooShort⟩ ?_ _⟩
  intro herror
  cases herror

end Sponge.Checked
