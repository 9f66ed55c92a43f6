import Sponge.Packet.Ethernet
import Sponge.Packet.TCP

/-!
# TCP segments in IPv4 datagrams

`TCPOverIPv4Adapter` wraps segments in datagrams and unwraps them again for the
connection that it is configured for.  Together with the packet formats this
gives the way of a segment from one host to another: into a datagram, into a
frame, over the wire as one string, and back.

An `Address` is an IPv4 address with a port; the conversions between numbers and
texts that the system library does are taken to be faithful.
-/

namespace Sponge

structure Address where
  ipv4Numeric : UInt32 := 0
  port : UInt16 := 0
deriving DecidableEq

structure FdAdapterConfig where
  source : Address := {}
  destination : Address := {}
deriving DecidableEq

structure TCPOverIPv4Adapter where
  config : FdAdapterConfig := {}
  listening : Bool := false
deriving DecidableEq

namespace TCPOverIPv4Adapter

/-- The segment with the ports of the connection. -/
def withPorts (a : TCPOverIPv4Adapter) (seg : TCPSegment) : TCPSegment :=
  { seg with
    header :=
      { seg.header with
        sport := a.config.source.port
        dport := a.config.destination.port } }

/-- The header of the datagram that carries the segment. -/
def datagramHeader (a : TCPOverIPv4Adapter) (seg : TCPSegment) : IPv4Header :=
  let header : IPv4Header :=
    { src := a.config.source.ipv4Numeric
      dst := a.config.destination.ipv4Numeric }
  { header with
    len := UInt16.ofNat (header.hlen.toNat * 4 + seg.header.doff.toNat * 4 +
      seg.payload.length) }

/-- The segment with its ports set, and the datagram that carries it. -/
def wrapTcpInIp (a : TCPOverIPv4Adapter) (seg : TCPSegment) :
    TCPSegment × Except Exception IPv4Datagram :=
  let seg := a.withPorts seg
  let header := a.datagramHeader seg
  (seg, do
    let payload ← seg.serialize header.pseudoCksum
    return ⟨header, payload⟩)

/-- The segment in a datagram, if it belongs to the connection.  A listening
adapter adopts the addresses of the first SYN that is for its port. -/
def unwrapTcpInIp (a : TCPOverIPv4Adapter) (dgram : IPv4Datagram) :
    TCPOverIPv4Adapter × Except Exception (Option TCPSegment) :=
  if ¬a.listening ∧ dgram.header.dst ≠ a.config.source.ipv4Numeric then
    (a, .ok none)
  else if ¬a.listening ∧
      dgram.header.src ≠ a.config.destination.ipv4Numeric then
    (a, .ok none)
  else if dgram.header.proto ≠ IPv4Header.protoTCP then (a, .ok none)
  else
    match dgram.payload.toBuffer with
    | .error e => (a, .error e)
    | .ok buffer =>
        let (result, seg) :=
          TCPSegment.parse {} buffer dgram.header.pseudoCksum
        if result ≠ .noError then (a, .ok none)
        else if seg.header.dport ≠ a.config.source.port then (a, .ok none)
        else if a.listening ∧ ¬(seg.header.syn ∧ ¬seg.header.rst) then
          (a, .ok none)
        else
          let a :=
            if a.listening then
              { config :=
                  { source :=
                      ⟨dgram.header.dst, a.config.source.port⟩
                    destination := ⟨dgram.header.src, seg.header.sport⟩ }
                listening := false }
            else a
          if seg.header.sport ≠ a.config.destination.port then (a, .ok none)
          else (a, .ok (some seg))

/-! ## From host to host -/

/-- The string that goes over the wire for a segment. -/
def transmit (a : TCPOverIPv4Adapter) (dst src : EthernetAddress)
    (seg : TCPSegment) : Except Exception Buffer := do
  let dgram ← (a.wrapTcpInIp seg).2
  let payload ← dgram.serialize
  let frame : EthernetFrame :=
    { header := { dst := dst, src := src, type := EthernetHeader.typeIPv4 }
      payload := payload }
  return frame.serialize.concatenate

/-- What becomes of a string from the wire: nothing, if a parser rejects it. -/
def receive (a : TCPOverIPv4Adapter) (wire : Buffer) :
    Except Exception (Option TCPSegment) := do
  let (result, frame) := EthernetFrame.parse {} wire
  if result ≠ .noError then return none
  let buffer ← frame.payload.toBuffer
  let (result, dgram) := IPv4Datagram.parse {} buffer
  if result ≠ .noError then return none
  (a.unwrapTcpInIp dgram).2

/-- The segment that arrives: the ports are those of the connection, and the
checksum is the computed one. -/
def arriving (a : TCPOverIPv4Adapter) (seg : TCPSegment) : TCPSegment :=
  let seg := a.withPorts seg
  ⟨seg.headerOut (a.datagramHeader seg).pseudoCksum, seg.payload⟩

/-- The datagram in which a segment is sent. -/
def datagram (a : TCPOverIPv4Adapter) (seg : TCPSegment) : IPv4Datagram where
  header := a.datagramHeader (a.withPorts seg)
  payload :=
    [resize (a.arriving seg).header.fields (4 * seg.header.doff.toNat),
      seg.payload]

theorem wrapTcpInIp_eq (a : TCPOverIPv4Adapter) {seg : TCPSegment}
    (h : 5 ≤ seg.header.doff.toNat) :
    (a.wrapTcpInIp seg).2 = .ok (a.datagram seg) := by
  have hdoff : 5 ≤ (a.withPorts seg).header.doff.toNat := h
  have hserialize := TCPSegment.serialize_eq hdoff
    (a.datagramHeader (a.withPorts seg)).pseudoCksum
  simp only [wrapTcpInIp, hserialize]
  rfl

theorem wellFormed_datagram (a : TCPOverIPv4Adapter) {seg : TCPSegment}
    (h : 20 + 4 * seg.header.doff.toNat + seg.payload.length ≤ 65535) :
    (a.datagram seg).WellFormed where
  ver := rfl
  hlen_ge := le_rfl
  hlen_le := show 5 ≤ 15 by decide
  offset_lt := show 0 < 2 ^ 13 by decide
  len_eq := by
    have hlen : (a.datagram seg).header.len.toNat =
        (20 + seg.header.doff.toNat * 4 + seg.payload.length) % 65536 :=
      UInt16.toNat_ofNat'
    have hhlen : (a.datagram seg).header.hlen.toNat = 5 := rfl
    have hsize : (a.datagram seg).payload.size =
        4 * seg.header.doff.toNat + seg.payload.length := by
      simp [datagram, length_resize]
    omega

/-- The receiving side of the two packet formats. -/
theorem receive_wire (b : TCPOverIPv4Adapter) {d : IPv4Datagram}
    (h : d.WellFormed) (header : EthernetHeader) :
    b.receive (EthernetFrame.serialize ⟨header, d.wire⟩).concatenate =
      (b.unwrapTcpInIp d.arriving).2 := by
  have hparse := IPv4Datagram.parse_wire h {}
  simp only [receive, EthernetFrame.parse_serialize, BufferList.toBuffer,
    bind, Except.bind, hparse, ne_eq, not_true_eq_false, if_false]

/-- The receiving side of the connection. -/
theorem unwrapTcpInIp_datagram {a b : TCPOverIPv4Adapter}
    (hb : b.listening = false)
    (hsource : b.config.source = a.config.destination)
    (hdestination : b.config.destination = a.config.source)
    {seg : TCPSegment} (hge : 5 ≤ seg.header.doff.toNat)
    (hle : seg.header.doff.toNat ≤ 15)
    (hsize : 4 * seg.header.doff.toNat + seg.payload.length ≤ 65535) :
    b.unwrapTcpInIp (a.datagram seg).arriving =
      (b, .ok (some (a.arriving seg))) := by
  have hdoff : 5 ≤ (a.withPorts seg).header.doff.toNat := hge
  have hlt := (a.datagramHeader (a.withPorts seg)).toNat_pseudoCksum_lt
  have hpayload : (a.withPorts seg).payload.length ≤ 65535 :=
    (Nat.le_add_left _ _).trans hsize
  have hparse := TCPSegment.parse_serialize hdoff hle
    (hlt.le.trans (by decide)) hpayload {}
  have hbytes : (a.datagram seg).payload.concatenate =
      resize (a.arriving seg).header.fields (4 * seg.header.doff.toNat) ++
        seg.payload := by
    simp [datagram, BufferList.concatenate]
  have hdst : (a.datagram seg).headerOut.dst =
      b.config.source.ipv4Numeric := by
    rw [hsource]
    rfl
  have hsrc : (a.datagram seg).headerOut.src =
      b.config.destination.ipv4Numeric := by
    rw [hdestination]
    rfl
  have hproto : (a.datagram seg).headerOut.proto = IPv4Header.protoTCP := rfl
  have hpseudo : (a.datagram seg).headerOut.pseudoCksum =
      (a.datagramHeader (a.withPorts seg)).pseudoCksum :=
    (a.datagram seg).pseudoCksum_headerOut
  have hparse' : TCPSegment.parse {} (a.datagram seg).payload.concatenate
      (a.datagram seg).headerOut.pseudoCksum =
        (.noError, a.arriving seg) := by
    rw [hbytes, hpseudo]
    exact hparse
  have hdport : (a.arriving seg).header.dport = b.config.source.port := by
    rw [hsource]
    rfl
  have hsport : (a.arriving seg).header.sport =
      b.config.destination.port := by
    rw [hdestination]
    rfl
  simp only [unwrapTcpInIp, IPv4Datagram.arriving, BufferList.toBuffer,
    hparse']
  simp [hb, hdst, hsrc, hproto, hdport, hsport]

/-- **The way of a segment through all layers.**  Between two adapters that are
configured for the same connection, each segment whose header and size fit is
received with the same payload and the same header, except for the ports, which
are those of the connection, and the checksum, which is the computed one. -/
theorem receive_transmit (a b : TCPOverIPv4Adapter)
    (hb : b.listening = false)
    (hsource : b.config.source = a.config.destination)
    (hdestination : b.config.destination = a.config.source)
    (dst src : EthernetAddress) (seg : TCPSegment)
    (hge : 5 ≤ seg.header.doff.toNat) (hle : seg.header.doff.toNat ≤ 15)
    (hsize : 20 + 4 * seg.header.doff.toNat + seg.payload.length ≤ 65535) :
    ∃ wire, a.transmit dst src seg = .ok wire ∧
      b.receive wire = .ok (some
        { header :=
            { seg.header with
              sport := a.config.source.port
              dport := a.config.destination.port
              cksum := (a.arriving seg).header.cksum }
          payload := seg.payload }) := by
  have hwell := a.wellFormed_datagram hsize
  have hserialize := IPv4Datagram.serialize_eq hwell.serializable
  refine ⟨(EthernetFrame.serialize ⟨⟨dst, src, EthernetHeader.typeIPv4⟩,
    (a.datagram seg).wire⟩).concatenate, ?_, ?_⟩
  · rw [transmit, a.wrapTcpInIp_eq hge]
    change ((a.datagram seg).serialize >>= _) = _
    rw [hserialize]
    rfl
  · rw [receive_wire b hwell,
      unwrapTcpInIp_datagram hb hsource hdestination hge hle (by omega)]
    rfl

theorem receive_transmit_odd_payload :
    let a : TCPOverIPv4Adapter := { config := ⟨⟨1, 10⟩, ⟨2, 20⟩⟩ }
    let b : TCPOverIPv4Adapter := { config := ⟨⟨2, 20⟩, ⟨1, 10⟩⟩ }
    let seg : TCPSegment := ⟨{ syn := true, doff := 6 }, [7, 8, 9]⟩
    ∃ wire, a.transmit .broadcast .zero seg = .ok wire ∧
      b.receive wire = .ok (some
        ⟨{ syn := true, doff := 6, sport := 10, dport := 20,
           cksum := (a.arriving seg).header.cksum }, [7, 8, 9]⟩) :=
  receive_transmit _ _ rfl rfl rfl .broadcast .zero
    ⟨{ syn := true, doff := 6 }, [7, 8, 9]⟩ (by decide) (by decide)
    (by decide)

end TCPOverIPv4Adapter
end Sponge
