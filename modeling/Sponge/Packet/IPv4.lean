import Sponge.Packet.InternetChecksum
import Sponge.Packet.Parser

/-!
# IPv4 headers and datagrams

The parsers and serializers of IPv4 headers and datagrams.  A header parser
reports some errors in its result only.  `IPv4Datagram::parse` drops that result
and looks at what the header parser left: how much of the buffer it consumed, and
the error of the `NetParser`.
-/

namespace Sponge

open Support.OnesComplement

/-! ## Headers -/

/-- `IPv4Header` with its constants and defaults. -/
structure IPv4Header where
  ver : UInt8 := 4
  hlen : UInt8 := 20 / 4
  tos : UInt8 := 0
  len : UInt16 := 0
  id : UInt16 := 0
  df : Bool := true
  mf : Bool := false
  offset : UInt16 := 0
  ttl : UInt8 := 128
  proto : UInt8 := 6
  cksum : UInt16 := 0
  src : UInt32 := 0
  dst : UInt32 := 0
deriving DecidableEq

namespace IPv4Header

def length : ℕ := 20

def protoTCP : UInt8 := 6

/-- `len - 4 * hlen`, as an unsigned 16-bit number. -/
def payloadLength (h : IPv4Header) : UInt16 :=
  h.len - 4 * h.hlen.toUInt16

/-- The contribution of the pseudo-header to the TCP checksum. -/
def pseudoCksum (h : IPv4Header) : UInt32 :=
  let pcksum := (h.src >>> 16) + (h.src &&& 0xffff)
  let pcksum := pcksum + ((h.dst >>> 16) + (h.dst &&& 0xffff))
  let pcksum := pcksum + h.proto.toUInt32
  pcksum + h.payloadLength.toUInt32

/-- The fields of the header, in the order in which they are read. -/
def readFields (p : NetParser) : IPv4Header × NetParser :=
  let (firstByte, p) := p.u8
  let (tos, p) := p.u8
  let (len, p) := p.u16
  let (id, p) := p.u16
  let (foVal, p) := p.u16
  let (ttl, p) := p.u8
  let (proto, p) := p.u8
  let (cksum, p) := p.u16
  let (src, p) := p.u32
  let (dst, p) := p.u32
  ({ ver := firstByte >>> 4
     hlen := firstByte &&& 0x0f
     tos := tos
     len := len
     id := id
     df := foVal &&& 0x4000 != 0
     mf := foVal &&& 0x2000 != 0
     offset := foVal &&& 0x1fff
     ttl := ttl
     proto := proto
     cksum := cksum
     src := src
     dst := dst }, p)

def parse (h : IPv4Header) (p : NetParser) :
    ParseResult × IPv4Header × NetParser :=
  let originalSerializedVersion := p.buffer
  let dataSize := p.buffer.length
  if dataSize < length then (.packetTooShort, h, p)
  else
    let (h, p) := readFields p
    if dataSize < 4 * h.hlen.toNat then (.packetTooShort, h, p)
    else if h.ver ≠ 4 then (.wrongIPVersion, h, p)
    else if h.hlen < 5 then (.headerTooShort, h, p)
    else if dataSize ≠ h.len.toNat then (.truncatedPacket, h, p)
    else
      let p := p.removePrefix (h.hlen.toNat * 4 - length)
      if p.error ≠ .noError then (p.error, h, p)
      else
        let check := InternetChecksum.add {}
          (originalSerializedVersion.take (4 * h.hlen.toNat))
        if check.value ≠ 0 then (.badChecksum, h, p) else (.noError, h, p)

/-- What `serialize` writes once its checks have passed, up to the checksum. -/
def fieldsFront (h : IPv4Header) : List UInt8 :=
  let firstByte := (h.ver <<< 4) ||| (h.hlen &&& 0xf)
  let foVal : UInt16 := (if h.df then 0x4000 else 0) |||
    (if h.mf then 0x2000 else 0) ||| (h.offset &&& 0x1fff)
  NetUnparser.u8 firstByte ++ NetUnparser.u8 h.tos ++
    NetUnparser.u16 h.len ++ NetUnparser.u16 h.id ++
    NetUnparser.u16 foVal ++ NetUnparser.u8 h.ttl ++ NetUnparser.u8 h.proto

def fields (h : IPv4Header) : List UInt8 :=
  h.fieldsFront ++ NetUnparser.u16 h.cksum ++ NetUnparser.u32 h.src ++
    NetUnparser.u32 h.dst

/-- The serialized header; the checksum is not computed. -/
def serialize (h : IPv4Header) : Except Exception (List UInt8) :=
  if h.ver ≠ 4 then .error (.runtimeError "wrong IP version")
  else if 4 * h.hlen.toNat < length then
    .error (.runtimeError "IP header too short")
  else .ok (resize h.fields (4 * h.hlen.toNat))

end IPv4Header

/-! ## Datagrams -/

structure IPv4Datagram where
  header : IPv4Header := {}
  payload : BufferList := []
deriving DecidableEq

namespace IPv4Datagram

def parse (d : IPv4Datagram) (buffer : Buffer) : ParseResult × IPv4Datagram :=
  let p : NetParser := { buffer := buffer }
  let (_, header, p) := d.header.parse p
  let payload : BufferList := [p.buffer]
  if payload.size ≠ header.payloadLength.toNat then
    (.packetTooShort, ⟨header, payload⟩)
  else (p.error, ⟨header, payload⟩)

def serialize (d : IPv4Datagram) : Except Exception BufferList := do
  if d.payload.size ≠ d.header.payloadLength.toNat then
    throw (.runtimeError "IPv4Datagram::serialize: payload is wrong size")
  let headerOut := { d.header with cksum := 0 }
  let headerZeroChecksum ← headerOut.serialize
  let check := InternetChecksum.add {} headerZeroChecksum
  let headerOut := { headerOut with cksum := check.value }
  let header ← headerOut.serialize
  return [header] ++ d.payload

end IPv4Datagram

/-! ## What the header parser leaves -/

namespace IPv4Header

/-- The header whose fields stand in the first 20 bytes. -/
def ofBytes (b : List UInt8) : IPv4Header where
  ver := byteAt b 0 >>> 4
  hlen := byteAt b 0 &&& 0x0f
  tos := byteAt b 1
  len := shortAt b 2
  id := shortAt b 4
  df := shortAt b 6 &&& 0x4000 != 0
  mf := shortAt b 6 &&& 0x2000 != 0
  offset := shortAt b 6 &&& 0x1fff
  ttl := byteAt b 8
  proto := byteAt b 9
  cksum := shortAt b 10
  src := longAt b 12
  dst := longAt b 16

theorem readFields_eq {b : List UInt8} (h : 20 ≤ b.length) :
    readFields ⟨b, .noError⟩ = (ofBytes b, ⟨b.drop 20, .noError⟩) := by
  have hstart : (⟨b, .noError⟩ : NetParser) = ⟨b.drop 0, .noError⟩ := by simp
  have h₀ : 0 + 1 ≤ b.length := by omega
  have h₁ : 1 + 1 ≤ b.length := by omega
  have h₂ : 2 + 2 ≤ b.length := by omega
  have h₄ : 4 + 2 ≤ b.length := by omega
  have h₆ : 6 + 2 ≤ b.length := by omega
  have h₈ : 8 + 1 ≤ b.length := by omega
  have h₉ : 9 + 1 ≤ b.length := by omega
  have h₁₀ : 10 + 2 ≤ b.length := by omega
  have h₁₂ : 12 + 4 ≤ b.length := by omega
  have h₁₆ : 16 + 4 ≤ b.length := by omega
  rw [hstart]
  simp only [readFields, NetParser.u8_drop h₀, NetParser.u8_drop h₁,
    NetParser.u16_drop h₂, NetParser.u16_drop h₄, NetParser.u16_drop h₆,
    NetParser.u8_drop h₈, NetParser.u8_drop h₉, NetParser.u16_drop h₁₀,
    NetParser.u32_drop h₁₂, NetParser.u32_drop h₁₆, ofBytes]

/-- Version, header length and total length agree with the bytes. -/
structure Framed (b : List UInt8) : Prop where
  ver : byteAt b 0 >>> 4 = 4
  hlen : 5 ≤ (byteAt b 0 &&& 0x0f).toNat
  fits : 4 * (byteAt b 0 &&& 0x0f).toNat ≤ b.length
  len : (shortAt b 2).toNat = b.length

/-- The buffer is framed and the checksum of the header verifies. -/
def Acceptable (b : List UInt8) : Prop :=
  20 ≤ b.length ∧ byteAt b 0 >>> 4 = 4 ∧
    5 ≤ (byteAt b 0 &&& 0x0f).toNat ∧
    4 * (byteAt b 0 &&& 0x0f).toNat ≤ b.length ∧
    (shortAt b 2).toNat = b.length ∧
    Verifies 0 (b.take (4 * (byteAt b 0 &&& 0x0f).toNat))

instance (b : List UInt8) : Decidable (Acceptable b) :=
  inferInstanceAs (Decidable (_ ∧ _))

theorem Framed.length_le {b : List UInt8} (h : Framed b) : 20 ≤ b.length := by
  have hlen := h.hlen
  have hfits := h.fits
  omega

theorem header_checksum_eq_zero_iff (b : List UInt8) (hlen : UInt8) :
    (InternetChecksum.add {} (b.take (4 * hlen.toNat))).value = 0 ↔
      Verifies 0 (b.take (4 * hlen.toNat)) := by
  have hlt := hlen.toNat_lt
  have htake : (b.take (4 * hlen.toNat)).length ≤ 4 * hlen.toNat :=
    List.length_take_le _ _
  apply InternetChecksum.value_add_eq_zero_iff 0
  apply InternetChecksum.sum_lt_of_length_le (by decide)
  omega

/-- A header that is framed is consumed with its options, and its checksum is
looked at. -/
theorem parse_of_framed (h : IPv4Header) {b : List UInt8} (hf : Framed b) :
    h.parse ⟨b, .noError⟩ =
      (if Verifies 0 (b.take (4 * (ofBytes b).hlen.toNat)) then .noError
        else .badChecksum,
        ofBytes b, ⟨b.drop (4 * (ofBytes b).hlen.toNat), .noError⟩) := by
  have hlen := hf.length_le
  have hver : (ofBytes b).ver = 4 := hf.ver
  have hmin : 5 ≤ (ofBytes b).hlen.toNat := hf.hlen
  have hfits : 4 * (ofBytes b).hlen.toNat ≤ b.length := hf.fits
  have hsize : b.length = (ofBytes b).len.toNat := hf.len.symm
  have hremove : (NetParser.mk (b.drop 20) .noError).removePrefix
      ((ofBytes b).hlen.toNat * 4 - length) =
        ⟨b.drop (4 * (ofBytes b).hlen.toNat), .noError⟩ := by
    rw [NetParser.removePrefix_drop (by unfold length; omega)]
    congr 2
    unfold length
    omega
  have hbig : ¬b.length < length := Nat.not_lt.mpr hlen
  have hshort : ¬(ofBytes b).hlen < 5 := Nat.not_lt.mpr hmin
  simp only [parse, if_neg hbig, readFields_eq hlen, hremove]
  rw [if_neg (Nat.not_lt.mpr hfits), if_neg (not_not.mpr hver),
    if_neg hshort, if_neg (not_not.mpr hsize), if_neg (not_not.mpr rfl)]
  simp only [ne_eq, header_checksum_eq_zero_iff]
  by_cases hcheck : Verifies 0 (b.take (4 * (ofBytes b).hlen.toNat))
  · simp [hcheck]
  · simp [hcheck]

/-- Of any other header the 20 bytes of the fields are consumed.  The error is in
the result only, the parser is left without one. -/
theorem parse_of_not_framed (h : IPv4Header) {b : List UInt8}
    (hlen : 20 ≤ b.length) (hf : ¬Framed b) :
    (h.parse ⟨b, .noError⟩).1 ≠ .noError ∧
      (h.parse ⟨b, .noError⟩).2 = (ofBytes b, ⟨b.drop 20, .noError⟩) := by
  have hbig : ¬b.length < length := Nat.not_lt.mpr hlen
  simp only [parse, if_neg hbig, readFields_eq hlen]
  by_cases hfits : b.length < 4 * (ofBytes b).hlen.toNat
  · simp [hfits]
  · by_cases hver : (ofBytes b).ver = 4
    · by_cases hmin : (ofBytes b).hlen < 5
      · simp [hfits, hver, hmin]
      · by_cases hsize : b.length = (ofBytes b).len.toNat
        · exact absurd ⟨hver, Nat.not_lt.mp hmin, Nat.not_lt.mp hfits,
            hsize.symm⟩ hf
        · simp [hfits, hver, hmin, hsize]
    · simp [hfits, hver]

theorem parse_of_short (h : IPv4Header) {b : List UInt8}
    (hlen : b.length < 20) :
    h.parse ⟨b, .noError⟩ = (.packetTooShort, h, ⟨b, .noError⟩) := by
  have hsmall : b.length < length := hlen
  simp only [parse, if_pos hsmall]

theorem acceptable_iff (b : List UInt8) :
    Acceptable b ↔
      Framed b ∧ Verifies 0 (b.take (4 * (ofBytes b).hlen.toNat)) := by
  constructor
  · rintro ⟨-, hver, hhlen, hfits, hlen, hcheck⟩
    exact ⟨⟨hver, hhlen, hfits, hlen⟩, hcheck⟩
  · rintro ⟨hf, hcheck⟩
    exact ⟨hf.length_le, hf.ver, hf.hlen, hf.fits, hf.len, hcheck⟩

/-- The header parser itself accepts what it should. -/
theorem parse_eq_noError_iff (h : IPv4Header) (b : List UInt8) :
    (h.parse ⟨b, .noError⟩).1 = .noError ↔ Acceptable b := by
  rw [acceptable_iff]
  by_cases hf : Framed b
  · rw [parse_of_framed h hf]
    by_cases hcheck : Verifies 0 (b.take (4 * (ofBytes b).hlen.toNat))
    · simp [hf, hcheck]
    · simp [hcheck]
  · refine iff_of_false ?_ (fun hacc => hf hacc.1)
    by_cases hlen : 20 ≤ b.length
    · exact (parse_of_not_framed h hlen hf).1
    · rw [parse_of_short h (Nat.lt_of_not_le hlen)]
      exact ParseResult.noConfusion

theorem toNat_payloadLength (h : IPv4Header) :
    h.payloadLength.toNat =
      (h.len.toNat + 65536 - 4 * h.hlen.toNat) % 65536 := by
  have hlt := h.hlen.toNat_lt
  simp only [payloadLength, UInt16.toNat_sub, UInt16.toNat_mul,
    UInt8.toNat_toUInt16, UInt16.reduceToNat, Nat.reducePow]
  omega

/-- The two halves of a number, added. -/
theorem toNat_halves_lt (n : UInt32) :
    ((n >>> 16) + (n &&& 0xffff)).toNat < 2 ^ 17 := by
  have hlt := n.toNat_lt
  rw [InternetChecksum.toNat_fold_step]
  omega

theorem toNat_pseudoCksum_lt (h : IPv4Header) :
    h.pseudoCksum.toNat < 2 ^ 19 := by
  have hsrc := toNat_halves_lt h.src
  have hdst := toNat_halves_lt h.dst
  have hproto := h.proto.toNat_lt
  have hlen := h.payloadLength.toNat_lt
  simp only [pseudoCksum, UInt32.toNat_add, UInt8.toNat_toUInt32,
    UInt16.toNat_toUInt32] at hsrc hdst ⊢
  omega

end IPv4Header

/-! ## Acceptance -/

namespace IPv4Datagram

open IPv4Header

theorem parse_of_framed (d : IPv4Datagram) {b : List UInt8} (hf : Framed b) :
    d.parse b =
      (.noError, ⟨ofBytes b, [b.drop (4 * (ofBytes b).hlen.toNat)]⟩) := by
  have hfits : 4 * (ofBytes b).hlen.toNat ≤ b.length := hf.fits
  have hlen : (ofBytes b).len.toNat = b.length := hf.len
  have hlt := (ofBytes b).len.toNat_lt
  have hsize : BufferList.size [b.drop (4 * (ofBytes b).hlen.toNat)] =
      (ofBytes b).payloadLength.toNat := by
    rw [toNat_payloadLength, hlen]
    simp only [BufferList.size_cons, List.length_drop, BufferList.size_nil]
    omega
  simp only [parse, IPv4Header.parse_of_framed d.header hf]
  rw [if_neg (not_not.mpr hsize)]

theorem parse_of_not_framed (d : IPv4Datagram) {b : List UInt8}
    (hlen : 20 ≤ b.length) (hf : ¬Framed b) :
    (d.parse b).1 = .noError ↔
      b.length - 20 = (ofBytes b).payloadLength.toNat := by
  have hsize : BufferList.size [b.drop 20] = b.length - 20 := by simp
  simp only [parse, (IPv4Header.parse_of_not_framed d.header hlen hf).2,
    hsize]
  by_cases heq : b.length - 20 = (ofBytes b).payloadLength.toNat
  · simp [heq]
  · simp [heq]

/-- A buffer too short for a header is compared with the payload length of the
header that was there before. -/
theorem parse_of_short {b : List UInt8} (hlen : b.length < 20) :
    (parse {} b).1 = .packetTooShort := by
  have hfresh : (payloadLength {}).toNat = 65516 := by decide
  have hsize : BufferList.size [b] ≠ (payloadLength {}).toNat := by
    rw [hfresh, BufferList.size_cons, BufferList.size_nil]
    omega
  simp only [parse, IPv4Header.parse_of_short _ hlen]
  rw [if_pos hsize]

/-- What is accepted has a payload of the length that its header says. -/
theorem size_payload_of_parse {d : IPv4Datagram} {b : List UInt8}
    (h : (d.parse b).1 = .noError) :
    (d.parse b).2.payload.size = (d.parse b).2.header.payloadLength.toNat := by
  simp only [parse] at h ⊢
  split_ifs at h ⊢ with hsize
  exact not_not.mp hsize

/-- **Which datagrams are accepted.**  That `parse` accepts exactly the buffers
that are framed and have a header with a correct checksum, is true of a buffer
exactly when two things are not the case: that it is framed and its checksum does
not verify, and that it is not framed and the bytes after the first 20 are as
many as the payload length of the header, reduced to 16 bits. -/
theorem datagram_acceptance_iff (b : List UInt8) :
    ((parse {} b).1 = .noError ↔ Acceptable b) ↔
      (Framed b → Verifies 0 (b.take (4 * (ofBytes b).hlen.toNat))) ∧
        (20 ≤ b.length → ¬Framed b →
          b.length - 20 ≠ (ofBytes b).payloadLength.toNat) := by
  rw [acceptable_iff]
  by_cases hf : Framed b
  · have haccepts : (parse {} b).1 = .noError := by
      rw [parse_of_framed {} hf]
    constructor
    · intro hiff
      exact ⟨fun _ => (hiff.mp haccepts).2, fun _ hnot => absurd hf hnot⟩
    · rintro ⟨hcheck, -⟩
      exact iff_of_true haccepts ⟨hf, hcheck hf⟩
  · have hrejects : ¬(Framed b ∧
        Verifies 0 (b.take (4 * (ofBytes b).hlen.toNat))) :=
      fun hacc => hf hacc.1
    rw [iff_false_right hrejects]
    constructor
    · intro hnot
      refine ⟨fun hframed => absurd hframed hf, ?_⟩
      intro hlen _ heq
      exact hnot ((parse_of_not_framed {} hlen hf).mpr heq)
    · rintro ⟨-, hdiffers⟩ haccepts
      by_cases hlen : 20 ≤ b.length
      · exact hdiffers hlen hf ((parse_of_not_framed {} hlen hf).mp haccepts)
      · rw [parse_of_short (Nat.lt_of_not_le hlen)] at haccepts
        cases haccepts

/-- A datagram of IP version 5 is accepted. -/
theorem parse_accepts_wrong_version :
    ¬((parse {} [0x55, 0, 0, 20, 0, 0, 0, 0, 64, 6, 0, 0,
        10, 0, 0, 1, 10, 0, 0, 2]).1 = .noError ↔
      Acceptable [0x55, 0, 0, 20, 0, 0, 0, 0, 64, 6, 0, 0,
        10, 0, 0, 1, 10, 0, 0, 2]) := by
  decide +kernel

end IPv4Datagram

/-! ## Round trip -/

namespace IPv4Header

/-- The fields fit into the bits that they are written to. -/
structure Encodable (h : IPv4Header) : Prop where
  ver : h.ver = 4
  hlen_le : h.hlen.toNat ≤ 15
  offset_lt : h.offset.toNat < 2 ^ 13

theorem nibbles {hlen : UInt8} (h : hlen.toNat ≤ 15) :
    ((4 : UInt8) <<< 4 ||| (hlen &&& 0xf)) >>> 4 = 4 ∧
      ((4 : UInt8) <<< 4 ||| (hlen &&& 0xf)) &&& 0x0f = hlen := by
  have hall : ∀ n ≤ 15,
      ((4 : UInt8) <<< 4 ||| (UInt8.ofNat n &&& 0xf)) >>> 4 = 4 ∧
        ((4 : UInt8) <<< 4 ||| (UInt8.ofNat n &&& 0xf)) &&& 0x0f =
          UInt8.ofNat n := by
    decide
  have hn := hall hlen.toNat h
  rw [UInt8.ofNat_toNat] at hn
  exact hn

theorem or_and_mask (a b mask : UInt16) :
    (a ||| b) &&& mask = (a &&& mask) ||| (b &&& mask) := by
  apply UInt16.toNat_inj.mp
  simp only [UInt16.toNat_and, UInt16.toNat_or, Nat.and_or_distrib_right]

/-- A mask that does not meet the offset sees the flags only. -/
theorem flags_and_mask (flags offset : UInt16) {mask : UInt16}
    (h : 0x1fff &&& mask = 0) :
    (flags ||| (offset &&& 0x1fff)) &&& mask = flags &&& mask := by
  rw [or_and_mask, UInt16.and_assoc, h, UInt16.and_zero, UInt16.or_zero]

theorem offset_and_mask {flags offset : UInt16} (hflags : flags &&& 0x1fff = 0)
    (h : offset.toNat < 2 ^ 13) :
    (flags ||| (offset &&& 0x1fff)) &&& 0x1fff = offset := by
  have hmask : offset &&& 0x1fff = offset := by
    apply UInt16.toNat_inj.mp
    rw [UInt16.toNat_and]
    exact (Nat.and_two_pow_sub_one_eq_mod offset.toNat 13).trans
      (Nat.mod_eq_of_lt h)
  rw [or_and_mask, hflags, hmask, hmask, UInt16.zero_or]

/-- The flags and the offset are read back from the word that holds them. -/
theorem foVal_read (df mf : Bool) {offset : UInt16}
    (h : offset.toNat < 2 ^ 13) :
    let flags : UInt16 :=
      (if df then 0x4000 else 0) ||| (if mf then 0x2000 else 0)
    let foVal := flags ||| (offset &&& 0x1fff)
    (foVal &&& 0x4000 != 0) = df ∧ (foVal &&& 0x2000 != 0) = mf ∧
      foVal &&& 0x1fff = offset := by
  intro flags foVal
  refine ⟨?_, ?_, ?_⟩
  · rw [flags_and_mask flags offset (by decide)]
    cases df <;> cases mf <;> decide
  · rw [flags_and_mask flags offset (by decide)]
    cases df <;> cases mf <;> decide
  · refine offset_and_mask ?_ h
    cases df <;> cases mf <;> decide

/-- Reading what was written gives the header back. -/
theorem readFields_fields {h : IPv4Header} (henc : Encodable h)
    (rest : List UInt8) :
    readFields ⟨h.fields ++ rest, .noError⟩ = (h, ⟨rest, .noError⟩) := by
  obtain ⟨hver, hhlen⟩ := nibbles henc.hlen_le
  obtain ⟨hdf, hmf, hoffset⟩ := foVal_read h.df h.mf henc.offset_lt
  simp only [readFields, fields, fieldsFront, List.append_assoc,
    NetParser.u8_append,
    NetParser.u16_append, NetParser.u32_append, henc.ver, hver, hhlen, hdf,
    hmf, hoffset]
  rw [← henc.ver]

theorem length_fieldsFront (h : IPv4Header) : h.fieldsFront.length = 10 := by
  simp [fieldsFront]

theorem length_fields (h : IPv4Header) : h.fields.length = 20 := by
  simp [fields, length_fieldsFront]

theorem ofBytes_fields {h : IPv4Header} (henc : Encodable h)
    (rest : List UInt8) : ofBytes (h.fields ++ rest) = h := by
  have hlen : 20 ≤ (h.fields ++ rest).length := by
    rw [List.length_append, length_fields]
    omega
  have hread := readFields_eq hlen
  rw [readFields_fields henc] at hread
  exact (congrArg Prod.fst hread).symm

end IPv4Header

namespace IPv4Datagram

open IPv4Header

/-- The checks of `serialize` pass. -/
structure Serializable (d : IPv4Datagram) : Prop where
  ver : d.header.ver = 4
  hlen_ge : 5 ≤ d.header.hlen.toNat
  size_eq : d.payload.size = d.header.payloadLength.toNat

theorem serializable_iff (d : IPv4Datagram) :
    d.Serializable ↔
      d.header.ver = 4 ∧ 5 ≤ d.header.hlen.toNat ∧
        d.payload.size = d.header.payloadLength.toNat :=
  ⟨fun h => ⟨h.ver, h.hlen_ge, h.size_eq⟩, fun h => ⟨h.1, h.2.1, h.2.2⟩⟩

instance (d : IPv4Datagram) : Decidable d.Serializable :=
  decidable_of_iff
    (d.header.ver = 4 ∧ 5 ≤ d.header.hlen.toNat ∧
      d.payload.size = d.header.payloadLength.toNat)
    ⟨fun h => ⟨h.1, h.2.1, h.2.2⟩, fun h => ⟨h.ver, h.hlen_ge, h.size_eq⟩⟩

/-- The header that `serialize` writes, with the checksum computed. -/
def headerOut (d : IPv4Datagram) : IPv4Header :=
  let zero := { d.header with cksum := 0 }
  { d.header with
    cksum := (InternetChecksum.add {}
      (resize zero.fields (4 * d.header.hlen.toNat))).value }

/-- What `serialize` returns once its checks have passed. -/
def wire (d : IPv4Datagram) : BufferList :=
  resize d.headerOut.fields (4 * d.header.hlen.toNat) :: d.payload

/-- The datagram that arrives: the checksum is the computed one, and the payload
is in one buffer. -/
def arriving (d : IPv4Datagram) : IPv4Datagram :=
  ⟨d.headerOut, [d.payload.concatenate]⟩

theorem pseudoCksum_headerOut (d : IPv4Datagram) :
    d.headerOut.pseudoCksum = d.header.pseudoCksum :=
  rfl

theorem serialize_eq {d : IPv4Datagram} (h : d.Serializable) :
    d.serialize = .ok d.wire := by
  have hlen : ¬4 * d.header.hlen.toNat < IPv4Header.length := by
    have := h.hlen_ge
    unfold IPv4Header.length
    omega
  have hheader : ∀ cksum, { d.header with cksum := cksum }.serialize =
      .ok (resize { d.header with cksum := cksum }.fields
        (4 * d.header.hlen.toNat)) := by
    intro cksum
    simp only [IPv4Header.serialize]
    rw [if_neg (not_not.mpr h.ver), if_neg hlen]
  simp only [serialize, hheader]
  rw [if_neg (not_not.mpr h.size_eq)]
  rfl

/-- A datagram whose fields fit into their bits, and whose length is the one of
its header and payload. -/
structure WellFormed (d : IPv4Datagram) : Prop where
  ver : d.header.ver = 4
  hlen_ge : 5 ≤ d.header.hlen.toNat
  hlen_le : d.header.hlen.toNat ≤ 15
  offset_lt : d.header.offset.toNat < 2 ^ 13
  len_eq : d.header.len.toNat = 4 * d.header.hlen.toNat + d.payload.size

theorem WellFormed.serializable {d : IPv4Datagram} (h : d.WellFormed) :
    d.Serializable where
  ver := h.ver
  hlen_ge := h.hlen_ge
  size_eq := by
    have hlen := h.len_eq
    have hlt := d.header.len.toNat_lt
    rw [toNat_payloadLength]
    omega

theorem WellFormed.encodable {d : IPv4Datagram} (h : d.WellFormed) :
    Encodable d.headerOut :=
  ⟨h.ver, h.hlen_le, h.offset_lt⟩

theorem WellFormed.concatenate_wire {d : IPv4Datagram} (h : d.WellFormed) :
    d.wire.concatenate = d.headerOut.fields ++
      (List.replicate (4 * d.header.hlen.toNat - 20) 0 ++
        d.payload.concatenate) := by
  have hge := h.hlen_ge
  have hconcat : d.wire.concatenate =
      resize d.headerOut.fields (4 * d.header.hlen.toNat) ++
        d.payload.concatenate :=
    List.flatten_cons
  rw [hconcat, resize_of_le (by rw [length_fields]; omega), length_fields,
    List.append_assoc]

theorem WellFormed.length_wire {d : IPv4Datagram} (h : d.WellFormed) :
    d.wire.concatenate.length =
      4 * d.header.hlen.toNat + d.payload.size := by
  have hge := h.hlen_ge
  rw [h.concatenate_wire, List.length_append, List.length_append,
    length_fields, List.length_replicate, BufferList.length_concatenate]
  omega

theorem WellFormed.ofBytes_wire {d : IPv4Datagram} (h : d.WellFormed) :
    ofBytes d.wire.concatenate = d.headerOut := by
  rw [h.concatenate_wire, ofBytes_fields h.encodable]

theorem WellFormed.framed_wire {d : IPv4Datagram} (h : d.WellFormed) :
    Framed d.wire.concatenate := by
  have hver := congrArg IPv4Header.ver h.ofBytes_wire
  have hhlen := congrArg IPv4Header.hlen h.ofBytes_wire
  have hlen := congrArg IPv4Header.len h.ofBytes_wire
  simp only [ofBytes] at hver hhlen hlen
  refine ⟨hver.trans h.ver, ?_, ?_, ?_⟩
  · rw [hhlen]
    exact h.hlen_ge
  · rw [hhlen, h.length_wire]
    exact Nat.le_add_right _ _
  · rw [hlen, h.length_wire]
    exact h.len_eq

/-- A well-formed datagram is parsed to itself after it was serialized, except
for the checksum and the division of the payload into buffers. -/
theorem parse_wire {d : IPv4Datagram} (h : d.WellFormed)
    (fresh : IPv4Datagram) :
    fresh.parse d.wire.concatenate = (.noError, d.arriving) := by
  have hdrop : d.wire.concatenate.drop (4 * d.headerOut.hlen.toNat) =
      d.payload.concatenate :=
    List.drop_left' (length_resize _ _)
  rw [parse_of_framed fresh h.framed_wire, h.ofBytes_wire, hdrop]
  rfl

/-- The checksum that `serialize` computes verifies. -/
theorem WellFormed.verifies_wire {d : IPv4Datagram} (h : d.WellFormed) :
    Verifies 0 (d.wire.concatenate.take (4 * d.header.hlen.toNat)) := by
  have hge := h.hlen_ge
  have hle := h.hlen_le
  -- the bytes around the checksum
  have hbytes : ∀ cksum, resize { d.header with cksum := cksum }.fields
      (4 * d.header.hlen.toNat) =
        d.header.fieldsFront ++ (NetUnparser.u16 cksum ++
          (NetUnparser.u32 d.header.src ++ (NetUnparser.u32 d.header.dst ++
            List.replicate (4 * d.header.hlen.toNat - 20) 0))) := by
    intro cksum
    rw [resize_of_le (by rw [length_fields]; omega), length_fields]
    simp only [fields, List.append_assoc]
    rfl
  have htake : d.wire.concatenate.take (4 * d.header.hlen.toNat) =
      resize d.headerOut.fields (4 * d.header.hlen.toNat) :=
    List.take_left' (length_resize _ _)
  rw [htake, headerOut, hbytes, hbytes]
  apply InternetChecksum.verifies_of_inserted 0
    (by rw [length_fieldsFront])
  rw [← hbytes]
  apply InternetChecksum.sum_lt_of_length_le (by decide)
  rw [length_resize]
  omega

theorem parse_header_wire {d : IPv4Datagram} (h : d.WellFormed)
    (fresh : IPv4Header) :
    (fresh.parse ⟨d.wire.concatenate, .noError⟩).1 = .noError := by
  rw [IPv4Header.parse_eq_noError_iff, acceptable_iff, h.ofBytes_wire]
  exact ⟨h.framed_wire, h.verifies_wire⟩

/-- `serialize` throws exactly if one of its checks fails. -/
theorem serialize_eq_error_iff (d : IPv4Datagram) :
    (∃ e, d.serialize = .error e) ↔ ¬d.Serializable := by
  constructor
  · rintro ⟨e, he⟩ h
    rw [serialize_eq h] at he
    cases he
  · intro h
    unfold serialize
    by_cases hsize : d.payload.size = d.header.payloadLength.toNat
    · rw [if_neg (not_not.mpr hsize)]
      have hheader : ∃ e, { d.header with cksum := 0 }.serialize =
          .error e := by
        unfold IPv4Header.serialize
        by_cases hver : d.header.ver = 4
        · have hhlen : 4 * d.header.hlen.toNat < IPv4Header.length := by
            by_contra hge
            unfold IPv4Header.length at hge
            exact h ⟨hver, by omega, hsize⟩
          rw [if_neg (not_not.mpr hver), if_pos hhlen]
          exact ⟨_, rfl⟩
        · rw [if_pos hver]
          exact ⟨_, rfl⟩
      obtain ⟨e, he⟩ := hheader
      exact ⟨e, by simp only [he]; rfl⟩
    · rw [if_pos hsize]
      exact ⟨_, rfl⟩

/-- **The round trip of datagrams.**  `serialize` throws exactly if the size of
the payload is not `len - 4 * hlen` modulo `2 ^ 16`, or the version is not 4, or
`hlen` is below 5.  A well-formed datagram is serialized, both the parser of
headers and the one of datagrams accept the result, and a fresh datagram becomes
equal to it but for the checksum, with the payload in one buffer. -/
theorem datagram_round_trip :
    (∀ d : IPv4Datagram, (∃ e, d.serialize = .error e) ↔
      (d.payload.size : ℤ) ≠
          ((d.header.len.toNat : ℤ) - 4 * d.header.hlen.toNat) % 2 ^ 16 ∨
        d.header.ver ≠ 4 ∨ d.header.hlen.toNat < 5) ∧
    ∀ d : IPv4Datagram, d.WellFormed →
      ∃ wire cksum, d.serialize = .ok wire ∧
        (IPv4Header.parse {} ⟨wire.concatenate, .noError⟩).1 = .noError ∧
        IPv4Datagram.parse {} wire.concatenate =
          (.noError, ⟨{ d.header with cksum := cksum },
            [d.payload.concatenate]⟩) := by
  refine ⟨?_, ?_⟩
  · intro d
    have hlt := d.header.hlen.toNat_lt
    have hsize : d.payload.size = d.header.payloadLength.toNat ↔
        (d.payload.size : ℤ) =
          ((d.header.len.toNat : ℤ) - 4 * d.header.hlen.toNat) % 2 ^ 16 := by
      rw [toNat_payloadLength]
      omega
    have hfive : 5 ≤ d.header.hlen.toNat ↔ ¬d.header.hlen.toNat < 5 :=
      Nat.not_lt.symm
    rw [serialize_eq_error_iff, serializable_iff, hsize, hfive]
    tauto
  · intro d h
    exact ⟨d.wire, d.headerOut.cksum, serialize_eq h.serializable,
      parse_header_wire h {}, parse_wire h {}⟩

/-- A datagram with options and a payload of three bytes in two buffers. -/
theorem datagram_round_trip_options :
    let d : IPv4Datagram :=
      { header := { hlen := 6, len := 27, offset := 5 }
        payload := [[1, 2], [3]] }
    ∃ wire cksum, d.serialize = .ok wire ∧
      (IPv4Header.parse {} ⟨wire.concatenate, .noError⟩).1 = .noError ∧
      IPv4Datagram.parse {} wire.concatenate =
        (.noError, ⟨{ d.header with cksum := cksum }, [[1, 2, 3]]⟩) := by
  intro d
  exact datagram_round_trip.2 d ⟨rfl, by decide, by decide, by decide, rfl⟩

end IPv4Datagram
end Sponge
