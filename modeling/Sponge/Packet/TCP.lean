import Sponge.Packet.IPv4
import Sponge.TCPSegment

/-!
# The wire format of TCP segments

`TCPSegment::parse` checks the checksum over the whole buffer and then lets the
header parser take its part.  As for datagrams, the result of the header parser
is dropped, and only the error of the `NetParser` counts.
-/

namespace Sponge

open Support.OnesComplement

/-! ## Headers -/

namespace TCPHeader

def length : ℕ := 20

/-- The fields of the header, in the order in which they are read. -/
def readFields (p : NetParser) : TCPHeader × NetParser :=
  let (sport, p) := p.u16
  let (dport, p) := p.u16
  let (seqno, p) := p.u32
  let (ackno, p) := p.u32
  let (doff, p) := p.u8
  let (flB, p) := p.u8
  let (win, p) := p.u16
  let (cksum, p) := p.u16
  let (uptr, p) := p.u16
  ({ sport := sport
     dport := dport
     seqno := ⟨seqno⟩
     ackno := ⟨ackno⟩
     doff := doff >>> 4
     urg := flB &&& 0b00100000 != 0
     ack := flB &&& 0b00010000 != 0
     psh := flB &&& 0b00001000 != 0
     rst := flB &&& 0b00000100 != 0
     syn := flB &&& 0b00000010 != 0
     fin := flB &&& 0b00000001 != 0
     win := win
     cksum := cksum
     uptr := uptr }, p)

/-- Every field is read anew, so that nothing is left of an old header. -/
def parse (p : NetParser) : ParseResult × TCPHeader × NetParser :=
  let (h, p) := readFields p
  if h.doff < 5 then (.headerTooShort, h, p)
  else
    let p := p.removePrefix (h.doff.toNat * 4 - length)
    if p.error ≠ .noError then (p.error, h, p) else (.noError, h, p)

/-- What `serialize` writes once its check has passed, up to the checksum. -/
def fieldsFront (h : TCPHeader) : List UInt8 :=
  let flB : UInt8 := (if h.urg then 0b00100000 else 0) |||
    (if h.ack then 0b00010000 else 0) ||| (if h.psh then 0b00001000 else 0) |||
    (if h.rst then 0b00000100 else 0) ||| (if h.syn then 0b00000010 else 0) |||
    (if h.fin then 0b00000001 else 0)
  NetUnparser.u16 h.sport ++ NetUnparser.u16 h.dport ++
    NetUnparser.u32 h.seqno.rawValue ++ NetUnparser.u32 h.ackno.rawValue ++
    NetUnparser.u8 (h.doff <<< 4) ++ NetUnparser.u8 flB ++
    NetUnparser.u16 h.win

def fields (h : TCPHeader) : List UInt8 :=
  h.fieldsFront ++ NetUnparser.u16 h.cksum ++ NetUnparser.u16 h.uptr

/-- The serialized header; the checksum is not computed. -/
def serialize (h : TCPHeader) : Except Exception (List UInt8) :=
  if h.doff < 5 then .error (.runtimeError "TCP header too short")
  else .ok (resize h.fields (4 * h.doff.toNat))

end TCPHeader

/-! ## Segments -/

namespace TCPSegment

def parse (seg : TCPSegment) (buffer : Buffer)
    (datagramLayerChecksum : UInt32) : ParseResult × TCPSegment :=
  let check := InternetChecksum.add { sum := datagramLayerChecksum } buffer
  if check.value ≠ 0 then (.badChecksum, seg)
  else
    let (_, header, p) := TCPHeader.parse { buffer := buffer }
    (p.error, ⟨header, p.buffer⟩)

def serialize (seg : TCPSegment) (datagramLayerChecksum : UInt32) :
    Except Exception BufferList := do
  let headerOut := { seg.header with cksum := 0 }
  let header ← headerOut.serialize
  let check := InternetChecksum.add { sum := datagramLayerChecksum } header
  let check := check.add seg.payload
  let headerOut := { headerOut with cksum := check.value }
  let header ← headerOut.serialize
  return [header] ++ [seg.payload]

end TCPSegment

/-! ## What the header parser leaves -/

namespace TCPHeader

/-- The header whose fields stand in the first 20 bytes. -/
def ofBytes (b : List UInt8) : TCPHeader where
  sport := shortAt b 0
  dport := shortAt b 2
  seqno := ⟨longAt b 4⟩
  ackno := ⟨longAt b 8⟩
  doff := byteAt b 12 >>> 4
  urg := byteAt b 13 &&& 0b00100000 != 0
  ack := byteAt b 13 &&& 0b00010000 != 0
  psh := byteAt b 13 &&& 0b00001000 != 0
  rst := byteAt b 13 &&& 0b00000100 != 0
  syn := byteAt b 13 &&& 0b00000010 != 0
  fin := byteAt b 13 &&& 0b00000001 != 0
  win := shortAt b 14
  cksum := shortAt b 16
  uptr := shortAt b 18

theorem readFields_eq {b : List UInt8} (h : 20 ≤ b.length) :
    readFields ⟨b, .noError⟩ = (ofBytes b, ⟨b.drop 20, .noError⟩) := by
  have hstart : (⟨b, .noError⟩ : NetParser) = ⟨b.drop 0, .noError⟩ := by simp
  have h₀ : 0 + 2 ≤ b.length := by omega
  have h₂ : 2 + 2 ≤ b.length := by omega
  have h₄ : 4 + 4 ≤ b.length := by omega
  have h₈ : 8 + 4 ≤ b.length := by omega
  have h₁₂ : 12 + 1 ≤ b.length := by omega
  have h₁₃ : 13 + 1 ≤ b.length := by omega
  have h₁₄ : 14 + 2 ≤ b.length := by omega
  have h₁₆ : 16 + 2 ≤ b.length := by omega
  have h₁₈ : 18 + 2 ≤ b.length := by omega
  rw [hstart]
  simp only [readFields, NetParser.u16_drop h₀, NetParser.u16_drop h₂,
    NetParser.u32_drop h₄, NetParser.u32_drop h₈, NetParser.u8_drop h₁₂,
    NetParser.u8_drop h₁₃, NetParser.u16_drop h₁₄, NetParser.u16_drop h₁₆,
    NetParser.u16_drop h₁₈, ofBytes]

/-- With fewer than 20 bytes some field does not fit. -/
theorem readFields_of_short {b : List UInt8} (h : b.length < 20) :
    (readFields ⟨b, .noError⟩).2.error ≠ .noError := by
  intro hend
  simp only [readFields] at hend
  obtain ⟨h₁₈, l₁₈⟩ := NetParser.u16_noError hend
  obtain ⟨h₁₆, l₁₆⟩ := NetParser.u16_noError h₁₈
  obtain ⟨h₁₄, l₁₄⟩ := NetParser.u16_noError h₁₆
  obtain ⟨h₁₃, l₁₃⟩ := NetParser.u8_noError h₁₄
  obtain ⟨h₁₂, l₁₂⟩ := NetParser.u8_noError h₁₃
  obtain ⟨h₈, l₈⟩ := NetParser.u32_noError h₁₂
  obtain ⟨h₄, l₄⟩ := NetParser.u32_noError h₈
  obtain ⟨h₂, l₂⟩ := NetParser.u16_noError h₄
  obtain ⟨-, l₀⟩ := NetParser.u16_noError h₂
  dsimp only at l₀
  omega

theorem parse_of_short {b : List UInt8} (h : b.length < 20) :
    (parse ⟨b, .noError⟩).2.2.error ≠ .noError := by
  have herror := readFields_of_short h
  rcases hread : readFields ⟨b, .noError⟩ with ⟨header, p⟩
  rw [hread] at herror
  simp only [parse, hread]
  by_cases hdoff : header.doff < 5
  · rw [if_pos hdoff]
    exact herror
  · have hremove := NetParser.removePrefix_of_error
      (header.doff.toNat * 4 - length) herror
    rw [if_neg hdoff, if_pos hremove]
    exact hremove

/-- A data offset below the minimum is an error in the result only. -/
theorem parse_of_small_doff {b : List UInt8} (h : 20 ≤ b.length)
    (hdoff : (ofBytes b).doff < 5) :
    parse ⟨b, .noError⟩ =
      (.headerTooShort, ofBytes b, ⟨b.drop 20, .noError⟩) := by
  simp only [parse, readFields_eq h, if_pos hdoff]

theorem parse_of_truncated {b : List UInt8} (h : 20 ≤ b.length)
    (hfits : b.length < 4 * (ofBytes b).doff.toNat) :
    (parse ⟨b, .noError⟩).2.2.error ≠ .noError := by
  have hdoff : ¬(ofBytes b).doff < 5 := by
    refine Nat.not_lt.mpr ?_
    change 5 ≤ (ofBytes b).doff.toNat
    omega
  have hremove : ((NetParser.mk (b.drop 20) .noError).removePrefix
      ((ofBytes b).doff.toNat * 4 - length)).error ≠ .noError := by
    refine NetParser.removePrefix_of_lt ?_
    rw [List.length_drop, length]
    omega
  simp only [parse, readFields_eq h, if_neg hdoff, if_pos hremove]
  exact hremove

theorem parse_of_fits {b : List UInt8}
    (hdoff : 5 ≤ (ofBytes b).doff.toNat)
    (hfits : 4 * (ofBytes b).doff.toNat ≤ b.length) :
    parse ⟨b, .noError⟩ = (.noError, ofBytes b,
      ⟨b.drop (4 * (ofBytes b).doff.toNat), .noError⟩) := by
  have h : 20 ≤ b.length := by omega
  have hmin : ¬(ofBytes b).doff < 5 := Nat.not_lt.mpr hdoff
  have hremove : (NetParser.mk (b.drop 20) .noError).removePrefix
      ((ofBytes b).doff.toNat * 4 - length) =
        ⟨b.drop (4 * (ofBytes b).doff.toNat), .noError⟩ := by
    rw [NetParser.removePrefix_drop (by unfold length; omega)]
    congr 2
    unfold length
    omega
  simp only [parse, readFields_eq h, if_neg hmin, hremove]
  rw [if_neg (not_not.mpr rfl)]

end TCPHeader

/-! ## Acceptance -/

namespace TCPSegment

open TCPHeader

theorem checksum_eq_zero_iff {b : List UInt8} {sum : UInt32}
    (hb : b.length ≤ 60 + 65535) (hsum : sum.toNat ≤ 2 ^ 20) :
    (InternetChecksum.add { sum := sum } b).value = 0 ↔
      Verifies sum.toNat b := by
  apply InternetChecksum.value_add_eq_zero_iff sum b
  exact InternetChecksum.sum_lt_of_length_le hsum hb

/-- Exactly which segments are accepted. -/
theorem parse_eq_noError_iff (seg : TCPSegment) {b : List UInt8} {sum : UInt32}
    (hb : b.length ≤ 60 + 65535) (hsum : sum.toNat ≤ 2 ^ 20) :
    (seg.parse b sum).1 = .noError ↔
      Verifies sum.toNat b ∧ 20 ≤ b.length ∧
        ((ofBytes b).doff.toNat < 5 ∨
          4 * (ofBytes b).doff.toNat ≤ b.length) := by
  have hcheck := checksum_eq_zero_iff hb hsum
  simp only [parse, ne_eq, hcheck]
  by_cases hverifies : Verifies sum.toNat b
  · rw [if_neg (not_not.mpr hverifies)]
    by_cases hlen : 20 ≤ b.length
    · by_cases hsmall : (ofBytes b).doff.toNat < 5
      · simp [parse_of_small_doff hlen hsmall, hverifies, hlen, hsmall]
      · by_cases hfits : 4 * (ofBytes b).doff.toNat ≤ b.length
        · simp [parse_of_fits (Nat.not_lt.mp hsmall) hfits, hverifies, hlen,
            hfits]
        · have herror := parse_of_truncated hlen (Nat.lt_of_not_le hfits)
          simp [herror, hsmall, hfits]
    · have herror := parse_of_short (Nat.lt_of_not_le hlen)
      simp [herror, hlen]
  · simp [hverifies]

/-- The payload of an accepted segment with a sufficient data offset. -/
theorem parse_payload (seg : TCPSegment) {b : List UInt8} {sum : UInt32}
    (hb : b.length ≤ 60 + 65535) (hsum : sum.toNat ≤ 2 ^ 20)
    (hverifies : Verifies sum.toNat b)
    (hdoff : 5 ≤ (ofBytes b).doff.toNat)
    (hfits : 4 * (ofBytes b).doff.toNat ≤ b.length) :
    seg.parse b sum =
      (.noError, ⟨ofBytes b, b.drop (4 * (ofBytes b).doff.toNat)⟩) := by
  have hcheck := (checksum_eq_zero_iff hb hsum).mpr hverifies
  simp only [parse, hcheck, parse_of_fits hdoff hfits]
  rw [if_neg (not_not.mpr rfl)]

/-- **Which segments are accepted.**  Take a buffer of at most 65535 bytes and a
sum that is 0 or comes from a pseudo-header.  That `parse` accepts it exactly if
the checksum verifies, there are 20 bytes, and the data offset is at least 5 and
within the buffer, and that the payload then follows the header, is true exactly
when it is not the case that the checksum verifies, there are 20 bytes and the
data offset is below 5. -/
theorem segment_acceptance_iff (seg : TCPSegment) (b : List UInt8) (sum : UInt32)
    (hb : b.length ≤ 65535)
    (hsum : sum = 0 ∨ ∃ h : IPv4Header, sum = h.pseudoCksum) :
    let doff := (byteAt b 12 >>> 4).toNat
    let acceptable := Verifies sum.toNat b ∧ 20 ≤ b.length ∧ 5 ≤ doff ∧
      4 * doff ≤ b.length
    (((seg.parse b sum).1 = .noError ↔ acceptable) ∧
        (acceptable → (seg.parse b sum).2.payload = b.drop (4 * doff))) ↔
      ¬(Verifies sum.toNat b ∧ 20 ≤ b.length ∧ doff < 5) := by
  intro doff acceptable
  have hle : sum.toNat ≤ 2 ^ 20 := by
    rcases hsum with rfl | ⟨h, rfl⟩
    · decide
    · have hlt := h.toNat_pseudoCksum_lt
      omega
  have hlen : b.length ≤ 60 + 65535 := by omega
  have haccepts := parse_eq_noError_iff seg hlen hle
  constructor
  · rintro ⟨hiff, -⟩ ⟨hverifies, hlen, hsmall⟩
    have hacc := hiff.mp (haccepts.mpr ⟨hverifies, hlen, Or.inl hsmall⟩)
    exact Nat.not_lt.mpr hacc.2.2.1 hsmall
  · intro hnot
    refine ⟨?_, ?_⟩
    · rw [haccepts]
      constructor
      · rintro ⟨hverifies, hlen, hsmall | hfits⟩
        · exact absurd ⟨hverifies, hlen, hsmall⟩ hnot
        · by_cases hmin : 5 ≤ doff
          · exact ⟨hverifies, hlen, hmin, hfits⟩
          · exact absurd ⟨hverifies, hlen, Nat.lt_of_not_le hmin⟩ hnot
      · rintro ⟨hverifies, hlen, -, hfits⟩
        exact ⟨hverifies, hlen, Or.inr hfits⟩
    · rintro ⟨hverifies, -, hmin, hfits⟩
      rw [parse_payload seg hlen hle hverifies hmin hfits]
      rfl

theorem segment_acceptance_minimal_header :
    let b : List UInt8 := [0, 0, 0, 0, 0, 0, 0, 0, 0, 0, 0, 0, 0x50, 0, 0, 0,
      0xae, 0xff, 0, 0, 1, 0]
    (parse {} b 0).1 = .noError ∧ (parse {} b 0).2.payload = [1, 0] := by
  intro b
  have hiff := segment_acceptance_iff {} b 0 (by decide) (Or.inl rfl)
  obtain ⟨haccepts, hpayload⟩ := hiff.mpr (by decide +kernel)
  exact ⟨haccepts.mpr (by decide +kernel),
    (hpayload (by decide +kernel)).trans (by decide)⟩

/-- A segment with a data offset of 0 is accepted. -/
theorem parse_accepts_small_doff :
    let b : List UInt8 := [0, 0, 0, 0, 0, 0, 0, 0, 0, 0, 0, 0, 0, 0, 0, 0,
      0xff, 0xff, 0, 0]
    let doff := (byteAt b 12 >>> 4).toNat
    ¬((parse {} b 0).1 = .noError ↔
      Verifies (0 : UInt32).toNat b ∧ 20 ≤ b.length ∧ 5 ≤ doff ∧
        4 * doff ≤ b.length) := by
  decide +kernel

end TCPSegment

/-! ## Round trip -/

namespace TCPHeader

theorem doff_read {doff : UInt8} (h : doff.toNat ≤ 15) :
    (doff <<< 4) >>> 4 = doff := by
  have hall : ∀ n ≤ 15,
      (UInt8.ofNat n <<< 4) >>> 4 = UInt8.ofNat n := by
    decide
  have hn := hall doff.toNat h
  rw [UInt8.ofNat_toNat] at hn
  exact hn

/-- The flags are read back from the byte that holds them. -/
theorem flags_read : ∀ urg ack psh rst syn fin : Bool,
    let flB : UInt8 := (if urg then 0b00100000 else 0) |||
      (if ack then 0b00010000 else 0) ||| (if psh then 0b00001000 else 0) |||
      (if rst then 0b00000100 else 0) ||| (if syn then 0b00000010 else 0) |||
      (if fin then 0b00000001 else 0)
    (flB &&& 0b00100000 != 0) = urg ∧ (flB &&& 0b00010000 != 0) = ack ∧
      (flB &&& 0b00001000 != 0) = psh ∧ (flB &&& 0b00000100 != 0) = rst ∧
      (flB &&& 0b00000010 != 0) = syn ∧ (flB &&& 0b00000001 != 0) = fin := by
  decide

/-- Reading what was written gives the header back. -/
theorem readFields_fields {h : TCPHeader} (hdoff : h.doff.toNat ≤ 15)
    (rest : List UInt8) :
    readFields ⟨h.fields ++ rest, .noError⟩ = (h, ⟨rest, .noError⟩) := by
  obtain ⟨hurg, hack, hpsh, hrst, hsyn, hfin⟩ :=
    flags_read h.urg h.ack h.psh h.rst h.syn h.fin
  simp only [readFields, fields, fieldsFront, List.append_assoc,
    NetParser.u8_append, NetParser.u16_append, NetParser.u32_append,
    doff_read hdoff, hurg, hack, hpsh, hrst, hsyn, hfin]

theorem length_fieldsFront (h : TCPHeader) : h.fieldsFront.length = 16 := by
  simp [fieldsFront]

theorem length_fields (h : TCPHeader) : h.fields.length = 20 := by
  simp [fields, length_fieldsFront]

theorem ofBytes_fields {h : TCPHeader} (hdoff : h.doff.toNat ≤ 15)
    (rest : List UInt8) : ofBytes (h.fields ++ rest) = h := by
  have hlen : 20 ≤ (h.fields ++ rest).length := by
    rw [List.length_append, length_fields]
    omega
  have hread := readFields_eq hlen
  rw [readFields_fields hdoff] at hread
  exact (congrArg Prod.fst hread).symm

end TCPHeader

namespace TCPSegment

open TCPHeader

/-- The header that `serialize` writes, with the checksum computed. -/
def headerOut (seg : TCPSegment) (datagramLayerChecksum : UInt32) : TCPHeader :=
  let zero := { seg.header with cksum := 0 }
  { seg.header with
    cksum := (InternetChecksum.add { sum := datagramLayerChecksum }
      (resize zero.fields (4 * seg.header.doff.toNat) ++ seg.payload)).value }

theorem serialize_eq {seg : TCPSegment} (h : 5 ≤ seg.header.doff.toNat)
    (sum : UInt32) :
    seg.serialize sum =
      .ok [resize (seg.headerOut sum).fields (4 * seg.header.doff.toNat),
        seg.payload] := by
  have hdoff : ¬seg.header.doff < 5 := Nat.not_lt.mpr h
  have hheader : ∀ cksum, { seg.header with cksum := cksum }.serialize =
      .ok (resize { seg.header with cksum := cksum }.fields
        (4 * seg.header.doff.toNat)) := by
    intro cksum
    simp only [TCPHeader.serialize]
    rw [if_neg hdoff]
  simp only [serialize, hheader, InternetChecksum.add_append]
  rfl

/-- What a segment is parsed to after it was serialized for the same
pseudo-header: itself, with the checksum. -/
theorem parse_serialize {seg : TCPSegment} (hge : 5 ≤ seg.header.doff.toNat)
    (hle : seg.header.doff.toNat ≤ 15) {sum : UInt32}
    (hsum : sum.toNat ≤ 2 ^ 20) (hsize : seg.payload.length ≤ 65535)
    (fresh : TCPSegment) :
    fresh.parse (resize (seg.headerOut sum).fields
        (4 * seg.header.doff.toNat) ++ seg.payload) sum =
      (.noError, ⟨seg.headerOut sum, seg.payload⟩) := by
  -- the bytes around the checksum
  have hbytes : ∀ cksum, resize { seg.header with cksum := cksum }.fields
      (4 * seg.header.doff.toNat) ++ seg.payload =
        seg.header.fieldsFront ++ (NetUnparser.u16 cksum ++
          (NetUnparser.u16 seg.header.uptr ++
            (List.replicate (4 * seg.header.doff.toNat - 20) 0 ++
              seg.payload))) := by
    intro cksum
    rw [resize_of_le (by rw [length_fields]; omega), length_fields, fields]
    simp only [List.append_assoc]
    rfl
  have hlength : ∀ h : TCPHeader, (resize h.fields
      (4 * seg.header.doff.toNat) ++ seg.payload).length =
        4 * seg.header.doff.toNat + seg.payload.length := by
    intro h
    rw [List.length_append, length_resize]
  have hverifies : Verifies sum.toNat (resize (seg.headerOut sum).fields
      (4 * seg.header.doff.toNat) ++ seg.payload) := by
    rw [headerOut, hbytes, hbytes]
    apply InternetChecksum.verifies_of_inserted sum
      (by rw [length_fieldsFront])
    rw [← hbytes]
    apply InternetChecksum.sum_lt_of_length_le hsum
    rw [hlength]
    omega
  have hdoff : (seg.headerOut sum).doff = seg.header.doff := rfl
  have hof : ofBytes (resize (seg.headerOut sum).fields
      (4 * seg.header.doff.toNat) ++ seg.payload) = seg.headerOut sum := by
    rw [resize_of_le (by rw [length_fields]; omega), List.append_assoc]
    exact ofBytes_fields (by rw [hdoff]; exact hle) _
  have hparse := parse_payload fresh (by rw [hlength]; omega) hsum
    hverifies (by rw [hof, hdoff]; exact hge)
    (by rw [hof, hdoff, hlength]; exact Nat.le_add_right _ _)
  rw [hparse, hof, hdoff, List.drop_left' (length_resize _ _)]

/-- **The round trip of segments.**  A segment with a data offset from 5 to 15
and a payload of at most 65535 bytes is serialized; parsing the bytes with the
same sum, which is at most `2 ^ 20`, gives the segment back, with the checksum
over the header with a checksum of zero and the payload; and that is serialized
to the same bytes. -/
theorem segment_round_trip (seg fresh : TCPSegment) (sum : UInt32)
    (hge : 5 ≤ seg.header.doff.toNat) (hle : seg.header.doff.toNat ≤ 15)
    (hpayload : seg.payload.length ≤ 65535) (hsum : sum.toNat ≤ 2 ^ 20) :
    ∃ zeroed wire,
      { seg.header with cksum := 0 }.serialize = .ok zeroed ∧
      seg.serialize sum = .ok wire ∧
      let check := (InternetChecksum.add { sum := sum } zeroed).add seg.payload
      let arrived : TCPSegment :=
        ⟨{ seg.header with cksum := check.value }, seg.payload⟩
      fresh.parse wire.concatenate sum = (.noError, arrived) ∧
        arrived.serialize sum = .ok wire := by
  have hdoff : ¬seg.header.doff < 5 := Nat.not_lt.mpr hge
  refine ⟨_, _, if_neg hdoff, serialize_eq hge sum, ?_⟩
  intro check arrived
  have harrived : arrived = ⟨seg.headerOut sum, seg.payload⟩ := by
    simp only [arrived, check, InternetChecksum.add_append]
    rfl
  refine ⟨?_, ?_⟩
  · have hparse := parse_serialize hge hle hsum hpayload fresh
    rw [harrived, ← hparse]
    simp [BufferList.concatenate]
  · -- the checksum field that a segment comes with is not looked at
    have hagain : arrived.serialize sum =
        .ok [resize (arrived.headerOut sum).fields
          (4 * seg.header.doff.toNat), seg.payload] :=
      serialize_eq hge sum
    exact hagain

/-- A segment with an option word and a payload of one byte. -/
theorem segment_round_trip_options :
    let seg : TCPSegment :=
      { header := { sport := 80, syn := true, doff := 6 }, payload := [7] }
    ∃ wire, seg.serialize 17 = .ok wire ∧
      (parse {} wire.concatenate 17).1 = .noError := by
  intro seg
  obtain ⟨zeroed, wire, -, hwire, hparse, -⟩ := segment_round_trip seg {} 17
    (by decide) (by decide) (by decide) (by decide)
  exact ⟨wire, hwire, by rw [hparse]⟩

end TCPSegment
end Sponge
