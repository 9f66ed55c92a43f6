import Sponge.Packet.TCPOverIP
import Sponge.Support.Trace

/-!
# The peer of a connection

A listening adapter takes the addresses of its connection from the first segment
that it accepts, and from then on it accepts segments of that peer only.  The
datagrams come in any order and from anywhere.
-/

namespace Sponge

open Support

/-- What the datagram carries has a valid checksum. -/
def IPv4Datagram.ChecksumValid (dgram : IPv4Datagram) : Prop :=
  (InternetChecksum.add { sum := dgram.header.pseudoCksum }
    dgram.payload.concatenate).value = 0

instance (dgram : IPv4Datagram) : Decidable dgram.ChecksumValid :=
  inferInstanceAs (Decidable (_ = _))

namespace TCPOverIPv4Adapter

/-- Where a segment in a datagram comes from, and what it is addressed to. -/
def endpoints (dgram : IPv4Datagram) (seg : TCPSegment) : Address × Address :=
  (⟨dgram.header.src, seg.header.sport⟩,
    ⟨dgram.header.dst, seg.header.dport⟩)

/-- The adapter of the connection to which the segment belongs. -/
def connected (dgram : IPv4Datagram) (seg : TCPSegment) :
    TCPOverIPv4Adapter where
  config :=
    { source := (endpoints dgram seg).2
      destination := (endpoints dgram seg).1 }
  listening := false

/-- The segment is returned: a listening adapter wants a SYN for its port, and
any other one a segment of its connection. -/
structure Accepts (a : TCPOverIPv4Adapter) (dgram : IPv4Datagram)
    (seg : TCPSegment) : Prop where
  proto : dgram.header.proto = IPv4Header.protoTCP
  parse : TCPSegment.parse {} dgram.payload.concatenate
    dgram.header.pseudoCksum = (.noError, seg)
  dport : seg.header.dport = a.config.source.port
  syn : a.listening = true → seg.header.syn = true ∧ seg.header.rst = false
  peer : a.listening = false →
    endpoints dgram seg = (a.config.destination, a.config.source)

/-! ## One datagram -/

theorem checksumValid_of_parse {dgram : IPv4Datagram} {seg : TCPSegment}
    (h : TCPSegment.parse {} dgram.payload.concatenate
      dgram.header.pseudoCksum = (.noError, seg)) : dgram.ChecksumValid := by
  by_contra hbad
  rw [IPv4Datagram.ChecksumValid] at hbad
  rw [TCPSegment.parse, if_pos hbad] at h
  cases congrArg Prod.fst h

/-- An adapter that is not listening is connected already if it accepts the
segment. -/
theorem Accepts.eq_connected {a : TCPOverIPv4Adapter} {dgram : IPv4Datagram}
    {seg : TCPSegment} (h : a.Accepts dgram seg)
    (hlistening : a.listening = false) : a = connected dgram seg := by
  obtain ⟨⟨source, destination⟩, listening⟩ := a
  obtain rfl : listening = false := hlistening
  rw [connected, h.peer rfl]

theorem unwrapTcpInIp_of_accepts {a : TCPOverIPv4Adapter}
    {dgram : IPv4Datagram} (hpayload : dgram.payload.length ≤ 1)
    {seg : TCPSegment} (h : a.Accepts dgram seg) :
    a.unwrapTcpInIp dgram = (connected dgram seg, .ok (some seg)) := by
  have hproto := h.proto
  have hdport := h.dport
  simp only [unwrapTcpInIp, BufferList.toBuffer_eq hpayload, h.parse]
  cases hlistening : a.listening with
  | true =>
      obtain ⟨hsyn, hrst⟩ := h.syn hlistening
      simp [hproto, hdport, hsyn, hrst, connected, endpoints]
  | false =>
      have hsame := h.eq_connected hlistening
      have hdst : dgram.header.dst = a.config.source.ipv4Numeric := by
        rw [hsame]
        rfl
      have hsrc : dgram.header.src = a.config.destination.ipv4Numeric := by
        rw [hsame]
        rfl
      have hsport : seg.header.sport = a.config.destination.port := by
        rw [hsame]
        rfl
      simp [hproto, hdport, hdst, hsrc, hsport, ← hsame]

theorem unwrapTcpInIp_of_not_accepts {a : TCPOverIPv4Adapter}
    {dgram : IPv4Datagram} (hpayload : dgram.payload.length ≤ 1)
    (h : ∀ seg, ¬a.Accepts dgram seg) :
    a.unwrapTcpInIp dgram = (a, .ok none) := by
  rcases hparse : TCPSegment.parse {} dgram.payload.concatenate
    dgram.header.pseudoCksum with ⟨result, seg⟩
  simp only [unwrapTcpInIp, BufferList.toBuffer_eq hpayload, hparse]
  -- a test that fails returns nothing; if none does, the segment is accepted
  split
  · rfl
  rename_i hdst
  split
  · rfl
  rename_i hsrc
  split
  · rfl
  rename_i hproto
  split
  · rfl
  rename_i hresult
  split
  · rfl
  rename_i hdport
  split
  · rfl
  rename_i hsyn
  have haccepts (hsport : a.listening = false →
      seg.header.sport = a.config.destination.port) : a.Accepts dgram seg :=
    { proto := not_not.mp hproto
      parse := by rw [hparse, not_not.mp hresult]
      dport := not_not.mp hdport
      syn := by
        intro hlistening
        simpa [hlistening] using hsyn
      peer := by
        intro hlistening
        simp only [hlistening, Bool.false_eq_true, not_false_eq_true,
          true_and, not_not] at hdst hsrc
        rw [endpoints, hsrc, hsport hlistening, hdst, not_not.mp hdport] }
  cases hlistening : a.listening with
  | true =>
      refine absurd (haccepts ?_) (h seg)
      simp [hlistening]
  | false =>
      by_cases hsport : seg.header.sport = a.config.destination.port
      · exact absurd (haccepts fun _ => hsport) (h seg)
      · simp [hsport]

/-- Every datagram is ignored, or its segment is returned and the adapter is
connected to its sender. -/
theorem unwrapTcpInIp_cases (a : TCPOverIPv4Adapter) {dgram : IPv4Datagram}
    (h : dgram.payload.length ≤ 1) :
    (a.unwrapTcpInIp dgram = (a, .ok none) ∧ ∀ seg, ¬a.Accepts dgram seg) ∨
      ∃ seg, a.Accepts dgram seg ∧
        a.unwrapTcpInIp dgram = (connected dgram seg, .ok (some seg)) := by
  by_cases haccepts : ∃ seg, a.Accepts dgram seg
  · obtain ⟨seg, hseg⟩ := haccepts
    exact Or.inr ⟨seg, hseg, unwrapTcpInIp_of_accepts h hseg⟩
  · have hnone : ∀ seg, ¬a.Accepts dgram seg := not_exists.mp haccepts
    exact Or.inl ⟨unwrapTcpInIp_of_not_accepts h hnone, hnone⟩

/-- Without a listening flag the adapter never changes. -/
theorem unwrapTcpInIp_fst_of_not_listening {a : TCPOverIPv4Adapter}
    (hlistening : a.listening = false) {dgram : IPv4Datagram}
    (h : dgram.payload.length ≤ 1) : (a.unwrapTcpInIp dgram).1 = a := by
  rcases a.unwrapTcpInIp_cases h with ⟨hcall, -⟩ | ⟨seg, hseg, hcall⟩
  · rw [hcall]
  · rw [hcall, ← hseg.eq_connected hlistening]

/-! ## All datagrams -/

/-- A call of `unwrapTcpInIp`. -/
abbrev Unwrap :=
  Call TCPOverIPv4Adapter IPv4Datagram (Except Exception (Option TCPSegment))

/-- The call clears the listening flag. -/
def ClearsListening (c : Unwrap) : Prop :=
  c.before.listening = true ∧ c.after.listening = false

/-- The segment that the call returns has a valid checksum, is for our port, and
is a SYN without RST. -/
def ReturnsSyn (c : Unwrap) (seg : TCPSegment) : Prop :=
  c.output = .ok (some seg) ∧ c.event.ChecksumValid ∧
    seg.header.dport = c.before.config.source.port ∧
    seg.header.syn = true ∧ seg.header.rst = false

/-- What two calls return belongs to one connection. -/
def SameConnection (c c' : Unwrap) : Prop :=
  ∀ seg seg', c.output = .ok (some seg) → c'.output = .ok (some seg') →
    endpoints c.event seg = endpoints c'.event seg'

section Calls

variable {dgram : IPv4Datagram} (h : dgram.payload.length ≤ 1)
include h

theorem accepts_of_output {a : TCPOverIPv4Adapter} {seg : TCPSegment}
    (houtput : (a.unwrapTcpInIp dgram).2 = .ok (some seg)) :
    a.Accepts dgram seg ∧ (a.unwrapTcpInIp dgram).1 = connected dgram seg := by
  rcases a.unwrapTcpInIp_cases h with ⟨hcall, -⟩ | ⟨seg', hseg', hcall⟩
  · rw [hcall] at houtput
    cases houtput
  · rw [hcall] at houtput
    obtain rfl : seg' = seg := Option.some.inj (Except.ok.inj houtput)
    exact ⟨hseg', by rw [hcall]⟩

theorem clearsListening_iff (a : TCPOverIPv4Adapter) :
    ClearsListening (.of unwrapTcpInIp a dgram) ↔
      a.listening = true ∧
        ∃ seg, ReturnsSyn (.of unwrapTcpInIp a dgram) seg := by
  constructor
  · rintro ⟨hbefore, hafter⟩
    refine ⟨hbefore, ?_⟩
    rcases a.unwrapTcpInIp_cases h with ⟨hcall, -⟩ | ⟨seg, hseg, hcall⟩
    · simp [Call.of, hcall, show a.listening = true from hbefore] at hafter
    · exact ⟨seg, congrArg Prod.snd hcall, checksumValid_of_parse hseg.parse,
        hseg.dport, hseg.syn hbefore⟩
  · rintro ⟨hbefore, seg, houtput, -⟩
    refine ⟨hbefore, ?_⟩
    change (a.unwrapTcpInIp dgram).1.listening = false
    rw [(accepts_of_output h houtput).2]
    rfl

theorem after_eq_before_of_none {a : TCPOverIPv4Adapter}
    (houtput : (a.unwrapTcpInIp dgram).2 = .ok none) :
    (a.unwrapTcpInIp dgram).1 = a := by
  rcases a.unwrapTcpInIp_cases h with ⟨hcall, -⟩ | ⟨seg, -, hcall⟩
  · rw [hcall]
  · rw [hcall] at houtput
    cases houtput

theorem exists_output (a : TCPOverIPv4Adapter) :
    ∃ returned, (a.unwrapTcpInIp dgram).2 = .ok returned := by
  rcases a.unwrapTcpInIp_cases h with ⟨hcall, -⟩ | ⟨seg, -, hcall⟩
  · exact ⟨none, by rw [hcall]⟩
  · exact ⟨some seg, by rw [hcall]⟩

end Calls

section Runs

variable {dgrams : List IPv4Datagram}
  (hsingle : ∀ dgram ∈ dgrams, dgram.payload.length ≤ 1)
include hsingle

/-- After the flag is cleared no call clears it again. -/
theorem pairwise_clearsListening (a : TCPOverIPv4Adapter) :
    (trace unwrapTcpInIp a dgrams).Pairwise fun c c' =>
      ¬(ClearsListening c ∧ ClearsListening c') := by
  apply pairwise_trace
    (K := fun c (b : TCPOverIPv4Adapter) =>
      ClearsListening c → b.listening = false) ?_ ?_ ?_ a hsingle
  · intro b dgram _ hclears
    exact hclears.2
  · intro c b dgram hkept hdgram hclears
    rw [unwrapTcpInIp_fst_of_not_listening (hkept hclears) hdgram]
    exact hkept hclears
  · rintro c b dgram hkept - ⟨hclears, hbefore, -⟩
    have hoff : b.listening = false := hkept hclears
    have hon : b.listening = true := hbefore
    rw [hoff] at hon
    cases hon

/-- A call that returns a segment leaves the adapter connected to its sender,
and so it stays. -/
theorem pairwise_sameConnection (a : TCPOverIPv4Adapter) :
    (trace unwrapTcpInIp a dgrams).Pairwise SameConnection := by
  apply pairwise_trace
    (K := fun c b => ∀ seg, c.output = .ok (some seg) →
      b = connected c.event seg) ?_ ?_ ?_ a hsingle
  · intro b dgram hdgram seg houtput
    exact (accepts_of_output hdgram houtput).2
  · intro c b dgram hkept hdgram seg houtput
    obtain rfl := hkept seg houtput
    exact unwrapTcpInIp_fst_of_not_listening rfl hdgram
  · intro c b dgram hkept hdgram seg seg' houtput houtput'
    obtain rfl := hkept seg houtput
    exact ((accepts_of_output hdgram houtput').1.peer rfl).symm

/-- An adapter that starts with a peer stays as it is, and returns segments of
that peer only. -/
theorem forall_mem_trace_configured {a : TCPOverIPv4Adapter}
    (hlistening : a.listening = false) :
    ∀ c ∈ trace unwrapTcpInIp a dgrams, c.after = a ∧
      ∀ seg, c.output = .ok (some seg) →
        endpoints c.event seg = (a.config.destination, a.config.source) := by
  refine forall_mem_trace (I := fun b => b = a) ?_ ?_ rfl hsingle
  · rintro b dgram rfl hdgram
    exact unwrapTcpInIp_fst_of_not_listening hlistening hdgram
  · rintro b dgram rfl hdgram
    refine ⟨unwrapTcpInIp_fst_of_not_listening hlistening hdgram, ?_⟩
    intro seg houtput
    exact (accepts_of_output hdgram houtput).1.peer hlistening

end Runs

/-- **Pinning of the peer.**  Whatever datagrams come, each in a single buffer, a
call that returns nothing changes nothing.  The listening flag is cleared at
most once, exactly when the SYN that opens the connection is returned, and all
segments that are ever returned come from one peer and are addressed to one of
our addresses; without the flag these are the configured ones. -/
theorem peer_pinning (a : TCPOverIPv4Adapter) (dgrams : List IPv4Datagram)
    (hsingle : ∀ dgram ∈ dgrams, dgram.payload.length ≤ 1) :
    let calls := trace unwrapTcpInIp a dgrams
    (∀ c ∈ calls, (∃ returned, c.output = .ok returned) ∧
        (c.output = .ok none → c.after = c.before)) ∧
      (∀ c ∈ calls, ClearsListening c ↔
        c.before.listening = true ∧ ∃ seg, ReturnsSyn c seg) ∧
      (calls.Pairwise fun c c' =>
        ¬(ClearsListening c ∧ ClearsListening c')) ∧
      calls.Pairwise SameConnection ∧
      (a.listening = false → ∀ c ∈ calls, c.after = a ∧
        ∀ seg, c.output = .ok (some seg) →
          endpoints c.event seg =
            (a.config.destination, a.config.source)) := by
  refine ⟨?_, ?_, pairwise_clearsListening hsingle a,
    pairwise_sameConnection hsingle a, forall_mem_trace_configured hsingle⟩
  · refine forall_mem_trace_of_forall ?_ a hsingle
    intro b dgram hdgram
    exact ⟨exists_output hdgram b, after_eq_before_of_none hdgram⟩
  · refine forall_mem_trace_of_forall ?_ a hsingle
    intro b dgram hdgram
    exact clearsListening_iff hdgram b

/-- A SYN from the address 1 to a listening adapter, and the same one from the
address 3 after it. -/
theorem peer_pinning_syn_twice :
    let a : TCPOverIPv4Adapter := ⟨{ source := ⟨0, 80⟩ }, true⟩
    let syn : List UInt8 := [0x04, 0xd2, 0, 80, 0, 0, 0, 0, 0, 0, 0, 0,
      0x50, 0x02, 0, 0, 0xaa, 0xbe, 0, 0]
    let calls := trace unwrapTcpInIp a
      [⟨{ src := 1, dst := 2, len := 40 }, [syn]⟩,
        ⟨{ src := 3, dst := 2, len := 40 }, [syn]⟩]
    calls.map (fun c => (c.before.listening, c.after.listening)) =
        [(true, false), (false, false)] ∧
      calls.Pairwise SameConnection := by
  intro a syn calls
  refine ⟨by decide, ?_⟩
  exact (peer_pinning a _ (by decide)).2.2.2.1

end TCPOverIPv4Adapter
end Sponge
