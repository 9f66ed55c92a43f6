import Sponge.Network.Arrival
import Sponge.Network.Bounded
import Sponge.TCPConnection.Answers
import Sponge.TCPSender.Maximal

/-!
# Exchanges without resets

Two connections that have sent their SYNs, write few bytes and give up neither
of them stay healthy: they are joined, their windows are filled, no RST is on
the wire, and each has sent no more than the other was ready to take.  Every
operation keeps this, as does the delivery of anything on the wire.
-/

namespace Sponge

open Support

/-! ## How far a sender has gone -/

/-- A number that a sender may have reached: one after what the receiver has
acknowledged, or, once a SYN was received, the end of its window. -/
def TCPReceiver.Allows (r : TCPReceiver) (n : ℕ) : Prop :=
  n ≤ r.ackno + 1 ∨ (0 < r.ackno ∧ n ≤ r.edge)

theorem TCPReceiver.Allows.mono {r r' : TCPReceiver} {n : ℕ}
    (h : r.Allows n) (hackno : r.ackno ≤ r'.ackno) (hedge : r.edge ≤ r'.edge) :
    r'.Allows n := by
  rcases h with hnext | ⟨hpos, hle⟩
  · exact Or.inl (by omega)
  · exact Or.inr ⟨by omega, by omega⟩

namespace TCPSender

/-- What the sender has sent and what it would send is allowed. -/
structure Paced (r : TCPReceiver) (s : TCPSender) : Prop where
  next : r.Allows s.nextSeqno
  last : r.Allows s.endSeqno

theorem Paced.fillWindow {r : TCPReceiver} {s : TCPSender} (h : s.Paced r) :
    s.fillWindow.Paced r := by
  obtain ⟨segs, hfills, -⟩ := s.fillWindow_spec
  obtain ⟨hackno, hwindow, -⟩ := hfills.unchanged
  have hle := hfills.nextSeqno_le
  have hend : s.fillWindow.endSeqno = s.endSeqno := by
    rw [endSeqno, endSeqno, hackno, hwindow]
  refine ⟨?_, hend ▸ h.last⟩
  rcases le_max_iff.mp hle with hnext | hlast
  · exact h.next.imp hnext.trans (And.imp_right hnext.trans)
  · exact h.last.imp hlast.trans (And.imp_right hlast.trans)

theorem Paced.ackReceived {r : TCPReceiver} {s : TCPSender} (h : s.Paced r)
    {ackno : WrappingInt32} {win : UInt16} {m : ℕ}
    (htmp : unwrap ackno s.isn s.nextSeqno = m) (hpos : 0 < m)
    (hle : m ≤ r.ackno) (hedge : m + win.toNat ≤ r.edge) :
    (s.ackReceived ackno win).Paced r := by
  rcases Nat.lt_or_ge s.nextSeqno m with hlt | hge
  · rw [ackReceived_of_lt htmp hlt]
    exact h
  · rw [ackReceived_of_le htmp hge]
    refine ⟨h.next, ?_⟩
    rw [endSeqno_eq]
    dsimp only
    rcases Nat.lt_or_ge win.toNat 2 with hsmall | hlarge
    · exact Or.inl (by omega)
    · exact Or.inr ⟨by omega, by omega⟩

end TCPSender

/-! ## Refilling the stream -/

namespace TCPConnection

/-- The stream of the sender is replaced and the window filled: `write` and
`end_input_stream` do no more. -/
def refill (c : TCPConnection) (stream : ByteStream) : TCPConnection :=
  { c with sender := { c.sender with stream := stream } }.fillWindow

theorem Clean.refill {c : TCPConnection} (h : c.Clean) (stream : ByteStream) :
    (c.refill stream).Clean :=
  Clean.fillWindow ⟨h.valid.with_streams stream _, h.opened, h.flushed,
    h.outstanding, h.synced, h.plain⟩

theorem UpToDate.refill {c : TCPConnection} (h : c.UpToDate)
    (stream : ByteStream) : (c.refill stream).UpToDate :=
  UpToDate.moves (c := { c with sender := { c.sender with stream := stream } })
    h (moves_fillWindow _)

theorem paced_refill {r : TCPReceiver} {c : TCPConnection}
    (h : c.sender.Paced r) (stream : ByteStream) :
    (c.refill stream).sender.Paced r := by
  have hfilled := TCPSender.Paced.fillWindow
    (s := { c.sender with stream := stream }) ⟨h.next, h.last⟩
  exact ⟨hfilled.next, hfilled.last⟩

theorem Queues.refill {lo : ℕ} {c : TCPConnection} (h : c.Queues lo)
    (stream : ByteStream) : (c.refill stream).Queues lo :=
  Queues.fillWindow (c := { c with
    sender := { c.sender with stream := stream } }) h

/-! ## Ticks that reset nothing -/

/-- The tick does not give the connection up. -/
def Endures (c : TCPConnection) (ms : ℕ) : Prop :=
  (c.sender.tick ms).consecutiveRetransmissions ≤ TCPConfig.maxRetxAttempts

theorem Endures.tick_eq {c : TCPConnection} {ms : ℕ} (h : c.Endures ms) :
    c.tick ms = (c.afterTick ms).tryCleanClosed := by
  rw [tick_eq_ite]
  exact if_neg (Nat.not_lt.mpr h)

theorem moves_tick {c : TCPConnection} {ms : ℕ} (h : c.Endures ms) :
    Moves c (c.sender.tick ms).segmentsOut (c.tick ms) := by
  rw [h.tick_eq]
  refine ⟨?_, ?_⟩
  · rw [tryCleanClosed_eq]
    rfl
  · rw [receiver_tryCleanClosed]
    rfl

theorem sender_tick {c : TCPConnection} {ms : ℕ} (h : c.Endures ms) :
    (c.tick ms).sender = { c.sender.tick ms with segmentsOut := [] } := by
  rw [h.tick_eq, sender_tryCleanClosed]
  rfl

theorem Clean.tick {c : TCPConnection} (h : c.Clean) {ms : ℕ}
    (hendures : c.Endures ms) : (c.tick ms).Clean := by
  have hvalid := TCPSender.stable_valid.queue _ [] (h.valid.tick ms)
  have hmoves := moves_tick hendures
  obtain ⟨timer, again, heq, hqueue, -, hagain⟩ := c.sender.tick_spec ms
  have hsender := sender_tick hendures
  rw [heq] at hmoves hsender hvalid
  refine ⟨?_, ?_, ?_, ?_, ?_, ?_⟩
  · rw [hsender]
    exact hvalid
  · rw [hsender]
    exact h.opened
  · rw [hsender]
  · intro entry hentry
    rw [hsender, hqueue] at hentry
    exact h.outstanding entry hentry
  · rw [hmoves.receiver]
    exact h.synced
  · refine h.moves hmoves ?_
    rw [h.flushed, List.nil_append]
    intro seg hseg
    obtain ⟨entry, hentry, rfl⟩ := hagain seg hseg
    exact h.outstanding entry hentry

end TCPConnection

namespace Endpoint

/-! ## One end -/

/-- What one end of a healthy exchange keeps. -/
structure Fit (e : Endpoint) : Prop where
  short : e.accepted.length + 2 < 2 ^ 31
  drained : e.conn.sender.Drained
  clean : e.conn.Clean
  settled : e.conn.sender.Settled
  upToDate : e.conn.UpToDate
  wire : ∀ seg ∈ e.wire, TCPConnection.Plain seg

/-- The end after everything was taken from `segments_out`. -/
def transmitAll (e : Endpoint) : Endpoint :=
  { e with
    conn := { e.conn with segmentsOut := [] }
    wire := e.wire ++ e.conn.segmentsOut }

theorem Fit.transmitAll {e : Endpoint} (h : e.Fit) : e.transmitAll.Fit where
  short := h.short
  drained := h.drained
  clean := ⟨h.clean.valid, h.clean.opened, h.clean.flushed,
    h.clean.outstanding, h.clean.synced, by simp [Endpoint.transmitAll]⟩
  settled := h.settled
  upToDate := by simp [TCPConnection.UpToDate, Endpoint.transmitAll]
  wire := by
    intro seg hseg
    rcases List.mem_append.mp hseg with hold | hnew
    · exact h.wire seg hold
    · exact h.clean.plain seg hnew

theorem Linked.transmitAll {capacity : ℕ} {o : Outgoing} {p : Remote}
    {e : Endpoint} (h : e.Linked capacity o p) :
    Advances capacity p o e e.transmitAll := by
  refine ⟨o, ⟨h.sending, h.receiving, h.acked, h.queueStart, h.window, ?_⟩,
    le_rfl⟩
  intro seg hseg
  refine h.segments seg ?_
  simpa [Endpoint.segments, emitted, Endpoint.transmitAll] using hseg

theorem Fit.write {e : Endpoint} (h : e.Fit)
    (hopen : e.conn.sender.stream.inputEnded = false) {data : List UInt8}
    (hshort : (e.act (.write data)).accepted.length + 2 < 2 ^ 31) :
    (e.act (.write data)).Fit where
  short := hshort
  drained := @drained_step e h.drained (.act (.write data)) hopen
  clean := h.clean.refill _
  settled := TCPSender.settled_fillWindow _
  upToDate := h.upToDate.refill _
  wire := h.wire

theorem Fit.endInputStream {e : Endpoint} (h : e.Fit) :
    (e.act .endInputStream).Fit where
  short := h.short
  drained := @drained_step e h.drained (.act .endInputStream) trivial
  clean := h.clean.refill _
  settled := TCPSender.settled_fillWindow _
  upToDate := h.upToDate.refill _
  wire := h.wire

theorem Fit.read {e : Endpoint} (h : e.Fit) (len : ℕ) :
    (e.act (.read len)).Fit where
  short := h.short
  drained := h.drained
  clean := ⟨h.clean.valid, h.clean.opened, h.clean.flushed,
    h.clean.outstanding, h.clean.synced, h.clean.plain⟩
  settled := h.settled
  upToDate := h.upToDate
  wire := h.wire

theorem Fit.tick {e : Endpoint} (h : e.Fit) {ms : ℕ}
    (hendures : e.conn.Endures ms) : (e.act (.tick ms)).Fit where
  short := h.short
  drained := @drained_step e h.drained (.act (.tick ms)) trivial
  clean := h.clean.tick hendures
  settled := by
    obtain ⟨timer, again, heq, -⟩ := e.conn.sender.tick_spec ms
    simp only [act, TCPConnection.sender_tick hendures, heq]
    exact h.settled
  upToDate := h.upToDate.moves (TCPConnection.moves_tick hendures)
  wire := h.wire

end Endpoint

/-! ## Both ends -/

namespace Network

structure Healthy (cfg : Side → TCPConfig) (n : Network) : Prop where
  joined : Joined cfg n
  fit : ∀ side, (n side).Fit
  paced : ∀ side, (n side).conn.sender.Paced (n side.other).conn.receiver
  room : ∀ side, 0 < (n side).conn.receiver.edge

variable {cfg : Side → TCPConfig} {n : Network} {side : Side}

/-- A change at one end, seen from there and from the other end. -/
theorem Healthy.update (h : Healthy cfg n) {e : Endpoint}
    (hjoined : Joined cfg (Function.update n side e)) (hfit : e.Fit)
    (hpaced : e.conn.sender.Paced (n side.other).conn.receiver)
    (hackno : (n side).conn.receiver.ackno ≤ e.conn.receiver.ackno)
    (hedge : (n side).conn.receiver.edge ≤ e.conn.receiver.edge) :
    Healthy cfg (Function.update n side e) where
  joined := hjoined
  fit := (Function.forall_update_iff n (p := fun _ e => e.Fit)).mpr
    ⟨hfit, fun x _ => h.fit x⟩
  paced := by
    intro x
    rcases side.eq_or_eq_other x with rfl | rfl
    · rw [Function.update_self, Function.update_of_ne x.other_ne]
      exact hpaced
    · rw [Side.other_other, Function.update_self,
        Function.update_of_ne side.other_ne]
      have hother := h.paced side.other
      rw [Side.other_other] at hother
      exact ⟨hother.next.mono hackno hedge, hother.last.mono hackno hedge⟩
  room := (Function.forall_update_iff n
    (p := fun _ e => 0 < e.conn.receiver.edge)).mpr
    ⟨(h.room side).trans_le hedge, fun x _ => h.room x⟩

theorem Healthy.act (h : Healthy cfg n) {op : Endpoint.Op}
    (hfit : ((n side).act op).Fit)
    (hpaced : ((n side).act op).conn.sender.Paced
      (n side.other).conn.receiver)
    (hackno : (n side).conn.receiver.ackno ≤
      ((n side).act op).conn.receiver.ackno)
    (hedge : (n side).conn.receiver.edge ≤
      ((n side).act op).conn.receiver.edge) :
    Healthy cfg (Function.update n side ((n side).act op)) :=
  h.update (@Joined.step cfg n h.joined (.act side op) trivial) hfit hpaced
    hackno hedge

theorem Healthy.write (h : Healthy cfg n) (side : Side) (data : List UInt8)
    (hopen : (n side).conn.sender.stream.inputEnded = false)
    (hshort : ((n side).act (.write data)).accepted.length + 2 < 2 ^ 31) :
    Healthy cfg (Function.update n side ((n side).act (.write data))) :=
  h.act ((h.fit side).write hopen hshort)
    (TCPConnection.paced_refill (h.paced side) _) le_rfl le_rfl

theorem Healthy.endInputStream (h : Healthy cfg n) (side : Side) :
    Healthy cfg (Function.update n side ((n side).act .endInputStream)) :=
  h.act (h.fit side).endInputStream
    (TCPConnection.paced_refill (h.paced side) _) le_rfl le_rfl

theorem Healthy.read (h : Healthy cfg n) (side : Side) (len : ℕ) :
    Healthy cfg (Function.update n side ((n side).act (.read len))) := by
  have hedge := (n side).inbound.edge_le_step_popOutput len
  rw [← TCPReceiver.Session.step_read] at hedge
  exact h.act ((h.fit side).read len) (h.paced side) le_rfl hedge

theorem Healthy.tick (h : Healthy cfg n) (side : Side) (ms : ℕ)
    (hendures : (n side).conn.Endures ms) :
    Healthy cfg (Function.update n side ((n side).act (.tick ms))) := by
  have hreceiver : ((n side).act (.tick ms)).conn.receiver =
      (n side).conn.receiver := (TCPConnection.moves_tick hendures).receiver
  refine h.act ((h.fit side).tick hendures) ?_ (by rw [hreceiver]) ?_
  · obtain ⟨timer, again, heq, -⟩ := (n side).conn.sender.tick_spec ms
    simp only [Endpoint.act, TCPConnection.sender_tick hendures, heq]
    exact ⟨(h.paced side).next, (h.paced side).last⟩
  · rw [hreceiver]

/-- All segments of one end are taken from its queue. -/
def transmitted (n : Network) (side : Side) : Network :=
  Function.update n side (n side).transmitAll

theorem transmitted_self : n.transmitted side side = (n side).transmitAll :=
  Function.update_self ..

theorem transmitted_other : n.transmitted side.other side = n side :=
  Function.update_of_ne side.other_ne.symm ..

theorem Healthy.transmitted (h : Healthy cfg n) (side : Side) :
    Healthy cfg (n.transmitted side) := by
  obtain ⟨o, hlinked⟩ := h.joined
  exact h.update (Joined.update hlinked (hlinked side).transmitAll)
    (h.fit side).transmitAll (h.paced side) le_rfl le_rfl

/-! ## Deliveries -/

/-- What is known of a segment that the other end has put on the wire. -/
structure Arrives (cfg : Side → TCPConfig) (n : Network) (side : Side)
    (seg : SentSegment) (o : Side → Outgoing) : Prop where
  linked : ∀ x, (n x).Linked (cfg x).recvCapacity (o x)
    ((n x.other).remote (o x.other))
  legit : Remote.Legit ((n side.other).remote (o side.other))
    ((n side).remote (o side)) seg
  near : Near seg.absSeqno (n side).conn.receiver.ackno
  nearAck : seg.header.ack = true →
    Near seg.absAckno (n side).conn.sender.nextSeqno
  plain : TCPConnection.Plain seg

theorem Healthy.arrives (h : Healthy cfg n) {seg : SentSegment}
    (hseg : seg ∈ (n side.other).wire) : ∃ o, Arrives cfg n side seg o := by
  obtain ⟨k, hk⟩ := List.getElem?_of_mem hseg
  obtain ⟨hnear, hnearAck⟩ := h.joined.deliversNear
    (fun x => (h.fit x).short) (.deliver side k) seg hk
  obtain ⟨o, hlinked⟩ := h.joined
  exact ⟨o, hlinked, legit_of_wire hlinked hk, hnear, hnearAck,
    (h.fit side.other).wire seg hseg⟩

section Arrives

variable {seg : SentSegment} {o : Side → Outgoing}

/-- The number that the sender reads in an acknowledgment. -/
theorem Arrives.unwrap_ackno (h : Arrives cfg n side seg o)
    (hack : seg.header.ack = true) :
    unwrap seg.header.ackno (n side).conn.sender.isn
      (n side).conn.sender.nextSeqno = seg.absAckno := by
  rw [(h.legit.ack hack).1, (h.linked side).sending.isn_eq]
  exact unwrap_wrap _ (h.nearAck hack)

/-- Nothing is acknowledged that was not sent. -/
theorem Arrives.absAckno_le (h : Arrives cfg n side seg o)
    (hack : seg.header.ack = true) :
    seg.absAckno ≤ (n side).conn.sender.nextSeqno := by
  have hother := (h.linked side.other).receiving.ackno_le
  obtain ⟨-, hle, -⟩ := h.legit.ack hack
  simp only [Endpoint.remote, Endpoint.inbound, Side.other_other] at hle hother
  rw [(h.linked side).sending.next_eq]
  exact hle.trans hother

theorem Arrives.paced (h : Arrives cfg n side seg o)
    (hpaced : (n side).conn.sender.Paced (n side.other).conn.receiver) :
    ((n side).receive seg.toTCPSegment).conn.sender.Paced
      (n side.other).conn.receiver := by
  have hanswering : TCPConnection.Answering fun c =>
      c.sender.Paced (n side.other).conn.receiver :=
    TCPConnection.answering_sender (fun _ _ h => ⟨h.next, h.last⟩)
      fun _ h => h.fillWindow
  refine hanswering.segmentReceived h.plain.1 ?_
  simp only [TCPConnection.received]
  split
  · rename_i hack
    obtain ⟨-, hle, hedge⟩ := h.legit.ack hack
    exact hpaced.ackReceived (h.unwrap_ackno hack) (h.plain.2 hack) hle hedge
  · exact hpaced

theorem Arrives.fit (h : Arrives cfg n side seg o) (hfit : (n side).Fit)
    (hroom : 0 < (n side).conn.receiver.edge) :
    ((n side).receive seg.toTCPSegment).Fit where
  short := hfit.short
  drained := TCPConnection.stable_segmentReceived TCPSender.stable_drained
    hfit.drained seg.toTCPSegment
  clean := hfit.clean.segmentReceived h.plain.1
    ((h.linked side).receiving.synced_segment h.legit.carries h.near hroom
      hfit.clean.synced)
  settled := TCPConnection.settled_segmentReceived h.plain.1
    hfit.clean.opened hfit.settled
  upToDate := hfit.upToDate.segmentReceived (fun _ => hfit.clean.opened)
    h.plain.1 (h.linked side |>.receiving.ackno_of_empty hfit.clean.synced)
  wire := hfit.wire

end Arrives

/-- The network after a delivery to one side. -/
def deliver (n : Network) (side : Side) (seg : SentSegment) : Network :=
  Function.update n side ((n side).receive seg.toTCPSegment)

theorem receiver_receive {e : Endpoint} {seg : SentSegment}
    (h : TCPConnection.Plain seg) :
    (e.receive seg.toTCPSegment).inbound =
      e.inbound.step (.segment seg.toTCPSegment) := by
  simp only [Endpoint.inbound, Endpoint.receive, TCPReceiver.Session.step,
    TCPConnection.receiver_segmentReceived _ h.1]

theorem Healthy.deliver (h : Healthy cfg n) {seg : SentSegment}
    (hseg : seg ∈ (n side.other).wire) : Healthy cfg (n.deliver side seg) := by
  obtain ⟨o, harrives⟩ := h.arrives hseg
  have hvalid := (harrives.linked side).receiving.toValid
  have hinbound := receiver_receive (e := n side) harrives.plain
  have hreceiver := congrArg TCPReceiver.Session.receiver hinbound
  refine h.update (Joined.update harrives.linked ((harrives.linked side).receive
    harrives.legit harrives.near harrives.nearAck))
    (harrives.fit (h.fit side) (h.room side))
    (harrives.paced (h.paced side)) ?_ ?_
  · exact (hvalid.ackno_le_step (.segment seg.toTCPSegment)).trans
      (congrArg TCPReceiver.ackno hreceiver).ge
  · exact (hvalid.edge_le_step (.segment seg.toTCPSegment)).trans
      (congrArg TCPReceiver.edge hreceiver).ge

end Network
end Sponge
