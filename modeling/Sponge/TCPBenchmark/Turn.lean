import Sponge.Network.Ending
import Sponge.TCPBenchmark.Model

/-!
# One turn of the benchmark

The two connections of the benchmark are the ends of a healthy network.  A turn
writes what there is room for, hands the segments of `x` to `y` and those of `y`
to `x`, reads what has come in and lets time pass.  After the turn `y` has
acknowledged all that `x` had sent when the segments were handed over, and `x`
knows it; so `x` has sent more than before, or has sent its FIN.
-/

namespace Sponge
namespace TCPBenchmark

open Support

/-- The connections are the ends of a healthy network: what `x` has accepted and
what is left to send is the string, `y` has accepted nothing, and what was taken
from `y` is the string received so far. -/
structure Tracks (config : TCPConfig) (string : List UInt8) (n : Network)
    (b : State) : Prop where
  healthy : n.Healthy fun _ => config
  x : (n .a).conn = b.x
  y : (n .b).conn = b.y
  sent : (n .a).accepted ++ b.bytesToSend = string
  silent : (n .b).accepted = []
  received : (n .b).consumed = b.stringReceived
  xEnded : b.x.sender.stream.inputEnded = b.xClosed
  closed : b.xClosed = true → b.bytesToSend = []
  yEnded : b.y.sender.stream.inputEnded = true
  capacity : b.x.sender.stream.capacity = config.sendCapacity

variable {config : TCPConfig} {string : List UInt8} {n n' : Network}
  {b b' : State}

/-! ## Writing -/

/-- What writing to a connection and ending its stream do. -/
structure Refills (c c' : TCPConnection) : Prop where
  receiver : c'.receiver = c.receiver
  ackno : c'.sender.ackno = c.sender.ackno
  count : c'.sender.consecutiveRetransmissions =
    c.sender.consecutiveRetransmissions
  settles : c.sender.Settles → c'.sender.Settles
  queue : c.segmentsOut <+: c'.segmentsOut
  next : c.sender.nextSeqno ≤ c'.sender.nextSeqno
  queues : ∀ lo, c.Queues lo → c'.Queues lo

theorem Refills.refl (c : TCPConnection) : Refills c c :=
  ⟨rfl, rfl, rfl, id, List.prefix_refl _, le_rfl, fun _ h => h⟩

theorem Refills.trans {c c₁ c₂ : TCPConnection} (h : Refills c c₁)
    (h' : Refills c₁ c₂) : Refills c c₂ where
  receiver := h'.receiver.trans h.receiver
  ackno := h'.ackno.trans h.ackno
  count := h'.count.trans h.count
  settles := fun hs => h'.settles (h.settles hs)
  queue := h.queue.trans h'.queue
  next := h.next.trans h'.next
  queues := fun lo hq => h'.queues lo (h.queues lo hq)

theorem refills_refill (c : TCPConnection) (stream : ByteStream) :
    Refills c (c.refill stream) := by
  obtain ⟨segs, hfills, -⟩ :=
    TCPSender.fillWindow_spec { c.sender with stream := stream }
  refine ⟨rfl, hfills.unchanged.1, ?_, ?_, List.prefix_append _ _,
    hfills.nextSeqno_ge, fun lo h => h.refill stream⟩
  · exact TCPSender.count_fillWindow { c.sender with stream := stream }
  · intro h
    refine TCPSender.stable_settles.queue _ [] ?_
    refine TCPSender.stable_settles.fillWindow
      { c.sender with stream := stream } ?_
    exact ⟨h.1.with_streams stream _, h.2⟩

theorem inputEnded_refill (c : TCPConnection) (stream : ByteStream) :
    (c.refill stream).sender.stream.inputEnded = stream.inputEnded := by
  obtain ⟨segs, hfills, -⟩ :=
    TCPSender.fillWindow_spec { c.sender with stream := stream }
  exact hfills.unchanged.2.2

theorem capacity_refill (c : TCPConnection) (stream : ByteStream) :
    (c.refill stream).sender.stream.capacity = stream.capacity :=
  (TCPSender.stable_capacity stream.capacity).fillWindow
    { c.sender with stream := stream } rfl

theorem write_fst (c : TCPConnection) (data : List UInt8) :
    (c.write data).1 = c.refill (c.sender.stream.write data).1 := rfl

/-- As long as there is something to write, the stream was not ended. -/
theorem Tracks.open_of_bytes (h : Tracks config string n b)
    (hbytes : b.bytesToSend ≠ []) :
    b.x.sender.stream.inputEnded = false := by
  rw [h.xEnded]
  by_contra htrue
  exact hbytes (h.closed (Bool.eq_true_of_not_eq_false htrue))

theorem Tracks.write (h : Tracks config string n b)
    (hshort : string.length + 2 < 2 ^ 31) (hbytes : b.bytesToSend ≠ [])
    {k : ℕ} (hk : k ≤ b.x.remainingOutboundCapacity)
    (hlen : k ≤ b.bytesToSend.length) :
    (b.x.write (b.bytesToSend.take k)).2 = k ∧
      ∃ n', Tracks config string n'
        { b with
          x := (b.x.write (b.bytesToSend.take k)).1
          bytesToSend := b.bytesToSend.drop k } := by
  have hopen := h.open_of_bytes hbytes
  have htake : (b.bytesToSend.take k).length = k := by
    rw [List.length_take]
    omega
  have haccepted : b.x.sender.stream.accepted (b.bytesToSend.take k) =
      b.bytesToSend.take k :=
    ByteStream.accepted_of_le (htake.trans_le hk)
  have hwritten : (b.x.write (b.bytesToSend.take k)).2 = k := by
    have hsnd := ByteStream.write_snd b.x.sender.stream
      (b.bytesToSend.take k)
    rw [haccepted, htake] at hsnd
    exact hsnd
  have hact : (n .a).act (.write (b.bytesToSend.take k)) =
      { n .a with
        conn := (b.x.write (b.bytesToSend.take k)).1
        accepted := (n .a).accepted ++ b.bytesToSend.take k } := by
    simp only [Endpoint.act, h.x, hwritten]
    rw [List.take_of_length_le htake.le]
  have hsent := h.sent
  rw [← List.take_append_drop k b.bytesToSend, ← List.append_assoc] at hsent
  refine ⟨hwritten, _, h.healthy.write .a (b.bytesToSend.take k)
    (by rw [h.x]; exact hopen) ?_, ?_, ?_, ?_,
    h.silent, h.received, ?_, ?_, h.yEnded, ?_⟩
  · rw [hact]
    rw [← hsent, List.length_append] at hshort
    exact (Nat.add_le_add_right (Nat.le_add_right _ _) 2).trans_lt hshort
  · rw [Function.update_self, hact]
  · exact h.y
  · rw [Function.update_self, hact]
    exact hsent
  · rw [write_fst, inputEnded_refill, ByteStream.inputEnded_write]
    exact h.xEnded
  · intro hclosed
    exact absurd (h.closed hclosed) hbytes
  · rw [write_fst, capacity_refill, ByteStream.capacity_write]
    exact h.capacity

/-- The loop that writes input throws nothing, and ends when all is written or
there is no room. -/
theorem writeInput_spec (hshort : string.length + 2 < 2 ^ 31) (fuel : ℕ)
    {n : Network} {b : State} (h : Tracks config string n b)
    (hfuel : b.bytesToSend.length ≤ fuel) :
    ∃ b' n', writeInput fuel b = .ok b' ∧ Tracks config string n' b' ∧
      Refills b.x b'.x ∧ b'.y = b.y ∧
      (b'.bytesToSend = [] ∨ b'.x.remainingOutboundCapacity = 0) := by
  induction fuel generalizing n b with
  | zero =>
      exact ⟨b, n, rfl, h, .refl _, rfl,
        Or.inl (List.length_eq_zero_iff.mp (by omega))⟩
  | succ fuel ih =>
      unfold writeInput
      split
      · rename_i hsome
        have hbytes : b.bytesToSend ≠ [] := by
          intro hnil
          exact hsome.1 (by rw [hnil]; rfl)
        obtain ⟨hwritten, n', htracks⟩ := h.write hshort hbytes
          (min_le_left _ b.bytesToSend.length)
          (min_le_right b.x.remainingOutboundCapacity _)
        dsimp only
        rw [hwritten, if_neg (by simp)]
        obtain ⟨b', n'', hok, htracks', hrefills, hy, hend⟩ := ih htracks (by
          simp only [List.length_drop]
          omega)
        exact ⟨b', n'', hok, htracks', (refills_refill b.x _).trans hrefills,
          hy, hend⟩
      · rename_i hnone
        refine ⟨b, n, rfl, h, .refl _, rfl, ?_⟩
        rw [not_and_or, not_not, not_not] at hnone
        exact hnone.imp_left List.length_eq_zero_iff.mp

theorem tracks_closeInput (h : Tracks config string n b) :
    ∃ n', Tracks config string n' (closeInput b) ∧
      Refills b.x (closeInput b).x ∧ (closeInput b).y = b.y ∧
      ((closeInput b).bytesToSend = [] →
        (closeInput b).xClosed = true) ∧
      (closeInput b).bytesToSend = b.bytesToSend ∧
      (b.bytesToSend ≠ [] → closeInput b = b) := by
  unfold closeInput
  split
  · rename_i hends
    refine ⟨_, ⟨h.healthy.endInputStream .a, ?_, h.y, ?_, h.silent,
      h.received, ?_, fun _ => List.length_eq_zero_iff.mp hends.1, h.yEnded,
      ?_⟩, refills_refill b.x _, rfl, fun _ => rfl, rfl, ?_⟩
    · rw [Function.update_self, Endpoint.act, h.x]
    · rw [Function.update_self]
      exact h.sent
    · exact inputEnded_refill b.x _
    · exact (capacity_refill b.x _).trans h.capacity
    · intro hbytes
      exact absurd (List.length_eq_zero_iff.mp hends.1) hbytes
  · rename_i hopen
    refine ⟨n, h, .refl _, rfl, ?_, rfl, fun _ => rfl⟩
    intro hnil
    by_contra hfalse
    exact hopen ⟨by rw [hnil]; rfl, Bool.eq_false_of_not_eq_true hfalse⟩

/-! ## Between two turns -/

/-- What holds between two turns.  Each queue holds all that the other side has
not acknowledged; `x` knows how much `y` has acknowledged, and `y` knows or will
be told how much `x` has; `y` has no bytes to send, and nothing is left to be
read from it. -/
structure Between (b : State) : Prop where
  queuesX : b.x.Queues b.y.receiver.ackno
  queuesY : b.y.Queues b.x.receiver.ackno
  acked : b.x.sender.ackno = b.y.receiver.ackno
  settles : b.x.sender.Settles
  ending : b.y.sender.Ending
  begun : b.y.sender.Begun
  pending : b.x.receiver.ackno ≤ b.y.sender.queueStart ∨
    ∃ seg ∈ b.x.segmentsOut,
      seg.header.ack = true ∧ seg.absAckno = b.x.receiver.ackno
  heard : b.x.receiver.ackno = b.y.sender.nextSeqno ∨
    b.y.sender.consecutiveRetransmissions = 0
  countX : b.x.sender.consecutiveRetransmissions ≤ 1
  countY : b.y.sender.consecutiveRetransmissions ≤ 1
  read : b.y.inboundStream.sz = 0

theorem Between.refills (h : Between b) (hx : Refills b.x b'.x)
    (hy : b'.y = b.y) : Between b' := by
  obtain ⟨h₁, h₂, h₃, h₄, h₅, h₆, h₇, h₈, h₉, h₁₀, h₁₁⟩ := h
  refine ⟨?_, ?_, ?_, hx.settles h₄, ?_, ?_, ?_, ?_, ?_, ?_, ?_⟩ <;>
    simp only [hy, hx.receiver, hx.ackno, hx.count]
  · exact hx.queues _ h₁
  · exact h₂
  · exact h₃
  · exact h₅
  · exact h₆
  · refine h₇.imp_right ?_
    rintro ⟨seg, hseg, hack⟩
    exact ⟨seg, hx.queue.subset hseg, hack⟩
  · exact h₈
  · exact h₉
  · exact h₁₀
  · exact h₁₁

/-! ## The segments of `x` are handed over -/

def handOver (b : State) (reorder : Bool) : State :=
  { b with
    x := (moveSegments b.x b.y reorder).1
    y := (moveSegments b.x b.y reorder).2 }

/-- The segments in the order in which they are handed over. -/
def batch (x : TCPConnection) (reorder : Bool) : List SentSegment :=
  if reorder then x.segmentsOut.reverse else x.segmentsOut

theorem mem_batch {x : TCPConnection} {reorder : Bool} {seg : SentSegment} :
    seg ∈ batch x reorder ↔ seg ∈ x.segmentsOut := by
  unfold batch
  split
  · exact List.mem_reverse
  · rfl

theorem Tracks.mem_queue (h : Tracks config string n b) (reorder : Bool) :
    ∀ seg ∈ batch b.x reorder, seg ∈ (n Side.b.other).conn.segmentsOut := by
  intro seg hseg
  change seg ∈ (n .a).conn.segmentsOut
  rw [h.x]
  exact mem_batch.mp hseg

theorem tracks_handOver (h : Tracks config string n b) (reorder : Bool) :
    Tracks config string (n.hand .b (batch b.x reorder))
      (handOver b reorder) := by
  have hx : n.hand .b (batch b.x reorder) .a = (n .a).transmitAll :=
    Network.hand_other .b
  have hy : (n.hand .b (batch b.x reorder) .b).conn =
      (handOver b reorder).y := by
    rw [Network.conn_hand, h.y]
    rfl
  obtain ⟨haccepted, hconsumed⟩ := Network.history_hand n .b
    (batch b.x reorder)
  refine ⟨h.healthy.hand (h.mem_queue reorder), ?_, hy, ?_,
    haccepted.trans h.silent, hconsumed.trans h.received, h.xEnded, h.closed,
    ?_, h.capacity⟩
  · rw [hx, Endpoint.transmitAll, h.x]
    rfl
  · rw [hx]
    exact h.sent
  · have hended := (h.healthy.transmitted Side.b.other).inputEnded_deliverAll
      (Network.mem_wire_transmitted (h.mem_queue reorder))
    rw [← hy]
    refine hended.trans ?_
    rw [Network.transmitted_other, h.y]
    exact h.yEnded

/-- What `y` and `x` are after the segments of `x` were handed over. -/
structure HandedOver (b b' : State) : Prop where
  x : b'.x = { b.x with segmentsOut := [] }
  ackno : b'.y.receiver.ackno = b.x.sender.nextSeqno
  queueStart : b.x.receiver.ackno ≤ b'.y.sender.queueStart
  queues : b'.y.Queues b.x.receiver.ackno
  silent : b'.y.segmentsOut = [] →
    b'.y.receiver.ackno = b.y.receiver.ackno
  ending : b'.y.sender.Ending
  begun : b'.y.sender.Begun
  unhurried : b'.y.sender.Unhurried

/-- An end whose stream was read has its whole window. -/
theorem Tracks.windowSize_pos (h : Tracks config string n b) (side : Side)
    (hroom : 0 < config.recvCapacity)
    (hread : (n side).conn.inboundStream.sz = 0) :
    0 < (n side).conn.receiver.windowSize := by
  obtain ⟨o, hlinked⟩ := h.healthy.joined
  have hcapacity := (hlinked side).receiving.capacity_eq
  simp only [Endpoint.inbound] at hcapacity
  rw [TCPReceiver.windowSize, hcapacity, ByteStream.bufferSize_eq]
  rw [TCPConnection.inboundStream] at hread
  omega

theorem Tracks.handedOver (h : Tracks config string n b) (hb : Between b)
    (hroom : 0 < config.recvCapacity) (reorder : Bool) :
    HandedOver b (handOver b reorder) := by
  have hhealthy := h.healthy.transmitted Side.b.other
  have hsegs := Network.mem_wire_transmitted (h.mem_queue reorder)
  have hself : n.transmitted Side.b.other .b = n .b :=
    Network.transmitted_other
  have hother : n.transmitted Side.b.other Side.b.other =
      (n .a).transmitAll := Network.transmitted_self
  have hy := (tracks_handOver h reorder).y
  have hpending : ∀ seg ∈ b.x.segmentsOut, seg ∈ batch b.x reorder :=
    fun seg hseg => mem_batch.mpr hseg
  refine ⟨rfl, ?_, ?_, ?_, ?_, ?_, ?_, ?_⟩
  · have hackno := hhealthy.ackno_deliverAll hsegs (by
      rw [hself, hother, Endpoint.transmitAll, h.x, h.y]
      intro k hge hlt
      obtain ⟨seg, hseg, hk⟩ := hb.queuesX k hge hlt
      exact ⟨seg, hpending seg hseg, hk⟩) (by
      rw [hself]
      exact h.windowSize_pos .b hroom (by rw [h.y]; exact hb.read))
    rw [hother, Endpoint.transmitAll, h.x] at hackno
    rw [← hy]
    exact hackno
  · have hstart := hhealthy.le_queueStart_deliverAll hsegs
      (m := b.x.receiver.ackno) (by rw [hself, h.y]; exact hb.ending) (by
      rw [hself, h.y]
      refine hb.pending.imp_right ?_
      rintro ⟨seg, hseg, hack⟩
      exact ⟨seg, hpending seg hseg, hack⟩)
    rw [← hy]
    exact hstart
  · have hqueues := hhealthy.queues_deliverAll hsegs
      b.x.receiver.ackno (by rw [hself, h.y]; exact hb.queuesY)
    rw [← hy]
    exact hqueues
  · have hsilent := hhealthy.silent_deliverAll hsegs
    rw [hself, h.y] at hsilent
    rw [← hy]
    exact hsilent
  · have hending := hhealthy.ending_deliverAll hsegs
      (by rw [hself, h.y]; exact hb.ending)
    rw [← hy]
    exact hending
  · have hbegun := hhealthy.begun_deliverAll hsegs
      (by rw [hself, h.y]; exact hb.begun)
    rw [← hy]
    exact hbegun
  · rw [← hy]
    have hkept := hhealthy.unhurried_deliverAll hsegs
    rw [hself, h.y] at hkept
    rcases hb.heard with hheard | hzero
    · rcases hb.pending with hle | ⟨seg, hseg, hack, -⟩
      · -- all that `y` has sent is acknowledged
        refine hkept (Or.inr ⟨hb.countY, ?_⟩)
        have hflight := hb.begun.1.inFlight_le
        unfold TCPSender.queueStart at hle
        have hopened := hb.ending.opened
        omega
      · exact Or.inl (hhealthy.count_deliverAll hsegs
          (Or.inr ⟨seg, hpending seg hseg, hack⟩))
    · exact hkept (Or.inl hzero)

/-! ## The segments of `y` are handed back -/

def handBack (b : State) : State :=
  { b with
    x := (moveSegments b.y b.x false).2
    y := (moveSegments b.y b.x false).1 }

theorem exchange_eq (b : State) (reorder : Bool) :
    exchange b reorder = handBack (handOver b reorder) := rfl

theorem Tracks.mem_queueY (h : Tracks config string n b) :
    ∀ seg ∈ b.y.segmentsOut, seg ∈ (n Side.a.other).conn.segmentsOut := by
  intro seg hseg
  change seg ∈ (n .b).conn.segmentsOut
  rw [h.y]
  exact hseg

theorem tracks_handBack (h : Tracks config string n b) :
    Tracks config string (n.hand .a b.y.segmentsOut) (handBack b) := by
  have hy : n.hand .a b.y.segmentsOut .b = (n .b).transmitAll :=
    Network.hand_other .a
  have hx : (n.hand .a b.y.segmentsOut .a).conn =
      (handBack b).x := by
    rw [Network.conn_hand, h.x]
    rfl
  have hhealthy := h.healthy.transmitted Side.a.other
  have hsegs := Network.mem_wire_transmitted h.mem_queueY
  have hself : n.transmitted Side.a.other .a = n .a :=
    Network.transmitted_other
  obtain ⟨haccepted, -⟩ := Network.history_hand n .a
    b.y.segmentsOut
  refine ⟨h.healthy.hand h.mem_queueY, hx, ?_, ?_, ?_, ?_, ?_, h.closed,
    h.yEnded, ?_⟩
  · rw [hy, Endpoint.transmitAll, h.y]
    rfl
  · rw [haccepted]
    exact h.sent
  · rw [hy]
    exact h.silent
  · rw [hy]
    exact h.received
  · have hended := hhealthy.inputEnded_deliverAll hsegs
    rw [hself, h.x] at hended
    rw [← hx]
    exact hended.trans h.xEnded
  · have hstable := TCPSender.stable_capacity config.sendCapacity
    rw [← hx]
    exact hhealthy.sender_deliverAll hsegs hstable.queue hstable.fillWindow
      (fun s ackno win _ hs => hstable.ackReceived s ackno win hs)
      (by rw [hself, h.x]; exact h.capacity)

/-- What is needed of the state when the segments of `y` are handed back. -/
structure Returning (b : State) : Prop where
  ackno : b.y.receiver.ackno = b.x.sender.nextSeqno
  queues : b.y.Queues b.x.receiver.ackno
  acked : b.y.segmentsOut = [] → b.x.sender.ackno = b.y.receiver.ackno
  settles : b.x.sender.Settles
  count : b.x.sender.consecutiveRetransmissions ≤ 1

/-- What `x` and `y` are after the segments of `y` were handed back. -/
structure HandedBack (b b' : State) : Prop where
  y : b'.y = { b.y with segmentsOut := [] }
  heard : b'.x.receiver.ackno = b.y.sender.nextSeqno
  acked : b'.x.sender.ackno = b.y.receiver.ackno
  queues : b'.x.Queues b.y.receiver.ackno
  settles : b'.x.sender.Settles
  unhurried : b'.x.sender.Unhurried
  pending : b'.x.receiver.ackno = b.x.receiver.ackno ∨
    ∃ seg ∈ b'.x.segmentsOut,
      seg.header.ack = true ∧ seg.absAckno = b'.x.receiver.ackno
  unsent : b'.x.sender.nextSeqno + b'.x.sender.unsent =
    b.x.sender.nextSeqno + b.x.sender.unsent

/-- Nothing is ever put into the inbound stream of `x`. -/
theorem Tracks.inboundX (h : Tracks config string n b) :
    b.x.inboundStream.sz = 0 := by
  have hstreams := (h.healthy.joined.streams
    (fun side => (h.healthy.fit side).drained) .b).1
  change (n .a).consumed ++ (n .a).conn.inboundStream.contents <+:
    (n .b).accepted at hstreams
  rw [h.silent, List.prefix_nil, List.append_eq_nil_iff, h.x] at hstreams
  rw [← ByteStream.length_contents, hstreams.2]
  rfl

/-- The last segment that `y` sends back acknowledges all it has received. -/
theorem Tracks.last_ack (h : Tracks config string n b) {seg : SentSegment}
    (hlast : b.y.segmentsOut.getLast? = some seg)
    (hackno : 0 < b.y.receiver.ackno) :
    seg.header.ack = true ∧ seg.absAckno = b.y.receiver.ackno := by
  obtain ⟨o, hlinked⟩ := h.healthy.joined
  have hsyn := (hlinked .b).receiving.toValid.synArrived_of_ackno (by
    change 0 < (n .b).conn.receiver.ackno
    rw [h.y]
    exact hackno)
  have hupToDate := (h.healthy.fit .b).upToDate
  change (n .b).conn.receiver.synArrived = true at hsyn
  rw [h.y] at hsyn hupToDate
  exact hupToDate hsyn seg hlast

theorem Tracks.handedBack (h : Tracks config string n b) (hb : Returning b)
    (hroom : 0 < config.recvCapacity) :
    HandedBack b (handBack b) := by
  have hhealthy := h.healthy.transmitted Side.a.other
  have hsegs := Network.mem_wire_transmitted h.mem_queueY
  have hself : n.transmitted Side.a.other .a = n .a :=
    Network.transmitted_other
  have hother : n.transmitted Side.a.other Side.a.other =
      (n .b).transmitAll := Network.transmitted_self
  have hx := (tracks_handBack h).x
  have hopened := (h.healthy.fit .a).clean.opened
  rw [h.x] at hopened
  -- the acknowledgment that `x` goes on with, and its count
  have hacked : (handBack b).x.sender.ackno =
      b.y.receiver.ackno ∧ (handBack b).x.sender.Unhurried := by
    cases hlast : b.y.segmentsOut.getLast? with
    | none =>
        have hnil := List.getLast?_eq_none_iff.mp hlast
        have hsame : (handBack b).x = b.x := by
          simp [handBack, moveSegments, hnil]
        have hackno := hb.acked hnil
        rw [hsame]
        exact ⟨hackno, Or.inr ⟨hb.count,
          hb.settles.2 (hackno.trans hb.ackno)⟩⟩
    | some seg =>
        obtain ⟨hack, habs⟩ := h.last_ack hlast (by rw [hb.ackno]; exact hopened)
        obtain ⟨hackno, hcount⟩ := hhealthy.ackno_of_last hsegs hlast hack
        rw [← hx]
        exact ⟨hackno.trans habs, Or.inl hcount⟩
  have hheard : (handBack b).x.receiver.ackno =
      b.y.sender.nextSeqno := by
    have hackno := hhealthy.ackno_deliverAll hsegs (by
      rw [hself, hother, Endpoint.transmitAll, h.x, h.y]
      exact hb.queues) (by
      rw [hself]
      exact h.windowSize_pos .a hroom (by rw [h.x]; exact h.inboundX))
    rw [hother, Endpoint.transmitAll, h.y] at hackno
    rw [← hx]
    exact hackno
  refine ⟨rfl, hheard, hacked.1, ?_, ?_, hacked.2, ?_, ?_⟩
  · have hqueues := hhealthy.queues_deliverAll hsegs
      b.y.receiver.ackno (by
        rw [hself, h.x, hb.ackno]
        intro k hge hlt
        omega)
    rw [← hx]
    exact hqueues
  · have hstable := TCPSender.stable_settles
    rw [← hx]
    exact hhealthy.sender_deliverAll hsegs hstable.queue hstable.fillWindow
      (fun s ackno win _ hs => hstable.ackReceived s ackno win hs)
      (by rw [hself, h.x]; exact hb.settles)
  · have hsilent := hhealthy.silent_deliverAll hsegs
    rw [hself, h.x] at hsilent
    change (n.hand .a b.y.segmentsOut .a).conn.segmentsOut = [] →
      (n.hand .a b.y.segmentsOut .a).conn.receiver.ackno = _ at hsilent
    rw [hx] at hsilent
    by_cases hnew : (handBack b).x.receiver.ackno =
        b.x.receiver.ackno
    · exact Or.inl hnew
    · right
      obtain ⟨seg, hlast⟩ := Option.ne_none_iff_exists'.mp
        (mt List.getLast?_eq_none_iff.mp (mt hsilent hnew))
      have hhealthy' := (tracks_handBack h).healthy
      obtain ⟨o, hlinked⟩ := hhealthy'.joined
      have hopenedY := (h.healthy.fit .b).clean.opened
      have hupToDate := (hhealthy'.fit .a).upToDate
      rw [hx] at hupToDate
      refine ⟨seg, List.mem_of_getLast? hlast, hupToDate ?_ seg hlast⟩
      rw [← hx]
      refine (hlinked .a).receiving.toValid.synArrived_of_ackno ?_
      change 0 < (n.hand .a b.y.segmentsOut .a).conn.receiver.ackno
      rw [hx, hheard, ← h.y]
      exact hopenedY
  · have hunsent := hhealthy.unsent_deliverAll hsegs
    rw [hself, h.x] at hunsent
    rw [← hx]
    exact hunsent

/-! ## Reading -/

/-- What reading changes: the inbound stream of `y` is emptied. -/
structure ReadOut (b b' : State) : Prop where
  x : b'.x = b.x
  y : ∃ stream : ByteStream, stream.sz = 0 ∧
    stream.inputEnded = b.y.inboundStream.inputEnded ∧
    b'.y =
      { b.y with
        receiver :=
          { b.y.receiver with
            reassembler :=
              { b.y.receiver.reassembler with output := stream } } }
  xClosed : b'.xClosed = b.xClosed

theorem readOut_readOutput (b : State) : ReadOut b (readOutput b) := by
  unfold readOutput
  dsimp only
  split
  · refine ⟨rfl, ⟨(b.y.inboundStream.read b.y.inboundStream.bufferSize).1,
      ?_, rfl, rfl⟩, rfl⟩
    rw [ByteStream.sz_read, ByteStream.bufferSize_eq, Nat.sub_self]
  · rename_i hnone
    refine ⟨rfl, ⟨b.y.inboundStream, ?_, rfl, rfl⟩, rfl⟩
    rw [ByteStream.bufferSize_eq] at hnone
    omega

theorem tracks_readOutput (h : Tracks config string n b) :
    ∃ n', Tracks config string n' (readOutput b) := by
  unfold readOutput
  dsimp only
  split
  · have hact : (n .b).act (.read b.y.inboundStream.bufferSize) =
        { n .b with
          conn :=
            { b.y with
              receiver :=
                { b.y.receiver with
                  reassembler :=
                    { b.y.receiver.reassembler with
                      output := (b.y.inboundStream.read
                        b.y.inboundStream.bufferSize).1 } } }
          consumed := (n .b).consumed ++ (b.y.inboundStream.read
            b.y.inboundStream.bufferSize).2 } := by
      simp only [Endpoint.act, Endpoint.inbound, Endpoint.withInbound, h.y,
        TCPReceiver.Session.step, TCPReceiver.Session.withStream,
        TCPReceiver.Session.stream, StreamReassembler.Session.step]
      rfl
    refine ⟨_, h.healthy.read .b b.y.inboundStream.bufferSize, h.x, ?_,
      h.sent, ?_, ?_, h.xEnded, h.closed, h.yEnded, h.capacity⟩
    · rw [Function.update_self, hact]
    · rw [Function.update_self, hact]
      exact h.silent
    · rw [Function.update_self, hact, h.received]
  · exact ⟨n, h⟩

/-! ## Time passes -/

/-- What a tick keeps that does not reset the connection. -/
structure Ticks (c c' : TCPConnection) : Prop where
  receiver : c'.receiver = c.receiver
  nextSeqno : c'.sender.nextSeqno = c.sender.nextSeqno
  ackno : c'.sender.ackno = c.sender.ackno
  inFlight : c'.sender.bytesInFlight = c.sender.bytesInFlight
  stream : c'.sender.stream = c.sender.stream
  finSended : c'.sender.finSended = c.sender.finSended
  outstandings : c'.sender.timer.outstandings = c.sender.timer.outstandings
  count : c'.sender.consecutiveRetransmissions ≤ 1
  queue : c.segmentsOut <+: c'.segmentsOut
  idle : c.sender.bytesInFlight = 0 → c'.segmentsOut = c.segmentsOut

theorem Ticks.queueStart {c c' : TCPConnection} (h : Ticks c c') :
    c'.sender.queueStart = c.sender.queueStart := by
  rw [TCPSender.queueStart, TCPSender.queueStart, h.nextSeqno, h.inFlight]

theorem Ticks.unsent {c c' : TCPConnection} (h : Ticks c c') :
    c'.sender.unsent = c.sender.unsent := by
  rw [TCPSender.unsent, TCPSender.unsent, h.nextSeqno, h.stream, h.finSended]

theorem Ticks.settles {c c' : TCPConnection} (h : Ticks c c')
    (hvalid : c'.sender.Valid) (hsettles : c.sender.Settles) :
    c'.sender.Settles := by
  refine ⟨hvalid, ?_⟩
  rw [h.ackno, h.nextSeqno, h.inFlight]
  exact hsettles.2

theorem Ticks.ending {c c' : TCPConnection} (h : Ticks c c')
    (hending : c.sender.Ending) : c'.sender.Ending := by
  refine ⟨?_, ?_, ?_⟩
  · rw [TCPSender.Single, h.outstandings]
    exact hending.single
  · rw [h.nextSeqno]
    exact hending.opened
  · rw [h.stream]
    exact hending.empty

theorem Ticks.begun {c c' : TCPConnection} (h : Ticks c c')
    (hvalid : c'.sender.Valid) (hbegun : c.sender.Begun) :
    c'.sender.Begun := by
  refine ⟨hvalid, ?_⟩
  rw [h.queueStart, h.ackno]
  exact hbegun.2

theorem Ticks.queues {c c' : TCPConnection} (h : Ticks c c') {lo : ℕ}
    (hqueues : c.Queues lo) : c'.Queues lo := by
  intro k hge hlt
  rw [h.nextSeqno] at hlt
  obtain ⟨seg, hseg, hk⟩ := hqueues k hge hlt
  exact ⟨seg, h.queue.subset hseg, hk⟩

theorem endures_of_unhurried {c : TCPConnection} (h : c.sender.Unhurried)
    (hvalid : c.sender.Valid) (ms : ℕ) : c.Endures ms :=
  (h.tick hvalid ms).trans (by decide)

theorem ticks_tick {c : TCPConnection} (h : c.sender.Unhurried)
    (hclean : c.Clean) (ms : ℕ) : Ticks c (c.tick ms) := by
  have hendures := endures_of_unhurried h hclean.valid ms
  have hmoves := TCPConnection.moves_tick hendures
  have hcount := h.tick hclean.valid ms
  have hsender := TCPConnection.sender_tick hendures
  obtain ⟨timer, again, heq, hqueue, -, hagain⟩ := c.sender.tick_spec ms
  have hsegs : (c.tick ms).segmentsOut =
      c.segmentsOut ++ again.map c.stamp := by
    rw [hmoves.segmentsOut, heq, hclean.flushed]
    rfl
  rw [heq] at hcount hsender
  refine ⟨hmoves.receiver, ?_, ?_, ?_, ?_, ?_, ?_, ?_, ?_, ?_⟩
  case refine_8 =>
    rw [hsegs]
    exact List.prefix_append _ _
  case refine_9 =>
    intro hidle
    have hnone : c.sender.timer.outstandings = [] := by
      by_contra hsome
      have hflight := hclean.valid.running_iff.mp
        (hclean.valid.running.mpr hsome)
      omega
    have hnil : again = [] := by
      refine List.eq_nil_iff_forall_not_mem.mpr ?_
      intro seg hseg
      obtain ⟨entry, hentry, -⟩ := hagain seg hseg
      rw [hnone] at hentry
      cases hentry
    rw [hsegs, hnil]
    exact List.append_nil _
  all_goals rw [hsender]
  · exact hqueue
  · exact hcount

theorem tracks_tick (h : Tracks config string n b)
    (hx : b.x.sender.Unhurried) (hy : b.y.sender.Unhurried) :
    (∃ n', Tracks config string n' (tick b)) ∧
      Ticks b.x (tick b).x ∧ Ticks b.y (tick b).y := by
  have hcleanX := (h.healthy.fit .a).clean
  have hcleanY := (h.healthy.fit .b).clean
  rw [h.x] at hcleanX
  rw [h.y] at hcleanY
  have hticksX := ticks_tick hx hcleanX 1000
  have hticksY := ticks_tick hy hcleanY 1000
  refine ⟨?_, hticksX, hticksY⟩
  have hhealthy := h.healthy.tick .a 1000
    (by rw [h.x]; exact endures_of_unhurried hx hcleanX.valid 1000)
  have hb : Function.update n .a ((n .a).act (.tick 1000)) .b = n .b := rfl
  have hhealthy' := hhealthy.tick .b 1000
    (by rw [hb, h.y]; exact endures_of_unhurried hy hcleanY.valid 1000)
  refine ⟨_, hhealthy', ?_, ?_, h.sent, h.silent, h.received, ?_, h.closed,
    ?_, ?_⟩
  · change ((n .a).conn.tick 1000) = b.x.tick 1000
    rw [h.x]
  · change ((n .b).conn.tick 1000) = b.y.tick 1000
    rw [h.y]
  · exact (congrArg _ hticksX.stream).trans h.xEnded
  · exact (congrArg _ hticksY.stream).trans h.yEnded
  · exact (congrArg _ hticksX.stream).trans h.capacity

/-! ## The turn -/

/-- What the exchange of the segments, the reading and the tick do. -/
structure Exchanged (b b' : State) : Prop where
  ackno : b'.y.receiver.ackno = b.x.sender.nextSeqno
  heard : b'.x.receiver.ackno = b'.y.sender.nextSeqno
  told : b.x.receiver.ackno ≤ b'.y.sender.queueStart
  unsent : b'.x.sender.nextSeqno + b'.x.sender.unsent =
    b.x.sender.nextSeqno + b.x.sender.unsent
  xClosed : b'.xClosed = b.xClosed
  quiet : b'.y.sender.bytesInFlight = 0 → b'.y.segmentsOut = []

theorem HandedOver.returning {reorder : Bool} (hb : Between b)
    (h : HandedOver b (handOver b reorder)) :
    Returning (handOver b reorder) where
  ackno := by rw [h.ackno, h.x]
  queues := by
    rw [h.x]
    exact h.queues
  acked := by
    intro hnil
    rw [h.silent hnil, h.x]
    exact hb.acked
  settles := by
    rw [h.x]
    exact hb.settles
  count := by
    rw [h.x]
    exact hb.countX

theorem Tracks.exchanged (h : Tracks config string n b) (hb : Between b)
    (hroom : 0 < config.recvCapacity) (reorder : Bool) :
    let b' := tick
      (readOutput (exchange b reorder))
    (∃ n', Tracks config string n' b') ∧ Between b' ∧ Exchanged b b' ∧
      (b'.x.sender.bytesInFlight = 0 →
        b'.x.segmentsOut = (exchange b reorder).x.segmentsOut) := by
  rw [exchange_eq]
  have hover := h.handedOver hb hroom reorder
  have hback := (tracks_handOver h reorder).handedBack (hover.returning hb) hroom
  obtain ⟨n₄, h₄⟩ :=
    tracks_readOutput (tracks_handBack (tracks_handOver h reorder))
  have hread := readOut_readOutput
    (handBack (handOver b reorder))
  obtain ⟨stream, hsz, hended, hy⟩ := hread.y
  have hsender : (readOutput (handBack
      (handOver b reorder))).y.sender =
      (handOver b reorder).y.sender := by
    rw [hy, hback.y]
  have hackno : (readOutput (handBack
      (handOver b reorder))).y.receiver.ackno =
      (handOver b reorder).y.receiver.ackno := by
    rw [hy, hback.y]
  obtain ⟨⟨n₅, h₅⟩, hticksX, hticksY⟩ := tracks_tick h₄
    (by rw [hread.x]; exact hback.unhurried)
    (by rw [hsender]; exact hover.unhurried)
  have hvalidX := (h₅.healthy.fit .a).clean.valid
  have hvalidY := (h₅.healthy.fit .b).clean.valid
  rw [h₅.x] at hvalidX
  rw [h₅.y] at hvalidY
  have hheard := hback.heard
  rw [← hread.x, ← hticksX.receiver, ← hsender, ← hticksY.nextSeqno] at hheard
  have htold := hover.queueStart
  rw [← hsender, ← hticksY.queueStart] at htold
  refine ⟨⟨n₅, h₅⟩, ⟨?_, ?_, ?_, ?_, ?_, ?_, ?_, ?_, ?_, ?_, ?_⟩, ?_, ?_⟩
  · refine hticksX.queues ?_
    rw [hread.x, hticksY.receiver, hackno]
    exact hback.queues
  · intro k hge hlt
    omega
  · rw [hticksX.ackno, hread.x, hticksY.receiver, hackno]
    exact hback.acked
  · exact hticksX.settles hvalidX (by rw [hread.x]; exact hback.settles)
  · exact hticksY.ending (by rw [hsender]; exact hover.ending)
  · exact hticksY.begun hvalidY (by rw [hsender]; exact hover.begun)
  · rcases hback.pending with hsame | ⟨seg, hseg, hack, habs⟩
    · left
      rw [hticksX.receiver, hread.x, hsame]
      rw [hover.x]
      exact htold
    · right
      rw [← hread.x] at hseg habs
      refine ⟨seg, hticksX.queue.subset hseg, hack, ?_⟩
      rw [hticksX.receiver]
      exact habs
  · exact Or.inl hheard
  · exact hticksX.count
  · exact hticksY.count
  · rw [TCPConnection.inboundStream, hticksY.receiver, hy]
    exact hsz
  · refine ⟨?_, hheard, htold, ?_, ?_, ?_⟩
    · rw [hticksY.receiver, hackno, hover.ackno]
    · rewrite [hticksX.nextSeqno, hticksX.unsent, hread.x, hback.unsent,
        hover.x]
      rfl
    · exact hread.xClosed
    · rw [hticksY.inFlight]
      intro hidle
      rw [hticksY.idle hidle, hy, hback.y]
  · rw [hticksX.inFlight]
    intro hidle
    rw [hticksX.idle hidle, hread.x]

/-- With the FIN sent, everything was written. -/
theorem Tracks.closed_of_finSended (h : Tracks config string n b)
    (hfin : b.x.sender.finSended = true) :
    b.xClosed = true ∧ b.bytesToSend = [] := by
  have hdrained := (h.healthy.fit .a).drained
  rw [h.x] at hdrained
  have hclosed : b.xClosed = true := by
    rw [← h.xEnded]
    exact (ByteStream.eof_iff.mp (hdrained hfin)).1
  exact ⟨hclosed, h.closed hclosed⟩

theorem closeInput_of_closed (hclosed : b.xClosed = true) :
    closeInput b = b := by
  rw [closeInput, if_neg]
  rintro ⟨-, hopen⟩
  rw [hclosed] at hopen
  cases hopen

/-- After writing, the stream is closed or has bytes. -/
theorem Tracks.written (h : Tracks config string n b) (hb : Between b)
    (hshort : string.length + 2 < 2 ^ 31) (hsend : 0 < config.sendCapacity) :
    ∃ b₀ n', writeInput b.bytesToSend.length b = .ok b₀ ∧
      Tracks config string n' (closeInput b₀) ∧ Between (closeInput b₀) ∧
      Refills b.x (closeInput b₀).x ∧
      ((closeInput b₀).xClosed = true ∨
        0 < (closeInput b₀).x.sender.stream.sz) := by
  obtain ⟨b₀, n₀, hok, h₀, hrefills, hy, hend⟩ :=
    writeInput_spec hshort _ h le_rfl
  obtain ⟨n', h', hrefills', hy', hclosed, hbytes, hsame⟩ := tracks_closeInput h₀
  refine ⟨b₀, n', hok, h', hb.refills (hrefills.trans hrefills')
    (hy'.trans hy), hrefills.trans hrefills', ?_⟩
  by_cases hnil : b₀.bytesToSend = []
  · exact Or.inl (hclosed (hbytes.trans hnil))
  · right
    rw [hsame hnil]
    have hfull := hend.resolve_left hnil
    have hcapacity := h₀.capacity
    rw [TCPConnection.remainingOutboundCapacity,
      ByteStream.remainingCapacity] at hfull
    omega

/-- What a turn brings: all that `x` had sent is acknowledged, and more was
sent unless there is nothing to send; once the FIN was sent, `y` has read to the
end; and `y` has been told what `x` had acknowledged. -/
structure Progress (b b' : State) : Prop where
  ackno : b.x.sender.nextSeqno ≤ b'.y.receiver.ackno
  further : b'.x.sender.finSended = true ∨
    b'.y.receiver.ackno < b'.x.sender.nextSeqno
  ended : b.x.sender.finSended = true → b'.y.inboundStream.eof = true
  heard : b'.x.receiver.ackno = b'.y.sender.nextSeqno
  told : b.x.receiver.ackno ≤ b'.y.sender.queueStart
  quiet : b'.y.sender.bytesInFlight = 0 → b'.y.segmentsOut = []

theorem Exchanged.further (h : Tracks config string n b')
    (hb : Between b') (hexchanged : Exchanged b b')
    (hopened : 0 < b'.x.sender.nextSeqno)
    (hsome : b.xClosed = true ∨ 0 < b.x.sender.stream.sz) :
    b'.x.sender.finSended = true ∨
      b'.y.receiver.ackno < b'.x.sender.nextSeqno := by
  have hsettled := (h.healthy.fit .a).settled
  rw [h.x] at hsettled
  rcases hsettled with hfin | ⟨-, hfull⟩ | ⟨hsz, hopen⟩
  · exact Or.inl hfin
  · right
    have hacked := hb.acked
    have hwindow : b'.x.sender.ackno + 1 ≤ b'.x.sender.endSeqno := by
      unfold TCPSender.endSeqno
      split <;> omega
    omega
  · right
    have hbytes : 0 < b.x.sender.stream.sz := by
      refine hsome.resolve_left ?_
      rw [← hexchanged.xClosed, ← h.xEnded, hopen]
      decide
    have hunsent := hexchanged.unsent
    have hackno := hexchanged.ackno
    simp only [TCPSender.unsent, ByteStream.bufferSize_eq, hsz, hopen,
      Bool.false_and, Bool.toNat_false, Nat.ne_of_gt hopened,
      decide_false] at hunsent
    omega

/-- Nothing is sent after the FIN. -/
theorem Exchanged.finSended (h : Tracks config string n b)
    (h' : Tracks config string n' b') (hb' : Between b')
    (hexchanged : Exchanged b b') (hfin : b.x.sender.finSended = true) :
    b'.x.sender.finSended = true ∧
      b'.x.sender.nextSeqno = b.x.sender.nextSeqno := by
  have hclean := (h.healthy.fit .a).clean
  have hdrained := (h.healthy.fit .a).drained
  rw [h.x] at hclean hdrained
  have hsz := (ByteStream.eof_iff.mp (hdrained hfin)).2
  have hnone : b.x.sender.unsent = 0 := by
    simp [TCPSender.unsent, ByteStream.bufferSize_eq, hsz, hfin,
      Nat.ne_of_gt hclean.opened]
  have hunsent := hexchanged.unsent
  rw [hnone] at hunsent
  have hended : b'.x.sender.stream.inputEnded = true := by
    rw [h'.xEnded, hexchanged.xClosed]
    exact (h.closed_of_finSended hfin).1
  have hle : b.x.sender.nextSeqno ≤ b'.x.sender.nextSeqno := by
    rw [← hexchanged.ackno, ← hb'.acked]
    exact hb'.settles.1.ackno_le
  constructor
  · by_contra hopen
    simp only [TCPSender.unsent, hended, Bool.true_and,
      Bool.eq_false_of_not_eq_true hopen, Bool.not_false,
      Bool.toNat_true] at hunsent
    omega
  · omega

theorem Exchanged.ended (h : Tracks config string n b)
    (h' : Tracks config string n' b') (hb' : Between b')
    (hexchanged : Exchanged b b') (hfin : b.x.sender.finSended = true) :
    b'.y.inboundStream.eof = true := by
  obtain ⟨hfin', hnext⟩ := hexchanged.finSended h h' hb' hfin
  have hended := h'.healthy.joined.inputEnded_of_ackno .a
    (by rw [h'.x]; exact hfin') (by
      change (n' .b).conn.receiver.ackno = _
      rw [h'.x, h'.y, hexchanged.ackno, hnext])
  change (n' .b).conn.inboundStream.inputEnded = true at hended
  rw [h'.y] at hended
  exact ByteStream.eof_iff.mpr ⟨hended, hb'.read⟩

/-- A turn throws nothing, and brings the exchange forward. -/
theorem Tracks.turn (h : Tracks config string n b) (hb : Between b)
    (hshort : string.length + 2 < 2 ^ 31) (hsend : 0 < config.sendCapacity)
    (hroom : 0 < config.recvCapacity) (reorder : Bool) :
    ∃ b' n', loop reorder b = .ok b' ∧ Tracks config string n' b' ∧
      Between b' ∧ Progress b b' := by
  obtain ⟨b₀, n₁, hok, h₁, hb₁, hrefills, hsome⟩ := h.written hb hshort hsend
  obtain ⟨⟨n', h'⟩, hb', hexchanged, -⟩ := h₁.exchanged hb₁ hroom reorder
  have hopened := (h'.healthy.fit .a).clean.opened
  rw [h'.x] at hopened
  refine ⟨_, n', by rw [loop, hok]; rfl, h', hb', ?_,
    hexchanged.further h' hb' hopened hsome, ?_, hexchanged.heard, ?_,
    hexchanged.quiet⟩
  · rw [hexchanged.ackno]
    exact hrefills.next
  · intro hfin
    obtain ⟨hclosed, hnil⟩ := h.closed_of_finSended hfin
    rw [hnil] at hok
    cases hok
    rw [closeInput_of_closed hclosed] at h₁ hexchanged h' hb' ⊢
    exact hexchanged.ended h h' hb' hfin
  · rw [← hrefills.receiver]
    exact hexchanged.told

end TCPBenchmark
end Sponge
