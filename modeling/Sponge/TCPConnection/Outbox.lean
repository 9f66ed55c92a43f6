import Sponge.TCPConnection.Endpoint

/-!
# What a connection puts on its outgoing queue

Every segment reaches `segments_out` through `update_queue`, which stamps it
with the acknowledgment number and the window of the receiver, or is the RST of
`send_rst`.  During an operation the receiver changes before the first call of
`update_queue` and not afterwards, so that one receiver stamps all segments of
the operation; `Moves` follows them through its parts.

The header field for the window has 16 bits and the window has not.
-/

namespace Sponge

open Support

namespace TCPConnection

/-- `update_queue` was called on the segments `raw`, in one or more calls, and
the receiver has not changed. -/
structure Moves (c : TCPConnection) (raw : List SentSegment)
    (c' : TCPConnection) : Prop where
  segmentsOut : c'.segmentsOut = c.segmentsOut ++ raw.map c.stamp
  receiver : c'.receiver = c.receiver

theorem stamp_congr {c c' : TCPConnection} (h : c'.receiver = c.receiver) :
    c'.stamp = c.stamp := by
  funext seg
  rw [stamp, stamp, h]

theorem Moves.trans {c c₁ c' : TCPConnection} {raw raw' : List SentSegment}
    (h : Moves c raw c₁) (h' : Moves c₁ raw' c') :
    Moves c (raw ++ raw') c' where
  segmentsOut := by
    rw [h'.segmentsOut, h.segmentsOut, stamp_congr h.receiver,
      List.append_assoc, List.map_append]
  receiver := h'.receiver.trans h.receiver

theorem Moves.none {c c' : TCPConnection}
    (hqueue : c'.segmentsOut = c.segmentsOut)
    (hreceiver : c'.receiver = c.receiver) : Moves c [] c' where
  segmentsOut := by simp [hqueue]
  receiver := hreceiver

/-- The new part of the queue. -/
theorem Moves.drop {c c' : TCPConnection} {raw : List SentSegment}
    (h : Moves c raw c') :
    c'.segmentsOut.drop c.segmentsOut.length = raw.map c.stamp := by
  rw [h.segmentsOut, List.drop_left]

theorem moves_fillWindow (c : TCPConnection) :
    Moves c c.sender.fillWindow.segmentsOut c.fillWindow :=
  ⟨rfl, rfl⟩

theorem moves_sendEmptySegment (c : TCPConnection) :
    Moves c c.sender.sendEmptySegment.segmentsOut c.sendEmptySegment :=
  ⟨rfl, rfl⟩

/-! ## The parts of `segment_received` -/

/-- What the sender hands over after an acknowledgment. -/
def ackAnswer (c : TCPConnection) (seg : TCPSegment) : List SentSegment :=
  let sender := c.sender.ackReceived seg.header.ackno seg.header.win
  if seg.header.ack = true ∧ sender.nextSeqno ≠ 0 then
    sender.fillWindow.segmentsOut
  else []

/-- The segment is answered because it occupies sequence numbers. -/
def Replies (r : TCPReceiver) (seg : TCPSegment) : Prop :=
  seg.lengthInSequenceSpace ≠ 0 ∧ r.ackno?.isSome = true

/-- The segment is answered because it is a keep-alive segment. -/
def RepliesKeepAlive (r : TCPReceiver) (seg : TCPSegment) : Prop :=
  seg.lengthInSequenceSpace = 0 ∧
    r.ackno?.map (fun ackno => ackno.sub 1) = some seg.header.seqno

instance (r : TCPReceiver) (seg : TCPSegment) : Decidable (Replies r seg) :=
  inferInstanceAs (Decidable (_ ∧ _))

instance (r : TCPReceiver) (seg : TCPSegment) :
    Decidable (RepliesKeepAlive r seg) :=
  inferInstanceAs (Decidable (_ ∧ _))

/-- What the sender hands over in reply to a segment that occupies sequence
numbers. -/
def replyAnswer (c : TCPConnection) (seg : TCPSegment) : List SentSegment :=
  if Replies c.receiver seg then
    if c.sender.nextSeqno = 0 ∧ seg.header.syn then
      c.sender.fillWindow.segmentsOut
    else c.sender.sendEmptySegment.segmentsOut
  else []

/-- What the sender hands over in reply to a keep-alive segment. -/
def keepAliveAnswer (c : TCPConnection) (seg : TCPSegment) :
    List SentSegment :=
  if RepliesKeepAlive c.receiver seg then
    c.sender.sendEmptySegment.segmentsOut
  else []

theorem moves_afterAck (c : TCPConnection) (seg : TCPSegment) :
    Moves { c with receiver := c.receiver.segmentReceived seg }
      (c.ackAnswer seg) (c.afterAck seg) := by
  obtain ⟨r, hr⟩ : ∃ r, c.receiver.segmentReceived seg = r := ⟨_, rfl⟩
  obtain ⟨s, hs⟩ : ∃ s,
      c.sender.ackReceived seg.header.ackno seg.header.win = s := ⟨_, rfl⟩
  simp only [afterAck, ackAnswer, ackReceived, fillOpened, hr, hs]
  cases seg.header.ack with
  | false => exact Moves.none rfl rfl
  | true =>
      by_cases hopened : s.nextSeqno ≠ 0
      · simp only [hopened, if_true, ne_eq, not_false_eq_true, and_self]
        exact ⟨rfl, rfl⟩
      · simp only [hopened, if_true, if_false, and_false]
        exact Moves.none rfl rfl

theorem moves_reply (c : TCPConnection) (seg : TCPSegment) :
    Moves c (c.replyAnswer seg) (c.reply seg) := by
  have hreply : c.reply seg = if Replies c.receiver seg then
      if c.sender.nextSeqno = 0 ∧ seg.header.syn then c.fillWindow
      else c.sendEmptySegment
    else c := rfl
  rw [hreply, replyAnswer]
  by_cases hreplies : Replies c.receiver seg
  · rw [if_pos hreplies, if_pos hreplies]
    by_cases hfirst : c.sender.nextSeqno = 0 ∧ seg.header.syn
    · rw [if_pos hfirst, if_pos hfirst]
      exact c.moves_fillWindow
    · rw [if_neg hfirst, if_neg hfirst]
      exact c.moves_sendEmptySegment
  · rw [if_neg hreplies, if_neg hreplies]
    exact Moves.none rfl rfl

theorem moves_replyKeepAlive (c : TCPConnection) (seg : TCPSegment) :
    Moves c (c.keepAliveAnswer seg) (c.replyKeepAlive seg) := by
  have hreply : c.replyKeepAlive seg =
      if RepliesKeepAlive c.receiver seg then c.sendEmptySegment else c := rfl
  rw [hreply, keepAliveAnswer]
  by_cases hreplies : RepliesKeepAlive c.receiver seg
  · rw [if_pos hreplies, if_pos hreplies]
    exact c.moves_sendEmptySegment
  · rw [if_neg hreplies, if_neg hreplies]
    exact Moves.none rfl rfl

/-- The connection when it starts to reply. -/
def beforeReply (c : TCPConnection) (seg : TCPSegment) : TCPConnection :=
  (c.afterAck seg).noteFirstEnd.tryCleanClosed

/-- What the sender hands over during `segment_received`. -/
def answer (c : TCPConnection) (seg : TCPSegment) : List SentSegment :=
  if seg.header.rst then []
  else
    c.ackAnswer seg ++ (c.beforeReply seg).replyAnswer seg ++
      ((c.beforeReply seg).reply seg).keepAliveAnswer seg

theorem moves_segmentReceived (c : TCPConnection) {seg : TCPSegment}
    (hrst : seg.header.rst = false) :
    Moves { c with receiver := c.receiver.segmentReceived seg }
      (c.answer seg) (c.segmentReceived seg) := by
  have hflags : Moves (c.afterAck seg) [] (c.beforeReply seg) := by
    refine Moves.none ?_ ?_
    · rw [beforeReply, tryCleanClosed_eq, noteFirstEnd_eq]
    · rw [beforeReply, receiver_tryCleanClosed, receiver_noteFirstEnd]
  have hack := (c.moves_afterAck seg).trans hflags
  have hreply := hack.trans ((c.beforeReply seg).moves_reply seg)
  have hall := hreply.trans
    (((c.beforeReply seg).reply seg).moves_replyKeepAlive seg)
  rw [List.append_nil] at hall
  rw [segmentReceived_eq c hrst, answer, if_neg (by simp [hrst])]
  exact hall

theorem stamp_sendRst (c : TCPConnection) : c.sendRst.stamp = c.stamp := rfl

/-- The stamp of a tick is that of the receiver before it. -/
theorem stamp_tick (c : TCPConnection) (ms : ℕ) :
    (c.tick ms).stamp = c.stamp := by
  rw [tick_eq_ite]
  split
  · rw [stamp_sendRst]
    exact stamp_congr rfl
  · exact stamp_congr (receiver_tryCleanClosed _)

end TCPConnection

namespace Endpoint

/-- The segments that `update_queue` puts on `segments_out` during an event.  A
tick that resets the connection discards them again. -/
def moved (e : Endpoint) : Event → List SentSegment
  | .act (.tick ms) =>
      (e.conn.afterTick ms).segmentsOut.drop e.conn.segmentsOut.length
  | .act .transmit => []
  | event => (e.step event).conn.segmentsOut.drop e.conn.segmentsOut.length

/-- The segments that the sender hands over to `update_queue` during an
event. -/
def offered (e : Endpoint) : Event → List SentSegment
  | .act .connect => e.conn.sender.fillWindow.segmentsOut
  | .act (.write data) =>
      { e.conn.sender with
        stream := (e.conn.sender.stream.write data).1 }.fillWindow.segmentsOut
  | .act .endInputStream =>
      { e.conn.sender with
        stream := e.conn.sender.stream.endInput }.fillWindow.segmentsOut
  | .act (.tick ms) => (e.conn.sender.tick ms).segmentsOut
  | .act (.read _) | .act (.popOutput _) | .act .transmit => []
  | .receive seg => e.conn.answer seg

/-- The segments of an event are stamped by the receiver that the event leaves
behind. -/
theorem moved_eq (e : Endpoint) (event : Event) :
    e.moved event = (e.offered event).map (e.step event).conn.stamp := by
  cases event with
  | receive seg =>
      cases hrst : seg.header.rst with
      | true =>
          have hnone : e.conn.answer seg = [] := if_pos hrst
          have hqueue : (e.conn.segmentReceived seg).segmentsOut =
              e.conn.segmentsOut := by
            simp only [TCPConnection.segmentReceived, hrst, if_true]
            rfl
          simp only [moved, offered, step, receive, hnone, hqueue,
            List.drop_length, List.map_nil]
      | false =>
          have hmoves := e.conn.moves_segmentReceived hrst
          have hdrop := hmoves.drop
          rw [← TCPConnection.stamp_congr hmoves.receiver] at hdrop
          exact hdrop
  | act op =>
      cases op with
      | connect => exact e.conn.moves_fillWindow.drop
      | write data =>
          exact (TCPConnection.moves_fillWindow { e.conn with
            sender := { e.conn.sender with
              stream := (e.conn.sender.stream.write data).1 } }).drop
      | endInputStream =>
          exact (TCPConnection.moves_fillWindow { e.conn with
            sender := { e.conn.sender with
              stream := e.conn.sender.stream.endInput } }).drop
      | tick ms =>
          have hmoves : TCPConnection.Moves e.conn
              (e.conn.sender.tick ms).segmentsOut (e.conn.afterTick ms) :=
            ⟨rfl, rfl⟩
          simp only [offered, step, act, TCPConnection.stamp_tick]
          exact hmoves.drop
      | read len => exact List.drop_length
      | popOutput len => exact List.drop_length
      | transmit => rfl

/-! ## What a segment announces -/

/-- The segment acknowledges what the receiver has and carries its window, or
the largest window that a header can carry. -/
def Announces (r : TCPReceiver) (seg : SentSegment) : Prop :=
  seg.header.ack = true ∧ r.ackno? = some seg.header.ackno ∧
    seg.header.win.toNat = min r.windowSize 65535

/-- Once a SYN was received, every segment moved during the event announces the
receiver. -/
def Announced (e : Endpoint) (event : Event) : Prop :=
  (e.step event).conn.receiver.synArrived = true →
    ∀ seg ∈ e.moved event, Announces (e.step event).conn.receiver seg

instance (e : Endpoint) (event : Event) : Decidable (e.Announced event) :=
  inferInstanceAs (Decidable (_ → ∀ seg ∈ _, _ ∧ _ ∧ _))

/-- The low 16 bits of the window are the window, or the largest one. -/
def Representable (window : ℕ) : Prop :=
  window ≤ 65535 ∨ window % 65536 = 65535

/-- Once a SYN was received, whatever the sender hands over during the event
finds a window that a header can carry. -/
def WindowFits (e : Endpoint) (event : Event) : Prop :=
  (e.step event).conn.receiver.synArrived = true → e.offered event ≠ [] →
    Representable (e.step event).conn.receiver.windowSize

/-- A stamped segment announces the receiver exactly when the window fits. -/
theorem announces_stamp_iff {c : TCPConnection}
    (hsyn : c.receiver.synArrived = true) (seg : SentSegment) :
    Announces c.receiver (c.stamp seg) ↔
      Representable c.receiver.windowSize := by
  have hackno : c.receiver.ackno? =
      some (wrap c.receiver.ackno c.receiver.isn) := by
    simp [TCPReceiver.ackno?, hsyn]
  simp only [Announces, TCPConnection.stamp, hackno, true_and,
    UInt16.toNat_ofNat', Representable]
  omega

theorem announced_iff_windowFits (e : Endpoint) (event : Event) :
    e.Announced event ↔ e.WindowFits event := by
  unfold Announced WindowFits
  rw [moved_eq]
  constructor
  · intro h hsyn hsome
    obtain ⟨seg, hseg⟩ := List.exists_mem_of_ne_nil _ hsome
    exact (announces_stamp_iff hsyn seg).mp
      (h hsyn _ (List.mem_map_of_mem hseg))
  · intro h hsyn stamped hmem
    obtain ⟨seg, hseg, rfl⟩ := List.mem_map.mp hmem
    exact (announces_stamp_iff hsyn seg).mpr
      (h hsyn (List.ne_nil_of_mem hseg))

/-! ## The window of a small receiver -/

theorem capacity_step (e : Endpoint) (event : Event) :
    (e.step event).conn.receiver.capacity = e.conn.receiver.capacity := by
  change (e.step event).inbound.receiver.capacity =
    e.inbound.receiver.capacity
  rcases e.inbound_step event with ⟨event', hstep⟩ | hsame | hmarked
  · rw [hstep, TCPReceiver.Session.capacity_step]
  · rw [hsame]
  · rw [hmarked]
    rfl

/-- **The announced window.**  In a run, every segment that `update_queue` moves
after a SYN was received carries the ACK flag, the acknowledgment number of the
receiver and its window, cut off at 65535, if and only if at every step at which
the sender has something to send the window is at most 65535 or is 65535 modulo
65536; it is so in every run with a capacity of at most 65535. -/
theorem announced_iff (cfg : TCPConfig) (random : UInt32)
    (events : List Event) :
    (EveryStep step (new cfg random) events Announced ↔
      EveryStep step (new cfg random) events WindowFits) ∧
    (cfg.recvCapacity ≤ 65535 →
      EveryStep step (new cfg random) events Announced) := by
  have hiff : EveryStep step (new cfg random) events Announced ↔
      EveryStep step (new cfg random) events WindowFits :=
    everyStep_congr (I := fun _ => True) (fun _ _ _ => trivial)
      (fun e event _ => e.announced_iff_windowFits event) trivial
  refine ⟨hiff, ?_⟩
  intro hsmall
  rw [hiff]
  intro done event _ _ _
  have hcapacity : ((done.foldl step (new cfg random)).step
      event).conn.receiver.capacity = cfg.recvCapacity := by
    rw [capacity_step]
    exact foldl_invariant
      (I := fun e : Endpoint => e.conn.receiver.capacity = cfg.recvCapacity)
      (fun e event h => (e.capacity_step event).trans h) done rfl
  left
  refine (Nat.sub_le _ _).trans ?_
  rw [hcapacity]
  exact hsmall

/-- The SYN of a peer, received with the default capacity. -/
theorem announced_default :
    EveryStep step (new {} 0)
      [.receive { header := { syn := true, seqno := ⟨7⟩ } }] Announced :=
  (announced_iff {} 0 _).2 (by decide)

/-- A receiver with room for one byte more than a header can announce: the
answer to the SYN carries a window of zero. -/
theorem not_announced_large :
    let cfg : TCPConfig := { recvCapacity := 65536, fixedIsn := some ⟨0⟩ }
    let events : List Event :=
      [.receive { header := { syn := true, seqno := ⟨7⟩ } }]
    (run cfg 0 events).conn.receiver.windowSize = 65536 ∧
      (run cfg 0 events).conn.segmentsOut.map (fun seg => seg.header.win) =
        [0] ∧
      ¬EveryStep step (new cfg 0) events Announced := by
  decide +kernel

end Endpoint
end Sponge
