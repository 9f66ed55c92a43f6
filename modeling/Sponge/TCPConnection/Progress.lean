import Sponge.TCPConnection.Endpoint

/-!
# A connection does not stall

Every operation of a connection ends with a filled window, and the window stays
open while nothing is in flight, unless an old acknowledgment closes it.  As
long as no such acknowledgment is received, unsent bytes or an unsent FIN mean
that something is in flight and the retransmission timer runs.
-/

namespace Sponge

open Support

/-! ## Writes after the end of the stream -/

namespace Endpoint

/-- Nothing is written after `end_input_stream`. -/
def NoLateWrite (e : Endpoint) : Event → Prop
  | .act (.write _) => e.conn.sender.stream.inputEnded = false
  | _ => True

theorem drained_new (cfg : TCPConfig) (random : UInt32) :
    (new cfg random).conn.sender.Drained := nofun

theorem drained_step {e : Endpoint} (h : e.conn.sender.Drained)
    {event : Event} (hguard : e.NoLateWrite event) :
    (e.step event).conn.sender.Drained := by
  refine stable_step TCPSender.stable_drained h ?_
  rintro data rfl
  exact h.write hguard data

end Endpoint

/-! ## Filled windows -/

namespace TCPConnection

/-- Between two operations the sender has filled its window, and while the
connection is active the window is not closed with nothing in flight. -/
structure Steady (c : TCPConnection) : Prop where
  valid : c.sender.Valid
  settled : c.sender.Settled
  unblocked : c.active = true → c.sender.Unblocked

theorem steady_new (cfg : TCPConfig) (random : UInt32) :
    (new cfg random).Steady where
  valid := TCPSender.valid_new _ _ _ _
  settled := TCPSender.settled_new _ _ _ _
  unblocked := fun _ => TCPSender.unblocked_new _ _ _ _

theorem steady_of_inactive {c : TCPConnection} (hvalid : c.sender.Valid)
    (hsettled : c.sender.Settled) (hinactive : c.active = false) :
    c.Steady where
  valid := hvalid
  settled := hsettled
  unblocked := by
    intro hactive
    rw [hinactive] at hactive
    cases hactive

/-- Filling the window settles the sender, whatever happened before. -/
theorem steady_fillWindow {c : TCPConnection} (hvalid : c.sender.Valid)
    (hunblocked : c.active = true → c.sender.Unblocked) :
    c.fillWindow.Steady where
  valid := stable_fillWindow TCPSender.stable_valid hvalid
  settled := c.sender.settled_fillWindow
  unblocked := fun hactive => (hunblocked hactive).fillWindow

theorem Steady.sendEmptySegment {c : TCPConnection} (h : c.Steady) :
    c.sendEmptySegment.Steady where
  valid := stable_sendEmptySegment TCPSender.stable_valid h.valid
  settled := h.settled
  unblocked := h.unblocked

theorem Steady.reply {c : TCPConnection} (h : c.Steady) (seg : TCPSegment) :
    (c.reply seg).Steady := by
  unfold TCPConnection.reply
  split
  · split
    · exact steady_fillWindow h.valid h.unblocked
    · exact h.sendEmptySegment
  · exact h

theorem Steady.replyKeepAlive {c : TCPConnection} (h : c.Steady)
    (seg : TCPSegment) : (c.replyKeepAlive seg).Steady := by
  unfold TCPConnection.replyKeepAlive
  split
  · exact h.sendEmptySegment
  · exact h

theorem Steady.noteFirstEnd {c : TCPConnection} (h : c.Steady) :
    c.noteFirstEnd.Steady := by
  rw [noteFirstEnd_eq]
  exact ⟨h.valid, h.settled, h.unblocked⟩

theorem Steady.tryCleanClosed {c : TCPConnection} (h : c.Steady) :
    c.tryCleanClosed.Steady := by
  unfold TCPConnection.tryCleanClosed
  split
  · split
    · exact steady_of_inactive h.valid h.settled rfl
    · exact h
  · exact h

theorem Steady.ackReceived {c : TCPConnection} (h : c.Steady)
    {ackno : WrappingInt32} {win : UInt16}
    (hblocks : c.active = true → ¬c.sender.Blocks ackno win) :
    (c.ackReceived ackno win).Steady := by
  have hvalid := h.valid.ackReceived ackno win
  have hunblocked : c.active = true →
      (c.sender.ackReceived ackno win).Unblocked := fun hactive =>
    (h.unblocked hactive).ackReceived h.valid (hblocks hactive)
  obtain ⟨hnext, -⟩ := c.sender.ackReceived_unchanged ackno win
  rw [TCPConnection.ackReceived, fillOpened]
  split
  · exact steady_fillWindow hvalid hunblocked
  · rename_i hzero
    refine ⟨hvalid, h.settled.ackReceived h.valid ?_ ackno win, hunblocked⟩
    rw [← hnext]
    exact not_not.mp hzero

theorem Steady.afterAck {c : TCPConnection} (h : c.Steady)
    {seg : TCPSegment}
    (hblocks : c.active = true → seg.header.ack = true →
      ¬c.sender.Blocks seg.header.ackno seg.header.win) :
    (c.afterAck seg).Steady := by
  have hreceived : Steady
      { c with
        lingerTime := 0
        receiver := c.receiver.segmentReceived seg } :=
    ⟨h.valid, h.settled, h.unblocked⟩
  simp only [TCPConnection.afterAck]
  split
  · rename_i hack
    exact hreceived.ackReceived fun hactive => hblocks hactive hack
  · exact hreceived

theorem Steady.segmentReceived {c : TCPConnection} (h : c.Steady)
    {seg : TCPSegment}
    (hblocks : c.active = true → seg.header.rst = false →
      seg.header.ack = true →
        ¬c.sender.Blocks seg.header.ackno seg.header.win) :
    (c.segmentReceived seg).Steady := by
  cases hrst : seg.header.rst with
  | true =>
      simp only [TCPConnection.segmentReceived, hrst, if_true]
      exact steady_of_inactive (TCPSender.stable_valid.setError _ h.valid)
        h.settled rfl
  | false =>
      rw [segmentReceived_eq c hrst]
      exact ((h.afterAck fun hactive =>
        hblocks hactive hrst).noteFirstEnd.tryCleanClosed.reply
          seg).replyKeepAlive seg

theorem stuck_fillWindow {c : TCPConnection} (h : c.sender.Stuck) :
    c.fillWindow.sender.Stuck := by
  rw [fillWindow, h.fillWindow]
  exact ⟨h.unfinished, h.idle, h.opened, h.full⟩

/-- A stuck connection does not send its FIN when the stream is ended. -/
theorem stuck_endInputStream {c : TCPConnection} (h : c.sender.Stuck) :
    c.endInputStream.sender.Stuck ∧
      c.endInputStream.sender.stream.inputEnded = true := by
  have hended : TCPSender.Stuck
      { c.sender with stream := c.sender.stream.endInput } :=
    ⟨h.unfinished, h.idle, h.opened, h.full⟩
  refine ⟨stuck_fillWindow hended, ?_⟩
  rw [endInputStream, fillWindow, hended.fillWindow]
  rfl

/-- A blocking acknowledgment leaves the connection stuck, whatever else its
segment carries. -/
theorem stuck_segmentReceived {c : TCPConnection} (hvalid : c.sender.Valid)
    {seg : TCPSegment} (hrst : seg.header.rst = false)
    (hack : seg.header.ack = true)
    (hblocks : c.sender.Blocks seg.header.ackno seg.header.win) :
    (c.segmentReceived seg).sender.Stuck := by
  have hempty : ∀ {c : TCPConnection}, c.sender.Stuck →
      c.sendEmptySegment.sender.Stuck := fun h =>
    ⟨h.unfinished, h.idle, h.opened, h.full⟩
  have hafter : (c.afterAck seg).sender.Stuck := by
    have hstuck := hblocks.stuck hvalid
    simp only [TCPConnection.afterAck, hack, if_true]
    rw [TCPConnection.ackReceived, fillOpened]
    split
    · exact stuck_fillWindow hstuck
    · exact hstuck
  have hreply : ((c.afterAck seg).noteFirstEnd.tryCleanClosed.reply
      seg).sender.Stuck := by
    have hclosed :
        (c.afterAck seg).noteFirstEnd.tryCleanClosed.sender.Stuck := by
      rw [sender_tryCleanClosed, sender_noteFirstEnd]
      exact hafter
    unfold TCPConnection.reply
    split
    · split
      · exact stuck_fillWindow hclosed
      · exact hempty hclosed
    · exact hclosed
  rw [segmentReceived_eq c hrst, TCPConnection.replyKeepAlive]
  split
  · exact hempty hreply
  · exact hreply

theorem Steady.afterTick {c : TCPConnection} (h : c.Steady) (ms : ℕ) :
    (c.afterTick ms).Steady := by
  obtain ⟨timer, again, heq, -⟩ := c.sender.tick_spec ms
  refine ⟨TCPSender.stable_valid.queue _ _ (h.valid.tick ms), ?_, ?_⟩
  · simp only [TCPConnection.afterTick, updateQueue, heq]
    exact h.settled
  · simp only [TCPConnection.afterTick, updateQueue, heq]
    exact h.unblocked

theorem Steady.tick {c : TCPConnection} (h : c.Steady) (ms : ℕ) :
    (c.tick ms).Steady := by
  have hafter := h.afterTick ms
  rw [tick_eq_ite]
  split
  · exact steady_of_inactive (stable_sendRst TCPSender.stable_valid
      hafter.valid) hafter.settled rfl
  · exact hafter.tryCleanClosed

end TCPConnection

namespace Endpoint

/-- No acknowledgment is received that closes the window of an active connection
while nothing is in flight. -/
def NotBlocked (e : Endpoint) : Event → Prop
  | .receive seg => e.conn.active = true → seg.header.rst = false →
      seg.header.ack = true →
        ¬e.conn.sender.Blocks seg.header.ackno seg.header.win
  | .act _ => True

instance (e : Endpoint) : (event : Event) → Decidable (e.NotBlocked event)
  | .receive _ => inferInstanceAs (Decidable (_ → _ → _ → ¬_))
  | .act _ => inferInstanceAs (Decidable True)

instance (e : Endpoint) : (event : Event) → Decidable (e.NoLateWrite event)
  | .act (.write _) => inferInstanceAs (Decidable (_ = false))
  | .act .connect | .act .endInputStream | .act (.tick _) | .act (.read _)
  | .act (.popOutput _) | .act .transmit | .receive _ =>
      inferInstanceAs (Decidable True)

theorem steady_step {e : Endpoint} (h : e.conn.Steady) {event : Event}
    (hguard : e.NotBlocked event) : (e.step event).conn.Steady := by
  cases event with
  | receive seg => exact h.segmentReceived hguard
  | act op =>
      cases op with
      | connect => exact TCPConnection.steady_fillWindow h.valid h.unblocked
      | write data =>
          exact TCPConnection.steady_fillWindow
            ⟨h.valid.chain, h.valid.inFlight_le, h.valid.running,
              h.valid.ackno_le⟩ h.unblocked
      | endInputStream =>
          exact TCPConnection.steady_fillWindow
            (TCPSender.stable_valid.endInput _ h.valid) h.unblocked
      | tick ms => exact h.tick ms
      | read len => exact ⟨h.valid, h.settled, h.unblocked⟩
      | popOutput len => exact ⟨h.valid, h.settled, h.unblocked⟩
      | transmit =>
          simp only [step, act]
          split
          · exact h
          · exact ⟨h.valid, h.settled, h.unblocked⟩

/-! ## No silent stall -/

/-- Once the SYN was sent, an active connection with unsent bytes or an unsent
FIN has something in flight, and its timer runs. -/
def KeepsGoing (e : Endpoint) : Prop :=
  e.conn.active = true → 0 < e.conn.sender.nextSeqno →
    (0 < e.conn.sender.stream.bufferSize ∨
      (e.conn.sender.stream.inputEnded = true ∧
        e.conn.sender.finSended = false)) →
    0 < e.conn.bytesInFlight ∧ e.conn.sender.timer.running = true

instance : DecidablePred KeepsGoing := by
  intro e
  unfold KeepsGoing
  infer_instance

/-- **A connection does not stall unless an old acknowledgment blocks it.**  In
every run without writes after `end_input_stream` in which no acknowledgment
closes the window of an active connection while nothing is in flight, every
state keeps going. -/
theorem keeps_going_of_not_blocked (cfg : TCPConfig) (random : UInt32)
    {events : List Event}
    (hwrite : EveryStep step (new cfg random) events NoLateWrite)
    (hblocks : EveryStep step (new cfg random) events NotBlocked) :
    EveryState step (new cfg random) events KeepsGoing := by
  intro done hdone
  obtain ⟨hsteady, hdrained⟩ :=
    ((hblocks.and hwrite).restrict hdone).invariant
      (I := fun e : Endpoint => e.conn.Steady ∧ e.conn.sender.Drained)
      (fun e event h hguard => ⟨steady_step h.1 hguard.1,
        drained_step h.2 hguard.2⟩)
      ⟨TCPConnection.steady_new cfg random, drained_new cfg random⟩
  intro hactive _ hunsent
  have hpos := TCPSender.inFlight_pos hsteady.settled
    (hsteady.unblocked hactive) hdrained hunsent
  exact ⟨hpos, hsteady.valid.running_iff.mpr hpos⟩

/-- No weaker guard would do: when an acknowledgment that it excludes leaves the
connection active, the connection stalls with the next `end_input_stream`. -/
theorem not_keepsGoing_of_blocked {e : Endpoint} (h : e.conn.Steady)
    {event : Event} (hblocked : ¬e.NotBlocked event)
    (hactive : (e.step event).conn.active = true) :
    ¬((e.step event).step (.act .endInputStream)).KeepsGoing := by
  cases event with
  | act op => exact absurd trivial hblocked
  | receive seg =>
      simp only [NotBlocked, Classical.not_imp, not_not] at hblocked
      obtain ⟨-, hrst, hack, hblocks⟩ := hblocked
      obtain ⟨hstuck, hended⟩ := TCPConnection.stuck_endInputStream
        (TCPConnection.stuck_segmentReceived h.valid hrst hack hblocks)
      intro hgoing
      have hpos := (hgoing hactive hstuck.opened
        (Or.inr ⟨hended, hstuck.unfinished⟩)).1
      exact absurd hstuck.idle (Nat.ne_of_gt hpos)

/-- A connection with small buffers and the initial sequence number 0. -/
def smallConfig : TCPConfig :=
  { recvCapacity := 4, sendCapacity := 4, fixedIsn := some ⟨0⟩ }

/-- A connection is opened, sends a byte and a second one before the first is
acknowledged; the second waits for the window. -/
theorem keeps_going_waiting :
    let synAck : TCPSegment :=
      { header := { syn := true, ack := true, ackno := ⟨1⟩, win := 1 } }
    let events : List Event := [.act .connect, .receive synAck,
      .act (.write [1]), .act (.write [2])]
    (run smallConfig 0 events).conn.sender.stream.bufferSize = 1 ∧
      (run smallConfig 0 events).KeepsGoing := by
  intro synAck events
  refine ⟨by decide +kernel, ?_⟩
  exact (keeps_going_of_not_blocked smallConfig 0 (by decide +kernel)
    (by decide +kernel)).last

/-- Two acknowledgments arrive in the wrong order: after the one for the first
byte the older one closes the window again, and the second byte is never sent,
with nothing in flight. -/
theorem keeps_going_fails_reordered :
    let synAck : TCPSegment :=
      { header := { syn := true, ack := true, ackno := ⟨1⟩, win := 1 } }
    let ack : ℕ → TCPSegment := fun n =>
      { header := { seqno := ⟨1⟩, ack := true, ackno := wrap n ⟨0⟩, win := 1 } }
    let events : List Event := [.act .connect, .receive synAck,
      .act (.write [1]), .receive (ack 2), .receive (ack 1),
      .act (.write [2])]
    let e := run smallConfig 0 events
    EveryStep step (new smallConfig 0) events NoLateWrite ∧
      e.conn.active = true ∧ e.conn.sender.stream.bufferSize = 1 ∧
      e.conn.bytesInFlight = 0 ∧ ¬e.KeepsGoing := by
  decide +kernel

end Endpoint
end Sponge
