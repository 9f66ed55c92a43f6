import Sponge.TCPConnection.Progress

/-!
# Clean shutdown

A connection that becomes inactive without a reset has received the end of the
inbound stream, has sent its FIN and had everything acknowledged, and has either
seen the inbound stream end first or lingered for ten times the retransmission
timeout.  `try_clean_closed` infers that the FIN was sent from the end of the
outbound stream and an empty queue; the inference needs that no old
acknowledgment has closed the window.
-/

namespace Sponge

open Support

/-! ## A finished sender -/

namespace TCPSender

/-- The FIN was sent and everything is acknowledged. -/
structure Finished (s : TCPSender) : Prop extends Valid s where
  ended : s.stream.inputEnded = true
  fin : s.finSended = true
  idle : s.bytesInFlight = 0

theorem stable_finished : Stable Finished where
  queue := fun _ q h =>
    ⟨stable_valid.queue _ q h.toValid, h.ended, h.fin, h.idle⟩
  fillWindow := by
    intro s h
    rw [fillWindow_of_finSended h.fin]
    exact h
  ackReceived := by
    intro s ackno win h
    rcases h.toValid.ackReceived_cases ackno win rfl with
      ⟨-, heq⟩ | ⟨-, timer, flight, heq, hvalid, -, hflight, -⟩
    · rw [heq]
      exact h
    · rw [heq] at hvalid ⊢
      have hidle := h.idle
      exact ⟨hvalid, h.ended, h.fin, by dsimp only; omega⟩
  tick := by
    intro s ms h
    have hvalid := h.toValid.tick ms
    obtain ⟨timer, again, heq, -⟩ := s.tick_spec ms
    rw [heq] at hvalid ⊢
    exact ⟨hvalid, h.ended, h.fin, h.idle⟩
  endInput := fun _ h =>
    ⟨stable_valid.endInput _ h.toValid, rfl, h.fin, h.idle⟩
  setError := fun _ h =>
    ⟨stable_valid.setError _ h.toValid, h.ended, h.fin, h.idle⟩

theorem Finished.write {s : TCPSender} (h : s.Finished) (data : List UInt8) :
    { s with stream := (s.stream.write data).1 }.Finished where
  toValid := h.toValid.with_streams _ _
  ended := (s.stream.inputEnded_write data).trans h.ended
  fin := h.fin
  idle := h.idle

end TCPSender

/-! ## The FIN on its way -/

namespace TCPConnection

/-- If the FIN was sent, a segment with it is on the outgoing queue or among
`wire`. -/
def FinSent (wire : List SentSegment) (c : TCPConnection) : Prop :=
  c.sender.finSended = true →
    ∃ seg ∈ wire ++ c.segmentsOut, seg.header.fin = true

variable {wire : List SentSegment} {c : TCPConnection}

theorem fin_stamp (c : TCPConnection) (seg : SentSegment) :
    (c.stamp seg).header.fin = seg.header.fin := by
  unfold stamp
  split <;> rfl

/-- The queue only grows. -/
theorem FinSent.mono (h : FinSent wire c) {c' : TCPConnection}
    (hfin : c'.sender.finSended = true → c.sender.finSended = true)
    (hout : c.segmentsOut <+: c'.segmentsOut) : FinSent wire c' := by
  intro hsent
  obtain ⟨seg, hmem, hseg⟩ := h (hfin hsent)
  refine ⟨seg, ?_, hseg⟩
  rcases List.mem_append.mp hmem with hwire | hqueued
  · exact List.mem_append_left _ hwire
  · exact List.mem_append_right _ (hout.subset hqueued)

theorem FinSent.fillWindow (h : FinSent wire c) :
    FinSent wire c.fillWindow := by
  obtain ⟨segs, hfills, -⟩ := c.sender.fillWindow_spec
  intro hsent
  cases hold : c.sender.finSended with
  | true => exact h.mono (fun _ => hold) (List.prefix_append _ _) hsent
  | false =>
      obtain ⟨seg, hmem, hseg⟩ := (hfills.exists_fin_iff hold).mpr hsent
      refine ⟨{ c with sender := c.sender.fillWindow }.stamp seg, ?_, ?_⟩
      · refine List.mem_append_right _ (List.mem_append_right _ ?_)
        refine List.mem_map_of_mem ?_
        rw [hfills.segmentsOut]
        exact List.mem_append_right _ hmem
      · rw [fin_stamp]
        exact hseg

theorem FinSent.sendEmptySegment (h : FinSent wire c) :
    FinSent wire c.sendEmptySegment :=
  h.mono id (List.prefix_append _ _)

theorem FinSent.reply (h : FinSent wire c) (seg : TCPSegment) :
    FinSent wire (c.reply seg) := by
  unfold TCPConnection.reply
  split
  · split
    · exact h.fillWindow
    · exact h.sendEmptySegment
  · exact h

theorem FinSent.replyKeepAlive (h : FinSent wire c) (seg : TCPSegment) :
    FinSent wire (c.replyKeepAlive seg) := by
  unfold TCPConnection.replyKeepAlive
  split
  · exact h.sendEmptySegment
  · exact h

theorem FinSent.afterAck (h : FinSent wire c) (seg : TCPSegment) :
    FinSent wire (c.afterAck seg) := by
  obtain ⟨-, -, hfin, -⟩ := c.sender.ackReceived_unchanged
    seg.header.ackno seg.header.win
  have hacked : FinSent wire
      { c with
        lingerTime := 0
        receiver := c.receiver.segmentReceived seg
        sender := c.sender.ackReceived seg.header.ackno seg.header.win } :=
    h.mono (fun hsent => hfin.symm.trans hsent) (List.prefix_refl _)
  rcases c.afterAck_cases seg with heq | heq | heq
  · rw [heq]
    exact h
  · rw [heq]
    exact hacked
  · rw [heq]
    exact hacked.fillWindow

theorem FinSent.segmentReceived (h : FinSent wire c) {seg : TCPSegment}
    (hrst : seg.header.rst = false) :
    FinSent wire (c.segmentReceived seg) := by
  have hclosed : FinSent wire (c.afterAck seg).noteFirstEnd.tryCleanClosed := by
    rw [tryCleanClosed_eq, noteFirstEnd_eq]
    exact h.afterAck seg
  rw [segmentReceived_eq c hrst]
  exact (hclosed.reply seg).replyKeepAlive seg

/-! ## Closing -/

/-- Both ends of a connection that was closed in order. -/
structure Finished (c : TCPConnection) : Prop where
  inbound : c.inboundStream.inputEnded = true
  sender : c.sender.Finished

theorem flags_afterAck (c : TCPConnection) (seg : TCPSegment) :
    (c.afterAck seg).flags =
      (c.cfg, c.lingerAfterStreamsFinish, 0, c.active) := by
  simp only [afterAck]
  split
  · rw [flags_ackReceived, flags]
  · rw [flags]

/-- What a segment without the RST flag does to the flags of a connection. -/
theorem flags_segmentReceived (c : TCPConnection) {seg : TCPSegment}
    (hrst : seg.header.rst = false) :
    (c.segmentReceived seg).flags =
      (c.cfg,
        c.lingerAfterStreamsFinish &&
          !((c.afterAck seg).inboundStream.eof &&
            !(c.afterAck seg).sender.stream.eof),
        0, (c.afterAck seg).noteFirstEnd.tryCleanClosed.active) := by
  have hafter := c.flags_afterAck seg
  simp only [flags, Prod.mk.injEq] at hafter
  obtain ⟨hcfg, hlinger, htime, -⟩ := hafter
  rw [segmentReceived_eq c hrst, flags_replyKeepAlive, flags_reply,
    tryCleanClosed_eq, flags, noteFirstEnd_eq]
  simp only [hcfg, hlinger, htime]

/-- A steady connection is closed when it has finished. -/
theorem Steady.finished (h : c.Steady) (hactive : c.active = true)
    (hin : c.inboundStream.eof = true) (hout : c.sender.stream.eof = true)
    (hidle : c.sender.bytesInFlight = 0) : c.Finished where
  inbound := (ByteStream.eof_iff.mp hin).1
  sender :=
    { toValid := h.valid
      ended := (ByteStream.eof_iff.mp hout).1
      fin := TCPSender.finSended_of_eof h.settled (h.unblocked hactive) hout
        hidle
      idle := hidle }

/-- An active connection that is closed by a segment has finished, and had no
reason to linger before. -/
theorem Steady.closed_segmentReceived (h : c.Steady) {seg : TCPSegment}
    (hrst : seg.header.rst = false)
    (hblocks : c.active = true → seg.header.ack = true →
      ¬c.sender.Blocks seg.header.ackno seg.header.win)
    (hactive : c.active = true)
    (hclosed : (c.segmentReceived seg).active = false) :
    (c.segmentReceived seg).Finished ∧
      (c.lingerAfterStreamsFinish = false ∨
        c.cfg.rtTimeout.toNat * 10 ≤ (c.segmentReceived seg).lingerTime) := by
  have hafter := c.flags_afterAck seg
  have hend := c.flags_segmentReceived hrst
  simp only [flags, Prod.mk.injEq] at hafter hend
  obtain ⟨hcfg, hlinger, htime, hstill⟩ := hafter
  obtain ⟨-, -, htime', hactive'⟩ := hend
  rw [hactive', active_tryCleanClosed] at hclosed
  have hsteady := (h.afterAck hblocks).noteFirstEnd
  rw [noteFirstEnd_eq] at hclosed hsteady
  rcases hclosed with hfalse | ⟨hin, hout, hidle, hreason⟩
  · dsimp only at hfalse
    rw [hstill, hactive] at hfalse
    cases hfalse
  · have hfinished := hsteady.finished (hstill.trans hactive) hin hout hidle
    constructor
    · rw [segmentReceived_eq c hrst]
      refine ⟨?_, ?_⟩
      · rw [inboundStream, receiver_replyKeepAlive, receiver_reply,
          receiver_tryCleanClosed, receiver_noteFirstEnd]
        exact hfinished.inbound
      · apply stable_replyKeepAlive TCPSender.stable_finished
        apply stable_reply TCPSender.stable_finished
        rw [sender_tryCleanClosed, sender_noteFirstEnd]
        exact hfinished.sender
    · dsimp only at hout hreason
      rw [hout] at hreason
      simp only [Bool.not_true, Bool.and_false, Bool.not_false,
        Bool.and_true, hlinger, hcfg, htime] at hreason
      rw [htime']
      exact hreason

/-- Answering a segment does not bring the outbound stream to its end. -/
theorem eof_reply (h : c.sender.Settled) (seg : TCPSegment) :
    (c.reply seg).sender.stream.eof = c.sender.stream.eof := by
  unfold TCPConnection.reply
  split
  · split
    · rename_i hfirst
      exact h.eof_fillWindow hfirst.1
    · rfl
  · rfl

theorem eof_replyKeepAlive (c : TCPConnection) (seg : TCPSegment) :
    (c.replyKeepAlive seg).sender.stream.eof = c.sender.stream.eof := by
  unfold TCPConnection.replyKeepAlive
  split <;> rfl

/-- `tick` without a reset. -/
theorem tick_eq (c : TCPConnection) {ms : ℕ}
    (hreset : ∀ seg ∈ (c.tick ms).segmentsOut, seg.header.rst = false) :
    c.tick ms = (c.afterTick ms).tryCleanClosed := by
  rw [tick_eq_ite] at hreset ⊢
  split at hreset
  · obtain ⟨seg, hqueue, hrst⟩ := segmentsOut_sendRst (c.afterTick ms)
    rw [hreset seg (by rw [hqueue]; exact List.mem_singleton_self seg)] at hrst
    cases hrst
  · rename_i hfew
    rw [if_neg hfew]

/-- The same for a connection that is closed by a tick. -/
theorem Steady.closed_tick (h : c.Steady) {ms : ℕ}
    (hreset : ∀ seg ∈ (c.tick ms).segmentsOut, seg.header.rst = false)
    (hactive : c.active = true) (hclosed : (c.tick ms).active = false) :
    (c.tick ms).Finished ∧
      (c.lingerAfterStreamsFinish = false ∨
        c.cfg.rtTimeout.toNat * 10 ≤ (c.tick ms).lingerTime) := by
  have hsteady := h.afterTick ms
  rw [tick_eq c hreset] at hclosed ⊢
  rw [active_tryCleanClosed] at hclosed
  rcases hclosed with hfalse | ⟨hin, hout, hidle, hreason⟩
  · have hstill : c.active = false := hfalse
    rw [hactive] at hstill
    cases hstill
  · have hfinished := hsteady.finished hactive hin hout hidle
    rw [tryCleanClosed_eq]
    exact ⟨⟨hfinished.inbound, hfinished.sender⟩, hreason⟩

end TCPConnection

/-! ## Runs -/

namespace Endpoint

/-- No RST is received, and none is on the outgoing queue after the event. -/
def NoReset (e : Endpoint) : Event → Prop
  | .receive seg => seg.header.rst = false
  | .act op => ∀ seg ∈ (e.act op).conn.segmentsOut, seg.header.rst = false

instance (e : Endpoint) : (event : Event) → Decidable (e.NoReset event)
  | .receive _ => inferInstanceAs (Decidable (_ = _))
  | .act op => inferInstanceAs (Decidable (∀ seg ∈ (e.act op).conn.segmentsOut,
      seg.header.rst = false))

/-- The time that has passed since the last received segment. -/
def elapsed (events : List Event) : ℕ :=
  events.foldl (fun time event =>
    match event with
    | .receive _ => 0
    | .act (.tick ms) => time + ms
    | .act _ => time) 0

/-- A tick counts the time and may close the connection; everything else that
the owner does leaves the flags alone. -/
theorem flags_act {e : Endpoint} {op : Op} (hreset : e.NoReset (.act op)) :
    (e.act op).conn.flags = e.conn.flags ∨
      ∃ ms, op = .tick ms ∧
        (e.act op).conn.flags =
          (e.conn.cfg, e.conn.lingerAfterStreamsFinish,
            addSize e.conn.lingerTime ms, (e.conn.tick ms).active) := by
  cases op with
  | tick ms =>
      refine Or.inr ⟨ms, rfl, ?_⟩
      simp only [act, TCPConnection.flags, TCPConnection.tick_eq _ hreset]
      rw [TCPConnection.tryCleanClosed_eq]
      rfl
  | transmit =>
      left
      simp only [act]
      split <;> rfl
  | _ => exact Or.inl rfl

theorem elapsed_le_act (done : List Event) (op : Op) :
    elapsed done ≤ elapsed (done ++ [.act op]) := by
  rw [elapsed, elapsed, List.foldl_append]
  cases op with
  | tick ms => exact Nat.le_add_right _ ms
  | _ => exact le_rfl

/-- The time the connection counts is at most the time that has passed. -/
theorem lingerTime_le_step {e : Endpoint} {event : Event}
    (hreset : e.NoReset event) {done : List Event}
    (h : e.conn.lingerTime ≤ elapsed done) :
    (e.step event).conn.lingerTime ≤ elapsed (done ++ [event]) := by
  cases event with
  | receive seg =>
      have hflags := e.conn.flags_segmentReceived hreset
      simp only [TCPConnection.flags, Prod.mk.injEq] at hflags
      exact hflags.2.2.1.le.trans (Nat.zero_le _)
  | act op =>
      rcases flags_act hreset with hflags | ⟨ms, rfl, hflags⟩
      · simp only [TCPConnection.flags, Prod.mk.injEq] at hflags
        exact (hflags.2.2.1.le.trans h).trans (elapsed_le_act done op)
      · simp only [TCPConnection.flags, Prod.mk.injEq] at hflags
        have htime : elapsed (done ++ [.act (.tick ms)]) =
            elapsed done + ms := by
          rw [elapsed, List.foldl_append]
          rfl
        rw [htime]
        exact hflags.2.2.1.le.trans
          ((addSize_le _ _).trans (Nat.add_le_add_right h ms))

theorem linger_act (e : Endpoint) (op : Op) :
    (e.act op).conn.lingerAfterStreamsFinish =
      e.conn.lingerAfterStreamsFinish := by
  cases op with
  | tick ms =>
      simp only [act, TCPConnection.tick_eq_ite]
      split
      · rfl
      · rw [TCPConnection.tryCleanClosed_eq]
        rfl
  | transmit =>
      simp only [act]
      split <;> rfl
  | connect | write _ | endInputStream | read _ | popOutput _ => rfl

/-- A segment turns lingering off when the inbound stream is at its end after it
and the outbound one is not. -/
theorem linger_receive (e : Endpoint) {seg : TCPSegment}
    (hrst : seg.header.rst = false) :
    (e.receive seg).conn.lingerAfterStreamsFinish =
      (e.conn.lingerAfterStreamsFinish &&
        !((e.receive seg).conn.inboundStream.eof &&
          !(e.conn.afterAck seg).sender.stream.eof)) := by
  have hflags := e.conn.flags_segmentReceived hrst
  simp only [TCPConnection.flags, Prod.mk.injEq] at hflags
  have hin : (e.conn.afterAck seg).inboundStream =
      (e.receive seg).conn.inboundStream := by
    simp only [TCPConnection.inboundStream, receive,
      e.conn.receiver_segmentReceived hrst, e.conn.receiver_afterAck]
  rw [← hin]
  exact hflags.2.1

theorem linger_of_rst (e : Endpoint) {seg : TCPSegment}
    (hrst : seg.header.rst = true) :
    (e.receive seg).conn.lingerAfterStreamsFinish =
      e.conn.lingerAfterStreamsFinish := by
  simp only [receive, TCPConnection.segmentReceived, hrst, if_true]
  rfl

/-- The connection stops lingering only when the inbound stream has reached its
end and the outbound one has not. -/
theorem linger_step {e : Endpoint} (h : e.conn.Steady) {event : Event}
    (hreset : e.NoReset event) (hblocked : e.NotBlocked event)
    (hlinger : (e.step event).conn.lingerAfterStreamsFinish = false) :
    e.conn.lingerAfterStreamsFinish = false ∨
      ((e.step event).conn.inboundStream.eof = true ∧
        (e.step event).conn.sender.stream.eof = false) := by
  cases event with
  | receive seg =>
      rw [step, linger_receive e hreset, Bool.and_eq_false_iff] at hlinger
      rcases hlinger with hbefore | hends
      · exact Or.inl hbefore
      · right
        simp only [Bool.not_eq_false', Bool.and_eq_true,
          Bool.not_eq_true'] at hends
        have hsteady := h.afterAck fun hactive => hblocked hactive hreset
        refine ⟨hends.1, ?_⟩
        simp only [step, receive, TCPConnection.segmentReceived_eq _ hreset]
        rw [TCPConnection.eof_replyKeepAlive,
          TCPConnection.eof_reply (by simpa using hsteady.settled)]
        simpa using hends.2
  | act op =>
      rw [step, linger_act] at hlinger
      exact Or.inl hlinger

/-- An active endpoint is closed by a segment or a tick, when it has finished
and was not lingering or has lingered long enough. -/
theorem closed_step {e : Endpoint} (h : e.conn.Steady) {event : Event}
    (hreset : e.NoReset event) (hblocked : e.NotBlocked event)
    (hactive : e.conn.active = true)
    (hclosed : (e.step event).conn.active = false) :
    (e.step event).conn.Finished ∧
      (e.conn.lingerAfterStreamsFinish = false ∨
        e.conn.cfg.rtTimeout.toNat * 10 ≤ (e.step event).conn.lingerTime) := by
  cases event with
  | receive seg =>
      exact h.closed_segmentReceived hreset
        (fun hactive => hblocked hactive hreset) hactive hclosed
  | act op =>
      rcases flags_act hreset with hflags | ⟨ms, rfl, -⟩
      · simp only [TCPConnection.flags, Prod.mk.injEq] at hflags
        have hinactive := hflags.2.2.2.symm.trans hclosed
        rw [hactive] at hinactive
        cases hinactive
      · exact h.closed_tick hreset hactive hclosed

/-- A finished endpoint stays so. -/
theorem finished_step {capacity : ℕ} {e : Endpoint}
    (hinbound : e.inbound.Valid capacity) (h : e.conn.Finished)
    (event : Event) : (e.step event).conn.Finished := by
  constructor
  · exact inputEnded_step hinbound h.inbound event
  · refine stable_step TCPSender.stable_finished h.sender ?_
    intro data _
    exact h.sender.write data

theorem finSent_step {e : Endpoint} (h : e.conn.FinSent e.wire)
    {event : Event} (hreset : e.NoReset event) :
    (e.step event).conn.FinSent (e.step event).wire := by
  cases event with
  | receive seg => exact h.segmentReceived hreset
  | act op =>
      cases op with
      | connect => exact h.fillWindow
      | write data =>
          have hwritten : TCPConnection.FinSent e.wire
              { e.conn with
                sender :=
                  { e.conn.sender with
                    stream := (e.conn.sender.stream.write data).1 } } := h
          exact hwritten.fillWindow
      | endInputStream =>
          have hended : TCPConnection.FinSent e.wire
              { e.conn with
                sender :=
                  { e.conn.sender with
                    stream := e.conn.sender.stream.endInput } } := h
          exact hended.fillWindow
      | tick ms =>
          obtain ⟨timer, again, heq, -⟩ := e.conn.sender.tick_spec ms
          have hticked : (e.conn.afterTick ms).FinSent e.wire := by
            refine h.mono ?_ (List.prefix_append _ _)
            simp only [TCPConnection.afterTick, TCPConnection.updateQueue,
              heq]
            exact id
          simp only [step, act, TCPConnection.tick_eq _ hreset]
          rw [TCPConnection.tryCleanClosed_eq]
          exact hticked
      | read len => exact h
      | popOutput len => exact h
      | transmit =>
          simp only [step, act]
          split
          · exact h
          · rename_i seg rest hout
            intro hsent
            obtain ⟨fin, hmem, hfin⟩ := h hsent
            refine ⟨fin, ?_, hfin⟩
            rw [hout] at hmem
            simpa using hmem

/-- At some moment of the run the inbound stream was at its end and the outbound
one was not. -/
def InboundEndedFirst (cfg : TCPConfig) (random : UInt32)
    (done : List Event) : Prop :=
  ∃ earlier, earlier <+: done ∧
    (run cfg random earlier).conn.inboundStream.eof = true ∧
    (run cfg random earlier).conn.sender.stream.eof = false

/-- The step of the run that closed the connection: before it the inbound stream
was at its end first, or after it at least ten times the retransmission timeout
have passed since the last received segment. -/
def ClosedInOrder (cfg : TCPConfig) (random : UInt32)
    (done : List Event) : Prop :=
  ∃ before event, before ++ [event] <+: done ∧
    (run cfg random before).conn.active = true ∧
    (run cfg random (before ++ [event])).conn.active = false ∧
    (InboundEndedFirst cfg random before ∨
      10 * cfg.rtTimeout.toNat ≤ elapsed (before ++ [event]))

/-- What holds after the events `done` of a run without resets. -/
structure Orderly (cfg : TCPConfig) (random : UInt32) (done : List Event)
    (e : Endpoint) : Prop where
  run_eq : run cfg random done = e
  cfg_eq : e.conn.cfg = cfg
  inbound : e.inbound.Valid cfg.recvCapacity
  steady : e.conn.Steady
  finSent : e.conn.FinSent e.wire
  time : e.conn.lingerTime ≤ elapsed done
  linger : e.conn.lingerAfterStreamsFinish = false →
    InboundEndedFirst cfg random done
  closed : e.conn.active = false →
    e.conn.Finished ∧ ClosedInOrder cfg random done

theorem orderly_new (cfg : TCPConfig) (random : UInt32) :
    Orderly cfg random [] (new cfg random) where
  run_eq := rfl
  cfg_eq := rfl
  inbound := TCPReceiver.Session.valid_new cfg.recvCapacity
  steady := TCPConnection.steady_new cfg random
  finSent := nofun
  time := le_rfl
  linger := nofun
  closed := nofun

theorem cfg_step (e : Endpoint) {event : Event} (hreset : e.NoReset event) :
    (e.step event).conn.cfg = e.conn.cfg := by
  cases event with
  | receive seg =>
      have hflags := e.conn.flags_segmentReceived hreset
      simp only [TCPConnection.flags, Prod.mk.injEq] at hflags
      exact hflags.1
  | act op =>
      rcases flags_act hreset with hflags | ⟨ms, rfl, hflags⟩
      all_goals
        simp only [TCPConnection.flags, Prod.mk.injEq] at hflags
        exact hflags.1

theorem Orderly.step {cfg : TCPConfig} {random : UInt32}
    {done : List Event} {e : Endpoint} (h : Orderly cfg random done e)
    {event : Event} (hreset : e.NoReset event)
    (hblocked : e.NotBlocked event) :
    Orderly cfg random (done ++ [event]) (e.step event) := by
  have hrun : run cfg random (done ++ [event]) = e.step event := by
    rw [run, List.foldl_append, ← h.run_eq]
    rfl
  have htime := lingerTime_le_step hreset h.time
  have hprefix := List.prefix_append done [event]
  refine ⟨hrun, (e.cfg_step hreset).trans h.cfg_eq,
    inbound_valid_step h.inbound event, steady_step h.steady hblocked,
    finSent_step h.finSent hreset, htime, ?_, ?_⟩
  · intro hlinger
    rcases linger_step h.steady hreset hblocked hlinger with hold | hnow
    · obtain ⟨earlier, hearlier, hends⟩ := h.linger hold
      exact ⟨earlier, hearlier.trans hprefix, hends⟩
    · refine ⟨done ++ [event], List.prefix_refl _, ?_⟩
      rw [hrun]
      exact hnow
  · intro hclosed
    cases hactive : e.conn.active with
    | false =>
        obtain ⟨hfinished, before, event', hbefore, horder⟩ :=
          h.closed hactive
        exact ⟨finished_step h.inbound hfinished event, before, event',
          hbefore.trans hprefix, horder⟩
    | true =>
        obtain ⟨hfinished, hreason⟩ :=
          closed_step h.steady hreset hblocked hactive hclosed
        refine ⟨hfinished, done, event, List.prefix_refl _, ?_, ?_, ?_⟩
        · rw [h.run_eq]
          exact hactive
        · rw [hrun]
          exact hclosed
        · rcases hreason with hlinger | hlong
          · exact Or.inl (h.linger hlinger)
          · right
            rw [h.cfg_eq] at hlong
            omega

/-- **Clean shutdown only after everything was sent and acknowledged.**  In a
run without resets in which no acknowledgment closes the window of an active
connection while nothing is in flight: when the connection has become inactive,
the inbound stream has ended, the outbound stream was ended, a segment with the
FIN was emitted and nothing is in flight; and at the step that closed it the
inbound stream had been at its end before the outbound one, or ten times the
retransmission timeout had passed since the last received segment. -/
theorem clean_shutdown_of_not_blocked (cfg : TCPConfig) (random : UInt32)
    {events : List Event}
    (hreset : EveryStep step (new cfg random) events NoReset)
    (hblocked : EveryStep step (new cfg random) events NotBlocked)
    (hinactive : (run cfg random events).conn.active = false) :
    let e := run cfg random events
    e.conn.inboundStream.inputEnded = true ∧
      e.conn.sender.stream.inputEnded = true ∧
      (∃ seg ∈ e.emitted, seg.header.fin = true) ∧
      e.conn.bytesInFlight = 0 ∧
      ClosedInOrder cfg random events := by
  intro e
  have horderly : Orderly cfg random events e :=
    (hreset.and hblocked).history
      (fun _ _ _ h hguard => h.step hguard.1 hguard.2)
      (orderly_new cfg random)
  obtain ⟨hfinished, horder⟩ := horderly.closed hinactive
  exact ⟨hfinished.inbound, hfinished.sender.ended,
    horderly.finSent hfinished.sender.fin, hfinished.sender.idle, horder⟩

/-- An active close: the FIN is sent and acknowledged, the other end's FIN
arrives, and the connection lingers for ten seconds. -/
theorem clean_shutdown_active_close :
    let synAck : TCPSegment :=
      { header := { syn := true, ack := true, ackno := ⟨1⟩, win := 4 } }
    let fin : TCPSegment :=
      { header :=
          { seqno := ⟨1⟩, fin := true, ack := true, ackno := ⟨2⟩, win := 4 } }
    let events : List Event := [.act .connect, .receive synAck,
      .act .endInputStream, .receive fin, .act (.tick 10000)]
    (run smallConfig 0 events).conn.active = false ∧
      ∃ seg ∈ (run smallConfig 0 events).emitted, seg.header.fin = true := by
  intro synAck fin events
  have hinactive : (run smallConfig 0 events).conn.active = false := by
    decide +kernel
  obtain ⟨-, -, hfin, -⟩ := clean_shutdown_of_not_blocked smallConfig 0
    (by decide +kernel) (by decide +kernel) hinactive
  exact ⟨hinactive, hfin⟩

/-- The other end's FIN, which carries an old acknowledgment, arrives after the
acknowledgment of the byte that was sent.  The window is closed, so that
`end_input_stream` does not send the FIN, and the next tick closes the
connection without one. -/
theorem clean_shutdown_fails_reordered :
    let synAck : TCPSegment :=
      { header := { syn := true, ack := true, ackno := ⟨1⟩, win := 1 } }
    let ack : TCPSegment :=
      { header := { seqno := ⟨2⟩, ack := true, ackno := ⟨2⟩, win := 1 } }
    let fin : TCPSegment :=
      { header :=
          { seqno := ⟨1⟩, fin := true, ack := true, ackno := ⟨1⟩, win := 1 } }
    let events : List Event := [.act .connect, .receive synAck,
      .act (.write [1]), .receive ack, .receive fin, .act .endInputStream,
      .act (.tick 0)]
    let e := run smallConfig 0 events
    EveryStep step (new smallConfig 0) events NoReset ∧
      e.conn.active = false ∧ ¬∃ seg ∈ e.emitted, seg.header.fin = true := by
  decide +kernel

end Endpoint
end Sponge
