import Sponge.Network.Batch

/-!
# A batch for a sender that is about to end

What a batch does to the sender of the end that receives it: the acknowledgments
in it clear the count of retransmissions and, if no bytes are outstanding, remove
all that they cover, in whatever order they come.
-/

namespace Sponge

open Support

theorem WrappingInt32.sub_one_ne (a : WrappingInt32) : a.sub 1 ≠ a := by
  intro h
  have hraw := congrArg (fun x => x.rawValue.toNat) h
  simp only [sub, UInt32.toNat_sub] at hraw
  have hlt := a.rawValue.toNat_lt
  change (2 ^ 32 - 1 + a.rawValue.toNat) % 2 ^ 32 = _ at hraw
  omega

namespace TCPSender

/-! ## Senders -/

/-- A sender that has filled its window has nothing to add. -/
theorem Settled.fillWindow_eq {s : TCPSender} (h : s.Settled)
    (hopened : 0 < s.nextSeqno) : s.fillWindow = s := by
  refine fillLoop_of_not_canSend ?_ _
  rintro ⟨hfin, hlt, hsome⟩
  rcases h with hsent | ⟨-, hfull⟩ | ⟨hsz, hopen⟩
  · rw [hfin] at hsent
    cases hsent
  · omega
  · rcases hsome with hbuffer | hzero | heof
    · simp [ByteStream.bufferEmpty, hsz] at hbuffer
    · omega
    · rw [(ByteStream.eof_iff.mp heof).1] at hopen
      cases hopen

/-- A sender without bytes, of which the SYN was sent. -/
structure Ending (s : TCPSender) : Prop where
  single : s.Single
  opened : 0 < s.nextSeqno
  empty : s.stream.sz = 0

theorem Ending.emits {s s' : TCPSender} {endSeqno : ℕ} {seg : SentSegment}
    (h : s.Ending) (hemits : Emits endSeqno s seg s') : s'.Ending := by
  have hbytes := congrArg List.length hemits.payload
  rw [List.length_append, ByteStream.length_contents,
    ByteStream.length_contents, h.empty] at hbytes
  have hlen : seg.lengthInSequenceSpace = seg.payload.length +
      (decide (s.nextSeqno = 0)).toNat + s'.finSended.toNat := by
    rw [TCPSegment.lengthInSequenceSpace_eq, hemits.header]
  have hopened := h.opened
  rw [decide_eq_false (by omega), Bool.toNat_false] at hlen
  have hfin := Bool.toNat_le s'.finSended
  have hnext := hemits.nextSeqno
  refine ⟨?_, by omega, by omega⟩
  intro entry hentry
  rw [hemits.outstandings, List.mem_append, List.mem_singleton] at hentry
  rcases hentry with hold | rfl
  · exact h.single entry hold
  · dsimp only
    omega

theorem Ending.fillWindow {s : TCPSender} (h : s.Ending) :
    s.fillWindow.Ending := by
  obtain ⟨segs, hfills, -⟩ := s.fillWindow_spec
  exact hfills.invariant (fun _ _ _ _ hs hemits => hs.emits hemits) h

theorem Ending.ackReceived {s : TCPSender} (h : s.Ending) (hvalid : s.Valid)
    (ackno : WrappingInt32) (win : UInt16) :
    (s.ackReceived ackno win).Ending := by
  obtain ⟨hnext, hstream, -⟩ := s.ackReceived_unchanged ackno win
  refine ⟨?_, hnext ▸ h.opened, hstream ▸ h.empty⟩
  intro entry hentry
  exact h.single entry
    ((hvalid.outstandings_ackReceived ackno win).subset hentry)

/-- The acknowledgment that removes the SYN from the queue was accepted. -/
def Begun (s : TCPSender) : Prop :=
  s.Valid ∧ (s.queueStart = 0 ∨ 0 < s.ackno)

theorem Begun.fillWindow {s : TCPSender} (h : s.Begun) :
    s.fillWindow.Begun := by
  obtain ⟨segs, hfills, -⟩ := s.fillWindow_spec
  obtain ⟨hvalid, hstart⟩ := h.1.fills hfills
  refine ⟨hvalid, ?_⟩
  rw [hstart, hfills.unchanged.1]
  exact h.2

/-- The next expiry of the timer is the first one or will not come. -/
def Unhurried (s : TCPSender) : Prop :=
  s.consecutiveRetransmissions = 0 ∨
    (s.consecutiveRetransmissions ≤ 1 ∧ s.bytesInFlight = 0)

theorem Unhurried.tick {s : TCPSender} (h : s.Unhurried) (hvalid : s.Valid)
    (ms : ℕ) : (s.tick ms).consecutiveRetransmissions ≤ 1 := by
  have hcounters := (s.timer.tickHandle_counters ms s.windowSize
    s.segmentsOut).2
  change (s.timer.tickHandle ms s.windowSize
    s.segmentsOut).1.consecutiveRetransmissions ≤ 1
  unfold Unhurried consecutiveRetransmissions at h
  split at hcounters
  · rename_i hexpires
    have hflight := hvalid.running_iff.mp hexpires.1.1
    omega
  · omega

theorem count_ackReceived {s : TCPSender} (hvalid : s.Valid)
    {ackno : WrappingInt32} {m : ℕ}
    (htmp : unwrap ackno s.isn s.nextSeqno = m) (hle : m ≤ s.nextSeqno)
    (win : UInt16) :
    (s.ackReceived ackno win).consecutiveRetransmissions = 0 := by
  rw [ackReceived_of_le htmp hle]
  exact (Timer.ackHandle_counters _ _ hvalid.chain).2.1

/-- Nothing but a tick counts retransmissions. -/
theorem count_ackReceived_of_zero {s : TCPSender} (hvalid : s.Valid)
    (h : s.consecutiveRetransmissions = 0) (ackno : WrappingInt32)
    (win : UInt16) :
    (s.ackReceived ackno win).consecutiveRetransmissions = 0 := by
  obtain ⟨m, htmp⟩ : ∃ m, unwrap ackno s.isn s.nextSeqno = m := ⟨_, rfl⟩
  rcases Nat.lt_or_ge s.nextSeqno m with hlt | hle
  · rw [ackReceived_of_lt htmp hlt]
    exact h
  · exact count_ackReceived hvalid htmp hle win

theorem count_fillWindow (s : TCPSender) :
    s.fillWindow.consecutiveRetransmissions =
      s.consecutiveRetransmissions :=
  (fillLoop_counters s.endSeqno _ s).1

/-- The capacity of the stream stays. -/
theorem capacity_fillLoop (endSeqno fuel : ℕ) (s : TCPSender) :
    (fillLoop endSeqno fuel s).stream.capacity = s.stream.capacity := by
  induction fuel generalizing s with
  | zero => rfl
  | succ fuel ih =>
      rw [fillLoop]
      by_cases hcan : s.CanSend endSeqno
      · rw [if_pos hcan, ih, sendSegment_eq hcan.1]
        rfl
      · rw [if_neg hcan]

theorem stable_capacity (k : ℕ) : Stable fun s => s.stream.capacity = k where
  queue := fun _ _ h => h
  fillWindow := fun s h => (capacity_fillLoop s.endSeqno _ s).trans h
  ackReceived := by
    intro s ackno win h
    rw [(s.ackReceived_unchanged ackno win).2.1]
    exact h
  tick := by
    intro s ms h
    obtain ⟨timer, again, heq, -⟩ := s.tick_spec ms
    rw [heq]
    exact h
  endInput := fun _ h => h
  setError := fun _ h => h

end TCPSender

namespace TCPConnection

/-! ## Connections that only acknowledge -/

/-- A segment without sequence numbers, after all that was sent. -/
def IsAck (m : ℕ) (seg : SentSegment) : Prop :=
  seg.lengthInSequenceSpace = 0 ∧ seg.absSeqno = m

/-- A connection that has sent its FIN and has only acknowledgments to send. -/
structure OnlyAcks (m : ℕ) (c : TCPConnection) : Prop where
  finSended : c.sender.finSended = true
  flushed : c.sender.segmentsOut = []
  next : c.sender.nextSeqno = m
  acks : ∀ seg ∈ c.segmentsOut, IsAck m seg

theorem IsAck.stamp {m : ℕ} {seg : SentSegment} (h : IsAck m seg)
    (c : TCPConnection) : IsAck m (c.stamp seg) := by
  refine ⟨(c.lengthInSequenceSpace_stamp seg).trans h.1, ?_⟩
  rw [← h.2]
  unfold TCPConnection.stamp
  split <;> rfl

theorem answering_onlyAcks (m : ℕ) : Answering (OnlyAcks m) where
  fillWindow := by
    intro c h
    have hsame : c.sender.fillWindow = c.sender :=
      TCPSender.fillWindow_of_finSended h.finSended
    refine ⟨?_, rfl, ?_, ?_⟩
    · simp only [fillWindow, updateQueue, hsame]
      exact h.finSended
    · simp only [fillWindow, updateQueue, hsame]
      exact h.next
    · simp only [fillWindow, updateQueue, hsame, h.flushed, List.map_nil,
        List.append_nil]
      exact h.acks
  sendEmptySegment := by
    intro c h
    refine ⟨h.finSended, rfl, h.next, ?_⟩
    intro seg hseg
    simp only [sendEmptySegment, updateQueue, TCPSender.sendEmptySegment,
      h.flushed, List.nil_append, List.map_cons, List.map_nil,
      List.mem_append, List.mem_singleton] at hseg
    rcases hseg with hold | rfl
    · exact h.acks seg hold
    · exact IsAck.stamp ⟨rfl, h.next⟩ _
  flags := fun _ _ _ h => ⟨h.finSended, h.flushed, h.next, h.acks⟩

theorem OnlyAcks.segmentReceived {m : ℕ} {c : TCPConnection}
    (h : c.OnlyAcks m) {seg : TCPSegment} (hrst : seg.header.rst = false) :
    (c.segmentReceived seg).OnlyAcks m := by
  refine (answering_onlyAcks m).segmentReceived hrst ?_
  obtain ⟨hnext, -, hfin, hflushed, -⟩ :=
    c.sender.ackReceived_unchanged seg.header.ackno seg.header.win
  simp only [received]
  split
  · exact ⟨hfin.trans h.finSended, hflushed.trans h.flushed,
      hnext.trans h.next, h.acks⟩
  · exact ⟨h.finSended, h.flushed, h.next, h.acks⟩

end TCPConnection

namespace Network

variable {cfg : Side → TCPConfig} {n : Network} {side : Side}
  {segs : List SentSegment}

/-! ## Batches -/

theorem Healthy.ending_deliverAll (h : Healthy cfg n)
    (hsegs : ∀ seg ∈ segs, seg ∈ (n side.other).wire)
    (hending : (n side).conn.sender.Ending) :
    (n.deliverAll side segs side).conn.sender.Ending :=
  h.sender_deliverAll hsegs (fun _ _ hs => ⟨hs.single, hs.opened, hs.empty⟩)
    (fun _ hs => hs.fillWindow)
    (fun _ ackno win hvalid hs => hs.ackReceived hvalid ackno win) hending

/-- An acknowledgment in the batch removes all that it covers. -/
theorem Healthy.le_queueStart_deliverAll (h : Healthy cfg n)
    (hsegs : ∀ seg ∈ segs, seg ∈ (n side.other).wire)
    (hending : (n side).conn.sender.Ending) {m : ℕ}
    (hm : m ≤ (n side).conn.sender.queueStart ∨
      ∃ seg ∈ segs, seg.header.ack = true ∧ seg.absAckno = m) :
    m ≤ (n.deliverAll side segs side).conn.sender.queueStart := by
  rcases hm with hle | ⟨seg, hmem, hack, hm⟩
  · exact hle.trans (h.queueStart_deliverAll_ge hsegs)
  · refine (h.sender_of_mem hsegs hmem hack (K := TCPSender.Ending)
      (I := fun s => s.Valid ∧ m ≤ s.queueStart)
      (fun _ _ hs => ⟨hs.single, hs.opened, hs.empty⟩)
      (fun _ hs => hs.fillWindow)
      (fun _ ackno win hvalid hs => hs.ackReceived hvalid ackno win)
      (fun _ _ hs => ⟨hs.1.with_streams _ _, hs.2⟩) ?_ ?_ ?_ hending).2
    · intro s hs
      obtain ⟨segs', hfills, -⟩ := s.fillWindow_spec
      obtain ⟨hvalid, hstart⟩ := hs.1.fills hfills
      exact ⟨hvalid, hs.2.trans hstart.ge⟩
    · intro s ackno win hvalid hs
      exact ⟨hvalid.ackReceived ackno win,
        hs.2.trans (hvalid.queueStart_ackReceived ackno win)⟩
    · intro s hvalid hs htmp hle
      refine ⟨hvalid.ackReceived _ _, ?_⟩
      rw [← hm]
      exact hvalid.le_queueStart hs.single htmp hle _

theorem Healthy.begun_deliverAll (h : Healthy cfg n)
    (hsegs : ∀ seg ∈ segs, seg ∈ (n side.other).wire)
    (hbegun : (n side).conn.sender.Begun) :
    (n.deliverAll side segs side).conn.sender.Begun := by
  refine (h.deliverAll_invariant hsegs
    (J := fun e => e.conn.sender.Begun) ?_ hbegun).2
  intro n' seg o h' _ harrives hn'
  refine harrives.sender (fun _ _ hs => ⟨hs.1.with_streams _ _, hs.2⟩)
    (fun _ hs => hs.fillWindow) (fun _ => hn') ?_
  intro hack
  refine ⟨hn'.1.ackReceived _ _, Or.inr ?_⟩
  rw [TCPSender.ackReceived_of_le (harrives.unwrap_ackno hack)
    (harrives.absAckno_le hack)]
  exact harrives.plain.2 hack

/-- An acknowledgment in the batch clears the count. -/
theorem Healthy.count_deliverAll (h : Healthy cfg n)
    (hsegs : ∀ seg ∈ segs, seg ∈ (n side.other).wire)
    (hzero : (n side).conn.sender.consecutiveRetransmissions = 0 ∨
      ∃ seg ∈ segs, seg.header.ack = true) :
    (n.deliverAll side segs side).conn.sender.consecutiveRetransmissions =
      0 := by
  rcases hzero with hzero | ⟨seg, hmem, hack⟩
  · exact h.sender_deliverAll hsegs
      (I := fun s => s.consecutiveRetransmissions = 0) (fun _ _ hs => hs)
      (fun s hs => s.count_fillWindow.trans hs)
      (fun _ ackno win hvalid hs =>
        TCPSender.count_ackReceived_of_zero hvalid hs ackno win) hzero
  · exact h.sender_of_mem hsegs hmem hack (K := fun _ => True)
      (I := fun s => s.consecutiveRetransmissions = 0)
      (fun _ _ hs => hs) (fun _ hs => hs) (fun _ _ _ _ hs => hs)
      (fun _ _ hs => hs) (fun s hs => s.count_fillWindow.trans hs)
      (fun _ ackno win hvalid hs =>
        TCPSender.count_ackReceived_of_zero hvalid hs ackno win)
      (fun _ hvalid _ htmp hle =>
        TCPSender.count_ackReceived hvalid htmp hle _) trivial

theorem Healthy.unhurried_deliverAll (h : Healthy cfg n)
    (hsegs : ∀ seg ∈ segs, seg ∈ (n side.other).wire)
    (hunhurried : (n side).conn.sender.Unhurried) :
    (n.deliverAll side segs side).conn.sender.Unhurried := by
  refine (h.deliverAll_invariant hsegs
    (J := fun e => e.conn.sender.Unhurried) ?_ hunhurried).2
  intro n' seg o h' _ harrives hn'
  have hfit := h'.fit side
  cases hack : seg.header.ack with
  | true =>
      left
      refine harrives.sender
        (I := fun s => s.consecutiveRetransmissions = 0) (fun _ _ hs => hs)
        (fun s hs => s.count_fillWindow.trans hs) ?_ ?_
      · intro hfalse
        rw [hack] at hfalse
        cases hfalse
      · intro _
        exact TCPSender.count_ackReceived hfit.clean.valid
          (harrives.unwrap_ackno hack) (harrives.absAckno_le hack) _
  | false =>
      -- the window is filled, so that nothing is sent
      refine (harrives.sender (I := fun s =>
        s.Settled ∧ 0 < s.nextSeqno ∧ s.Unhurried) (fun _ _ hs => hs) ?_
        (fun _ => ⟨hfit.settled, hfit.clean.opened, hn'⟩) ?_).2.2
      · intro s hs
        rw [hs.1.fillWindow_eq hs.2.1]
        exact hs
      · intro htrue
        rw [hack] at htrue
        cases htrue

theorem Healthy.inputEnded_deliverAll (h : Healthy cfg n)
    (hsegs : ∀ seg ∈ segs, seg ∈ (n side.other).wire) :
    (n.deliverAll side segs side).conn.sender.stream.inputEnded =
      (n side).conn.sender.stream.inputEnded := by
  refine h.sender_deliverAll hsegs (I := fun s => s.stream.inputEnded =
    (n side).conn.sender.stream.inputEnded) (fun _ _ hs => hs) ?_ ?_ rfl
  · intro s hs
    obtain ⟨segs', hfills, -⟩ := s.fillWindow_spec
    exact hfills.unchanged.2.2.trans hs
  · intro s ackno win _ hs
    rw [(s.ackReceived_unchanged ackno win).2.1]
    exact hs

/-- A connection with only acknowledgments to send stays one. -/
theorem Healthy.onlyAcks_deliverAll (h : Healthy cfg n)
    (hsegs : ∀ seg ∈ segs, seg ∈ (n side.other).wire) {m : ℕ}
    (hacks : (n side).conn.OnlyAcks m) :
    (n.deliverAll side segs side).conn.OnlyAcks m :=
  (h.deliverAll_invariant hsegs (J := fun e => e.conn.OnlyAcks m)
    (fun _ _ _ _ _ harrives hn' => hn'.segmentReceived harrives.plain.1)
    hacks).2

/-- The acknowledgment of everything is not answered. -/
theorem Arrives.answer_eq_nil {seg : SentSegment} {o : Side → Outgoing}
    (h : Arrives cfg n side seg o) (hfit : (n side).Fit)
    (hfin : (n side).conn.sender.finSended = true)
    (hack : TCPConnection.IsAck (n side).conn.receiver.ackno seg) :
    (n side).conn.answer seg.toTCPSegment = [] := by
  have hreceiving := (h.linked side).receiving
  have hackno := hreceiving.ackno_of_empty hfit.clean.synced hack.1
  refine (TCPConnection.answer_eq_nil_iff (fun _ => hfit.clean.opened)
    seg.toTCPSegment).mpr (Or.inr ⟨?_, fun hreplies => hreplies.1 hack.1, ?_⟩)
  · rw [TCPConnection.ackAnswer_eq_nil_iff]
    intro _ _
    obtain ⟨-, -, hfin', hflushed, -⟩ :=
      (n side).conn.sender.ackReceived_unchanged seg.header.ackno
        seg.header.win
    refine ⟨hflushed.trans hfit.clean.flushed, ?_⟩
    rintro ⟨hopen, -⟩
    rw [hfin', hfin] at hopen
    cases hopen
  · rintro ⟨-, hkeep⟩
    -- a keep-alive segment has the number before
    unfold TCPReceiver.ackno? at hkeep
    split at hkeep
    · rename_i hsyn
      rw [TCPReceiver.synArrived_segmentReceived] at hsyn
      have hisn := (hreceiving.isn_noteSyn h.legit.carries hsyn).1
      simp only [Endpoint.inbound] at hisn hackno
      rw [TCPReceiver.isn_segmentReceived, hackno, hisn,
        h.legit.carries.seqno, hack.2, Option.map_some,
        Option.some.injEq] at hkeep
      exact WrappingInt32.sub_one_ne _ hkeep
    · cases hkeep

/-- Acknowledgments of everything leave the queue empty. -/
theorem Healthy.quiet_deliverAll (h : Healthy cfg n)
    (hsegs : ∀ seg ∈ segs, seg ∈ (n side.other).wire)
    (hfin : (n side).conn.sender.finSended = true)
    (hacks : ∀ seg ∈ segs,
      TCPConnection.IsAck (n side).conn.receiver.ackno seg)
    (hnil : (n side).conn.segmentsOut = []) :
    (n.deliverAll side segs side).conn.segmentsOut = [] := by
  refine (h.deliverAll_invariant hsegs (J := fun e =>
    e.conn.segmentsOut = [] ∧ e.conn.sender.finSended = true ∧
      e.conn.receiver.ackno = (n side).conn.receiver.ackno) ?_
    ⟨hnil, hfin, rfl⟩).2.1
  intro n' seg o h' hseg harrives hn'
  have hfit := h'.fit side
  have hack := hacks seg hseg
  rw [← hn'.2.2] at hack
  have hmoves := (n' side).conn.moves_segmentReceived harrives.plain.1
  refine ⟨?_, ?_, ?_⟩
  · simp only [Endpoint.receive]
    rw [hmoves.segmentsOut, hn'.1,
      harrives.answer_eq_nil hfit hn'.2.1 hack]
    rfl
  · refine harrives.sender (I := fun s => s.finSended = true)
      (fun _ _ hs => hs) ?_ (fun _ => hn'.2.1) ?_
    · intro s hs
      rw [TCPSender.fillWindow_of_finSended hs]
      exact hs
    · intro _
      obtain ⟨-, -, hfin', -⟩ := (n' side).conn.sender.ackReceived_unchanged
        seg.header.ackno seg.header.win
      exact hfin'.trans hn'.2.1
  · simp only [Endpoint.receive]
    rw [hmoves.receiver]
    exact ((harrives.linked side).receiving.ackno_of_empty
      hfit.clean.synced hack.1).trans hn'.2.2

/-! ## The end of a stream -/

theorem Joined.inputEnded_of_ackno (h : Joined cfg n) (side : Side)
    (hfin : (n side).conn.sender.finSended = true)
    (hackno : (n side.other).conn.receiver.ackno =
      (n side).conn.sender.nextSeqno) :
    (n side.other).conn.inboundStream.inputEnded = true := by
  obtain ⟨o, hlinked⟩ := h
  have hsending := (hlinked side).sending
  have hreceiving := (hlinked side.other).receiving
  rw [Side.other_other] at hreceiving
  exact hreceiving.inputEnded_of_ackno (hsending.fin_eq.symm.trans hfin)
    (hackno.trans hsending.next_eq)

theorem Joined.finSended_of_inputEnded (h : Joined cfg n) (side : Side)
    (hended : (n side.other).conn.inboundStream.inputEnded = true) :
    (n side).conn.sender.finSended = true := by
  obtain ⟨o, hlinked⟩ := h
  have hreceiving := (hlinked side.other).receiving
  rw [Side.other_other] at hreceiving
  exact (hlinked side).sending.fin_eq.trans
    (hreceiving.fin (hreceiving.reassembles.ended.mp hended).1)

/-! ## Handing over a queue -/

/-- The queue of the other end is emptied, and `segs` are delivered. -/
def hand (n : Network) (side : Side) (segs : List SentSegment) : Network :=
  (n.transmitted side.other).deliverAll side segs

theorem hand_other (side : Side) : n.hand side segs side.other =
    (n side.other).transmitAll := by
  rw [hand, deliverAll_other, transmitted_self]

theorem conn_hand : (n.hand side segs side).conn =
    segs.foldl (fun c seg => c.segmentReceived seg.toTCPSegment)
      (n side).conn := by
  rw [hand, conn_deliverAll, transmitted_other]

theorem history_hand (n : Network) (side : Side) (segs : List SentSegment) :
    (n.hand side segs side).accepted = (n side).accepted ∧
      (n.hand side segs side).consumed = (n side).consumed := by
  obtain ⟨haccepted, hconsumed, -⟩ := history_deliverAll
    (n.transmitted side.other) side segs
  rw [transmitted_other] at haccepted hconsumed
  exact ⟨haccepted, hconsumed⟩

theorem mem_wire_transmitted
    (hsegs : ∀ seg ∈ segs, seg ∈ (n side.other).conn.segmentsOut) :
    ∀ seg ∈ segs, seg ∈ (n.transmitted side.other side.other).wire := by
  intro seg hseg
  rw [transmitted_self]
  exact List.mem_append_right _ (hsegs seg hseg)

theorem Healthy.hand (h : Healthy cfg n)
    (hsegs : ∀ seg ∈ segs, seg ∈ (n side.other).conn.segmentsOut) :
    Healthy cfg (n.hand side segs) :=
  (h.transmitted side.other).deliverAll (mem_wire_transmitted hsegs)

end Network
end Sponge
