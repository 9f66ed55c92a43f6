import Sponge.TCPConnection.Replies

/-!
# What a segment leaves behind

After `segment_received` has noted what a segment brings, it only fills the
window, sends empty segments and sets flags.  So a property that survives these
has to be looked at once, in the connection that has received the segment and
not answered it yet.

While a connection is not reset, its outgoing queue holds every sequence number
that was sent since the queue was last emptied, and the last segment of the queue
acknowledges all that was received.
-/

namespace Sponge

open Support

namespace TCPSender

/-- A segment with sequence number `n`. -/
def Holds (segs : List SentSegment) (n : ℕ) : Prop :=
  ∃ seg ∈ segs, seg.absSeqno ≤ n ∧
    n < seg.absSeqno + seg.lengthInSequenceSpace

theorem Holds.append {segs segs' : List SentSegment} {n : ℕ}
    (h : Holds segs n) : Holds (segs ++ segs') n := by
  obtain ⟨seg, hseg, hn⟩ := h
  exact ⟨seg, List.mem_append_left _ hseg, hn⟩

/-- The segments of a call of `fill_window` take all its sequence numbers. -/
theorem Fills.holds {endSeqno : ℕ} {s s' : TCPSender}
    {segs : List SentSegment} (h : Fills endSeqno s segs s') {n : ℕ}
    (hge : s.nextSeqno ≤ n) (hlt : n < s'.nextSeqno) : Holds segs n := by
  induction h with
  | nil => omega
  | @cons s s₁ s' seg segs _ hemits _ ih =>
      rcases Nat.lt_or_ge n s₁.nextSeqno with hfirst | hlater
      · have hnext := hemits.nextSeqno
        have habs := hemits.absSeqno
        exact ⟨seg, List.mem_cons_self, by omega, by omega⟩
      · obtain ⟨seg', hmem, hn⟩ := ih hlater hlt
        exact ⟨seg', List.mem_cons_of_mem _ hmem, hn⟩

theorem Fills.nextSeqno_ge {endSeqno : ℕ} {s s' : TCPSender}
    {segs : List SentSegment} (h : Fills endSeqno s segs s') :
    s.nextSeqno ≤ s'.nextSeqno := by
  induction h with
  | nil => exact le_rfl
  | cons _ hemits _ ih =>
      have hnext := hemits.nextSeqno
      omega

/-- A sender sends segments without the RST and the ACK flag. -/
def Bare (seg : SentSegment) : Prop :=
  seg.header.rst = false ∧ seg.header.ack = false

theorem Fills.bare {endSeqno : ℕ} {s s' : TCPSender}
    {segs : List SentSegment} (h : Fills endSeqno s segs s') :
    ∀ seg ∈ segs, Bare seg :=
  h.forall_mem (I := fun _ => True) (fun _ seg _ _ _ hemits =>
    ⟨trivial, by rw [Bare, hemits.header]; exact ⟨rfl, rfl⟩⟩) trivial

/-- After an acknowledgment the queue is a part of what it was. -/
theorem Valid.outstandings_ackReceived {s : TCPSender} (h : s.Valid)
    (ackno : WrappingInt32) (win : UInt16) :
    (s.ackReceived ackno win).timer.outstandings <:+
      s.timer.outstandings := by
  rcases h.ackReceived_cases ackno win rfl with
    ⟨-, heq⟩ | ⟨-, timer, flight, heq, -, hsuffix, -⟩
  · rw [heq]
  · rw [heq]
    exact hsuffix

end TCPSender

namespace TCPConnection

/-! ## The connection before it answers -/

/-- The connection that has noted what a segment brings and has not sent
anything. -/
def received (c : TCPConnection) (seg : TCPSegment) : TCPConnection :=
  { c with
    lingerTime := 0
    receiver := c.receiver.segmentReceived seg
    sender :=
      if seg.header.ack then
        c.sender.ackReceived seg.header.ackno seg.header.win
      else c.sender }

theorem afterAck_of_ack (c : TCPConnection) {seg : TCPSegment}
    (hack : seg.header.ack = true) :
    c.afterAck seg = (c.received seg).fillOpened := by
  simp only [afterAck, received, hack, if_true]
  rw [ackReceived]

theorem afterAck_of_not_ack (c : TCPConnection) {seg : TCPSegment}
    (hack : seg.header.ack = false) : c.afterAck seg = c.received seg := by
  simp only [afterAck, received, hack, Bool.false_eq_true, if_false]

/-- A property of connections that sending and the flags do not disturb. -/
structure Answering (P : TCPConnection → Prop) : Prop where
  fillWindow : ∀ c, P c → P c.fillWindow
  sendEmptySegment : ∀ c, P c → P c.sendEmptySegment
  flags : ∀ (c : TCPConnection) (linger active : Bool), P c →
    P { c with lingerAfterStreamsFinish := linger, active := active }

section Answering

variable {P : TCPConnection → Prop} (hP : Answering P)

include hP

theorem Answering.tryCleanClosed {c : TCPConnection} (h : P c) :
    P c.tryCleanClosed := by
  rw [tryCleanClosed_eq]
  exact hP.flags c c.lingerAfterStreamsFinish _ h

theorem Answering.replied {c : TCPConnection} {seg : TCPSegment}
    (hrst : seg.header.rst = false) (h : P (c.afterAck seg)) :
    P (c.segmentReceived seg) := by
  have hclosed : P (c.afterAck seg).noteFirstEnd.tryCleanClosed := by
    refine hP.tryCleanClosed ?_
    rw [noteFirstEnd_eq]
    exact hP.flags (c.afterAck seg) _ (c.afterAck seg).active h
  have hreply : P ((c.afterAck seg).noteFirstEnd.tryCleanClosed.reply seg) := by
    unfold reply
    split
    · split
      · exact hP.fillWindow _ hclosed
      · exact hP.sendEmptySegment _ hclosed
    · exact hclosed
  rw [segmentReceived_eq c hrst, replyKeepAlive]
  split
  · exact hP.sendEmptySegment _ hreply
  · exact hreply

/-- The rule for `segment_received`. -/
theorem Answering.segmentReceived {c : TCPConnection} {seg : TCPSegment}
    (hrst : seg.header.rst = false) (h : P (c.received seg)) :
    P (c.segmentReceived seg) := by
  refine hP.replied hrst ?_
  cases hack : seg.header.ack with
  | false =>
      rw [c.afterAck_of_not_ack hack]
      exact h
  | true =>
      rw [c.afterAck_of_ack hack]
      unfold fillOpened
      split
      · exact hP.fillWindow _ h
      · exact h

end Answering

/-- A property of the sender that `fill_window` keeps, and that does not look at
the queue. -/
theorem answering_sender {I : TCPSender → Prop}
    (hqueue : ∀ s q, I s → I { s with segmentsOut := q })
    (hfill : ∀ s, I s → I s.fillWindow) :
    Answering fun c => I c.sender where
  fillWindow := fun c h => hqueue _ [] (hfill c.sender h)
  sendEmptySegment := fun c h => hqueue c.sender [] h
  flags := fun _ _ _ h => h

/-! ## The window is filled -/

/-- Once the SYN was sent, the window is filled after every segment. -/
theorem settled_segmentReceived {c : TCPConnection} {seg : TCPSegment}
    (hrst : seg.header.rst = false) (hopened : 0 < c.sender.nextSeqno)
    (h : c.sender.Settled) : (c.segmentReceived seg).sender.Settled := by
  have hanswering : Answering fun c => c.sender.Settled :=
    answering_sender (fun _ _ h => h) fun s _ => s.settled_fillWindow
  refine hanswering.replied hrst ?_
  cases hack : seg.header.ack with
  | false =>
      rw [c.afterAck_of_not_ack hack]
      simp only [received, hack, Bool.false_eq_true, if_false]
      exact h
  | true =>
      have hnext : (c.received seg).sender.nextSeqno ≠ 0 := by
        simp only [received, hack, if_true,
          (c.sender.ackReceived_unchanged seg.header.ackno seg.header.win).1]
        omega
      rw [c.afterAck_of_ack hack, fillOpened, if_pos hnext]
      exact (c.received seg).sender.settled_fillWindow

/-! ## Nothing is out of order -/

/-- A segment as a connection that is not reset puts it on the wire: without the
RST flag, and with a number that acknowledges something, if with any. -/
def Plain (seg : SentSegment) : Prop :=
  seg.header.rst = false ∧ (seg.header.ack = true → 0 < seg.absAckno)

/-- The SYN was sent; nothing waits in the queue of the sender; the outstanding
segments are bare; what was received is acknowledged; and the segments on the
outgoing queue are plain. -/
structure Clean (c : TCPConnection) : Prop where
  valid : c.sender.Valid
  opened : 0 < c.sender.nextSeqno
  flushed : c.sender.segmentsOut = []
  outstanding : ∀ entry ∈ c.sender.timer.outstandings,
    TCPSender.Bare entry.1
  synced : c.receiver.synArrived = true → 0 < c.receiver.ackno
  plain : ∀ seg ∈ c.segmentsOut, Plain seg

theorem Clean.plain_stamp {c : TCPConnection} (h : c.Clean)
    {seg : SentSegment} (hseg : TCPSender.Bare seg) : Plain (c.stamp seg) := by
  unfold stamp
  cases hackno : c.receiver.ackno? with
  | none =>
      refine ⟨hseg.1, ?_⟩
      intro hack
      rw [hseg.2] at hack
      cases hack
  | some ackno =>
      refine ⟨hseg.1, fun _ => h.synced ?_⟩
      unfold TCPReceiver.ackno? at hackno
      split at hackno
      · rename_i hsyn
        exact hsyn
      · cases hackno

theorem Clean.moves {c c' : TCPConnection} {raw : List SentSegment}
    (h : c.Clean) (hmoves : Moves c raw c')
    (hraw : ∀ seg ∈ raw, TCPSender.Bare seg) :
    ∀ seg ∈ c'.segmentsOut, Plain seg := by
  intro seg hseg
  rw [hmoves.segmentsOut, List.mem_append] at hseg
  rcases hseg with hold | hnew
  · exact h.plain seg hold
  · obtain ⟨bare, hbare, rfl⟩ := List.mem_map.mp hnew
    exact h.plain_stamp (hraw bare hbare)

theorem Clean.fillWindow {c : TCPConnection} (h : c.Clean) :
    c.fillWindow.Clean := by
  obtain ⟨segs, hfills, -⟩ := c.sender.fillWindow_spec
  refine ⟨stable_fillWindow TCPSender.stable_valid h.valid,
    h.opened.trans_le hfills.nextSeqno_ge, rfl, ?_, h.synced, ?_⟩
  · intro entry hentry
    have hmem : entry.1 ∈ c.sender.fillWindow.timer.outstandings.map Prod.fst :=
      List.mem_map_of_mem hentry
    rw [hfills.outstandings, List.mem_append] at hmem
    rcases hmem with hold | hnew
    · obtain ⟨old, hmem, heq⟩ := List.mem_map.mp hold
      rw [← heq]
      exact h.outstanding old hmem
    · exact hfills.bare _ hnew
  · refine h.moves c.moves_fillWindow ?_
    rw [hfills.segmentsOut, h.flushed, List.nil_append]
    exact hfills.bare

theorem Clean.sendEmptySegment {c : TCPConnection} (h : c.Clean) :
    c.sendEmptySegment.Clean := by
  refine ⟨stable_sendEmptySegment TCPSender.stable_valid h.valid, h.opened,
    rfl, h.outstanding, h.synced, ?_⟩
  refine h.moves c.moves_sendEmptySegment ?_
  intro seg hseg
  rw [TCPSender.sendEmptySegment, h.flushed, List.nil_append,
    List.mem_singleton] at hseg
  rw [hseg]
  exact ⟨rfl, rfl⟩

theorem answering_clean : Answering Clean where
  fillWindow := fun _ h => h.fillWindow
  sendEmptySegment := fun _ h => h.sendEmptySegment
  flags := fun _ _ _ h =>
    ⟨h.valid, h.opened, h.flushed, h.outstanding, h.synced, h.plain⟩

theorem Clean.segmentReceived {c : TCPConnection} (h : c.Clean)
    {seg : TCPSegment} (hrst : seg.header.rst = false)
    (hsynced : (c.receiver.segmentReceived seg).synArrived = true →
      0 < (c.receiver.segmentReceived seg).ackno) :
    (c.segmentReceived seg).Clean := by
  refine answering_clean.segmentReceived hrst ?_
  have hsender : (c.received seg).sender.Valid ∧
      0 < (c.received seg).sender.nextSeqno ∧
      (c.received seg).sender.segmentsOut = [] ∧
      (c.received seg).sender.timer.outstandings <:+
        c.sender.timer.outstandings := by
    obtain ⟨hnext, -, -, hqueue, -⟩ :=
      c.sender.ackReceived_unchanged seg.header.ackno seg.header.win
    simp only [received]
    split
    · exact ⟨h.valid.ackReceived _ _, hnext ▸ h.opened,
        hqueue.trans h.flushed, h.valid.outstandings_ackReceived _ _⟩
    · exact ⟨h.valid, h.opened, h.flushed, List.suffix_refl _⟩
  obtain ⟨hvalid, hopened, hflushed, hsuffix⟩ := hsender
  exact ⟨hvalid, hopened, hflushed,
    fun entry hentry => h.outstanding entry (hsuffix.subset hentry),
    hsynced, h.plain⟩

/-! ## What the queue holds -/

/-- Every sequence number from `lo` on that was sent is on the queue. -/
def Queues (lo : ℕ) (c : TCPConnection) : Prop :=
  ∀ n, lo ≤ n → n < c.sender.nextSeqno → TCPSender.Holds c.segmentsOut n

theorem holds_stamp {c : TCPConnection} {segs : List SentSegment} {n : ℕ}
    (h : TCPSender.Holds segs n) : TCPSender.Holds (segs.map c.stamp) n := by
  obtain ⟨seg, hseg, hn⟩ := h
  have habs : (c.stamp seg).absSeqno = seg.absSeqno := by
    unfold stamp
    split <;> rfl
  refine ⟨c.stamp seg, List.mem_map_of_mem hseg, ?_⟩
  rw [habs, lengthInSequenceSpace_stamp]
  exact hn

theorem Queues.fillWindow {lo : ℕ} {c : TCPConnection} (h : c.Queues lo) :
    c.fillWindow.Queues lo := by
  obtain ⟨segs, hfills, -⟩ := c.sender.fillWindow_spec
  intro n hlo hn
  rw [(c.moves_fillWindow).segmentsOut, hfills.segmentsOut, List.map_append]
  rcases Nat.lt_or_ge n c.sender.nextSeqno with hold | hnew
  · exact (h n hlo hold).append
  · obtain ⟨seg, hseg, hbounds⟩ := holds_stamp (c := c) (hfills.holds hnew hn)
    exact ⟨seg, List.mem_append_right _ (List.mem_append_right _ hseg),
      hbounds⟩

theorem Queues.moves {lo : ℕ} {c c' : TCPConnection}
    {raw : List SentSegment} (h : c.Queues lo) (hmoves : Moves c raw c')
    (hnext : c'.sender.nextSeqno = c.sender.nextSeqno) : c'.Queues lo := by
  intro n hlo hn
  rw [hmoves.segmentsOut]
  exact (h n hlo (hnext ▸ hn)).append

theorem answering_queues (lo : ℕ) : Answering (Queues lo) where
  fillWindow := fun _ h => h.fillWindow
  sendEmptySegment := fun c h => h.moves c.moves_sendEmptySegment rfl
  flags := fun _ _ _ h => h

theorem nextSeqno_received (c : TCPConnection) (seg : TCPSegment) :
    (c.received seg).sender.nextSeqno = c.sender.nextSeqno := by
  simp only [received]
  split
  · exact (c.sender.ackReceived_unchanged _ _).1
  · rfl

theorem Queues.segmentReceived {lo : ℕ} {c : TCPConnection}
    (h : c.Queues lo) {seg : TCPSegment} (hrst : seg.header.rst = false) :
    (c.segmentReceived seg).Queues lo := by
  refine (answering_queues lo).segmentReceived hrst ?_
  intro n hlo hn
  rw [nextSeqno_received] at hn
  exact h n hlo hn

/-! ## What the queue acknowledges -/

/-- The last segment of the queue acknowledges all that was received. -/
def UpToDate (c : TCPConnection) : Prop :=
  c.receiver.synArrived = true → ∀ seg ∈ c.segmentsOut.getLast?,
    seg.header.ack = true ∧ seg.absAckno = c.receiver.ackno

theorem ack_of_stamp {c : TCPConnection}
    (hsyn : c.receiver.synArrived = true) (seg : SentSegment) :
    (c.stamp seg).header.ack = true ∧
      (c.stamp seg).absAckno = c.receiver.ackno := by
  simp [stamp, TCPReceiver.ackno?, hsyn]

theorem UpToDate.moves {c c' : TCPConnection} {raw : List SentSegment}
    (h : c.UpToDate) (hmoves : Moves c raw c') : c'.UpToDate := by
  intro hsyn seg hseg
  rw [hmoves.receiver] at hsyn ⊢
  rw [hmoves.segmentsOut, List.getLast?_append] at hseg
  cases hlast : raw.getLast? with
  | none =>
      rw [List.getLast?_map, hlast] at hseg
      exact h hsyn seg hseg
  | some last =>
      rw [List.getLast?_map, hlast] at hseg
      obtain rfl : c.stamp last = seg := Option.some.inj hseg
      exact ack_of_stamp hsyn last

/-- A segment that occupies sequence numbers is answered, and one that does not
changes nothing that could be acknowledged. -/
theorem UpToDate.segmentReceived {c : TCPConnection} (h : c.UpToDate)
    (hfin : c.sender.FinAfterSyn) {seg : TCPSegment}
    (hrst : seg.header.rst = false)
    (hempty : seg.lengthInSequenceSpace = 0 →
      (c.receiver.segmentReceived seg).ackno = c.receiver.ackno) :
    (c.segmentReceived seg).UpToDate := by
  have hmoves := c.moves_segmentReceived hrst
  cases hanswer : c.answer seg with
  | cons first rest =>
      intro hsyn last hlast
      rw [hmoves.receiver] at hsyn ⊢
      rw [hmoves.segmentsOut, hanswer, List.getLast?_append] at hlast
      cases hraw : (first :: rest).getLast? with
      | none => simp at hraw
      | some raw =>
          rw [List.getLast?_map, hraw] at hlast
          obtain rfl := Option.some.inj hlast
          exact ack_of_stamp hsyn raw
  | nil =>
      intro hsyn last hlast
      rw [hmoves.segmentsOut, hanswer, List.map_nil, List.append_nil] at hlast
      rw [hmoves.receiver] at hsyn ⊢
      rcases (answer_eq_nil_iff hfin seg).mp hanswer with
        htrue | ⟨-, hsilent, -⟩
      · rw [hrst] at htrue
        cases htrue
      · have hlength : seg.lengthInSequenceSpace = 0 := by
          by_contra hpos
          exact hsilent ⟨hpos, by rw [TCPReceiver.ackno?, if_pos hsyn]; rfl⟩
        have hnosyn : seg.header.syn = false := by
          by_contra htrue
          rw [TCPSegment.lengthInSequenceSpace_eq,
            Bool.eq_true_of_not_eq_false htrue, Bool.toNat_true] at hlength
          omega
        rw [TCPReceiver.synArrived_segmentReceived, TCPReceiver.noteSyn,
          if_neg (by simp [hnosyn])] at hsyn
        rw [hempty hlength]
        exact h hsyn last hlast

end TCPConnection
end Sponge
