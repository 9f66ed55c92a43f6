import Sponge.Network.Healthy

/-!
# A batch of segments

All that an end has on its outgoing queue is delivered to the other end, in some
order.  If the queue holds every sequence number that was not acknowledged, then
all that was sent is acknowledged afterwards; and the last acknowledgment of a
batch that is delivered in order is the one the sender goes on with.
-/

namespace Sponge

open Support

namespace TCPSender

/-! ## What acknowledgments do to the queue -/

/-- The queue of outstanding segments does not start earlier than before. -/
theorem Valid.queueStart_ackReceived {s : TCPSender} (h : s.Valid)
    (ackno : WrappingInt32) (win : UInt16) :
    s.queueStart ≤ (s.ackReceived ackno win).queueStart := by
  rcases h.ackReceived_cases ackno win rfl with
    ⟨-, heq⟩ | ⟨-, timer, flight, heq, -, -, hflight, -⟩
  · rw [heq]
  · rw [heq]
    simp only [queueStart]
    omega

/-- What is left in the queue ends after an accepted number. -/
theorem Valid.uncovered_ackReceived {s : TCPSender} (h : s.Valid)
    {ackno : WrappingInt32} {m : ℕ}
    (htmp : unwrap ackno s.isn s.nextSeqno = m) (hle : m ≤ s.nextSeqno)
    (win : UInt16) :
    Timer.Uncovered (s.ackReceived ackno win).timer.outstandings m := by
  rw [ackReceived_of_le htmp hle]
  exact s.timer.ackHandle_uncovered m h.chain

/-- All outstanding segments have a single sequence number. -/
def Single (s : TCPSender) : Prop :=
  ∀ entry ∈ s.timer.outstandings, entry.1.lengthInSequenceSpace ≤ 1

/-- With single sequence numbers outstanding, an accepted number removes all
before it. -/
theorem Valid.le_queueStart {s : TCPSender} (h : s.Valid) (hsingle : s.Single)
    {ackno : WrappingInt32} {m : ℕ}
    (htmp : unwrap ackno s.isn s.nextSeqno = m) (hle : m ≤ s.nextSeqno)
    (win : UInt16) : m ≤ (s.ackReceived ackno win).queueStart := by
  have hvalid := h.ackReceived ackno win
  have huncovered := h.uncovered_ackReceived htmp hle win
  have hsuffix := h.outstandings_ackReceived ackno win
  have hnext := (s.ackReceived_unchanged ackno win).1
  have hchain := hvalid.chain
  cases hqueue : (s.ackReceived ackno win).timer.outstandings with
  | nil =>
      rw [hqueue] at hchain
      have heq : (s.ackReceived ackno win).queueStart =
          (s.ackReceived ackno win).nextSeqno := hchain
      omega
  | cons entry rest =>
      obtain ⟨seg, endSeqno⟩ := entry
      rw [hqueue] at hchain huncovered hsuffix
      obtain ⟨-, -, hend, -⟩ := hchain
      have hlt := huncovered (seg, endSeqno) List.mem_cons_self
      have hlength := hsingle (seg, endSeqno)
        (hsuffix.subset List.mem_cons_self)
      dsimp only at hlt hlength
      omega

/-- When all that was sent is acknowledged, nothing is outstanding. -/
def Settles (s : TCPSender) : Prop :=
  s.Valid ∧ (s.ackno = s.nextSeqno → s.bytesInFlight = 0)

theorem stable_settles : Stable Settles where
  queue := fun _ _ h => ⟨stable_valid.queue _ _ h.1, h.2⟩
  fillWindow := by
    intro s h
    obtain ⟨segs, hfills, -⟩ := s.fillWindow_spec
    refine hfills.invariant (I := Settles) ?_ h
    intro s₁ seg s₂ _ h₁ hemits
    refine ⟨h₁.1.emits hemits, ?_⟩
    intro hackno
    have hpos := hemits.pos
    have hle := h₁.1.ackno_le
    rw [hemits.ackno, hemits.nextSeqno] at hackno
    omega
  ackReceived := by
    intro s ackno win h
    refine ⟨h.1.ackReceived ackno win, ?_⟩
    obtain ⟨tmp, htmp⟩ : ∃ tmp, unwrap ackno s.isn s.nextSeqno = tmp :=
      ⟨_, rfl⟩
    rcases Nat.lt_or_ge s.nextSeqno tmp with hlt | hle
    · rw [ackReceived_of_lt htmp hlt]
      exact h.2
    · intro hackno
      have hvalid := h.1.ackReceived ackno win
      have huncovered := h.1.uncovered_ackReceived htmp hle win
      have hflight := hvalid.inFlight_le
      have htmp' : (s.ackReceived ackno win).ackno = tmp := by
        rw [ackReceived_of_le htmp hle]
      have hnil : (s.ackReceived ackno win).timer.outstandings = [] := by
        apply List.eq_nil_iff_forall_not_mem.mpr
        intro entry hentry
        have hend := (hvalid.chain.bounds hentry).2.1
        have hlt := huncovered entry hentry
        omega
      have hstart := hvalid.chain.eq_nil_iff.mp hnil
      unfold queueStart at hstart
      omega
  tick := by
    intro s ms h
    refine ⟨h.1.tick ms, ?_⟩
    obtain ⟨timer, again, heq, -⟩ := s.tick_spec ms
    rw [heq]
    exact h.2
  endInput := fun _ h => ⟨stable_valid.endInput _ h.1, h.2⟩
  setError := fun _ h => ⟨stable_valid.setError _ h.1, h.2⟩

/-- An acknowledgment moves nothing from the unsent to the sent. -/
theorem unsent_ackReceived (s : TCPSender) (ackno : WrappingInt32)
    (win : UInt16) :
    (s.ackReceived ackno win).nextSeqno + (s.ackReceived ackno win).unsent =
      s.nextSeqno + s.unsent := by
  obtain ⟨hnext, hstream, hfin, -⟩ := s.ackReceived_unchanged ackno win
  simp only [unsent, hnext, hstream, hfin]

end TCPSender

namespace Network

variable {cfg : Side → TCPConfig} {n : Network} {side : Side}
  {seg : SentSegment} {segs : List SentSegment}

/-! ## Delivering one segment after the other -/

def deliverAll (n : Network) (side : Side) (segs : List SentSegment) :
    Network :=
  segs.foldl (fun n seg => n.deliver side seg) n

theorem deliver_self : n.deliver side seg side =
    (n side).receive seg.toTCPSegment :=
  Function.update_self ..

theorem deliver_other : n.deliver side seg side.other = n side.other :=
  Function.update_of_ne side.other_ne ..

theorem deliverAll_other :
    n.deliverAll side segs side.other = n side.other := by
  induction segs generalizing n with
  | nil => rfl
  | cons seg segs ih =>
      change (n.deliver side seg).deliverAll side segs side.other = _
      rw [ih, deliver_other]

/-- The connection that receives the batch. -/
theorem conn_deliverAll :
    (n.deliverAll side segs side).conn =
      segs.foldl (fun c seg => c.segmentReceived seg.toTCPSegment)
        (n side).conn := by
  induction segs generalizing n with
  | nil => rfl
  | cons seg segs ih =>
      change ((n.deliver side seg).deliverAll side segs side).conn = _
      rw [ih, deliver_self]
      rfl

/-- The invariant rule for a batch. -/
theorem Healthy.deliverAll_invariant (h : Healthy cfg n)
    (hsegs : ∀ seg ∈ segs, seg ∈ (n side.other).wire) {J : Endpoint → Prop}
    (hstep : ∀ n' seg o, Healthy cfg n' → seg ∈ segs →
      Arrives cfg n' side seg o → J (n' side) →
        J ((n' side).receive seg.toTCPSegment))
    (hJ : J (n side)) :
    Healthy cfg (n.deliverAll side segs) ∧
      J (n.deliverAll side segs side) := by
  induction segs generalizing n with
  | nil => exact ⟨h, hJ⟩
  | cons seg segs ih =>
      obtain ⟨o, harrives⟩ := h.arrives (hsegs seg List.mem_cons_self)
      refine ih (n := n.deliver side seg)
        (h.deliver (hsegs seg List.mem_cons_self)) ?_ ?_ ?_
      · intro seg' hseg'
        rw [deliver_other]
        exact hsegs seg' (List.mem_cons_of_mem _ hseg')
      · intro n' seg' o' h' hseg'
        exact hstep n' seg' o' h' (List.mem_cons_of_mem _ hseg')
      · rw [deliver_self]
        exact hstep n seg o h List.mem_cons_self harrives hJ

theorem Healthy.deliverAll (h : Healthy cfg n)
    (hsegs : ∀ seg ∈ segs, seg ∈ (n side.other).wire) :
    Healthy cfg (n.deliverAll side segs) :=
  (h.deliverAll_invariant hsegs (J := fun _ => True)
    (fun _ _ _ _ _ _ _ => trivial) trivial).1

/-- A batch changes nothing but the connection. -/
theorem history_deliverAll (n : Network) (side : Side)
    (segs : List SentSegment) :
    (n.deliverAll side segs side).accepted = (n side).accepted ∧
      (n.deliverAll side segs side).consumed = (n side).consumed ∧
      (n.deliverAll side segs side).wire = (n side).wire := by
  induction segs generalizing n with
  | nil => exact ⟨rfl, rfl, rfl⟩
  | cons seg segs ih =>
      have hrest := ih (n.deliver side seg)
      rw [deliver_self] at hrest
      exact hrest

/-! ## All that was sent arrives -/

/-- What has arrived stays, and what the batch holds arrives. -/
theorem Healthy.has_deliverAll (h : Healthy cfg n)
    (hsegs : ∀ seg ∈ segs, seg ∈ (n side.other).wire)
    (hedge : (n side.other).conn.sender.nextSeqno ≤
      (n side).conn.receiver.edge)
    (hsyn : (n side).conn.receiver.synArrived = true ∨
      (n side.other).conn.sender.nextSeqno ≤ 1) :
    (∀ k, (n side).inbound.Has k →
        (n.deliverAll side segs side).inbound.Has k) ∧
      ∀ k, TCPSender.Holds segs k →
        (n.deliverAll side segs side).inbound.Has k := by
  induction segs generalizing n with
  | nil =>
      refine ⟨fun _ hk => hk, ?_⟩
      rintro k ⟨seg, hseg, -⟩
      cases hseg
  | cons seg segs ih =>
      obtain ⟨o, harrives⟩ := h.arrives (hsegs seg List.mem_cons_self)
      have hreceiving := (harrives.linked side).receiving
      have hinbound : (n.deliver side seg side).inbound =
          (n side).inbound.step (.segment seg.toTCPSegment) := by
        rw [deliver_self, receiver_receive harrives.plain]
      have hreceiver := congrArg TCPReceiver.Session.receiver hinbound
      obtain ⟨hkept, hheld⟩ := ih (h.deliver (hsegs seg List.mem_cons_self))
        (by
          intro seg' hseg'
          rw [deliver_other]
          exact hsegs seg' (List.mem_cons_of_mem _ hseg'))
        (by
          rw [deliver_other]
          refine hedge.trans ((hreceiving.toValid.edge_le_step
            (.segment seg.toTCPSegment)).trans ?_)
          exact (congrArg TCPReceiver.edge hreceiver).ge)
        (by
          rw [deliver_other]
          refine hsyn.imp_left ?_
          intro harrived
          refine (congrArg TCPReceiver.synArrived hreceiver).trans ?_
          simp only [TCPReceiver.Session.step,
            TCPReceiver.synArrived_segmentReceived]
          exact TCPReceiver.Session.synArrived_noteSyn (Or.inl harrived))
      have hfirst : ∀ k, (n side).inbound.Has k →
          (n.deliver side seg side).inbound.Has k := by
        intro k hk
        rw [hinbound]
        exact hk.step_segment hreceiving harrives.legit.carries harrives.near
          harrives.legit.fits
      refine ⟨fun k hk => hkept k (hfirst k hk), ?_⟩
      rintro k ⟨seg', hseg', hge, hlt⟩
      rcases List.mem_cons.mp hseg' with rfl | hrest
      · refine hkept k ?_
        have hnext := harrives.legit.carries.le_next
        simp only [Endpoint.remote] at hnext
        rw [← (harrives.linked side.other).sending.next_eq] at hnext
        rw [hinbound]
        refine hreceiving.has_segment harrives.legit.carries harrives.near ?_
          (hnext.trans hedge) hge hlt
        -- before the SYN has arrived nothing but the SYN was sent
        refine hsyn.imp_right ?_
        intro hsmall
        exact (harrives.legit.carries.zero (by omega)).resolve_right (by omega)
      · exact hheld k ⟨seg', hrest, hge, hlt⟩

/-- **The batch brings the receiver up to the sender.**  If the receiver has
room, and each number that was sent and not acknowledged is in the batch, all
that was sent is acknowledged, whatever the order of the batch. -/
theorem Healthy.ackno_deliverAll (h : Healthy cfg n)
    (hsegs : ∀ seg ∈ segs, seg ∈ (n side.other).wire)
    (hholds : ∀ k, (n side).conn.receiver.ackno ≤ k →
      k < (n side.other).conn.sender.nextSeqno → TCPSender.Holds segs k)
    (hwindow : 0 < (n side).conn.receiver.windowSize) :
    (n.deliverAll side segs side).conn.receiver.ackno =
      (n side.other).conn.sender.nextSeqno := by
  have hallows := (h.paced side.other).next
  rw [Side.other_other] at hallows
  have hedge : (n side.other).conn.sender.nextSeqno ≤
      (n side).conn.receiver.edge := by
    unfold TCPReceiver.Allows TCPReceiver.edge at hallows
    unfold TCPReceiver.edge
    omega
  obtain ⟨o, hlinked⟩ := h.joined
  have hsyn : (n side).conn.receiver.synArrived = true ∨
      (n side.other).conn.sender.nextSeqno ≤ 1 := by
    rcases Nat.eq_zero_or_pos (n side).conn.receiver.ackno with hzero | hpos
    · right
      unfold TCPReceiver.Allows at hallows
      omega
    · exact Or.inl
        ((hlinked side).receiving.toValid.synArrived_of_ackno hpos)
  obtain ⟨hkept, hheld⟩ := h.has_deliverAll hsegs hedge hsyn
  obtain ⟨o', hlinked'⟩ := (h.deliverAll hsegs).joined
  have hnext := (hlinked' side.other).sending.next_eq
  rw [deliverAll_other] at hnext
  rw [hnext]
  refine (hlinked' side).receiving.ackno_eq_next ?_
  intro k hk
  rw [Endpoint.remote, ← hnext] at hk
  rcases Nat.lt_or_ge k (n side).conn.receiver.ackno with hacked | hopen
  · exact hkept k (Or.inl hacked)
  · exact hheld k (hholds k hopen hk)

/-! ## What a batch does to the sender of the other direction -/

/-- A property of the sender that `fill_window` keeps goes through a delivery if
it goes through the acknowledgment. -/
theorem Arrives.sender {o : Side → Outgoing} (h : Arrives cfg n side seg o)
    {I : TCPSender → Prop}
    (hqueue : ∀ s q, I s → I { s with segmentsOut := q })
    (hfill : ∀ s, I s → I s.fillWindow)
    (hplain : seg.header.ack = false → I (n side).conn.sender)
    (hack : seg.header.ack = true → I ((n side).conn.sender.ackReceived
      seg.header.ackno seg.header.win)) :
    I ((n side).receive seg.toTCPSegment).conn.sender := by
  refine (TCPConnection.answering_sender hqueue hfill).segmentReceived
    h.plain.1 ?_
  simp only [TCPConnection.received]
  split
  · rename_i hflag
    exact hack hflag
  · rename_i hflag
    exact hplain (Bool.eq_false_of_not_eq_true hflag)

/-- The same for a whole batch. -/
theorem Healthy.sender_deliverAll (h : Healthy cfg n)
    (hsegs : ∀ seg ∈ segs, seg ∈ (n side.other).wire)
    {I : TCPSender → Prop}
    (hqueue : ∀ s q, I s → I { s with segmentsOut := q })
    (hfill : ∀ s, I s → I s.fillWindow)
    (hack : ∀ s ackno win, s.Valid → I s → I (s.ackReceived ackno win))
    (hI : I (n side).conn.sender) :
    I (n.deliverAll side segs side).conn.sender := by
  refine (h.deliverAll_invariant hsegs (J := fun e => I e.conn.sender) ?_
    hI).2
  intro n' seg o h' _ harrives hn'
  exact harrives.sender hqueue hfill (fun _ => hn')
    fun _ => hack _ _ _ (h'.fit side).clean.valid hn'

/-- A batch may let unsent numbers go, and adds none. -/
theorem Healthy.unsent_deliverAll (h : Healthy cfg n)
    (hsegs : ∀ seg ∈ segs, seg ∈ (n side.other).wire) :
    let s := (n.deliverAll side segs side).conn.sender
    s.nextSeqno + s.unsent =
      (n side).conn.sender.nextSeqno + (n side).conn.sender.unsent := by
  refine h.sender_deliverAll hsegs (I := fun s => s.nextSeqno + s.unsent =
    (n side).conn.sender.nextSeqno + (n side).conn.sender.unsent)
    (fun _ _ h => h) ?_ ?_ rfl
  · intro s hs
    obtain ⟨segs', hfills, -⟩ := s.fillWindow_spec
    exact hfills.unsent.trans hs
  · intro s ackno win _ hs
    exact (s.unsent_ackReceived ackno win).trans hs

theorem Healthy.queueStart_deliverAll_ge (h : Healthy cfg n)
    (hsegs : ∀ seg ∈ segs, seg ∈ (n side.other).wire) :
    (n side).conn.sender.queueStart ≤
      (n.deliverAll side segs side).conn.sender.queueStart := by
  refine (h.sender_deliverAll hsegs
    (I := fun s => s.Valid ∧ (n side).conn.sender.queueStart ≤ s.queueStart)
    (fun _ _ h => ⟨h.1.with_streams _ _, h.2⟩) ?_ ?_
    ⟨(h.fit side).clean.valid, le_rfl⟩).2
  · intro s hs
    obtain ⟨segs', hfills, -⟩ := s.fillWindow_spec
    obtain ⟨hvalid, hstart⟩ := hs.1.fills hfills
    exact ⟨hvalid, hs.2.trans hstart.ge⟩
  · intro s ackno win hvalid hs
    exact ⟨hvalid.ackReceived ackno win,
      hs.2.trans (hvalid.queueStart_ackReceived ackno win)⟩

/-- The sender goes on with the last acknowledgment of the batch. -/
theorem Healthy.ackno_of_last (h : Healthy cfg n)
    (hsegs : ∀ seg ∈ segs, seg ∈ (n side.other).wire)
    (hlast : segs.getLast? = some seg) (hack : seg.header.ack = true) :
    let s := (n.deliverAll side segs side).conn.sender
    s.ackno = seg.absAckno ∧ s.consecutiveRetransmissions = 0 := by
  obtain ⟨front, rfl⟩ := List.getLast?_eq_some_iff.mp hlast
  have hfront : ∀ seg' ∈ front, seg' ∈ (n side.other).wire := fun seg' hseg' =>
    hsegs seg' (List.mem_append_left _ hseg')
  have hbefore := h.deliverAll hfront
  obtain ⟨o, harrives⟩ := hbefore.arrives
    (show seg ∈ (n.deliverAll side front side.other).wire by
      rw [deliverAll_other]
      exact hsegs seg
        (List.mem_append_right _ (List.mem_singleton_self seg)))
  have hsplit : n.deliverAll side (front ++ [seg]) =
      (n.deliverAll side front).deliver side seg := by
    simp [Network.deliverAll]
  rw [hsplit, deliver_self]
  refine harrives.sender (I := fun s =>
    s.ackno = seg.absAckno ∧ s.consecutiveRetransmissions = 0)
    (fun _ _ h => h) ?_ ?_ ?_
  · intro s hs
    obtain ⟨segs', hfills, -⟩ := s.fillWindow_spec
    exact ⟨hfills.unchanged.1.trans hs.1,
      (TCPSender.fillLoop_counters s.endSeqno _ s).1.trans hs.2⟩
  · intro hfalse
    rw [hack] at hfalse
    cases hfalse
  · intro _
    rw [TCPSender.ackReceived_of_le (harrives.unwrap_ackno hack)
      (harrives.absAckno_le hack)]
    exact ⟨rfl, (Timer.ackHandle_counters _ _
      (hbefore.fit side).clean.valid.chain).2.1⟩

/-- What holds after one acknowledgment of the batch, and survives the others,
holds after the batch. -/
theorem Healthy.sender_of_mem (h : Healthy cfg n)
    (hsegs : ∀ seg ∈ segs, seg ∈ (n side.other).wire) (hmem : seg ∈ segs)
    (hflag : seg.header.ack = true) {K I : TCPSender → Prop}
    (hqueueK : ∀ s q, K s → K { s with segmentsOut := q })
    (hfillK : ∀ s, K s → K s.fillWindow)
    (hackK : ∀ s ackno win, s.Valid → K s → K (s.ackReceived ackno win))
    (hqueue : ∀ s q, I s → I { s with segmentsOut := q })
    (hfill : ∀ s, I s → I s.fillWindow)
    (hack : ∀ s ackno win, s.Valid → I s → I (s.ackReceived ackno win))
    (hseg : ∀ s, s.Valid → K s →
      unwrap seg.header.ackno s.isn s.nextSeqno = seg.absAckno →
      seg.absAckno ≤ s.nextSeqno →
        I (s.ackReceived seg.header.ackno seg.header.win))
    (hK : K (n side).conn.sender) :
    I (n.deliverAll side segs side).conn.sender := by
  obtain ⟨front, rest, rfl⟩ := List.append_of_mem hmem
  have hfront : ∀ seg' ∈ front, seg' ∈ (n side.other).wire := fun seg' hseg' =>
    hsegs seg' (List.mem_append_left _ hseg')
  have hbefore := h.deliverAll hfront
  have hother : (n.deliverAll side front) side.other = n side.other :=
    deliverAll_other
  have hwire : seg ∈ ((n.deliverAll side front) side.other).wire := by
    rw [hother]
    exact hsegs seg hmem
  obtain ⟨o, harrives⟩ := hbefore.arrives hwire
  have hsplit : n.deliverAll side (front ++ seg :: rest) =
      ((n.deliverAll side front).deliver side seg).deliverAll side rest := by
    simp [Network.deliverAll]
  rw [hsplit]
  refine (hbefore.deliver hwire).sender_deliverAll ?_ hqueue hfill hack ?_
  · intro seg' hseg'
    rw [deliver_other, hother]
    exact hsegs seg' (by simp [hseg'])
  · rw [deliver_self]
    refine harrives.sender hqueue hfill ?_ ?_
    · intro hfalse
      rw [hflag] at hfalse
      cases hfalse
    · intro _
      exact hseg _ (hbefore.fit side).clean.valid
        (h.sender_deliverAll hfront hqueueK hfillK hackK hK)
        (harrives.unwrap_ackno hflag) (harrives.absAckno_le hflag)

/-! ## The queue of the end that receives -/

theorem Healthy.queues_deliverAll (h : Healthy cfg n)
    (hsegs : ∀ seg ∈ segs, seg ∈ (n side.other).wire) (lo : ℕ)
    (hqueues : (n side).conn.Queues lo) :
    (n.deliverAll side segs side).conn.Queues lo :=
  (h.deliverAll_invariant hsegs (J := fun e => e.conn.Queues lo)
    (fun _ _ _ _ _ harrives hn' => hn'.segmentReceived harrives.plain.1)
    hqueues).2

/-- An end that has nothing to send after a batch has received nothing new. -/
theorem Healthy.silent_deliverAll (h : Healthy cfg n)
    (hsegs : ∀ seg ∈ segs, seg ∈ (n side.other).wire)
    (hsilent : (n.deliverAll side segs side).conn.segmentsOut = []) :
    (n.deliverAll side segs side).conn.receiver.ackno =
      (n side).conn.receiver.ackno := by
  refine ((h.deliverAll_invariant hsegs (J := fun e =>
    e.conn.segmentsOut ≠ [] ∨
      e.conn.receiver.ackno = (n side).conn.receiver.ackno) ?_
    (Or.inr rfl)).2).resolve_left (not_not.mpr hsilent)
  intro n' seg o h' _ harrives hn'
  have hfit := h'.fit side
  have hmoves := (n' side).conn.moves_segmentReceived harrives.plain.1
  have hreceiving := (harrives.linked side).receiving
  simp only [Endpoint.receive, hmoves.segmentsOut, hmoves.receiver]
  rcases hn' with hsome | hsame
  · exact Or.inl (by simp [hsome])
  by_cases hempty : seg.lengthInSequenceSpace = 0
  · right
    rw [← hsame]
    exact hreceiving.ackno_of_empty hfit.clean.synced hempty
  by_cases hsyn : ((n' side).conn.receiver.segmentReceived
      seg.toTCPSegment).synArrived = true
  · left
    have hanswer : (n' side).conn.answer seg.toTCPSegment ≠ [] := by
      intro hnil
      rcases (TCPConnection.answer_eq_nil_iff (fun _ => hfit.clean.opened)
        seg.toTCPSegment).mp hnil with hrst | ⟨-, hno, -⟩
      · rw [harrives.plain.1] at hrst
        cases hrst
      · exact hno ⟨hempty, by rw [TCPReceiver.ackno?, if_pos hsyn]; rfl⟩
    simp [hanswer]
  · -- nothing is acknowledged before the SYN
    right
    have hstep := hreceiving.toValid.step_segment seg.toTCPSegment
    have hle := hreceiving.toValid.ackno_le_step (.segment seg.toTCPSegment)
    rcases hstep.ackno with ⟨htrue, -⟩ | ⟨hzero, -⟩
    · exact absurd htrue hsyn
    · simp only [TCPReceiver.Session.step, Endpoint.inbound] at hzero hle
      omega

end Network
end Sponge
