import Sponge.Network.Receiving
import Sponge.TCPConnection.Endpoint

/-!
# One end of a link

What an endpoint keeps up while the other one does the same.  The other end
enters only through a `Remote`: the stream it has sent, the number up to which
it has acknowledged ours, and the end of its window.  All three only grow, so
that what was once said about them stays true.

Every segment the endpoint has made, wherever it is kept or travels, is a piece
of its own outgoing stream, stays inside the other end's window or is a probe of
a single sequence number, and acknowledges no more than the endpoint's receiver
has received.
-/

namespace Sponge

open Support

/-- One end of a link as the other end knows it. -/
structure Remote where
  out : Outgoing
  ackno : ℕ
  edge : ℕ

namespace Remote

instance : Preorder Remote where
  le p p' := p.out ≤ p'.out ∧ p.ackno ≤ p'.ackno ∧ p.edge ≤ p'.edge
  le_refl p := ⟨le_rfl, le_rfl, le_rfl⟩
  le_trans p₁ p₂ p₃ h h' :=
    ⟨h.1.trans h'.1, h.2.1.trans h'.2.1, h.2.2.trans h'.2.2⟩

/-- A segment on its way from `src` to `dst`. -/
structure Legit (src dst : Remote) (seg : SentSegment) : Prop where
  carries : src.out.Carries seg
  fits : TCPReceiver.Session.FitsEdge dst.edge seg
  ack : seg.header.ack = true →
    seg.header.ackno = wrap seg.absAckno dst.out.isn ∧
      seg.absAckno ≤ src.ackno ∧
      seg.absAckno + seg.header.win.toNat ≤ src.edge

theorem Legit.mono {src src' dst dst' : Remote} {seg : SentSegment}
    (h : Legit src dst seg) (hsrc : src ≤ src') (hdst : dst ≤ dst') :
    Legit src' dst' seg where
  carries := h.carries.mono hsrc.1
  fits := by
    rcases h.fits with hfits | hprobe
    · exact Or.inl (hfits.trans hdst.2.2)
    · exact Or.inr hprobe
  ack := by
    intro hack
    obtain ⟨hackno, hle, hedge⟩ := h.ack hack
    rw [hdst.1.isn]
    exact ⟨hackno, hle.trans hsrc.2.1, hedge.trans hsrc.2.2⟩

end Remote

namespace Endpoint

open Remote

/-- Every segment the endpoint keeps or has put on the wire. -/
def segments (e : Endpoint) : List SentSegment :=
  e.conn.sender.timer.outstandings.map Prod.fst ++
    e.conn.sender.segmentsOut ++ e.emitted

/-- The endpoint as the other end knows it, when it has sent `o`. -/
def remote (e : Endpoint) (o : Outgoing) : Remote where
  out := o
  ackno := e.conn.receiver.ackno
  edge := e.conn.receiver.edge

/-- The endpoint has sent `o` and is linked to the other end `p`. -/
structure Linked (capacity : ℕ) (o : Outgoing) (p : Remote) (e : Endpoint) :
    Prop where
  sending : e.conn.sender.Sending e.accepted o
  receiving : e.inbound.Receiving capacity p.out
  acked : e.conn.sender.ackno ≤ p.ackno
  queueStart : e.conn.sender.queueStart ≤ p.ackno
  window : e.conn.sender.windowSize.toNat ≤ 1 ∨
    e.conn.sender.ackno + e.conn.sender.windowSize.toNat ≤ p.edge
  segments : ∀ seg ∈ e.segments, Legit (e.remote o) p seg

theorem Linked.mono {capacity : ℕ} {o : Outgoing} {p p' : Remote}
    {e : Endpoint} (h : e.Linked capacity o p) (hle : p ≤ p') :
    e.Linked capacity o p' where
  sending := h.sending
  receiving := h.receiving.mono hle.1
  acked := h.acked.trans hle.2.1
  queueStart := h.queueStart.trans hle.2.1
  window := h.window.imp id fun hedge => hedge.trans hle.2.2
  segments := fun seg hseg => (h.segments seg hseg).mono le_rfl hle

theorem linked_new (cfg : TCPConfig) (random : UInt32) (p : Remote) :
    (new cfg random).Linked cfg.recvCapacity
      (TCPSender.nothingSent (cfg.fixedIsn.getD ⟨random⟩)) p where
  sending := TCPSender.sending_new _ _ _ _
  receiving := TCPReceiver.Session.receiving_new _ _
  acked := Nat.zero_le _
  queueStart := Nat.zero_le _
  window := Or.inl le_rfl
  segments := by
    intro seg hseg
    simp [Endpoint.segments, emitted, new, TCPConnection.new, TCPSender.new,
      Timer.new] at hseg

/-- From `e`, having sent `o`, the endpoint came to `e'`, still linked. -/
def Advances (capacity : ℕ) (p : Remote) (o : Outgoing) (e e' : Endpoint) :
    Prop :=
  ∃ o', e'.Linked capacity o' p ∧ e.remote o ≤ e'.remote o'

theorem Advances.trans {capacity : ℕ} {p : Remote} {o : Outgoing}
    {e e₁ e₂ : Endpoint} (h : Advances capacity p o e e₁)
    (hnext : ∀ o₁, e₁.Linked capacity o₁ p → e.remote o ≤ e₁.remote o₁ →
      Advances capacity p o₁ e₁ e₂) :
    Advances capacity p o e e₂ := by
  obtain ⟨o₁, hlinked, hle⟩ := h
  obtain ⟨o₂, hlinked₂, hle₂⟩ := hnext o₁ hlinked hle
  exact ⟨o₂, hlinked₂, hle.trans hle₂⟩

section Parts

variable {capacity : ℕ} {o : Outgoing} {p : Remote} {e : Endpoint}

/-! ## Changes of one part -/

/-- The flags and the time of the connection do not matter. -/
theorem Linked.withConn (h : e.Linked capacity o p) {c : TCPConnection}
    (hreceiver : c.receiver = e.conn.receiver)
    (hsender : c.sender = e.conn.sender)
    (hout : c.segmentsOut = e.conn.segmentsOut) :
    Advances capacity p o e { e with conn := c } := by
  obtain ⟨cfg, receiver, sender, segmentsOut, linger, time, active⟩ := c
  dsimp only at hreceiver hsender hout
  subst hreceiver hsender hout
  obtain ⟨h₁, h₂, h₃, h₄, h₅, h₆⟩ := h
  exact ⟨o, ⟨h₁, h₂, h₃, h₄, h₅, h₆⟩, le_rfl⟩

/-- The sender changes: its segments are old ones or legitimate new ones. -/
theorem Linked.withSender (h : e.Linked capacity o p) {o' : Outgoing}
    (hle : o ≤ o') {s : TCPSender} {accepted : List UInt8}
    (hsending : s.Sending accepted o') (hacked : s.ackno ≤ p.ackno)
    (hstart : s.queueStart ≤ p.ackno)
    (hwindow : s.windowSize.toNat ≤ 1 ∨
      s.ackno + s.windowSize.toNat ≤ p.edge)
    (hsegments : ∀ seg ∈ s.timer.outstandings.map Prod.fst ++ s.segmentsOut,
      seg ∈ e.segments ∨ Legit (e.remote o') p seg) :
    Advances capacity p o e
      { e with conn := { e.conn with sender := s }, accepted := accepted } := by
  have hremote : e.remote o ≤ e.remote o' := ⟨hle, le_rfl, le_rfl⟩
  refine ⟨o', ⟨hsending, h.receiving, hacked, hstart, hwindow, ?_⟩, hremote⟩
  intro seg hseg
  rcases List.mem_append.mp hseg with hkept | hemitted
  · rcases hsegments seg hkept with hold | hnew
    · exact (h.segments seg hold).mono hremote le_rfl
    · exact hnew
  · exact (h.segments seg (List.mem_append_right _ hemitted)).mono hremote
      le_rfl

theorem mem_segments_of_outstanding {entry : SentSegment × ℕ}
    (hentry : entry ∈ e.conn.sender.timer.outstandings) :
    entry.1 ∈ e.segments :=
  List.mem_append_left _ (List.mem_append_left _
    (List.mem_map_of_mem hentry))

theorem mem_segments_of_kept {seg : SentSegment}
    (hseg : seg ∈ e.conn.sender.timer.outstandings.map Prod.fst ++
      e.conn.sender.segmentsOut) : seg ∈ e.segments :=
  List.mem_append_left _ hseg

/-- The stream of the sender changes without losing or gaining sent bytes. -/
theorem Linked.withStream (h : e.Linked capacity o p) {stream : ByteStream}
    (hcontents : stream.contents = e.conn.sender.stream.contents) :
    Advances capacity p o e
      { e with
        conn :=
          { e.conn with sender := { e.conn.sender with stream := stream } } } := by
  exact h.withSender le_rfl (h.sending.with_streams hcontents _) h.acked
    h.queueStart h.window fun _ hseg => Or.inl (mem_segments_of_kept hseg)

theorem Linked.writeStream (h : e.Linked capacity o p) (data : List UInt8) :
    Advances capacity p o e
      { e with
        conn :=
          { e.conn with
            sender :=
              { e.conn.sender with
                stream := (e.conn.sender.stream.write data).1 } }
        accepted := e.accepted ++ e.conn.sender.stream.accepted data } :=
  h.withSender le_rfl (h.sending.write data) h.acked h.queueStart h.window
    fun _ hseg => Or.inl (mem_segments_of_kept hseg)

/-- `fill_window` stays inside the window of the other end, except for the probe
of a window that is closed. -/
theorem Linked.fillSender (h : e.Linked capacity o p) :
    Advances capacity p o e
      { e with conn :=
        { e.conn with sender := e.conn.sender.fillWindow } } := by
  obtain ⟨segs, hfills, -⟩ := e.conn.sender.fillWindow_spec
  obtain ⟨o', hle, hsending, hcarries⟩ := h.sending.fills hfills
  obtain ⟨hackno, hwindow, -⟩ := hfills.unchanged
  have hbounds := hfills.forall_mem
    (I := fun s => s.Valid ∧ s.ackno = e.conn.sender.ackno)
    (Q := fun seg => e.conn.sender.ackno ≤ seg.absSeqno ∧
      seg.absSeqno + seg.lengthInSequenceSpace ≤ e.conn.sender.endSeqno ∧
      seg.header.ack = false)
    (by
      rintro s seg s₁ - ⟨hvalid, hs⟩ hemits
      refine ⟨⟨hvalid.emits hemits, hemits.ackno.trans hs⟩, ?_, ?_, ?_⟩
      · rw [hemits.absSeqno, ← hs]
        exact hvalid.ackno_le
      · rw [hemits.absSeqno]
        exact hemits.fits
      · rw [hemits.header])
    ⟨h.sending.toValid, rfl⟩
  refine h.withSender hle hsending (by rw [hackno]; exact h.acked) ?_ ?_ ?_
  · rw [(h.sending.toValid.fills hfills).2]
    exact h.queueStart
  · rw [hackno, hwindow]
    exact h.window
  · intro seg hseg
    rw [hfills.outstandings, hfills.segmentsOut] at hseg
    simp only [List.mem_append] at hseg
    have hnew : seg ∈ segs → Legit (e.remote o') p seg := by
      intro hmem
      obtain ⟨hge, hend, hack⟩ := hbounds seg hmem
      refine ⟨hcarries seg hmem, ?_, ?_⟩
      · -- a window of at most one number lets one number through
        rcases h.window with hsmall | hedge
        · right
          unfold TCPSender.endSeqno at hend
          split at hend <;> omega
        · unfold TCPSender.endSeqno at hend
          split at hend
          · exact Or.inl (by omega)
          · exact Or.inr (by omega)
      · intro htrue
        rw [hack] at htrue
        cases htrue
    rcases hseg with (hold | hmem) | (hold | hmem)
    · exact Or.inl (mem_segments_of_kept (List.mem_append_left _ hold))
    · exact Or.inr (hnew hmem)
    · exact Or.inl (mem_segments_of_kept (List.mem_append_right _ hold))
    · exact Or.inr (hnew hmem)

/-- An acknowledgment that the other end sent is at most what it received. -/
theorem Linked.ackSender (h : e.Linked capacity o p) {seg : SentSegment}
    (hlegit : Legit p (e.remote o) seg) (hack : seg.header.ack = true)
    (hnear : Near seg.absAckno e.conn.sender.nextSeqno) :
    Advances capacity p o e
      { e with conn :=
        { e.conn with
          sender := e.conn.sender.ackReceived seg.header.ackno
            seg.header.win } } := by
  obtain ⟨hackno, hle, hedge⟩ := hlegit.ack hack
  have htmp : unwrap seg.header.ackno e.conn.sender.isn
      e.conn.sender.nextSeqno = seg.absAckno := by
    rw [hackno, h.sending.isn_eq]
    exact unwrap_wrap _ hnear
  have hsending := h.sending.ackReceived seg.header.ackno seg.header.win
  rcases h.sending.toValid.ackReceived_cases seg.header.ackno
      seg.header.win htmp with
    ⟨-, heq⟩ | ⟨-, timer, flight, heq, -, hsuffix, -, hmax⟩
  · rw [heq]
    exact h.withConn rfl rfl rfl
  · rw [heq] at hsending ⊢
    refine h.withSender le_rfl hsending hle ?_ (Or.inr hedge) ?_
    · exact hmax.trans (max_le h.queueStart hle)
    · intro seg' hseg'
      left
      simp only [List.mem_append, List.mem_map] at hseg'
      rcases hseg' with ⟨entry, hentry, rfl⟩ | hqueued
      · exact mem_segments_of_outstanding (hsuffix.subset hentry)
      · exact mem_segments_of_kept (List.mem_append_right _ hqueued)

theorem Linked.tickSender (h : e.Linked capacity o p) (ms : ℕ) :
    Advances capacity p o e
      { e with conn := { e.conn with sender := e.conn.sender.tick ms } } := by
  have hsending := h.sending.tick ms
  obtain ⟨timer, again, heq, hqueue, -, hagain⟩ := e.conn.sender.tick_spec ms
  rw [heq] at hsending ⊢
  refine h.withSender le_rfl hsending h.acked h.queueStart h.window ?_
  intro seg hseg
  left
  simp only [hqueue, List.mem_append] at hseg
  rcases hseg with hold | hold | hmem
  · exact mem_segments_of_kept (List.mem_append_left _ hold)
  · exact mem_segments_of_kept (List.mem_append_right _ hold)
  · obtain ⟨entry, hentry, rfl⟩ := hagain seg hmem
    exact mem_segments_of_outstanding hentry

theorem Linked.emptySender (h : e.Linked capacity o p) :
    Advances capacity p o e
      { e with conn :=
        { e.conn with sender := e.conn.sender.sendEmptySegment } } := by
  have hsending : e.conn.sender.sendEmptySegment.Sending e.accepted o :=
    h.sending.with_streams rfl _
  refine h.withSender le_rfl hsending h.acked h.queueStart h.window ?_
  intro seg hseg
  simp only [TCPSender.sendEmptySegment, List.mem_append,
    List.mem_singleton] at hseg
  rcases hseg with hold | hold | rfl
  · exact Or.inl (mem_segments_of_kept (List.mem_append_left _ hold))
  · exact Or.inl (mem_segments_of_kept (List.mem_append_right _ hold))
  · right
    refine ⟨h.sending.carries_empty rfl rfl rfl, Or.inr (Nat.zero_le 1), ?_⟩
    intro hack
    cases hack

/-- Stamping a legitimate segment. -/
theorem Linked.legit_stamp (h : e.Linked capacity o p) {seg : SentSegment}
    (hseg : Legit (e.remote o) p seg) :
    Legit (e.remote o) p (e.conn.stamp seg) := by
  unfold TCPConnection.stamp
  cases hackno : e.conn.receiver.ackno? with
  | none => exact hseg
  | some ackno =>
      obtain ⟨⟨h₁, h₂, h₃, h₄, h₅, h₆⟩, hfits, -⟩ := hseg
      refine ⟨⟨h₁, h₂, h₃, h₄, h₅, h₆⟩, hfits, ?_⟩
      intro _
      unfold TCPReceiver.ackno? at hackno
      split at hackno
      · rename_i hsyn
        have hisn := (h.receiving.isn_eq hsyn).1
        refine ⟨?_, le_rfl, ?_⟩
        · rw [← Option.some.inj hackno]
          exact congrArg (wrap e.conn.receiver.ackno) hisn
        · have htrunc : (UInt16.ofNat e.conn.receiver.windowSize).toNat ≤
              e.conn.receiver.windowSize := by
            rw [UInt16.toNat_ofNat']
            exact Nat.mod_le _ _
          exact Nat.add_le_add_left htrunc _
      · cases hackno

theorem Linked.updateQueue (h : e.Linked capacity o p) :
    Advances capacity p o e { e with conn := e.conn.updateQueue } := by
  refine ⟨o, ⟨?_, h.receiving, h.acked, h.queueStart, h.window, ?_⟩, le_rfl⟩
  · exact h.sending.with_streams rfl _
  · intro seg hseg
    simp only [Endpoint.segments, emitted, TCPConnection.updateQueue,
      List.append_nil, List.mem_append, List.mem_map] at hseg
    rcases hseg with ⟨entry, hentry, rfl⟩ | hwire | hout |
      ⟨queued, hqueued, rfl⟩
    · exact h.segments _ (mem_segments_of_outstanding hentry)
    · exact h.segments _ (by simp [Endpoint.segments, emitted, hwire])
    · exact h.segments _ (by simp [Endpoint.segments, emitted, hout])
    · exact h.legit_stamp
        (h.segments _ (mem_segments_of_kept (List.mem_append_right _ hqueued)))

/-- The receiver changes and gives nothing back. -/
theorem Linked.withInbound (h : e.Linked capacity o p)
    {s : TCPReceiver.Session} (hreceiving : s.Receiving capacity p.out)
    (hackno : e.conn.receiver.ackno ≤ s.receiver.ackno)
    (hedge : e.conn.receiver.edge ≤ s.receiver.edge) :
    Advances capacity p o e (e.withInbound s) := by
  have hremote : e.remote o ≤ (e.withInbound s).remote o :=
    ⟨le_rfl, hackno, hedge⟩
  refine ⟨o, ⟨h.sending, hreceiving, h.acked, h.queueStart, h.window, ?_⟩,
    hremote⟩
  intro seg hseg
  exact (h.segments seg hseg).mono hremote le_rfl

theorem Linked.receiveSegment (h : e.Linked capacity o p)
    {seg : SentSegment} (hlegit : Legit p (e.remote o) seg)
    (hnear : Near seg.absSeqno e.conn.receiver.ackno) :
    Advances capacity p o e
      { e with conn :=
        { e.conn with
          receiver :=
            e.conn.receiver.segmentReceived seg.toTCPSegment } } := by
  have hvalid := h.receiving.toValid
  exact h.withInbound
    (h.receiving.step_segment hlegit.carries hnear hlegit.fits)
    (hvalid.ackno_le_step (.segment seg.toTCPSegment))
    (hvalid.edge_le_step (.segment seg.toTCPSegment))

theorem Linked.setErrors (h : e.Linked capacity o p) :
    Advances capacity p o e { e with conn := e.conn.setErrors } := by
  have hstream : Advances capacity p o e
      { e with
        conn :=
          { e.conn with
            sender :=
              { e.conn.sender with
                stream := e.conn.sender.stream.setError } } } :=
    h.withStream (ByteStream.contents_setError _)
  refine hstream.trans ?_
  intro o₁ h₁ _
  exact h₁.withInbound h.receiving.setError le_rfl le_rfl

/-! ## The operations of the connection -/

theorem Linked.fillWindow (h : e.Linked capacity o p) :
    Advances capacity p o e { e with conn := e.conn.fillWindow } :=
  h.fillSender.trans fun _ h₁ _ => h₁.updateQueue

theorem Linked.sendEmptySegment (h : e.Linked capacity o p) :
    Advances capacity p o e { e with conn := e.conn.sendEmptySegment } :=
  h.emptySender.trans fun _ h₁ _ => h₁.updateQueue

theorem Linked.refl (h : e.Linked capacity o p) : Advances capacity p o e e :=
  ⟨o, h, le_rfl⟩

theorem Linked.noteFirstEnd (h : e.Linked capacity o p) :
    Advances capacity p o e { e with conn := e.conn.noteFirstEnd } := by
  unfold TCPConnection.noteFirstEnd
  split
  · exact h.withConn rfl rfl rfl
  · exact h.refl

theorem Linked.tryCleanClosed (h : e.Linked capacity o p) :
    Advances capacity p o e { e with conn := e.conn.tryCleanClosed } := by
  unfold TCPConnection.tryCleanClosed
  split
  · split
    · exact h.withConn rfl rfl rfl
    · exact h.refl
  · exact h.refl

theorem Linked.reply (h : e.Linked capacity o p) (seg : TCPSegment) :
    Advances capacity p o e { e with conn := e.conn.reply seg } := by
  unfold TCPConnection.reply
  split
  · split
    · exact h.fillWindow
    · exact h.sendEmptySegment
  · exact h.refl

theorem Linked.replyKeepAlive (h : e.Linked capacity o p)
    (seg : TCPSegment) :
    Advances capacity p o e { e with conn := e.conn.replyKeepAlive seg } := by
  unfold TCPConnection.replyKeepAlive
  split
  · exact h.sendEmptySegment
  · exact h.refl

theorem Linked.fillOpened (h : e.Linked capacity o p) :
    Advances capacity p o e { e with conn := e.conn.fillOpened } := by
  unfold TCPConnection.fillOpened
  split
  · exact h.fillWindow
  · exact h.refl

theorem Linked.ackReceived (h : e.Linked capacity o p) {seg : SentSegment}
    (hlegit : Legit p (e.remote o) seg) (hack : seg.header.ack = true)
    (hnear : Near seg.absAckno e.conn.sender.nextSeqno) :
    Advances capacity p o e
      { e with conn :=
        e.conn.ackReceived seg.header.ackno seg.header.win } :=
  (h.ackSender hlegit hack hnear).trans fun _ h₁ _ => h₁.fillOpened

/-- The reset segment is one of the sender's, with another flag. -/
theorem Linked.sendRst (h : e.Linked capacity o p) :
    Advances capacity p o e { e with conn := e.conn.sendRst } := by
  have hqueue : Advances capacity p o e
      { e with
        conn :=
          { e.conn with
            sender := e.conn.sender.sendEmptySegment
            segmentsOut :=
              (e.conn.sender.sendEmptySegment.segmentsOut.getLast?.map
                fun seg =>
                  { seg with
                    header := { seg.header with rst := true } }).toList } } := by
    refine h.emptySender.trans ?_
    intro o₁ h₁ _
    refine ⟨o₁, ⟨h₁.sending, h₁.receiving, h₁.acked, h₁.queueStart,
      h₁.window, ?_⟩, le_rfl⟩
    intro seg hseg
    simp only [Endpoint.segments, emitted, List.mem_append] at hseg
    rcases hseg with hkept | hwire | hrst
    · exact h₁.segments seg
        (mem_segments_of_kept (List.mem_append.mpr hkept))
    · exact h₁.segments seg (by simp [Endpoint.segments, emitted, hwire])
    · obtain ⟨last, hlast, rfl⟩ := Option.map_eq_some_iff.mp
        (Option.mem_toList.mp hrst)
      obtain ⟨⟨h₁, h₂, h₃, h₄, h₅, h₆⟩, hfits, hack⟩ := h₁.segments last
        (mem_segments_of_kept (List.mem_append_right _
          (List.mem_of_getLast? hlast)))
      exact ⟨⟨h₁, h₂, h₃, h₄, h₅, h₆⟩, hfits, hack⟩
  refine hqueue.trans ?_
  intro o₁ h₁ _
  refine h₁.setErrors.trans ?_
  intro o₂ h₂ _
  exact h₂.withConn rfl rfl rfl

end Parts

/-! ## The events of an endpoint -/

theorem Linked.act {capacity : ℕ} {o : Outgoing} {p : Remote}
    {e : Endpoint} (h : e.Linked capacity o p) (op : Op) :
    Advances capacity p o e (e.act op) := by
  cases op with
  | connect => exact h.fillWindow
  | write data =>
      simp only [Endpoint.act, TCPConnection.write,
        ByteStream.take_write_snd]
      exact (h.writeStream data).trans fun _ h₁ _ => h₁.fillWindow
  | endInputStream =>
      exact (h.withStream (ByteStream.contents_endInput _)).trans
        fun _ h₁ _ => h₁.fillWindow
  | tick ms =>
      have htimed : Advances capacity p o e
          { e with
            conn :=
              { { e.conn with
                    sender := e.conn.sender.tick ms }.updateQueue with
                lingerTime := addSize e.conn.lingerTime ms } } :=
        ((h.tickSender ms).trans fun _ h₁ _ => h₁.updateQueue).trans
          fun _ h₂ _ => h₂.withConn rfl rfl rfl
      simp only [Endpoint.act, TCPConnection.tick]
      split
      · exact htimed.trans fun _ h₁ _ => h₁.sendRst
      · exact htimed.trans fun _ h₁ _ => h₁.tryCleanClosed
  | read len =>
      simp only [Endpoint.act, TCPReceiver.Session.step_read]
      exact h.withInbound (h.receiving.step_popOutput len) le_rfl
        (e.inbound.edge_le_step_popOutput len)
  | popOutput len =>
      exact h.withInbound (h.receiving.step_popOutput len) le_rfl
        (e.inbound.edge_le_step_popOutput len)
  | transmit =>
      simp only [Endpoint.act]
      split
      · exact h.refl
      · rename_i seg rest hout
        refine ⟨o, ⟨h.sending, h.receiving, h.acked, h.queueStart, h.window,
          ?_⟩, le_rfl⟩
        intro seg' hseg'
        refine h.segments seg' ?_
        simpa [Endpoint.segments, emitted, hout] using hseg'

/-- A legitimate segment of the other end arrives, with numbers close to those
the endpoint expects. -/
theorem Linked.receive {capacity : ℕ} {o : Outgoing} {p : Remote}
    {e : Endpoint} (h : e.Linked capacity o p) {seg : SentSegment}
    (hlegit : Legit p (e.remote o) seg)
    (hseqno : Near seg.absSeqno e.conn.receiver.ackno)
    (hackno : seg.header.ack = true →
      Near seg.absAckno e.conn.sender.nextSeqno) :
    Advances capacity p o e (e.receive seg.toTCPSegment) := by
  have hreset : Advances capacity p o e
      { e with conn := { e.conn with lingerTime := 0 } } :=
    h.withConn rfl rfl rfl
  simp only [Endpoint.receive, TCPConnection.segmentReceived]
  split
  · -- a reset only marks the streams
    exact (hreset.trans fun _ h₁ _ => h₁.setErrors).trans
      fun _ h₂ _ => h₂.withConn rfl rfl rfl
  · have hreceived := hreset.trans fun _ h₁ hle =>
      h₁.receiveSegment (hlegit.mono le_rfl hle) hseqno
    have hanswered : ∀ {c : TCPConnection},
        Advances capacity p o e { e with conn := c } →
        Advances capacity p o e
          { e with
            conn := (c.noteFirstEnd.tryCleanClosed.reply
              seg.toTCPSegment).replyKeepAlive seg.toTCPSegment } := by
      intro c hc
      exact (((hc.trans fun _ h₁ _ => h₁.noteFirstEnd).trans
        fun _ h₁ _ => h₁.tryCleanClosed).trans
        fun _ h₁ _ => h₁.reply _).trans
        fun _ h₁ _ => h₁.replyKeepAlive _
    split
    · rename_i hack
      exact hanswered (hreceived.trans fun _ h₁ hle =>
        h₁.ackReceived (hlegit.mono le_rfl hle) hack (hackno hack))
    · exact hanswered hreceived

end Endpoint
end Sponge
