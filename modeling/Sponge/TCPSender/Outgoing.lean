import Sponge.Support.Fragments
import Sponge.TCPSender.FillWindow

/-!
# The stream a sender has put on the wire

`Outgoing` is the abstract view of a sender: the SYN, the bytes and the FIN that
it has turned into segments so far.  It only grows, and after the FIN not even
that.  Every segment that a sender ever makes is a piece of it, and the bytes
not yet sent are those still buffered.
-/

namespace Sponge

open Support

/-- What has been sent: nothing before the SYN. -/
structure Outgoing where
  isn : WrappingInt32
  syn : Bool
  payload : List UInt8
  fin : Bool
  synFirst : syn = false → payload = [] ∧ fin = false

namespace Outgoing

/-- The absolute sequence number after everything sent. -/
def next (o : Outgoing) : ℕ :=
  o.syn.toNat + o.payload.length + o.fin.toNat

theorem syn_of_fin {o : Outgoing} (h : o.fin = true) : o.syn = true := by
  by_contra hsyn
  rw [(o.synFirst (Bool.eq_false_of_not_eq_true hsyn)).2] at h
  cases h

/-- `o'` continues `o`. -/
structure Continues (o o' : Outgoing) : Prop where
  isn : o'.isn = o.isn
  syn : o.syn = true → o'.syn = true
  payload : o.payload <+: o'.payload
  fin : o.fin = true → o'.fin = true ∧ o'.payload = o.payload

instance : Preorder Outgoing where
  le := Continues
  le_refl o := ⟨rfl, id, List.prefix_refl _, fun h => ⟨h, rfl⟩⟩
  le_trans := by
    intro o₁ o₂ o₃ h h'
    refine ⟨h'.isn.trans h.isn, fun hsyn => h'.syn (h.syn hsyn),
      h.payload.trans h'.payload, ?_⟩
    intro hfin
    obtain ⟨hfin₂, hpayload₂⟩ := h.fin hfin
    obtain ⟨hfin₃, hpayload₃⟩ := h'.fin hfin₂
    exact ⟨hfin₃, hpayload₃.trans hpayload₂⟩

theorem next_mono {o o' : Outgoing} (h : o ≤ o') : o.next ≤ o'.next := by
  have hlen := h.payload.length_le
  have hsyn : o.syn.toNat ≤ o'.syn.toNat := by
    cases hs : o.syn with
    | false => exact Nat.zero_le _
    | true => rw [h.syn hs]
  have hfin : o.fin.toNat ≤ o'.fin.toNat := by
    cases hf : o.fin with
    | false => exact Nat.zero_le _
    | true => rw [(h.fin hf).1]
  unfold next
  omega

/-- The segment is a piece of the outgoing stream.  Payload bytes follow the
SYN, whose absolute number is 0, and the FIN follows the last byte. -/
structure Carries (o : Outgoing) (seg : SentSegment) : Prop where
  seqno : seg.header.seqno = wrap seg.absSeqno o.isn
  le_next : seg.absSeqno + seg.lengthInSequenceSpace ≤ o.next
  syn : seg.header.syn = true → seg.absSeqno = 0
  zero : seg.absSeqno = 0 →
    seg.header.syn = true ∨ seg.lengthInSequenceSpace = 0
  payload : seg.payload <+:
    o.payload.drop (seg.absSeqno + seg.header.syn.toNat - 1)
  fin : seg.header.fin = true →
    o.fin = true ∧ seg.absSeqno + seg.lengthInSequenceSpace = o.next

theorem Carries.mono {o o' : Outgoing} {seg : SentSegment}
    (h : o.Carries seg) (hle : o ≤ o') : o'.Carries seg where
  seqno := by rw [hle.isn, h.seqno]
  le_next := h.le_next.trans (next_mono hle)
  syn := h.syn
  zero := h.zero
  payload := isPrefix_drop_mono hle.payload h.payload
  fin := by
    intro hfin
    obtain ⟨ho, hnext⟩ := h.fin hfin
    obtain ⟨hfin', hpayload⟩ := hle.fin ho
    refine ⟨hfin', hnext.trans ?_⟩
    rw [next, next, hpayload, ho, hfin', syn_of_fin ho,
      hle.syn (syn_of_fin ho)]

/-- The stream index just after the payload of a segment with the FIN. -/
theorem Carries.fin_index {o : Outgoing} {seg : SentSegment}
    (h : o.Carries seg) (hfin : seg.header.fin = true) :
    seg.absSeqno + seg.header.syn.toNat - 1 + seg.payload.length =
      o.payload.length := by
  obtain ⟨ho, hnext⟩ := h.fin hfin
  have hsyn := syn_of_fin ho
  rw [TCPSegment.lengthInSequenceSpace_eq, next, hfin, ho, hsyn] at hnext
  have hpos : 1 ≤ seg.absSeqno + seg.header.syn.toNat := by
    rcases Nat.eq_zero_or_pos seg.absSeqno with hzero | hpos
    · rcases h.zero hzero with hflag | hempty
      · rw [hflag, Bool.toNat_true]
        omega
      · rw [TCPSegment.lengthInSequenceSpace_eq, hfin,
          Bool.toNat_true] at hempty
        omega
    · omega
  simp only [Bool.toNat_true] at hnext
  omega

end Outgoing

namespace TCPSender

/-! ## What holds of every sender -/

/-- The sequence number at which the queue of outstanding segments starts. -/
def queueStart (s : TCPSender) : ℕ := s.nextSeqno - s.bytesInFlight

/-- The outstanding segments are the last `bytes_in_flight()` sequence numbers,
the timer runs while there are any, and nothing unsent is acknowledged. -/
structure Valid (s : TCPSender) : Prop where
  chain : Chain s.queueStart s.timer.outstandings s.nextSeqno
  inFlight_le : s.bytesInFlight ≤ s.nextSeqno
  running : s.timer.running = true ↔ s.timer.outstandings ≠ []
  ackno_le : s.ackno ≤ s.nextSeqno

theorem valid_new (capacity : ℕ) (retxTimeout : UInt16)
    (fixedIsn : Option WrappingInt32) (random : UInt32) :
    (new capacity retxTimeout fixedIsn random).Valid where
  chain := rfl
  inFlight_le := le_rfl
  running := by simp [new, Timer.new]
  ackno_le := le_rfl

/-- The streams on both sides of the sender do not matter. -/
theorem Valid.with_streams {s : TCPSender} (h : s.Valid) (stream : ByteStream)
    (segmentsOut : List SentSegment) :
    { s with stream := stream, segmentsOut := segmentsOut }.Valid :=
  ⟨h.chain, h.inFlight_le, h.running, h.ackno_le⟩

/-- Something is in flight exactly while the timer runs. -/
theorem Valid.running_iff {s : TCPSender} (h : s.Valid) :
    s.timer.running = true ↔ 0 < s.bytesInFlight := by
  have hle := h.inFlight_le
  rw [h.running, ne_eq, h.chain.eq_nil_iff, queueStart]
  omega

theorem Valid.queueStart_emits {s s' : TCPSender} {endSeqno : ℕ}
    {seg : SentSegment} (h : s.Valid) (hemits : Emits endSeqno s seg s') :
    s'.queueStart = s.queueStart := by
  have hle := h.inFlight_le
  rw [queueStart, queueStart, hemits.nextSeqno, hemits.bytesInFlight]
  omega

theorem Valid.emits {s s' : TCPSender} {endSeqno : ℕ} {seg : SentSegment}
    (h : s.Valid) (hemits : Emits endSeqno s seg s') : s'.Valid where
  chain := by
    rw [h.queueStart_emits hemits, hemits.outstandings, hemits.nextSeqno]
    exact h.chain.append hemits.absSeqno hemits.pos
  inFlight_le := by
    have hle := h.inFlight_le
    rw [hemits.nextSeqno, hemits.bytesInFlight]
    omega
  running := by simp [hemits.running, hemits.outstandings]
  ackno_le := by
    have hle := h.ackno_le
    rw [hemits.nextSeqno, hemits.ackno]
    omega

theorem Valid.fills {s s' : TCPSender} {endSeqno : ℕ}
    {segs : List SentSegment} (h : s.Valid)
    (hfills : Fills endSeqno s segs s') :
    s'.Valid ∧ s'.queueStart = s.queueStart :=
  hfills.invariant
    (I := fun s' => s'.Valid ∧ s'.queueStart = s.queueStart)
    (fun _ _ _ _ hs hemits => ⟨hs.1.emits hemits,
      (hs.1.queueStart_emits hemits).trans hs.2⟩) ⟨h, rfl⟩

/-- The sender accepts the acknowledgment: it is for nothing unsent. -/
def Accepts (s : TCPSender) (ackno : WrappingInt32) : Prop :=
  unwrap ackno s.isn s.nextSeqno ≤ s.nextSeqno

instance (s : TCPSender) (ackno : WrappingInt32) :
    Decidable (s.Accepts ackno) :=
  inferInstanceAs (Decidable (unwrap ackno s.isn s.nextSeqno ≤ s.nextSeqno))

/-- What an acknowledgment leaves alone. -/
theorem ackReceived_unchanged (s : TCPSender) (ackno : WrappingInt32)
    (win : UInt16) :
    (s.ackReceived ackno win).nextSeqno = s.nextSeqno ∧
      (s.ackReceived ackno win).stream = s.stream ∧
      (s.ackReceived ackno win).finSended = s.finSended ∧
      (s.ackReceived ackno win).segmentsOut = s.segmentsOut ∧
      (s.ackReceived ackno win).isn = s.isn := by
  obtain ⟨tmp, htmp⟩ : ∃ tmp, unwrap ackno s.isn s.nextSeqno = tmp :=
    ⟨_, rfl⟩
  simp only [ackReceived, htmp]
  split <;> exact ⟨rfl, rfl, rfl, rfl, rfl⟩

theorem ackReceived_of_lt {s : TCPSender} {ackno : WrappingInt32} {tmp : ℕ}
    (htmp : unwrap ackno s.isn s.nextSeqno = tmp) (hlt : s.nextSeqno < tmp)
    (windowSize : UInt16) : s.ackReceived ackno windowSize = s := by
  simp only [ackReceived, htmp]
  rw [if_neg (Nat.not_le.mpr hlt)]

theorem ackReceived_of_le {s : TCPSender} {ackno : WrappingInt32} {tmp : ℕ}
    (htmp : unwrap ackno s.isn s.nextSeqno = tmp) (hle : tmp ≤ s.nextSeqno)
    (windowSize : UInt16) :
    s.ackReceived ackno windowSize =
      { s with
        ackno := tmp
        windowSize := windowSize
        timer := (s.timer.ackHandle tmp).1
        bytesInFlight :=
          subSize s.bytesInFlight (s.timer.ackHandle tmp).2 } := by
  simp only [ackReceived, htmp]
  rw [if_pos hle]

/-- The sender after an acknowledgment: it ignores numbers beyond what was sent;
otherwise it adopts the number and the window, and what is left of the queue
starts at most at the number. -/
theorem Valid.ackReceived_cases {s : TCPSender} (h : s.Valid)
    (ackno : WrappingInt32) (windowSize : UInt16) {tmp : ℕ}
    (htmp : unwrap ackno s.isn s.nextSeqno = tmp) :
    (s.nextSeqno < tmp ∧ s.ackReceived ackno windowSize = s) ∨
      (tmp ≤ s.nextSeqno ∧ ∃ timer bytesInFlight,
        s.ackReceived ackno windowSize =
          { s with
            ackno := tmp
            windowSize := windowSize
            timer := timer
            bytesInFlight := bytesInFlight } ∧
        (s.ackReceived ackno windowSize).Valid ∧
        timer.outstandings <:+ s.timer.outstandings ∧
        bytesInFlight ≤ s.bytesInFlight ∧
        s.nextSeqno - bytesInFlight ≤ max s.queueStart tmp) := by
  rcases Nat.lt_or_ge s.nextSeqno tmp with hlt | hle
  · exact Or.inl ⟨hlt, ackReceived_of_lt htmp hlt windowSize⟩
  · refine Or.inr ⟨hle, ?_⟩
    obtain ⟨lo, hchain, hsuffix, hret, hlo, hmax, hrunning⟩ :=
      s.timer.ackHandle_spec tmp h.chain h.running
    have hbound := hchain.le
    have hflight := h.inFlight_le
    unfold queueStart at hret hlo
    have hsub : subSize s.bytesInFlight (s.timer.ackHandle tmp).2 =
        s.nextSeqno - lo := by
      rw [subSize_of_le (by omega)]
      omega
    have hack : s.ackReceived ackno windowSize =
        { s with
          ackno := tmp
          windowSize := windowSize
          timer := (s.timer.ackHandle tmp).1
          bytesInFlight := s.nextSeqno - lo } := by
      rw [ackReceived_of_le htmp hle, hsub]
    refine ⟨_, _, hack, ?_, hsuffix, by omega, by omega⟩
    rw [hack]
    refine ⟨?_, Nat.sub_le _ _, hrunning, hle⟩
    rw [queueStart, Nat.sub_sub_self hbound]
    exact hchain

theorem Valid.ackReceived {s : TCPSender} (h : s.Valid)
    (ackno : WrappingInt32) (windowSize : UInt16) :
    (s.ackReceived ackno windowSize).Valid := by
  rcases h.ackReceived_cases ackno windowSize rfl with
    ⟨-, heq⟩ | ⟨-, timer, flight, -, hvalid, -⟩
  · rw [heq]
    exact h
  · exact hvalid

/-- The timer and the queue after a tick. -/
theorem tick_spec (s : TCPSender) (ms : ℕ) :
    ∃ timer again, s.tick ms =
        { s with timer := timer, segmentsOut := s.segmentsOut ++ again } ∧
      timer.outstandings = s.timer.outstandings ∧
      timer.running = s.timer.running ∧
      ∀ seg ∈ again, ∃ entry ∈ s.timer.outstandings, entry.1 = seg := by
  obtain ⟨hqueue, hrunning, again, hout, hagain⟩ :=
    s.timer.tickHandle_spec ms s.windowSize s.segmentsOut
  refine ⟨_, again, ?_, hqueue, hrunning, hagain⟩
  simp only [tick, hout]

theorem Valid.tick {s : TCPSender} (h : s.Valid) (ms : ℕ) :
    (s.tick ms).Valid := by
  obtain ⟨timer, again, heq, hqueue, hrunning, -⟩ := s.tick_spec ms
  rw [heq]
  refine ⟨?_, h.inFlight_le, ?_, h.ackno_le⟩
  · simp only [hqueue]
    exact h.chain
  · simp only [hqueue, hrunning]
    exact h.running

/-! ## The sender and its outgoing stream -/

/-- The sender has sent `o`, out of the bytes `accepted` that were written to
its stream. -/
structure Sending (accepted : List UInt8) (o : Outgoing) (s : TCPSender) : Prop
    extends Valid s where
  isn_eq : s.isn = o.isn
  next_eq : s.nextSeqno = o.next
  fin_eq : s.finSended = o.fin
  contents : o.payload ++ s.stream.contents = accepted

/-- Nothing has been sent. -/
def nothingSent (isn : WrappingInt32) : Outgoing where
  isn := isn
  syn := false
  payload := []
  fin := false
  synFirst := fun _ => ⟨rfl, rfl⟩

theorem sending_new (capacity : ℕ) (retxTimeout : UInt16)
    (fixedIsn : Option WrappingInt32) (random : UInt32) :
    (new capacity retxTimeout fixedIsn random).Sending []
      (nothingSent (fixedIsn.getD ⟨random⟩)) where
  toValid := valid_new capacity retxTimeout fixedIsn random
  isn_eq := rfl
  next_eq := rfl
  fin_eq := rfl
  contents := rfl

theorem Sending.with_streams {accepted : List UInt8} {o : Outgoing}
    {s : TCPSender} (h : s.Sending accepted o) {stream : ByteStream}
    (hcontents : stream.contents = s.stream.contents)
    (segmentsOut : List SentSegment) :
    { s with stream := stream, segmentsOut := segmentsOut }.Sending
      accepted o where
  toValid := h.toValid.with_streams stream segmentsOut
  isn_eq := h.isn_eq
  next_eq := h.next_eq
  fin_eq := h.fin_eq
  contents := by
    rw [hcontents]
    exact h.contents

theorem Sending.write {accepted : List UInt8} {o : Outgoing} {s : TCPSender}
    (h : s.Sending accepted o) (data : List UInt8) :
    { s with stream := (s.stream.write data).1 }.Sending
      (accepted ++ s.stream.accepted data) o where
  chain := h.chain
  inFlight_le := h.inFlight_le
  running := h.running
  ackno_le := h.ackno_le
  isn_eq := h.isn_eq
  next_eq := h.next_eq
  fin_eq := h.fin_eq
  contents := by
    rw [ByteStream.contents_write, ← List.append_assoc, h.contents]

/-- The segment sent in one turn of `fill_window` continues the stream. -/
theorem Sending.emits {accepted : List UInt8} {o : Outgoing}
    {s s' : TCPSender} {endSeqno : ℕ} {seg : SentSegment}
    (h : s.Sending accepted o) (hcan : s.CanSend endSeqno)
    (hemits : Emits endSeqno s seg s') :
    ∃ o', o ≤ o' ∧ s'.Sending accepted o' ∧ o'.Carries seg := by
  have hfin : o.fin = false := h.fin_eq.symm.trans hcan.1
  have hnext := h.next_eq
  simp only [Outgoing.next, hfin, Bool.toNat_false, Nat.add_zero] at hnext
  -- the SYN goes first
  have hsyn : o.syn = false → s.nextSeqno = 0 := by
    intro hfalse
    rw [hnext, hfalse, (o.synFirst hfalse).1]
    rfl
  have hflag : o.syn.toNat + (decide (s.nextSeqno = 0)).toNat = 1 := by
    cases hs : o.syn with
    | false => simp [hsyn hs]
    | true =>
        rw [hs, Bool.toNat_true] at hnext
        have : s.nextSeqno ≠ 0 := by omega
        simp [this]
  let o' : Outgoing :=
    { isn := o.isn
      syn := true
      payload := o.payload ++ seg.payload
      fin := s'.finSended
      synFirst := nofun }
  have hlen : seg.lengthInSequenceSpace = seg.payload.length +
      (decide (s.nextSeqno = 0)).toNat + s'.finSended.toNat := by
    rw [TCPSegment.lengthInSequenceSpace_eq, hemits.header]
  have hnext' : s'.nextSeqno = o'.next := by
    simp only [hemits.nextSeqno, hlen, Outgoing.next, o', Bool.toNat_true,
      List.length_append]
    omega
  refine ⟨o', ⟨rfl, fun _ => rfl, List.prefix_append _ _, ?_⟩, ?_, ?_⟩
  · intro htrue
    rw [hfin] at htrue
    cases htrue
  · refine ⟨h.toValid.emits hemits, hemits.isn.trans h.isn_eq, hnext', rfl, ?_⟩
    rw [← h.contents, hemits.payload, ← List.append_assoc]
  · have hend : seg.absSeqno + seg.lengthInSequenceSpace = o'.next := by
      rw [hemits.absSeqno, ← hemits.nextSeqno, hnext']
    refine ⟨?_, hend.le, ?_, ?_, ?_, ?_⟩
    · rw [hemits.header, hemits.absSeqno, h.isn_eq]
    · intro hseg
      rw [hemits.header] at hseg
      rw [hemits.absSeqno]
      simpa using hseg
    · intro hzero
      rw [hemits.absSeqno] at hzero
      left
      rw [hemits.header]
      simpa using hzero
    · have hindex : seg.absSeqno + seg.header.syn.toNat - 1 =
          o.payload.length := by
        rw [hemits.absSeqno, hemits.header]
        dsimp only
        omega
      rw [hindex]
      simp only [o', List.drop_left]
      exact List.prefix_refl _
    · intro hseg
      rw [hemits.header] at hseg
      exact ⟨hseg, hend⟩

/-- `fill_window` continues the outgoing stream with segments that end at most
at the end of the window. -/
theorem Sending.fills {accepted : List UInt8} {o : Outgoing}
    {s s' : TCPSender} {endSeqno : ℕ} {segs : List SentSegment}
    (h : s.Sending accepted o) (hfills : Fills endSeqno s segs s') :
    ∃ o', o ≤ o' ∧ s'.Sending accepted o' ∧ ∀ seg ∈ segs, o'.Carries seg := by
  induction hfills generalizing o with
  | nil => exact ⟨o, le_rfl, h, by simp⟩
  | cons hcan hemits _ ih =>
      obtain ⟨o₁, hle, hsending, hcarries⟩ := h.emits hcan hemits
      obtain ⟨o', hle', hsending', hrest⟩ := ih hsending
      refine ⟨o', hle.trans hle', hsending', ?_⟩
      intro seg hmem
      rcases List.mem_cons.mp hmem with rfl | hmem
      · exact hcarries.mono hle'
      · exact hrest seg hmem

theorem Sending.ackReceived {accepted : List UInt8} {o : Outgoing}
    {s : TCPSender} (h : s.Sending accepted o) (ackno : WrappingInt32)
    (windowSize : UInt16) :
    (s.ackReceived ackno windowSize).Sending accepted o := by
  rcases h.toValid.ackReceived_cases ackno windowSize rfl with
    ⟨-, heq⟩ | ⟨-, timer, flight, heq, hvalid, -⟩
  · rw [heq]
    exact h
  · rw [heq] at hvalid ⊢
    exact ⟨hvalid, h.isn_eq, h.next_eq, h.fin_eq, h.contents⟩

theorem Sending.tick {accepted : List UInt8} {o : Outgoing} {s : TCPSender}
    (h : s.Sending accepted o) (ms : ℕ) : (s.tick ms).Sending accepted o := by
  have hvalid := h.toValid.tick ms
  obtain ⟨timer, again, heq, -⟩ := s.tick_spec ms
  rw [heq] at hvalid ⊢
  exact ⟨hvalid, h.isn_eq, h.next_eq, h.fin_eq, h.contents⟩

/-- An empty segment with the next sequence number is a piece of the stream. -/
theorem Sending.carries_empty {accepted : List UInt8} {o : Outgoing}
    {s : TCPSender} (h : s.Sending accepted o) {seg : SentSegment}
    (hseqno : seg.header.seqno = wrap s.nextSeqno s.isn)
    (habs : seg.absSeqno = s.nextSeqno)
    (hempty : seg.lengthInSequenceSpace = 0) : o.Carries seg := by
  have hlen := hempty
  rw [TCPSegment.lengthInSequenceSpace_eq] at hlen
  refine ⟨?_, ?_, ?_, fun _ => Or.inr hempty, ?_, ?_⟩
  · rw [hseqno, habs, h.isn_eq]
  · rw [habs, hempty, h.next_eq]
    exact le_rfl
  · intro hsyn
    rw [hsyn, Bool.toNat_true] at hlen
    omega
  · rw [List.length_eq_zero_iff.mp (show seg.payload.length = 0 by omega)]
    exact List.nil_prefix
  · intro hfin
    rw [hfin, Bool.toNat_true] at hlen
    omega

end TCPSender
end Sponge
