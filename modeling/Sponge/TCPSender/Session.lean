import Sponge.Support.Runs
import Sponge.TCPSender.Outgoing

/-!
# Sessions of a sender

A session is a sender together with its history: the bytes that its stream
accepted, and the segments that `fill_window` made, in the order in which it
made them.  Retransmissions and empty segments do not belong to the history.

The segments of the history cut the accepted bytes into pieces without losing
any, however often the loop of `fill_window` is entered and left again.
-/

namespace Sponge
namespace TCPSender

open Support

/-- What can be done with a sender; `transmit` takes one segment from
`segments_out`. -/
inductive Op where
  | write (data : List UInt8)
  | endInput
  | fillWindow
  | ackReceived (ackno : WrappingInt32) (windowSize : UInt16)
  | tick (ms : ℕ)
  | sendEmptySegment
  | transmit
deriving DecidableEq

structure Session where
  sender : TCPSender
  accepted : List UInt8
  created : List SentSegment
deriving DecidableEq

namespace Session

def new (capacity : ℕ) (retxTimeout : UInt16)
    (fixedIsn : Option WrappingInt32) (random : UInt32) : Session where
  sender := .new capacity retxTimeout fixedIsn random
  accepted := []
  created := []

/-- The segments that `fill_window` adds to `segments_out` are recorded. -/
def step (s : Session) : Op → Session
  | .write data =>
      let (stream, n) := s.sender.stream.write data
      { s with
        sender := { s.sender with stream := stream }
        accepted := s.accepted ++ data.take n }
  | .endInput =>
      { s with
        sender := { s.sender with stream := s.sender.stream.endInput } }
  | .fillWindow =>
      { s with
        sender := s.sender.fillWindow
        created := s.created ++
          s.sender.fillWindow.segmentsOut.drop s.sender.segmentsOut.length }
  | .ackReceived ackno windowSize =>
      { s with sender := s.sender.ackReceived ackno windowSize }
  | .tick ms => { s with sender := s.sender.tick ms }
  | .sendEmptySegment => { s with sender := s.sender.sendEmptySegment }
  | .transmit =>
      { s with
        sender := { s.sender with segmentsOut := s.sender.segmentsOut.tail } }

theorem step_ackReceived (s : Session) (ackno : WrappingInt32)
    (windowSize : UInt16) :
    s.step (.ackReceived ackno windowSize) =
      { s with sender := s.sender.ackReceived ackno windowSize } :=
  rfl

def run (capacity : ℕ) (retxTimeout : UInt16)
    (fixedIsn : Option WrappingInt32) (random : UInt32) (ops : List Op) :
    Session :=
  ops.foldl step (new capacity retxTimeout fixedIsn random)

end Session

/-! ## Segmentation -/

/-- The number of sequence numbers that the segments occupy together. -/
def totalLength (segs : List SentSegment) : ℕ :=
  (segs.map fun seg => seg.lengthInSequenceSpace).sum

@[simp] theorem totalLength_nil : totalLength [] = 0 := rfl

@[simp] theorem totalLength_cons (seg : SentSegment)
    (segs : List SentSegment) :
    totalLength (seg :: segs) =
      seg.lengthInSequenceSpace + totalLength segs := by
  simp [totalLength]

@[simp] theorem totalLength_append (segs segs' : List SentSegment) :
    totalLength (segs ++ segs') = totalLength segs + totalLength segs' := by
  simp [totalLength]

/-- What is true of a segment that was made after `before` and before
`after`. -/
structure Piece (isn : WrappingInt32) (before : List SentSegment)
    (seg : SentSegment) (after : List SentSegment) : Prop where
  payload_le : seg.payload.length ≤ TCPConfig.maxPayloadSize
  pos : 0 < seg.lengthInSequenceSpace
  syn_iff : seg.header.syn = true ↔ before = []
  fin_last : seg.header.fin = true → after = []
  seqno : seg.header.seqno = wrap (totalLength before) isn

/-- The segments `created` are pieces of the bytes `accepted`, the rest of which
is still in the stream. -/
structure Segmented (accepted : List UInt8) (created : List SentSegment)
    (s : TCPSender) : Prop where
  pieces : ∀ before seg after, created = before ++ seg :: after →
    Piece s.isn before seg after
  next : totalLength created = s.nextSeqno
  lossless : (created.flatMap fun seg => seg.payload) ++ s.stream.contents =
    accepted
  fin : (∃ seg ∈ created, seg.header.fin = true) → s.finSended = true

theorem segmented_new (capacity : ℕ) (retxTimeout : UInt16)
    (fixedIsn : Option WrappingInt32) (random : UInt32) :
    Segmented [] [] (new capacity retxTimeout fixedIsn random) where
  pieces := by simp
  next := rfl
  lossless := rfl
  fin := by simp

/-- What is not sent as a new segment does not touch the segmentation. -/
theorem Segmented.congr {accepted : List UInt8} {created : List SentSegment}
    {s s' : TCPSender} (h : Segmented accepted created s)
    (hisn : s'.isn = s.isn) (hnext : s'.nextSeqno = s.nextSeqno)
    (hcontents : s'.stream.contents = s.stream.contents)
    (hfin : s'.finSended = s.finSended) : Segmented accepted created s' where
  pieces := by
    rw [hisn]
    exact h.pieces
  next := h.next.trans hnext.symm
  lossless := by
    rw [hcontents]
    exact h.lossless
  fin := by
    rw [hfin]
    exact h.fin

theorem Segmented.write {accepted : List UInt8} {created : List SentSegment}
    {s : TCPSender} (h : Segmented accepted created s) (data : List UInt8) :
    Segmented (accepted ++ data.take (s.stream.write data).2) created
      { s with stream := (s.stream.write data).1 } where
  pieces := h.pieces
  next := h.next
  lossless := by
    rw [ByteStream.contents_write, ← List.append_assoc, h.lossless,
      ByteStream.take_write_snd]
  fin := h.fin

/-- The first sequence number is used by the first segment. -/
theorem Segmented.nextSeqno_eq_zero_iff {accepted : List UInt8}
    {created : List SentSegment} {s : TCPSender}
    (h : Segmented accepted created s) : s.nextSeqno = 0 ↔ created = [] := by
  rw [← h.next]
  constructor
  · intro htotal
    cases created with
    | nil => rfl
    | cons seg rest =>
        have hpos := (h.pieces [] seg rest rfl).pos
        rw [totalLength_cons] at htotal
        omega
  · intro hnil
    rw [hnil, totalLength_nil]

theorem Segmented.not_fin {accepted : List UInt8}
    {created : List SentSegment} {s : TCPSender}
    (h : Segmented accepted created s) (hfin : s.finSended = false)
    {seg : SentSegment} (hmem : seg ∈ created) : seg.header.fin ≠ true := by
  intro hseg
  have hsent := h.fin ⟨seg, hmem, hseg⟩
  rw [hfin] at hsent
  cases hsent

/-- One turn of the loop in `fill_window` adds one piece. -/
theorem Segmented.sendSegment {accepted : List UInt8}
    {created : List SentSegment} {s : TCPSender} {endSeqno : ℕ}
    (h : Segmented accepted created s) (hcan : s.CanSend endSeqno) :
    Segmented accepted (created ++ [s.nextSegment endSeqno])
      (s.sendSegment endSeqno) := by
  have hemits := sendSegment_spec hcan
  refine ⟨?_, ?_, ?_, ?_⟩
  · intro before seg after hsplit
    rw [hemits.isn]
    rcases List.eq_nil_or_concat after with rfl | ⟨others, last, rfl⟩
    · obtain ⟨rfl, hseg⟩ := List.append_inj' hsplit rfl
      obtain rfl := List.singleton_inj.mp hseg
      refine ⟨?_, hemits.pos, ?_, fun _ => rfl, ?_⟩
      · rw [nextSegment, length_payload, readLen]
        exact min_le_right _ _
      · rw [hemits.header, ← h.nextSeqno_eq_zero_iff]
        exact decide_eq_true_iff
      · rw [hemits.header, h.next]
    · -- an earlier segment: it carries no FIN, since the loop was entered
      rw [List.concat_eq_append, ← List.cons_append, ← List.append_assoc]
        at hsplit
      obtain ⟨hcreated, -⟩ := List.append_inj' hsplit rfl
      have hpiece := h.pieces before seg others hcreated
      refine ⟨hpiece.payload_le, hpiece.pos, hpiece.syn_iff, ?_, hpiece.seqno⟩
      intro hfin
      exact absurd hfin (h.not_fin hcan.1 (by simp [hcreated]))
  · rw [totalLength_append, h.next, hemits.nextSeqno, totalLength_cons,
      totalLength_nil, Nat.add_zero]
  · rw [← h.lossless, hemits.payload]
    simp
  · rintro ⟨seg, hmem, hfin⟩
    rcases List.mem_append.mp hmem with hold | hnew
    · exact absurd hfin (h.not_fin hcan.1 hold)
    · rw [List.mem_singleton] at hnew
      subst hnew
      rw [hemits.header] at hfin
      exact hfin

/-- The loop adds the pieces that it puts on the queue. -/
theorem Segmented.fillLoop {accepted : List UInt8}
    {created : List SentSegment} {s : TCPSender}
    (h : Segmented accepted created s) (endSeqno fuel : ℕ) :
    ∃ segs, (fillLoop endSeqno fuel s).segmentsOut = s.segmentsOut ++ segs ∧
      Segmented accepted (created ++ segs) (fillLoop endSeqno fuel s) := by
  induction fuel generalizing s created with
  | zero =>
      refine ⟨[], by simp [TCPSender.fillLoop], ?_⟩
      rw [List.append_nil]
      exact h
  | succ fuel ih =>
      rw [TCPSender.fillLoop]
      by_cases hcan : s.CanSend endSeqno
      · obtain ⟨segs, hout, hsegs⟩ := ih (h.sendSegment hcan)
        refine ⟨s.nextSegment endSeqno :: segs, ?_, ?_⟩
        · rw [if_pos hcan, hout, (sendSegment_spec hcan).segmentsOut]
          simp
        · rw [if_pos hcan]
          simpa using hsegs
      · refine ⟨[], ?_, ?_⟩
        · rw [if_neg hcan, List.append_nil]
        · rw [if_neg hcan, List.append_nil]
          exact h

namespace Session

theorem segmented_step {s : Session}
    (h : Segmented s.accepted s.created s.sender) (op : Op) :
    Segmented (s.step op).accepted (s.step op).created
      (s.step op).sender := by
  cases op with
  | write data => exact h.write data
  | endInput => exact h.congr rfl rfl rfl rfl
  | fillWindow =>
      obtain ⟨segs, hout, hsegs⟩ := h.fillLoop s.sender.endSeqno
        (s.sender.endSeqno - s.sender.nextSeqno)
      simp only [step, fillWindow, hout, List.drop_left]
      exact hsegs
  | ackReceived ackno windowSize =>
      obtain ⟨hnext, hstream, hfin, -, hisn⟩ :=
        s.sender.ackReceived_unchanged ackno windowSize
      rw [step_ackReceived]
      exact h.congr hisn hnext (by rw [hstream]) hfin
  | tick ms =>
      obtain ⟨timer, again, heq, -⟩ := s.sender.tick_spec ms
      simp only [step, heq]
      exact h.congr rfl rfl rfl rfl
  | sendEmptySegment => exact h.congr rfl rfl rfl rfl
  | transmit => exact h.congr rfl rfl rfl rfl

theorem segmented_run (capacity : ℕ) (retxTimeout : UInt16)
    (fixedIsn : Option WrappingInt32) (random : UInt32) (ops : List Op) :
    let s := run capacity retxTimeout fixedIsn random ops
    Segmented s.accepted s.created s.sender :=
  foldl_invariant
    (I := fun s : Session => Segmented s.accepted s.created s.sender)
    (fun _ op hs => segmented_step hs op) ops
    (segmented_new capacity retxTimeout fixedIsn random)

/-- **Segmentation is lossless.**  In every run, each segment that `fill_window`
made carries at most `MAX_PAYLOAD_SIZE` bytes and occupies a sequence number; the
first and no other carries the SYN, a FIN is on the last one only, and the
sequence number counts what was sent before; and the payloads, followed by what
is still in the stream, are the bytes that the stream accepted. -/
theorem segmentation_lossless (capacity : ℕ) (retxTimeout : UInt16)
    (fixedIsn : Option WrappingInt32) (random : UInt32) (ops : List Op) :
    let s := run capacity retxTimeout fixedIsn random ops
    (∀ before seg after, s.created = before ++ seg :: after →
      seg.payload.length ≤ TCPConfig.maxPayloadSize ∧
        0 < seg.lengthInSequenceSpace ∧
        (seg.header.syn = true ↔ before = []) ∧
        (seg.header.fin = true → after = []) ∧
        seg.header.seqno = wrap (totalLength before) s.sender.isn) ∧
      (s.created.flatMap fun seg => seg.payload) ++ s.sender.stream.contents =
        s.accepted := by
  intro s
  have h := segmented_run capacity retxTimeout fixedIsn random ops
  refine ⟨?_, h.lossless⟩
  intro before seg after hsplit
  have hpiece := h.pieces before seg after hsplit
  exact ⟨hpiece.payload_le, hpiece.pos, hpiece.syn_iff, hpiece.fin_last,
    hpiece.seqno⟩

end Session
end TCPSender
end Sponge
