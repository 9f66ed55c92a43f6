import Sponge.TCPReceiver.Model

/-!
# Sessions of a receiver

A session is a receiver together with the bytes that were taken from its output
stream.  Its events are arbitrary segments and the two ways of taking bytes.

The absolute acknowledgment number follows the reassembler and never decreases.
The number space it is reported in does not stay fixed: every segment with the
SYN flag sets the initial sequence number, so that all acknowledgments belong
to the first SYN exactly when every later SYN repeats its sequence number.
-/

namespace Sponge
namespace TCPReceiver

open Support

inductive Event where
  | segment (seg : TCPSegment)
  | read (len : ℕ)
  | popOutput (len : ℕ)
deriving DecidableEq

/-- A receiver and the bytes read or popped from its output so far. -/
structure Session where
  receiver : TCPReceiver
  consumed : List UInt8
deriving DecidableEq

namespace Session

def new (capacity : ℕ) : Session where
  receiver := .new capacity
  consumed := []

/-- The session of the receiver's reassembler. -/
def stream (s : Session) : StreamReassembler.Session :=
  ⟨s.receiver.reassembler, s.consumed⟩

/-- The session after an event of its reassembler that the reader caused. -/
def withStream (s : Session) (t : StreamReassembler.Session) : Session where
  receiver := { s.receiver with reassembler := t.reassembler }
  consumed := t.consumed

def step (s : Session) : Event → Session
  | .segment seg => { s with receiver := s.receiver.segmentReceived seg }
  | .read len => s.withStream (s.stream.step (.read len))
  | .popOutput len => s.withStream (s.stream.step (.popOutput len))

def run (capacity : ℕ) (events : List Event) : Session :=
  events.foldl step (new capacity)

/-- All bytes that the output stream has accepted. -/
def assembled (s : Session) : List UInt8 := s.stream.assembled

/-- What holds in every session. -/
structure Valid (capacity : ℕ) (s : Session) : Prop where
  stream : s.stream.Valid capacity
  capacity_eq : s.receiver.capacity = capacity
  ackno : (s.receiver.synArrived = true ∧
      s.receiver.ackno = s.receiver.reassembler.nidx + 1 +
        s.receiver.streamOut.inputEnded.toNat) ∨
    (s.receiver.ackno = 0 ∧ s.receiver.streamOut.inputEnded = false)

theorem valid_new (capacity : ℕ) : (new capacity).Valid capacity where
  stream := StreamReassembler.Session.valid_new capacity
  capacity_eq := rfl
  ackno := Or.inr ⟨rfl, rfl⟩

theorem capacity_step (s : Session) (event : Event) :
    (s.step event).receiver.capacity = s.receiver.capacity := by
  cases event with
  | segment seg => exact s.receiver.capacity_segmentReceived seg
  | read len => rfl
  | popOutput len => rfl

/-- Both ways of taking bytes leave the same session. -/
theorem step_read (s : Session) (len : ℕ) :
    s.step (.read len) = s.step (.popOutput len) := by
  simp only [step, StreamReassembler.Session.step_read]

variable {capacity : ℕ} {s : Session}

theorem Valid.step_popOutput (h : s.Valid capacity) (len : ℕ) :
    (s.step (.popOutput len)).Valid capacity where
  stream := h.stream.step_popOutput len
  capacity_eq := h.capacity_eq
  ackno := h.ackno

theorem Valid.wellFormed (h : s.Valid capacity) :
    s.receiver.reassembler.WellFormed :=
  h.stream.wellFormed

theorem Valid.step_segment (h : s.Valid capacity) (seg : TCPSegment) :
    (s.step (.segment seg)).Valid capacity := by
  have hcapacity := (s.capacity_step (.segment seg)).trans h.capacity_eq
  rcases s.receiver.segmentReceived_cases seg with
    ⟨-, hseg⟩ | ⟨index, -, hsyn, hseg⟩
  · refine ⟨?_, ?_, ?_⟩
    · simpa only [step, Session.stream, hseg, reassembler_noteSyn]
        using h.stream
    · exact hcapacity
    · simp only [step, hseg, reassembler_noteSyn, ackno_noteSyn,
        streamOut_noteSyn]
      rcases h.ackno with ⟨hsyn, hackno⟩ | hfresh
      · refine Or.inl ⟨?_, hackno⟩
        unfold noteSyn
        split
        · rfl
        · exact hsyn
      · exact Or.inr hfresh
  · have hstream := h.stream.step_push seg.payload index seg.header.fin
    refine ⟨?_, ?_, Or.inl ?_⟩
    · simp only [step, Session.stream, hseg]
      exact hstream
    · exact hcapacity
    · simp only [step, hseg]
      exact ⟨hsyn, rfl⟩

theorem Valid.step (h : s.Valid capacity)
    (event : Event) : (s.step event).Valid capacity := by
  cases event with
  | segment seg => exact h.step_segment seg
  | read len =>
      rw [step_read]
      exact h.step_popOutput len
  | popOutput len => exact h.step_popOutput len

theorem valid_run (capacity : ℕ) (events : List Event) :
    (run capacity events).Valid capacity :=
  foldl_invariant (fun _ event hs => hs.step event) events
    (valid_new capacity)

/-! ## What only grows -/

/-- An output that has ended stays so. -/
theorem Valid.inputEnded_step (h : s.Valid capacity) (event : Event)
    (hended : s.receiver.streamOut.inputEnded = true) :
    (s.step event).receiver.streamOut.inputEnded = true := by
  cases event with
  | read len => exact hended
  | popOutput len => exact hended
  | segment seg =>
      rcases s.receiver.segmentReceived_cases seg with
        ⟨-, hseg⟩ | ⟨index, -, -, hseg⟩
      · simp only [Session.step, hseg, streamOut_noteSyn, hended]
      · obtain ⟨w, hw⟩ := StreamReassembler.push_spec h.wellFormed
          seg.payload index seg.header.fin
        simp only [Session.step, hseg, streamOut,
          hw.inputEnded_iff.mpr (Or.inl hended)]

theorem Valid.inputEnded_le_step (h : s.Valid capacity) (event : Event) :
    s.receiver.streamOut.inputEnded.toNat ≤
      (s.step event).receiver.streamOut.inputEnded.toNat := by
  cases hended : s.receiver.streamOut.inputEnded with
  | false => exact Nat.zero_le _
  | true => rw [h.inputEnded_step event hended]

theorem Valid.nidx_le_step (h : s.Valid capacity) (event : Event) :
    s.receiver.reassembler.nidx ≤
      (s.step event).receiver.reassembler.nidx := by
  cases event with
  | read len => exact le_rfl
  | popOutput len => exact le_rfl
  | segment seg =>
      rcases s.receiver.segmentReceived_cases seg with
        ⟨-, hseg⟩ | ⟨index, -, -, hseg⟩
      · simp only [Session.step, hseg, reassembler_noteSyn, le_refl]
      · obtain ⟨w, hw⟩ := StreamReassembler.push_spec h.wellFormed
          seg.payload index seg.header.fin
        simp only [Session.step, hseg, hw.nidx]
        omega

/-- No event lowers the absolute acknowledgment number. -/
theorem Valid.ackno_le_step (h : s.Valid capacity) (event : Event) :
    s.receiver.ackno ≤ (s.step event).receiver.ackno := by
  have hnidx := h.nidx_le_step event
  have hended := h.inputEnded_le_step event
  cases event with
  | read len => exact le_rfl
  | popOutput len => exact le_rfl
  | segment seg =>
      rcases s.receiver.segmentReceived_cases seg with
        ⟨-, hseg⟩ | ⟨index, -, -, hseg⟩
      · simp only [Session.step, hseg, ackno_noteSyn, le_refl]
      · simp only [Session.step, hseg, streamOut] at hnidx hended ⊢
        rcases h.ackno with ⟨-, hackno⟩ | ⟨hzero, -⟩
        · simp only [streamOut] at hackno
          omega
        · omega

theorem consumed_le_step (s : Session) (event : Event) :
    s.consumed.length ≤ (s.step event).consumed.length := by
  cases event with
  | segment seg => exact le_rfl
  | read len => simp [step, withStream, stream, StreamReassembler.Session.step]
  | popOutput len =>
      simp [step, withStream, stream, StreamReassembler.Session.step]

/-- The window ends `capacity` bytes after what was read. -/
theorem Valid.edge_eq (h : s.Valid capacity)
    (hpos : 0 < s.receiver.ackno) :
    s.receiver.edge = s.consumed.length + capacity + 1 +
      s.receiver.streamOut.inputEnded.toNat := by
  have hackno := h.ackno
  have hnidx := h.stream.nidx
  have hcap := h.wellFormed.capacity.trans h.stream.capacity_eq
  have hcapacity := h.capacity_eq
  have hle := s.receiver.streamOut.sz_le
  simp only [Session.stream] at hnidx hcap
  simp only [edge, windowSize, ByteStream.bufferSize_eq, streamOut] at *
  omega

theorem edge_le_step_popOutput (s : Session) (len : ℕ) :
    s.receiver.edge ≤ (s.step (.popOutput len)).receiver.edge := by
  simp only [step, withStream, stream, StreamReassembler.Session.step, edge,
    windowSize, streamOut, ByteStream.bufferSize_eq, ByteStream.sz_popOutput]
  omega

/-- No event moves the end of the window back. -/
theorem Valid.edge_le_step (h : s.Valid capacity) (event : Event) :
    s.receiver.edge ≤ (s.step event).receiver.edge := by
  rcases Nat.eq_zero_or_pos (s.step event).receiver.ackno with hzero | hpos
  · -- nothing was passed to the reassembler
    cases event with
    | read len =>
        rw [step_read]
        exact s.edge_le_step_popOutput len
    | popOutput len => exact s.edge_le_step_popOutput len
    | segment seg =>
        rcases s.receiver.segmentReceived_cases seg with
          ⟨-, hseg⟩ | ⟨index, -, -, hseg⟩
        · simp only [Session.step, hseg, edge, ackno_noteSyn,
            windowSize_noteSyn, le_refl]
        · simp only [Session.step, hseg] at hzero
          omega
  · have hedge := (h.step event).edge_eq hpos
    have hended := h.inputEnded_le_step event
    have hconsumed := s.consumed_le_step event
    rcases Nat.eq_zero_or_pos s.receiver.ackno with hfresh | hold
    · have hsmall : s.receiver.windowSize ≤ capacity := by
        rw [windowSize, h.capacity_eq]
        exact Nat.sub_le _ _
      rw [edge, hfresh]
      omega
    · rw [h.edge_eq hold]
      omega

/-! ## The number space of the acknowledgments -/

/-- The segment is not a SYN with a sequence number other than `x`. -/
def KeepsIsn (x : WrappingInt32) : Event → Prop
  | .segment seg => seg.header.syn = true → seg.header.seqno = x
  | _ => True

instance (x : WrappingInt32) (event : Event) :
    Decidable (KeepsIsn x event) := by
  cases event <;> dsimp only [KeepsIsn] <;> infer_instance

/-- The receiver has seen a SYN, and the last one carried `x`. -/
def Numbered (x : WrappingInt32) (s : Session) : Prop :=
  s.receiver.synArrived = true ∧ s.receiver.isn = x

theorem Numbered.ackno? {x : WrappingInt32} {s : Session}
    (h : s.Numbered x) :
    s.receiver.ackno? = some (wrap s.receiver.ackno x) := by
  simp [TCPReceiver.ackno?, h.1, h.2]

theorem numbered_step_syn (s : Session) {seg : TCPSegment}
    (hsyn : seg.header.syn = true) :
    (s.step (.segment seg)).Numbered seg.header.seqno := by
  simp [Numbered, step, noteSyn, hsyn]

theorem Numbered.step {x : WrappingInt32} {s : Session} (h : s.Numbered x)
    {event : Event} (hkeeps : KeepsIsn x event) :
    (s.step event).Numbered x := by
  cases event with
  | read len => exact h
  | popOutput len => exact h
  | segment seg =>
      cases hsyn : seg.header.syn with
      | true =>
          have hstep := s.numbered_step_syn hsyn
          rwa [hkeeps hsyn] at hstep
      | false =>
          simpa [Numbered, Session.step, noteSyn, hsyn] using h

/-- **The numbering belongs to the first SYN exactly when no later SYN changes
it.**  After a SYN with sequence number `x`, `ackno()` is `wrap(_ackno, x)` in
every state and `_ackno` never decreases, if and only if every later segment
with the SYN flag carries the sequence number `x` as well. -/
theorem ackno_eq_wrap_iff (capacity : ℕ) (before : List Event)
    {first : TCPSegment} (hfirst : first.header.syn = true)
    (after : List Event) :
    (EveryState step (run capacity (before ++ [.segment first])) after
        (fun s => s.receiver.ackno? =
          some (wrap s.receiver.ackno first.header.seqno)) ∧
      EveryStep step (run capacity (before ++ [.segment first])) after
        fun s event => s.receiver.ackno ≤ (s.step event).receiver.ackno) ↔
      ∀ seg, Event.segment seg ∈ after → seg.header.syn = true →
        seg.header.seqno = first.header.seqno := by
  have hstart : (run capacity (before ++ [.segment first])).Numbered
      first.header.seqno := by
    rw [run, List.foldl_append]
    exact numbered_step_syn _ hfirst
  have hmono : EveryStep step (run capacity (before ++ [.segment first]))
      after fun s event => s.receiver.ackno ≤ (s.step event).receiver.ackno := by
    intro done event _
    have hvalid := valid_run capacity ((before ++ [.segment first]) ++ done)
    rw [run, List.foldl_append] at hvalid
    exact hvalid.ackno_le_step event
  have hiff : EveryState step (run capacity (before ++ [.segment first]))
      after (fun s => s.receiver.ackno? =
        some (wrap s.receiver.ackno first.header.seqno)) ↔
      EveryStep step (run capacity (before ++ [.segment first])) after
        fun _ event => KeepsIsn first.header.seqno event := by
    apply everyState_iff_everyStep (I := Numbered first.header.seqno)
    · intro s event hs hkeeps
      exact hs.step hkeeps
    · intro s hs
      exact hs.ackno?
    · intro s event hs hchanges hackno
      cases event with
      | read len => exact hchanges trivial
      | popOutput len => exact hchanges trivial
      | segment seg =>
          simp only [KeepsIsn, Classical.not_imp] at hchanges
          rw [(s.numbered_step_syn hchanges.1).ackno?] at hackno
          exact hchanges.2
            (wrap_left_injective _ (Option.some.inj hackno))
    · exact hstart
  rw [and_iff_left hmono, hiff, everyStep_iff_forall_mem]
  constructor
  · intro h seg hmem
    exact h (.segment seg) hmem
  · intro h event hmem
    cases event with
    | segment seg => exact h seg hmem
    | read len => trivial
    | popOutput len => trivial

/-- A repeated SYN keeps the numbering. -/
theorem ackno_eq_wrap_repeated :
    let syn : TCPSegment := { header := { syn := true, seqno := ⟨7⟩ } }
    EveryState step (run 10 [.segment syn])
      [.segment syn, .segment { header := { seqno := ⟨8⟩ }, payload := [1] }]
      (fun s => s.receiver.ackno? = some (wrap s.receiver.ackno ⟨7⟩)) := by
  intro syn
  have hfirst : syn.header.syn = true := rfl
  refine ((ackno_eq_wrap_iff 10 [] hfirst _).mpr ?_).1
  intro seg hmem hsyn
  rcases List.mem_cons.mp hmem with hseg | hmem
  · cases hseg
    rfl
  · cases List.mem_singleton.mp hmem
    cases hsyn

/-- A second SYN with another sequence number: the receiver that acknowledged
1 reports 6 for the same absolute number. -/
theorem ackno_ne_wrap_second_syn :
    let first : TCPSegment := { header := { syn := true, seqno := ⟨0⟩ } }
    let second : TCPSegment := { header := { syn := true, seqno := ⟨5⟩ } }
    let s := run 10 [.segment first, .segment second]
    s.receiver.ackno = 1 ∧ s.receiver.ackno? = some ⟨6⟩ ∧
      s.receiver.ackno? ≠
        some (wrap s.receiver.ackno first.header.seqno) := by
  decide

end Session
end TCPReceiver
end Sponge
