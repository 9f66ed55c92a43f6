import Sponge.TCPReceiver.Session

/-!
# The receive window

The end of the window is `_ackno + window_size()`.  It depends on how much was
read and on whether the stream has ended, and on nothing else, once a SYN has
been accepted; with a capacity of at least one byte the first SYN always is.
-/

namespace Sponge
namespace TCPReceiver
namespace Session

open Support

/-- Before the first SYN nothing is acknowledged or assembled, and afterwards
something is. -/
def Opened (s : Session) : Prop :=
  (s.receiver.synArrived = true ∧ 0 < s.receiver.ackno) ∨
    (s.receiver.synArrived = false ∧ s.receiver.ackno = 0 ∧
      s.receiver.reassembler.nidx = 0)

theorem opened_new (capacity : ℕ) : (new capacity).Opened :=
  Or.inr ⟨rfl, rfl, rfl⟩

/-- A receiver that was not opened has its whole window left. -/
theorem Valid.windowSize_of_nidx {capacity : ℕ} {s : Session}
    (h : s.Valid capacity) (hnidx : s.receiver.reassembler.nidx = 0) :
    s.receiver.windowSize = capacity := by
  have hheld := h.stream.nidx
  simp only [Session.stream, hnidx] at hheld
  rw [windowSize, h.capacity_eq, ByteStream.bufferSize_eq, streamOut]
  omega

/-- The first SYN has the absolute sequence number 0, which lies in every
window that is not empty. -/
theorem Valid.streamIndex?_first {capacity : ℕ} {s : Session}
    (h : s.Valid capacity) (hcapacity : 1 ≤ capacity)
    (hackno : s.receiver.ackno = 0)
    (hnidx : s.receiver.reassembler.nidx = 0) {seg : TCPSegment}
    (hsyn : seg.header.syn = true) :
    (s.receiver.noteSyn seg).streamIndex? seg = some 0 := by
  have hzero : unwrap seg.header.seqno seg.header.seqno 0 = 0 := by
    have hwrap := unwrap_wrap (a := 0) seg.header.seqno
      (show Near 0 0 by decide)
    rwa [wrap_zero] at hwrap
  have hisn : (s.receiver.noteSyn seg).isn = seg.header.seqno := by
    simp [noteSyn, hsyn]
  have harrived : (s.receiver.noteSyn seg).synArrived = true := by
    simp [noteSyn, hsyn]
  rw [streamIndex?_eq_some, hisn, ackno_noteSyn, hackno, hzero,
    windowSize_noteSyn, h.windowSize_of_nidx hnidx]
  refine ⟨harrived, ?_, by omega, by simp [hsyn]⟩
  intro hnot
  rw [hsyn] at hnot
  cases hnot

theorem Opened.step {capacity : ℕ} {s : Session} (hopened : s.Opened)
    (h : s.Valid capacity) (hcapacity : 1 ≤ capacity) (event : Event) :
    (s.step event).Opened := by
  cases event with
  | read len => exact hopened
  | popOutput len => exact hopened
  | segment seg =>
      rcases s.receiver.segmentReceived_cases seg with
        ⟨hnone, hseg⟩ | ⟨index, -, hsyn, hseg⟩
      · rcases hopened with ⟨harrived, hpos⟩ | ⟨harrived, hackno, hnidx⟩
        · left
          simp only [Session.step, hseg, ackno_noteSyn]
          refine ⟨?_, hpos⟩
          unfold noteSyn
          split
          · rfl
          · exact harrived
        · -- a dropped segment was not the first SYN
          have hflag : seg.header.syn = false := by
            by_contra hnot
            have hfirst := h.streamIndex?_first hcapacity hackno hnidx
              (Bool.eq_true_of_not_eq_false hnot)
            rw [hnone] at hfirst
            cases hfirst
          right
          simp only [Session.step, hseg, noteSyn, hflag, Bool.false_eq_true,
            if_false]
          exact ⟨harrived, hackno, hnidx⟩
      · left
        simp only [Session.step, hseg]
        exact ⟨hsyn, by omega⟩

theorem opened_run {capacity : ℕ} (hcapacity : 1 ≤ capacity)
    (events : List Event) :
    (run capacity events).Valid capacity ∧ (run capacity events).Opened :=
  foldl_invariant
    (I := fun s : Session => s.Valid capacity ∧ s.Opened)
    (fun _ event hs => ⟨hs.1.step event, hs.2.step hs.1 hcapacity event⟩)
    events ⟨valid_new capacity, opened_new capacity⟩

/-- A SYN that was received stays so. -/
theorem synArrived_step (s : Session) (event : Event)
    (h : s.receiver.synArrived = true ∨
      ∃ seg, event = .segment seg ∧ seg.header.syn = true) :
    (s.step event).receiver.synArrived = true := by
  cases event with
  | read len =>
      rcases h with harrived | ⟨_, hevent, -⟩
      · exact harrived
      · cases hevent
  | popOutput len =>
      rcases h with harrived | ⟨_, hevent, -⟩
      · exact harrived
      · cases hevent
  | segment seg =>
      simp only [Session.step, synArrived_segmentReceived, noteSyn]
      split
      · rfl
      · rename_i hflag
        rcases h with harrived | ⟨_, hevent, hsyn⟩
        · exact harrived
        · cases hevent
          exact absurd hsyn hflag

/-- **The receive window never shrinks.**  After a SYN, in every state of every
run, the window size is a difference that does not go below zero, and the end of
the window lies one more than `capacity` after the bytes that were read, and one
more again when the stream has ended; no event moves it back. -/
theorem window_never_shrinks {capacity : ℕ} (hcapacity : 1 ≤ capacity)
    (before : List Event) {first : TCPSegment}
    (hfirst : first.header.syn = true) (after : List Event) :
    EveryState step (run capacity (before ++ [.segment first])) after
        (fun s =>
          s.receiver.streamOut.bufferSize ≤ s.receiver.capacity ∧
            s.receiver.ackno + s.receiver.windowSize =
              1 + capacity + s.consumed.length +
                s.receiver.streamOut.inputEnded.toNat) ∧
      EveryStep step (run capacity (before ++ [.segment first])) after
        fun s event =>
          s.receiver.ackno + s.receiver.windowSize ≤
            (s.step event).receiver.ackno +
              (s.step event).receiver.windowSize := by
  have hstart : (run capacity (before ++ [.segment first])).receiver.synArrived
      = true := by
    rw [run, List.foldl_append]
    exact synArrived_step _ _ (Or.inr ⟨first, rfl, hfirst⟩)
  have hrun : ∀ done, done.foldl step
      (run capacity (before ++ [.segment first])) =
        run capacity ((before ++ [.segment first]) ++ done) := by
    intro done
    exact List.foldl_append.symm
  constructor
  · intro done _
    have harrived := foldl_invariant
      (I := fun s : Session => s.receiver.synArrived = true)
      (fun s event hs => s.synArrived_step event (Or.inl hs)) done hstart
    rw [hrun] at harrived ⊢
    obtain ⟨hvalid, hopened⟩ := opened_run hcapacity
      ((before ++ [.segment first]) ++ done)
    have hpos : 0 <
        (run capacity ((before ++ [.segment first]) ++ done)).receiver.ackno := by
      rcases hopened with ⟨-, hpos⟩ | ⟨hnot, -⟩
      · exact hpos
      · rw [harrived] at hnot
        cases hnot
    have hedge := hvalid.edge_eq hpos
    rw [edge] at hedge
    refine ⟨?_, by omega⟩
    have hle := (run capacity
      ((before ++ [.segment first]) ++ done)).receiver.streamOut.sz_le
    have hcap := hvalid.wellFormed.capacity.trans hvalid.stream.capacity_eq
    rw [hvalid.capacity_eq, ByteStream.bufferSize_eq]
    exact hle.trans hcap.le
  · intro done event _
    rw [hrun]
    exact (valid_run capacity _).edge_le_step event

/-- A SYN, two bytes of which one is read, and the FIN: the window of four bytes
ends after the number 7. -/
theorem window_never_shrinks_read :
    let syn : TCPSegment := { header := { syn := true, seqno := ⟨9⟩ } }
    let data : TCPSegment :=
      { header := { seqno := ⟨10⟩, fin := true }, payload := [1, 2] }
    let s := [Event.segment data, .read 1].foldl step (run 4 [.segment syn])
    s.receiver.ackno + s.receiver.windowSize = 7 := by
  intro syn data s
  have hcapacity : 1 ≤ 4 := by decide
  have hsyn : syn.header.syn = true := rfl
  obtain ⟨hstates, -⟩ := window_never_shrinks hcapacity [] hsyn
    [.segment data, .read 1]
  exact hstates.last.2.trans (by decide)

end Session
end TCPReceiver
end Sponge
