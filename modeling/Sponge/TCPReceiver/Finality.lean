import Sponge.TCPReceiver.Session

/-!
# The end of the inbound stream

Neither the receiver nor the reassembler nor the byte stream refuses data once
the stream has ended.  The FIN occupies the sequence number after the last
byte, and a payload byte with that number is the byte the reassembler waits
for: it is written to the ended stream.  Segments without such a byte change
nothing.
-/

namespace Sponge
namespace TCPReceiver

open Support

namespace Session

/-- From `s` to `t` nothing was added to the stream, the acknowledgment number
stayed, and the end of the stream was not lost. -/
structure SameStream (s t : Session) : Prop where
  assembled : t.assembled = s.assembled
  ackno : t.receiver.ackno = s.receiver.ackno
  eof : s.receiver.streamOut.eof = true → t.receiver.streamOut.eof = true

theorem SameStream.refl (s : Session) : SameStream s s :=
  ⟨rfl, rfl, id⟩

theorem SameStream.trans {s t u : Session} (h₁ : SameStream s t)
    (h₂ : SameStream t u) : SameStream s u where
  assembled := h₂.assembled.trans h₁.assembled
  ackno := h₂.ackno.trans h₁.ackno
  eof := fun heof => h₂.eof (h₁.eof heof)

/-- The segment carries a payload byte with the sequence number before the
acknowledgment number, which is that of the FIN once the stream has ended, and
there is room for it. -/
def CarriesPastEnd (s : Session) : Event → Prop
  | .segment seg =>
      let idx := unwrap seg.header.seqno s.receiver.isn s.receiver.ackno
      idx ≠ 0 ∧ idx < s.receiver.ackno ∧
        s.receiver.ackno ≤ idx + seg.payload.length ∧
        0 < s.receiver.windowSize
  | _ => False

instance (s : Session) :
    (event : Event) → Decidable (s.CarriesPastEnd event)
  | .segment _ => inferInstanceAs (Decidable (_ ∧ _))
  | .read _ => inferInstanceAs (Decidable False)
  | .popOutput _ => inferInstanceAs (Decidable False)

/-- The event is not a segment with the SYN flag. -/
def NoSyn : Event → Prop
  | .segment seg => seg.header.syn = false
  | _ => True

instance : (event : Event) → Decidable (NoSyn event)
  | .segment _ => inferInstanceAs (Decidable (_ = _))
  | .read _ => inferInstanceAs (Decidable True)
  | .popOutput _ => inferInstanceAs (Decidable True)

/-- Sessions whose stream has ended. -/
structure Ended (capacity : ℕ) (s : Session) : Prop
    extends Valid capacity s where
  ended : s.receiver.streamOut.inputEnded = true

theorem Ended.synArrived {capacity : ℕ} {s : Session} (h : s.Ended capacity) :
    s.receiver.synArrived = true ∧
      s.receiver.ackno = s.receiver.reassembler.nidx + 2 := by
  rcases h.ackno with ⟨hsyn, hackno⟩ | ⟨-, hfalse⟩
  · rw [h.ended] at hackno
    exact ⟨hsyn, hackno⟩
  · rw [h.ended] at hfalse
    cases hfalse

/-! ## Steps of an ended session -/

theorem Ended.step_popOutput {capacity : ℕ} {s : Session}
    (h : s.Ended capacity) (len : ℕ) :
    (s.step (.popOutput len)).Ended capacity ∧
      SameStream s (s.step (.popOutput len)) := by
  refine ⟨⟨h.toValid.step_popOutput len, h.ended⟩, ?_, rfl, ?_⟩
  · exact s.stream.assembled_step_popOutput len
  · intro heof
    have hbefore := ByteStream.eof_iff.mp heof
    refine ByteStream.eof_iff.mpr ⟨hbefore.1, ?_⟩
    simp only [step, withStream, StreamReassembler.Session.step, streamOut,
      Session.stream, ByteStream.sz_popOutput]
    simp only [streamOut] at hbefore
    omega

/-- A segment without the SYN flag is dropped or passed to the reassembler. -/
theorem segmentReceived_of_noSyn {r : TCPReceiver} {seg : TCPSegment}
    (hsyn : seg.header.syn = false) :
    (r.streamIndex? seg = none ∧ r.segmentReceived seg = r) ∨
      ∃ index, r.streamIndex? seg = some index ∧
        r.segmentReceived seg =
          { r with
            reassembler := r.reassembler.push seg.payload index seg.header.fin
            ackno :=
              (r.reassembler.push seg.payload index seg.header.fin).nidx + 1 +
                (r.reassembler.push seg.payload index
                  seg.header.fin).output.inputEnded.toNat } := by
  have hnote : r.noteSyn seg = r := by simp [noteSyn, hsyn]
  have hcases := r.segmentReceived_cases seg
  rw [hnote] at hcases
  rcases hcases with hdropped | ⟨index, hindex, -, hseg⟩
  · exact Or.inl hdropped
  · exact Or.inr ⟨index, hindex, hseg⟩

/-- In an ended session the segment is passed on and carries the byte that the
reassembler waits for exactly when it reaches past the end. -/
theorem Ended.carriesPastEnd_iff {capacity : ℕ} {s : Session}
    (h : s.Ended capacity) {seg : TCPSegment}
    (hsyn : seg.header.syn = false) :
    s.CarriesPastEnd (.segment seg) ↔
      ∃ index, s.receiver.streamIndex? seg = some index ∧
        index ≤ s.receiver.reassembler.nidx ∧
        s.receiver.reassembler.nidx < index + seg.payload.length ∧
        s.receiver.reassembler.output.sz <
          s.receiver.reassembler.output.capacity := by
  obtain ⟨harrived, hackno⟩ := h.synArrived
  have hroom : 0 < s.receiver.windowSize ↔
      s.receiver.reassembler.output.sz <
        s.receiver.reassembler.output.capacity := by
    rw [h.wellFormed.capacity, windowSize, h.capacity_eq,
      ← h.stream.capacity_eq, Nat.sub_pos_iff_lt]
    rfl
  obtain ⟨idx, hidx⟩ : ∃ idx, unwrap seg.header.seqno s.receiver.isn
      s.receiver.ackno = idx := ⟨_, rfl⟩
  simp only [streamIndex?_eq_some, CarriesPastEnd, hidx, hsyn, hroom,
    Bool.toNat_false, Nat.add_zero, true_imp_iff]
  constructor
  · rintro ⟨hzero, hlt, hle, hsz⟩
    exact ⟨idx - 1, ⟨harrived, hzero, by omega, rfl⟩, by omega,
      by omega, hsz⟩
  · rintro ⟨index, ⟨-, hzero, -, rfl⟩, hle, hlt, hsz⟩
    exact ⟨hzero, by omega, by omega, hsz⟩

theorem Ended.step_segment {capacity : ℕ} {s : Session}
    (h : s.Ended capacity) {seg : TCPSegment}
    (hsyn : seg.header.syn = false)
    (hpast : ¬s.CarriesPastEnd (.segment seg)) :
    (s.step (.segment seg)).Ended capacity ∧
      SameStream s (s.step (.segment seg)) := by
  have hvalid := h.toValid.step_segment seg
  obtain ⟨-, hackno⟩ := h.synArrived
  rcases segmentReceived_of_noSyn (r := s.receiver) hsyn with
    ⟨-, hseg⟩ | ⟨index, hindex, hseg⟩
  · have hstep : s.step (.segment seg) = s := by simp only [step, hseg]
    rw [hstep]
    exact ⟨h, SameStream.refl s⟩
  · obtain ⟨w, hw⟩ := StreamReassembler.push_spec h.wellFormed seg.payload
      index seg.header.fin
    have hended := hw.inputEnded_iff.mpr (Or.inl h.ended)
    have hnidx : ¬s.receiver.reassembler.nidx <
        (s.receiver.reassembler.push seg.payload index
          seg.header.fin).nidx := by
      rw [hw.nidx_lt_iff h.wellFormed]
      intro hnext
      exact hpast ((h.carriesPastEnd_iff hsyn).mpr ⟨index, hindex, hnext⟩)
    have hsame := hw.nidx
    obtain rfl : w = [] := List.length_eq_zero_iff.mp (by omega)
    refine ⟨⟨hvalid, ?_⟩, ?_, ?_, ?_⟩
    · simp only [step, hseg, streamOut]
      exact hended
    · simp only [Session.assembled, StreamReassembler.Session.assembled,
        Session.stream, step, hseg, hw.contents, List.append_nil]
    · simp only [step, hseg, hended, Bool.toNat_true, hsame, hackno,
        List.length_nil]
    · intro heof
      have hbefore := ByteStream.eof_iff.mp heof
      have hsz := hw.sz
      simp only [step, hseg, streamOut]
      simp only [streamOut, List.length_nil, Nat.add_zero] at hbefore hsz
      exact ByteStream.eof_iff.mpr ⟨hended, hsz.trans hbefore.2⟩

/-- A segment that reaches past the end is written to the ended stream and
moves the acknowledgment number. -/
theorem Ended.ackno_lt {capacity : ℕ} {s : Session} (h : s.Ended capacity)
    {seg : TCPSegment} (hsyn : seg.header.syn = false)
    (hpast : s.CarriesPastEnd (.segment seg)) :
    s.receiver.ackno < (s.step (.segment seg)).receiver.ackno := by
  obtain ⟨-, hackno⟩ := h.synArrived
  obtain ⟨index, hindex, hnext⟩ := (h.carriesPastEnd_iff hsyn).mp hpast
  rcases segmentReceived_of_noSyn (r := s.receiver) hsyn with
    ⟨hnone, -⟩ | ⟨index', hindex', hseg⟩
  · rw [hnone] at hindex
    cases hindex
  · obtain rfl := Option.some.inj (hindex.symm.trans hindex')
    obtain ⟨w, hw⟩ := StreamReassembler.push_spec h.wellFormed seg.payload
      index seg.header.fin
    have hnidx := (hw.nidx_lt_iff h.wellFormed).mpr hnext
    have hended := hw.inputEnded_iff.mpr (Or.inl h.ended)
    simp only [step, hseg, hended, Bool.toNat_true]
    omega

/-! ## Runs of an ended session -/

theorem Ended.step {capacity : ℕ} {s : Session} (h : s.Ended capacity)
    {event : Event} (hsyn : NoSyn event) (hpast : ¬s.CarriesPastEnd event) :
    (s.step event).Ended capacity ∧ SameStream s (s.step event) := by
  cases event with
  | segment seg => exact h.step_segment hsyn hpast
  | read len =>
      rw [step_read]
      exact h.step_popOutput len
  | popOutput len => exact h.step_popOutput len

/-- **The FIN is final exactly when no segment carries a byte past it.**  From a
state in which the stream has ended, through any segments without SYN and any
reads, the bytes accepted into the stream (read and still to be read), the
acknowledgment number and the end of the stream stay as they are in every state,
if and only if no segment carries a payload byte at the sequence number of the
FIN while there is room in the window. -/
theorem fin_final_iff (capacity : ℕ) (before after : List Event)
    (hended :
      (run capacity before).receiver.streamOut.inputEnded = true)
    (hsyn : ∀ event ∈ after, NoSyn event) :
    EveryState step (run capacity before) after
        (SameStream (run capacity before)) ↔
      EveryStep step (run capacity before) after
        fun s event => ¬s.CarriesPastEnd event := by
  apply EveryStep.everyState_iff
    (I := fun s => s.Ended capacity ∧ SameStream (run capacity before) s)
    (G := fun _ event => NoSyn event)
  · rintro s event ⟨h, hsame⟩ hevent hpast
    obtain ⟨hnext, hstep⟩ := h.step hevent hpast
    exact ⟨hnext, hsame.trans hstep⟩
  · rintro s ⟨-, hsame⟩
    exact hsame
  · rintro s event ⟨h, hsame⟩ hevent hpast hafter
    cases event with
    | segment seg =>
        have hlt := h.ackno_lt hevent (not_not.mp hpast)
        rw [hafter.ackno, hsame.ackno] at hlt
        exact lt_irrefl _ hlt
    | read len => exact hpast id
    | popOutput len => exact hpast id
  · exact ⟨⟨valid_run capacity before, hended⟩, SameStream.refl _⟩
  · exact everyStep_iff_forall_mem.mpr hsyn

/-- SYN, then one byte with FIN; the retransmitted last segment changes
nothing. -/
theorem fin_final_retransmission :
    let syn : TCPSegment := { header := { syn := true } }
    let last : TCPSegment :=
      { header := { seqno := ⟨1⟩, fin := true }, payload := [5] }
    let s := run 4 [.segment syn, .segment last]
    SameStream s (s.step (.segment last)) := by
  intro syn last s
  have h := (fin_final_iff 4 [.segment syn, .segment last] [.segment last]
    (by decide) (by decide)).mpr (by decide)
  exact h.last

/-- SYN, then an empty segment with FIN; a byte sent at the number of the FIN is
then accepted, the acknowledgment number moves, and the stream is no longer at
its end. -/
theorem fin_not_final :
    let syn : TCPSegment := { header := { syn := true } }
    let fin : TCPSegment := { header := { seqno := ⟨1⟩, fin := true } }
    let late : TCPSegment := { header := { seqno := ⟨1⟩ }, payload := [7] }
    let s := run 4 [.segment syn, .segment fin]
    let t := s.step (.segment late)
    s.receiver.streamOut.eof = true ∧ s.assembled = [] ∧
      s.receiver.ackno = 2 ∧ t.assembled = [7] ∧ t.receiver.ackno = 3 ∧
      t.receiver.streamOut.eof = false := by
  decide

end Session
end TCPReceiver
end Sponge
