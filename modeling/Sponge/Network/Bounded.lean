import Sponge.Network.Safety

/-!
# Short streams

As long as fewer bytes are written at each end than there are in half the 32-bit
range, every number on the wire is close to the number against which it will be
unwrapped, whatever the network loses, repeats and reorders.  So the joint
invariant, and with it the safety of the streams, holds in every run.
-/

namespace Sponge

open Support

/-! ## What only grows at an endpoint -/

namespace TCPReceiver

theorem error_segmentReceived (r : TCPReceiver) (seg : TCPSegment) :
    (r.segmentReceived seg).streamOut.error = r.streamOut.error := by
  rcases r.segmentReceived_cases seg with ⟨-, hseg⟩ | ⟨index, -, -, hseg⟩
  · rw [hseg, streamOut_noteSyn]
  · rw [hseg]
    exact StreamReassembler.error_push _ _ _ _

/-- The bytes taken from the stream of a session only grow in number, and its
error does not change. -/
theorem Session.grows_step (s : Session) (event : Event) :
    s.consumed <+: (s.step event).consumed ∧
      (s.step event).receiver.streamOut.error =
        s.receiver.streamOut.error := by
  cases event with
  | segment seg =>
      exact ⟨List.prefix_refl _, s.receiver.error_segmentReceived seg⟩
  | read len =>
      rw [step_read]
      exact ⟨List.prefix_append _ _, rfl⟩
  | popOutput len => exact ⟨List.prefix_append _ _, rfl⟩

end TCPReceiver

namespace Endpoint

theorem accepted_isPrefix_step (e : Endpoint) (event : Event) :
    e.accepted <+: (e.step event).accepted := by
  cases event with
  | receive seg => exact List.prefix_refl _
  | act op =>
      cases op with
      | write data => exact List.prefix_append _ _
      | transmit =>
          simp only [step, act]
          split <;> exact List.prefix_refl _
      | connect | endInputStream | tick _ | read _ | popOutput _ =>
          exact List.prefix_refl _

theorem consumed_isPrefix_step (e : Endpoint) (event : Event) :
    e.consumed <+: (e.step event).consumed := by
  change e.inbound.consumed <+: (e.step event).inbound.consumed
  rcases e.inbound_step event with ⟨event', hstep⟩ | hsame | hmarked
  · rw [hstep]
    exact (e.inbound.grows_step event').1
  · rw [hsame]
  · rw [hmarked]

/-- A mark of a reset stays. -/
theorem error_step {e : Endpoint} (h : e.conn.inboundStream.error = true)
    (event : Event) : (e.step event).conn.inboundStream.error = true := by
  change (e.step event).inbound.receiver.streamOut.error = true
  rcases e.inbound_step event with ⟨event', hstep⟩ | hsame | hmarked
  · rw [hstep]
    exact (e.inbound.grows_step event').2.trans h
  · rw [hsame]
    exact h
  · rw [hmarked]
    rfl

end Endpoint

namespace Network

/-- At each end the SYN, the bytes and the FIN fit into half the 32-bit
range. -/
def Short (n : Network) : Prop :=
  ∀ side, (n side).accepted.length + 2 < 2 ^ 31

instance (n : Network) : Decidable n.Short :=
  decidable_of_iff
    ((n .a).accepted.length + 2 < 2 ^ 31 ∧ (n .b).accepted.length + 2 < 2 ^ 31)
    ⟨fun h side => match side with
      | .a => h.1
      | .b => h.2, fun h => ⟨h .a, h .b⟩⟩

/-- A step of the network is a step of one end, or nothing. -/
theorem step_eq_update (n : Network) (event : Event) :
    n.step event = n ∨ ∃ side event',
      n.step event = Function.update n side ((n side).step event') := by
  rcases n.step_cases event with
    hsame | ⟨side, op, -, hstep⟩ | ⟨side, k, seg, -, -, hstep⟩
  · exact Or.inl hsame
  · exact Or.inr ⟨side, .act op, hstep⟩
  · exact Or.inr ⟨side, .receive seg.toTCPSegment, hstep⟩

/-- The invariant rule for a property of one end that every step of it keeps. -/
theorem step_at {I : Endpoint → Prop}
    (hI : ∀ e event, I e → I (e.step event)) {n : Network} {side : Side}
    (h : I (n side)) (event : Event) : I (n.step event side) := by
  rcases n.step_eq_update event with hsame | ⟨x, event', hstep⟩
  · rw [hsame]
    exact h
  · rw [hstep]
    by_cases hside : side = x
    · subst hside
      rw [Function.update_self]
      exact hI _ event' h
    · rw [Function.update_of_ne hside]
      exact h

theorem accepted_isPrefix_step (n : Network) (event : Event) (side : Side) :
    (n side).accepted <+: (n.step event side).accepted :=
  step_at (I := fun e => (n side).accepted <+: e.accepted)
    (fun e event' h => h.trans (e.accepted_isPrefix_step event'))
    (List.prefix_refl _) event

/-- What is short at the end was short before. -/
theorem Short.of_step {n : Network} {event : Event}
    (h : (n.step event).Short) : n.Short := by
  intro side
  have hle := (n.accepted_isPrefix_step event side).length_le
  have hshort := h side
  omega

/-- The SYN, the accepted bytes and the FIN are all that can have been sent. -/
theorem next_le {accepted : List UInt8} {o : Outgoing} {s : TCPSender}
    (h : s.Sending accepted o) : o.next ≤ accepted.length + 2 := by
  have hpayload : o.payload.length ≤ accepted.length := by
    rw [← h.contents, List.length_append]
    exact Nat.le_add_right _ _
  have hsyn := Bool.toNat_le o.syn
  have hfin := Bool.toNat_le o.fin
  unfold Outgoing.next
  omega

/-- In a short exchange no number is far from the one it is unwrapped
against. -/
theorem Joined.deliversNear {cfg : Side → TCPConfig} {n : Network}
    (h : Joined cfg n) (hshort : n.Short) (event : Event) :
    n.DeliversNear event := by
  obtain ⟨o, h⟩ := h
  cases event with
  | act side op => trivial
  | deliver side k =>
      intro seg hseg
      have hlegit := legit_of_wire h hseg
      have hnext : ∀ x, (o x).next < 2 ^ 31 :=
        fun x => (next_le (h x).sending).trans_lt (hshort x)
      have hsrc := hnext side.other
      have hdst := hnext side
      have hackno : (n side).conn.receiver.ackno ≤ (o side.other).next :=
        (h side).receiving.ackno_le
      constructor
      · -- both numbers count what the other end has sent
        have hseqno := hlegit.carries.le_next
        simp only [Endpoint.remote] at hseqno
        unfold Near
        omega
      · intro hack
        -- both numbers count what this end has sent
        have hother := (h side.other).receiving.ackno_le
        obtain ⟨-, hle, -⟩ := hlegit.ack hack
        have hsent := (h side).sending.next_eq
        simp only [Endpoint.remote, Endpoint.inbound, Side.other_other] at hle hother
        unfold Near
        omega

/-- Every run with short streams delivers near numbers only. -/
theorem everyStep_deliversNear {cfg : Side → TCPConfig}
    {random : Side → UInt32} {events : List Event}
    (hshort : (run cfg random events).Short) :
    EveryStep step (new cfg random) events DeliversNear := by
  induction events using List.reverseRecOn with
  | nil => exact everyStep_nil
  | append_singleton events event ih =>
      rw [run, List.foldl_append] at hshort
      have hearlier := ih hshort.of_step
      refine everyStep_append.mpr ⟨hearlier, everyStep_cons.mpr ⟨?_,
        everyStep_nil⟩⟩
      exact (joined_run hearlier).deliversNear hshort.of_step event

/-- Between joined endpoints, a stream that was read to its end stays so. -/
theorem Joined.eof_step {cfg : Side → TCPConfig} {n : Network} {event : Event}
    (h : Joined cfg n) (hdrained : ∀ x, (n x).conn.sender.Drained)
    (h' : Joined cfg (n.step event))
    (hdrained' : ∀ x, (n.step event x).conn.sender.Drained) {side : Side}
    (heof : (n side).conn.inboundStream.eof = true) :
    (n.step event side).conn.inboundStream.eof = true := by
  have hvalid : (n side).inbound.Valid (cfg side).recvCapacity := by
    obtain ⟨o, ho⟩ := h
    exact (ho side).receiving.toValid
  rcases n.step_eq_update event with hsame | ⟨x, event', hstep⟩
  · rw [hsame]
    exact heof
  rcases side.eq_or_eq_other x with rfl | rfl
  · have hself : n.step event x = (n x).step event' := by
      rw [hstep, Function.update_self]
    have hother : n.step event x.other = n x.other := by
      rw [hstep, Function.update_of_ne x.other_ne]
    obtain ⟨hended, hsz⟩ := ByteStream.eof_iff.mp heof
    have hended' : (n.step event x).conn.inboundStream.inputEnded = true := by
      rw [hself]
      exact Endpoint.inputEnded_step hvalid hended event'
    refine ByteStream.eof_iff.mpr ⟨hended', ?_⟩
    -- all that the other end has accepted was read before the step
    have hall := (h.streams hdrained x.other).2
    have hall' := (h'.streams hdrained' x.other).2
    rw [Side.other_other] at hall hall'
    have hbefore := congrArg List.length (hall hended)
    have hafter := congrArg List.length (hall' hended')
    have hconsumed := ((n x).consumed_isPrefix_step event').length_le
    rw [← hself] at hconsumed
    rw [List.length_append, ByteStream.length_contents] at hbefore hafter
    rw [hother] at hafter
    omega
  · rw [hstep, Function.update_of_ne side.other_ne.symm]
    exact heof

/-- The same after a run of any length in which few bytes were written. -/
theorem streams_of_short {cfg : Side → TCPConfig} {random : Side → UInt32}
    {events : List Event} (hshort : (run cfg random events).Short)
    (hwrite : EveryStep step (new cfg random) events NoLateWrite)
    (side : Side) :
    let src := run cfg random events side
    let dst := run cfg random events side.other
    dst.consumed ++ dst.conn.inboundStream.contents <+: src.accepted ∧
      (dst.conn.inboundStream.inputEnded = true →
        dst.consumed ++ dst.conn.inboundStream.contents = src.accepted) :=
  (joined_run (everyStep_deliversNear hshort)).streams (drained_run hwrite) side

/-- A stream that was read to its end, or was marked by a reset, stays so to the
end of the run. -/
theorem ended_run {cfg : Side → TCPConfig} {random : Side → UInt32}
    {done events : List Event} (hdone : done <+: events)
    (hshort : (run cfg random events).Short)
    (hwrite : EveryStep step (new cfg random) events NoLateWrite) {side : Side}
    (hend : (run cfg random done side).conn.inboundStream.eof = true ∨
      (run cfg random done side).conn.inboundStream.error = true) :
    (run cfg random events side).conn.inboundStream.eof = true ∨
      (run cfg random events side).conn.inboundStream.error = true := by
  obtain ⟨rest, rfl⟩ := hdone
  induction rest using List.reverseRecOn with
  | nil => rwa [List.append_nil]
  | append_singleton rest event ih =>
      rw [← List.append_assoc] at hshort hwrite ⊢
      have hnear := everyStep_deliversNear hshort
      have hbefore := List.prefix_append (done ++ rest) [event]
      have hstep : run cfg random (done ++ rest ++ [event]) =
          (run cfg random (done ++ rest)).step event := by
        rw [run, List.foldl_append]
        rfl
      have hjoined := joined_run hnear
      have hdrained := drained_run hwrite
      rw [hstep] at hshort hjoined hdrained ⊢
      rcases ih hshort.of_step (hwrite.restrict hbefore) with heof | herror
      · exact Or.inl ((joined_run (hnear.restrict hbefore)).eof_step
          (drained_run (hwrite.restrict hbefore)) hjoined hdrained heof)
      · exact Or.inr (step_at (I := fun e =>
          e.conn.inboundStream.error = true)
          (fun e event' h => Endpoint.error_step h event') herror event)

end Network
end Sponge
