import Sponge.Network.Bounded
import Sponge.TCPConnection.Answers

/-!
# Headers without options

A connection sends only segments whose headers are five words long, also when it
sends them again.  `serialize` throws for a shorter header, and the four bits of
`doff` hold no more than fifteen words: a segment that was sent is read back
because it has neither.
-/

namespace Sponge

open Support

namespace TCPConnection

/-- Every segment that the connection holds has a header without options. -/
structure Standard (c : TCPConnection) : Prop where
  valid : c.sender.Valid
  queue : ∀ seg ∈ c.segmentsOut, seg.header.doff = 5
  waiting : ∀ seg ∈ c.sender.segmentsOut, seg.header.doff = 5
  outstanding : ∀ entry ∈ c.sender.timer.outstandings,
    entry.1.header.doff = 5

theorem doff_stamp (c : TCPConnection) (seg : SentSegment) :
    (c.stamp seg).header.doff = seg.header.doff := by
  unfold stamp
  split <;> rfl

theorem Standard.updateQueue {c : TCPConnection} (h : c.Standard) :
    c.updateQueue.Standard := by
  refine ⟨h.valid.with_streams _ _, ?_, ?_, h.outstanding⟩
  · intro seg hseg
    rcases List.mem_append.mp hseg with hold | hnew
    · exact h.queue seg hold
    · obtain ⟨raw, hraw, rfl⟩ := List.mem_map.mp hnew
      rw [doff_stamp]
      exact h.waiting raw hraw
  · intro seg hseg
    cases hseg

theorem Standard.withStream {c : TCPConnection} (h : c.Standard)
    (stream : ByteStream) :
    Standard { c with sender := { c.sender with stream := stream } } :=
  ⟨h.valid.with_streams _ _, h.queue, h.waiting, h.outstanding⟩

theorem Standard.fillWindow {c : TCPConnection} (h : c.Standard) :
    c.fillWindow.Standard := by
  obtain ⟨segs, hfills, -⟩ := c.sender.fillWindow_spec
  have hsegs : ∀ seg ∈ segs, seg.header.doff = 5 :=
    hfills.forall_mem (I := fun _ => True) (fun _ seg _ _ _ hemits =>
      ⟨trivial, by rw [hemits.header]; rfl⟩) trivial
  refine Standard.updateQueue ⟨(h.valid.fills hfills).1, h.queue, ?_, ?_⟩
  · intro seg hseg
    dsimp only at hseg
    rw [hfills.segmentsOut, List.mem_append] at hseg
    rcases hseg with hold | hnew
    · exact h.waiting seg hold
    · exact hsegs seg hnew
  · intro entry hentry
    have hmem : entry.1 ∈ c.sender.fillWindow.timer.outstandings.map Prod.fst :=
      List.mem_map_of_mem hentry
    rw [hfills.outstandings, List.mem_append] at hmem
    rcases hmem with hold | hnew
    · obtain ⟨old, hmem, heq⟩ := List.mem_map.mp hold
      rw [← heq]
      exact h.outstanding old hmem
    · exact hsegs _ hnew

theorem Standard.emptySender {c : TCPConnection} (h : c.Standard) :
    Standard { c with sender := c.sender.sendEmptySegment } := by
  refine ⟨h.valid.with_streams _ _, h.queue, ?_, h.outstanding⟩
  intro seg hseg
  rcases List.mem_append.mp hseg with hold | hnew
  · exact h.waiting seg hold
  · rw [List.mem_singleton.mp hnew]
    rfl

theorem answering_standard : Answering Standard where
  fillWindow := fun _ h => h.fillWindow
  sendEmptySegment := fun _ h => h.emptySender.updateQueue
  flags := fun _ _ _ h => ⟨h.valid, h.queue, h.waiting, h.outstanding⟩

theorem Standard.setErrors {c : TCPConnection} (h : c.Standard) :
    c.setErrors.Standard :=
  ⟨h.valid.with_streams _ _, h.queue, h.waiting, h.outstanding⟩

theorem Standard.segmentReceived {c : TCPConnection} (h : c.Standard)
    (seg : TCPSegment) : (c.segmentReceived seg).Standard := by
  cases hrst : seg.header.rst with
  | true =>
      simp only [TCPConnection.segmentReceived, hrst, if_true]
      have herrors := h.setErrors
      exact ⟨herrors.valid, herrors.queue, herrors.waiting,
        herrors.outstanding⟩
  | false =>
      refine answering_standard.segmentReceived hrst ?_
      simp only [received]
      split
      · obtain ⟨-, -, -, hqueue, -⟩ := c.sender.ackReceived_unchanged
          seg.header.ackno seg.header.win
        refine ⟨h.valid.ackReceived _ _, h.queue, ?_, ?_⟩
        · dsimp only
          rw [hqueue]
          exact h.waiting
        · intro entry hentry
          exact h.outstanding entry
            ((h.valid.outstandings_ackReceived _ _).subset hentry)
      · exact ⟨h.valid, h.queue, h.waiting, h.outstanding⟩

theorem Standard.sendRst {c : TCPConnection} (h : c.Standard) :
    c.sendRst.Standard := by
  have hempty := h.emptySender
  refine answering_standard.flags _ _ false (Standard.setErrors
    ⟨hempty.valid, ?_, hempty.waiting, hempty.outstanding⟩)
  intro seg hseg
  obtain ⟨last, hlast, heq⟩ := Option.map_eq_some_iff.mp
    (Option.mem_toList.mp hseg)
  rw [← heq]
  exact hempty.waiting last (List.mem_of_getLast? hlast)

theorem Standard.tick {c : TCPConnection} (h : c.Standard) (ms : ℕ) :
    (c.tick ms).Standard := by
  obtain ⟨timer, again, heq, hqueue, -, hagain⟩ := c.sender.tick_spec ms
  have hafter : (c.afterTick ms).Standard := by
    have hticked : Standard { c with sender := c.sender.tick ms } := by
      refine ⟨h.valid.tick ms, h.queue, ?_, ?_⟩
      · intro seg hseg
        simp only [heq, List.mem_append] at hseg
        rcases hseg with hold | hnew
        · exact h.waiting seg hold
        · obtain ⟨entry, hentry, rfl⟩ := hagain seg hnew
          exact h.outstanding entry hentry
      · simp only [heq, hqueue]
        exact h.outstanding
    have hmoved := hticked.updateQueue
    exact ⟨hmoved.valid, hmoved.queue, hmoved.waiting, hmoved.outstanding⟩
  rw [tick_eq_ite]
  split
  · exact hafter.sendRst
  · exact answering_standard.tryCleanClosed hafter

end TCPConnection

namespace Endpoint

/-- Every segment that the endpoint holds or has put on the wire has a header
without options. -/
structure Standard (e : Endpoint) : Prop where
  conn : e.conn.Standard
  wire : ∀ seg ∈ e.wire, seg.header.doff = 5

theorem standard_new (cfg : TCPConfig) (random : UInt32) :
    (new cfg random).Standard := by
  refine ⟨⟨TCPSender.valid_new _ _ _ _, ?_, ?_, ?_⟩, ?_⟩ <;>
    intro _ hmem <;> cases hmem

theorem Standard.step {e : Endpoint} (h : e.Standard) (event : Event) :
    (e.step event).Standard := by
  cases event with
  | receive seg => exact ⟨h.conn.segmentReceived seg, h.wire⟩
  | act op =>
      cases op with
      | connect => exact ⟨h.conn.fillWindow, h.wire⟩
      | write data => exact ⟨(h.conn.withStream _).fillWindow, h.wire⟩
      | endInputStream => exact ⟨(h.conn.withStream _).fillWindow, h.wire⟩
      | tick ms => exact ⟨h.conn.tick ms, h.wire⟩
      | read len =>
          exact ⟨⟨h.conn.valid, h.conn.queue, h.conn.waiting,
            h.conn.outstanding⟩, h.wire⟩
      | popOutput len =>
          exact ⟨⟨h.conn.valid, h.conn.queue, h.conn.waiting,
            h.conn.outstanding⟩, h.wire⟩
      | transmit =>
          simp only [Endpoint.step, act]
          split
          · exact h
          · rename_i seg rest hqueue
            have hall := h.conn.queue
            rw [hqueue] at hall
            refine ⟨⟨h.conn.valid, ?_, h.conn.waiting, h.conn.outstanding⟩, ?_⟩
            · exact fun seg' hseg' => hall seg' (List.mem_cons_of_mem _ hseg')
            · intro seg' hseg'
              rcases List.mem_append.mp hseg' with hold | hnew
              · exact h.wire seg' hold
              · rw [List.mem_singleton.mp hnew]
                exact hall seg List.mem_cons_self

end Endpoint

theorem Network.standard_run (cfg : Side → TCPConfig) (random : Side → UInt32)
    (events : List Network.Event) (side : Side) :
    (Network.run cfg random events side).Standard := by
  have hall : ∀ side, (Network.run cfg random events side).Standard := by
    refine foldl_invariant (I := fun n : Network => ∀ side, (n side).Standard)
      ?_ events fun side => Endpoint.standard_new (cfg side) (random side)
    intro n event h
    rcases n.step_eq_update event with hsame | ⟨x, event', hstep⟩
    · rw [hsame]
      exact h
    · rw [hstep]
      exact (Function.forall_update_iff n (p := fun _ e => e.Standard)).mpr
        ⟨(h x).step event', fun y _ => h y⟩
  exact hall side

end Sponge
