import Sponge.TCPConnection.PassiveClose
import Sponge.TCPSpongeSocket.Model

/-!
# A socket behaves as an endpoint

Whatever the kernel, the adapter and `poll` answer, all that a socket does with
its connection is what an endpoint can do: what its owner writes is accepted by
the connection, what the owner can read was taken from the inbound stream, and
what goes to the adapter was taken from the queue of segments.  The owner never
writes after the end of the stream, and is told of the end of the other stream
only when that stream is at its end or marked by a reset.
-/

namespace Sponge

open Support

/-! ## The end of the outbound stream -/

namespace TCPConnection

theorem inputEnded_fillWindow (c : TCPConnection) :
    c.fillWindow.sender.stream.inputEnded = c.sender.stream.inputEnded := by
  obtain ⟨segs, hfills, -⟩ := c.sender.fillWindow_spec
  exact hfills.unchanged.2.2

theorem inputEnded_segmentReceived (c : TCPConnection) (seg : TCPSegment) :
    (c.segmentReceived seg).sender.stream.inputEnded =
      c.sender.stream.inputEnded := by
  cases hrst : seg.header.rst with
  | true =>
      simp only [segmentReceived, hrst, if_true]
      rfl
  | false =>
      rw [segmentReceived_eq c hrst]
      have hreply : ∀ c' : TCPConnection,
          (c'.reply seg).sender.stream.inputEnded =
            c'.sender.stream.inputEnded := by
        intro c'
        unfold reply
        split
        · split
          · exact c'.inputEnded_fillWindow
          · rfl
        · rfl
      have hkeepAlive : ∀ c' : TCPConnection,
          (c'.replyKeepAlive seg).sender.stream.inputEnded =
            c'.sender.stream.inputEnded := by
        intro c'
        unfold replyKeepAlive
        split <;> rfl
      rw [hkeepAlive, hreply, sender_tryCleanClosed, sender_noteFirstEnd,
        inputEnded_afterAck]

theorem inputEnded_tick (c : TCPConnection) (ms : ℕ) :
    (c.tick ms).sender.stream.inputEnded = c.sender.stream.inputEnded := by
  obtain ⟨timer, again, heq, -⟩ := c.sender.tick_spec ms
  have hafter : (c.afterTick ms).sender.stream.inputEnded =
      c.sender.stream.inputEnded := by
    simp only [afterTick, updateQueue, heq]
  rw [tick_eq_ite]
  split
  · exact hafter
  · rw [sender_tryCleanClosed]
    exact hafter

/-- All bytes are accepted if there is room for them. -/
theorem write_of_le {c : TCPConnection} {data : List UInt8}
    (h : data.length ≤ c.remainingOutboundCapacity) :
    (c.write data).2 = data.length := by
  change (c.sender.stream.write data).2 = data.length
  rw [ByteStream.write_snd, ByteStream.accepted_of_le h]

end TCPConnection

namespace TCPSpongeSocket

variable {A : Type*}

/-- The endpoint that the owner of the connection sees. -/
def World.endpoint (w : World A) : Endpoint where
  conn := w.tcp
  accepted := w.threadData.received
  consumed := w.threadData.written
  wire := w.wire

/-- The segment that an event receives. -/
def segment? : Endpoint.Event → Option TCPSegment
  | .act _ => none
  | .receive seg => some seg

/-- The inbound stream is at its end, or marked by a reset. -/
def AtEnd (e : Endpoint) : Prop :=
  e.conn.inboundStream.eof = true ∨ e.conn.inboundStream.error = true

/-- From one world to the other the endpoint has taken the given events, and
what it has received came from the adapter.  If the socket of the owner was shut
down, the inbound stream was at its end then. -/
structure Follows (w w' : World A) (events : List Endpoint.Event) : Prop where
  endpoint : w'.endpoint = events.foldl Endpoint.step w.endpoint
  noLateWrite :
    EveryStep Endpoint.step w.endpoint events Endpoint.NoLateWrite
  arrived : w'.arrived = w.arrived ++ events.filterMap segment?
  shut : w'.inboundShutdown = true → w.inboundShutdown = true ∨
    ∃ done, done <+: events ∧ AtEnd (done.foldl Endpoint.step w.endpoint)

namespace Follows

variable {w w' w'' : World A} {events events' : List Endpoint.Event}

theorem of_eq (hendpoint : w'.endpoint = w.endpoint)
    (harrived : w'.arrived = w.arrived)
    (hshut : w'.inboundShutdown = true →
      w.inboundShutdown = true ∨ AtEnd w.endpoint) : Follows w w' [] where
  endpoint := hendpoint
  noLateWrite := everyStep_nil
  arrived := by simpa using harrived
  shut := fun h => (hshut h).imp id fun hend => ⟨[], List.prefix_refl _, hend⟩

theorem of_step {event : Endpoint.Event}
    (hendpoint : w'.endpoint = w.endpoint.step event)
    (hguard : w.endpoint.NoLateWrite event)
    (harrived : w'.arrived = w.arrived ++ (segment? event).toList)
    (hshut : w'.inboundShutdown = w.inboundShutdown) :
    Follows w w' [event] where
  endpoint := hendpoint
  noLateWrite := everyStep_cons.mpr ⟨hguard, everyStep_nil⟩
  arrived := by
    rw [harrived]
    cases event <;> rfl
  shut := fun h => Or.inl (hshut.symm.trans h)

theorem trans (h : Follows w w' events) (h' : Follows w' w'' events') :
    Follows w w'' (events ++ events') where
  endpoint := by
    rw [h'.endpoint, h.endpoint, List.foldl_append]
  noLateWrite := by
    have hlater := h'.noLateWrite
    rw [h.endpoint] at hlater
    exact everyStep_append.mpr ⟨h.noLateWrite, hlater⟩
  arrived := by
    rw [h'.arrived, h.arrived, List.filterMap_append, List.append_assoc]
  shut := by
    intro hshut
    rcases h'.shut hshut with hbefore | ⟨done, hdone, hend⟩
    · refine (h.shut hbefore).imp id ?_
      rintro ⟨done, hdone, hend⟩
      exact ⟨done, hdone.trans (List.prefix_append _ _), hend⟩
    · refine Or.inr ⟨events ++ done, (List.prefix_append_right_inj _).mpr hdone,
        ?_⟩
      rw [List.foldl_append, ← h.endpoint]
      exact hend

end Follows

/-! ## The callbacks -/

theorem endpoint_noteAcked (w : World A) : w.noteAcked.endpoint = w.endpoint := by
  unfold World.noteAcked
  split <;> rfl

theorem arrived_noteAcked (w : World A) : w.noteAcked.arrived = w.arrived := by
  unfold World.noteAcked
  split <;> rfl

theorem outboundShutdown_noteAcked (w : World A) :
    w.noteAcked.outboundShutdown = w.outboundShutdown := by
  unfold World.noteAcked
  split <;> rfl

theorem inboundShutdown_noteAcked (w : World A) :
    w.noteAcked.inboundShutdown = w.inboundShutdown := by
  unfold World.noteAcked
  split <;> rfl

/-- `_outbound_shutdown` is set when the outbound stream has ended. -/
def World.Flagged (w : World A) : Prop :=
  w.outboundShutdown = w.tcp.sender.stream.inputEnded

theorem flagged_noteAcked {w : World A} (h : w.Flagged) :
    w.noteAcked.Flagged := by
  unfold World.noteAcked
  split <;> exact h

/-- What a callback does, in terms of the endpoint. -/
def Acts (w w' : World A) : Prop :=
  (∃ events, Follows w w' events) ∧ (w.Flagged → w'.Flagged)

/-- The world has come from `w₀` by what an endpoint can do. -/
structure Reached (w₀ : World A) (w : World A) : Prop where
  follows : ∃ events, Follows w₀ w events
  flagged : w.Flagged

theorem Reached.acts {w₀ w w' : World A} (h : Reached w₀ w)
    (hacts : Acts w w') : Reached w₀ w' := by
  obtain ⟨events, hevents⟩ := h.follows
  obtain ⟨⟨events', hevents'⟩, hflagged⟩ := hacts
  exact ⟨⟨_, hevents.trans hevents'⟩, hflagged h.flagged⟩

theorem follows_endOutbound (w : World A) :
    Follows w w.endOutbound [.act .endInputStream] :=
  .of_step rfl trivial (by simp [World.endOutbound, segment?]) rfl

theorem flagged_endOutbound (w : World A) : w.endOutbound.Flagged := by
  change true = (TCPConnection.fillWindow _).sender.stream.inputEnded
  rw [TCPConnection.inputEnded_fillWindow]
  rfl

/-- The connection takes all that was read: nothing is thrown for lack of
room. -/
theorem readOwner_cases (w : World A) :
    (∃ threadData e, w.readOwner = ({ w with threadData := threadData },
        .error e) ∧ e ∈ FileDescriptor.readFailures ∧
        threadData.received = w.threadData.received ∧
        w.threadData.SameWriting threadData) ∨
      ∃ threadData data, w.readOwner =
          (if threadData.eof then
              { w with
                threadData := threadData
                tcp := (w.tcp.write data).1 }.endOutbound
            else
              { w with
                threadData := threadData, tcp := (w.tcp.write data).1 },
            .ok ()) ∧
        (w.tcp.write data).2 = data.length ∧
        threadData.received = w.threadData.received ++ data ∧
        threadData.readCount = w.threadData.readCount + 1 ∧
        w.threadData.SameWriting threadData := by
  have hwriting := w.threadData.sameWriting_read w.tcp.remainingOutboundCapacity
  rcases hread : w.threadData.read w.tcp.remainingOutboundCapacity with
    ⟨threadData, e | data⟩
  · have hresult := congrArg Prod.snd hread
    have hstrings := FileDescriptor.readStrings_read_of_error hresult
    rw [hread] at hwriting hstrings
    refine Or.inl ⟨threadData, e, ?_, FileDescriptor.read_error hresult,
      congrArg List.flatten hstrings, hwriting⟩
    simp only [World.readOwner, hread]
  · have hresult := congrArg Prod.snd hread
    obtain ⟨hle, -, hcount⟩ := FileDescriptor.read_of_ok hresult
    have hreceived := FileDescriptor.received_read_of_ok hresult
    rw [hread] at hwriting hreceived hcount
    have hall := TCPConnection.write_of_le hle
    refine Or.inr ⟨threadData, data, ?_, hall, hreceived, hcount, hwriting⟩
    simp only [World.readOwner, hread]
    rw [if_neg (not_not.mpr hall)]

theorem readOwner_acts {w : World A} (hflagged : w.Flagged)
    (hopen : w.outboundShutdown = false) : Acts w w.readOwner.1 := by
  rcases readOwner_cases w with
    ⟨threadData, e, heq, -, hreceived, hwriting⟩ |
    ⟨threadData, data, heq, hall, hreceived, -, hwriting⟩
  · rw [heq]
    refine ⟨⟨[], .of_eq ?_ rfl Or.inl⟩, id⟩
    simp only [World.endpoint, hreceived, hwriting.written]
  · have hwrite : Follows w { w with
          threadData := threadData
          tcp := (w.tcp.write data).1 } [.act (.write data)] := by
      refine .of_step ?_ (hflagged.symm.trans hopen) (by simp [segment?]) rfl
      simp only [World.endpoint, Endpoint.step, Endpoint.act, hreceived, hall,
        hwriting.written, List.take_length]
    rw [heq]
    split
    · exact ⟨⟨_, hwrite.trans (follows_endOutbound _)⟩,
        fun _ => flagged_endOutbound _⟩
    · refine ⟨⟨_, hwrite⟩, fun _ => ?_⟩
      change w.outboundShutdown =
        (TCPConnection.fillWindow _).sender.stream.inputEnded
      rw [TCPConnection.inputEnded_fillWindow]
      exact hflagged.trans (ByteStream.inputEnded_write _ _).symm

/-- A write fails and nothing was taken, or the first bytes of the inbound stream
were taken by one call; then the end is passed on. -/
theorem writeOwner_cases (w : World A) :
    (∃ threadData e, w.writeOwner = ({ w with threadData := threadData },
        .error e) ∧ e ∈ FileDescriptor.writeFailures ∧
        threadData.written = w.threadData.written ∧
        w.threadData.SameReading threadData) ∨
      ∃ threadData n, w.writeOwner =
          (let w := { w with threadData := threadData }.popInbound n
            if w.tcp.inboundStream.eof ∨ w.tcp.inboundStream.error then
              match w.threadData.shutdownWr with
              | (threadData, .error e) =>
                  ({ w with threadData := threadData }, .error e)
              | (threadData, .ok ()) =>
                  ({ w with
                     threadData := threadData
                     inboundShutdown := true }, .ok ())
            else (w, .ok ())) ∧
        threadData.written = w.threadData.written ++
          w.tcp.inboundStream.peekOutput n ∧
        threadData.writeCount = w.threadData.writeCount + 1 ∧
        w.threadData.SameReading threadData := by
  obtain ⟨n, hle, hwritten, hreading, hok, herror⟩ :=
    w.threadData.write_once (w.tcp.inboundStream.peekOutput
      (min 65536 w.tcp.inboundStream.bufferSize))
  have hfront : (w.tcp.inboundStream.peekOutput
      (min 65536 w.tcp.inboundStream.bufferSize)).take n =
        w.tcp.inboundStream.peekOutput n := by
    rw [ByteStream.peekOutput_eq] at hle ⊢
    rw [List.take_take, Nat.min_eq_left, ByteStream.peekOutput_eq]
    exact hle.trans (List.length_take_le _ _)
  rw [hfront] at hwritten
  rcases hwrite : w.threadData.write [w.tcp.inboundStream.peekOutput
      (min 65536 w.tcp.inboundStream.bufferSize)] false with
    ⟨threadData, e | count⟩
  · rw [hwrite] at hwritten hreading herror
    obtain ⟨rfl, hmem⟩ := herror e rfl
    refine Or.inl ⟨threadData, e, ?_, hmem, ?_, hreading⟩
    · simp only [World.writeOwner, hwrite]
    · simpa using hwritten
  · rw [hwrite] at hwritten hreading hok
    obtain ⟨rfl, hcount⟩ := hok count rfl
    refine Or.inr ⟨threadData, count, ?_, hwritten, hcount, hreading⟩
    unfold World.writeOwner
    dsimp only
    rewrite [hwrite]
    rfl

/-- Shutting down the socket of the owner changes nothing of the endpoint. -/
theorem shutdownWr_cases (f : FileDescriptor) :
    (f.shutdownWr = (f, .error (.unixError "shutdown"))) ∨
      (∃ f', f.shutdownWr = (f', .ok ()) ∧ f'.received = f.received ∧
        f'.written = f.written ∧ f'.writeCount = f.writeCount + 1) := by
  unfold FileDescriptor.shutdownWr
  split
  · exact Or.inr ⟨_, rfl, rfl, rfl, rfl⟩
  · exact Or.inl rfl

theorem writeOwner_acts (w : World A) : Acts w w.writeOwner.1 := by
  rcases writeOwner_cases w with
    ⟨threadData, e, heq, -, hwritten, hreading⟩ |
    ⟨threadData, n, heq, hwritten, -, hreading⟩
  · rw [heq]
    refine ⟨⟨[], .of_eq ?_ rfl Or.inl⟩, id⟩
    simp only [World.endpoint, hwritten, hreading.received]
  · have hpop : Follows w ({ w with threadData := threadData }.popInbound n)
        [.act (.popOutput n)] := by
      refine .of_step ?_ trivial (by simp [World.popInbound, segment?]) rfl
      simp only [World.endpoint, World.popInbound, hreading.received, hwritten]
      rfl
    rw [heq]
    dsimp only
    split
    · rename_i hend
      rcases shutdownWr_cases ({ w with
          threadData := threadData }.popInbound n).threadData with
        hshut | ⟨f, hshut, hreceived, hwritten', -⟩
      · rw [hshut]
        exact ⟨⟨_, hpop⟩, id⟩
      · rw [hshut]
        refine ⟨⟨_, hpop.trans (.of_eq ?_ rfl fun _ => Or.inr hend)⟩, id⟩
        simp only [World.endpoint, hreceived, hwritten']
    · exact ⟨⟨_, hpop⟩, id⟩

theorem outboundShutdown_writeOwner (w : World A) :
    w.writeOwner.1.outboundShutdown = w.outboundShutdown := by
  rcases writeOwner_cases w with ⟨threadData, e, heq, -⟩ |
    ⟨threadData, n, heq, -⟩
  · rw [heq]
  · rw [heq]
    dsimp only
    split
    · rcases shutdownWr_cases ({ w with
          threadData := threadData }.popInbound n).threadData with
        hshut | ⟨f, hshut, -⟩
      · rw [hshut]
        rfl
      · rw [hshut]
        rfl
    · rfl

variable [FdAdapter A]

theorem receiveDatagram_acts (w : World A) : Acts w w.receiveDatagram.1 := by
  unfold World.receiveDatagram
  rcases FdAdapter.read w.adapter with ⟨adapter, e | _ | seg⟩
  · exact ⟨⟨[], .of_eq rfl rfl Or.inl⟩, id⟩
  · refine ⟨⟨[], .of_eq ?_ ?_ ?_⟩, fun h => flagged_noteAcked h⟩
    · rw [endpoint_noteAcked]
      rfl
    · rw [arrived_noteAcked]
    · rw [inboundShutdown_noteAcked]
      exact Or.inl
  · refine ⟨⟨[.receive seg], .of_step ?_ trivial ?_ ?_⟩, fun h => ?_⟩
    · rw [endpoint_noteAcked]
      rfl
    · rw [arrived_noteAcked]
      rfl
    · rw [inboundShutdown_noteAcked]
    · refine flagged_noteAcked ?_
      exact h.trans (TCPConnection.inputEnded_segmentReceived _ _).symm

theorem sendSegments_acts (w : World A) :
    Acts w (World.sendSegments w.tcp.segmentsOut w).1 := by
  suffices h : ∀ segments (w : World A), w.tcp.segmentsOut = segments →
      Acts w (World.sendSegments segments w).1 from h _ w rfl
  intro segments
  induction segments with
  | nil =>
      intro w _
      exact ⟨⟨[], .of_eq rfl rfl Or.inl⟩, id⟩
  | cons seg segments ih =>
      intro w hqueue
      unfold World.sendSegments
      rcases FdAdapter.write w.adapter seg.toTCPSegment with
        ⟨adapter, e | ⟨⟩⟩
      · exact ⟨⟨[], .of_eq rfl rfl Or.inl⟩, id⟩
      · obtain ⟨⟨events, hrest⟩, hflagged⟩ := ih
          { w with
            adapter := adapter
            tcp := { w.tcp with segmentsOut := segments }
            wire := w.wire ++ [seg] } rfl
        have htransmit : Follows w { w with
              adapter := adapter
              tcp := { w.tcp with segmentsOut := segments }
              wire := w.wire ++ [seg] } [.act .transmit] := by
          refine .of_step ?_ trivial (by simp [segment?]) rfl
          simp only [World.endpoint, Endpoint.step, Endpoint.act, hqueue]
        exact ⟨⟨_, htransmit.trans hrest⟩, hflagged⟩

/-! ## A turn of the loop -/

/-- The outbound stream has not ended while the rule that reads from the owner is
armed. -/
def Open : Name → World A → Prop
  | .readOwner, w => w.outboundShutdown = false
  | _, _ => True

theorem outboundShutdown_receiveDatagram (w : World A) :
    w.receiveDatagram.1.outboundShutdown = w.outboundShutdown := by
  unfold World.receiveDatagram
  rcases FdAdapter.read w.adapter with ⟨adapter, e | _ | seg⟩
  · rfl
  · exact outboundShutdown_noteAcked _
  · exact outboundShutdown_noteAcked _

theorem outboundShutdown_sendSegments (segments : List SentSegment)
    (w : World A) :
    (World.sendSegments segments w).1.outboundShutdown =
      w.outboundShutdown := by
  induction segments generalizing w with
  | nil => rfl
  | cons seg segments ih =>
      unfold World.sendSegments
      rcases FdAdapter.write w.adapter seg.toTCPSegment with
        ⟨adapter, e | ⟨⟩⟩
      · rfl
      · exact ih _

theorem reached_invariant (w₀ : World A) :
    Reactor.Invariant (EventLoop.reactor rule) (fun _ => True)
      (fun _ => Reached w₀) Open where
  cancel := by
    intro installed w i hw _ _
    cases i with
    | readOwner =>
        exact hw.acts ⟨⟨_, follows_endOutbound w⟩,
          fun _ => flagged_endOutbound w⟩
    | receiveDatagram => exact hw
    | writeOwner => exact hw
    | sendDatagrams => exact hw
  arm := by
    intro installed w i _ _ _ hinterest
    cases i with
    | readOwner =>
        simp only [EventLoop.reactor, rule, Bool.and_eq_true,
          Bool.not_eq_true'] at hinterest
        exact hinterest.1.2
    | receiveDatagram => trivial
    | writeOwner => trivial
    | sendDatagrams => trivial
  call := by
    intro installed w i hw _ hopen
    cases i with
    | readOwner => exact hw.acts (readOwner_acts hw.flagged hopen)
    | receiveDatagram => exact hw.acts (receiveDatagram_acts w)
    | writeOwner => exact hw.acts (writeOwner_acts w)
    | sendDatagrams => exact hw.acts (sendSegments_acts w)
  armed_cancel := by
    intro installed w i j _ hne hopen
    cases j with
    | readOwner =>
        cases i with
        | readOwner => exact absurd rfl hne
        | receiveDatagram => exact hopen
        | writeOwner => exact hopen
        | sendDatagrams => exact hopen
    | receiveDatagram => trivial
    | writeOwner => trivial
    | sendDatagrams => trivial
  armed_call := by
    intro installed w i j _ hne hopen
    cases j with
    | readOwner =>
        cases i with
        | readOwner => exact absurd rfl hne
        | receiveDatagram =>
            exact (outboundShutdown_receiveDatagram w).trans hopen
        | writeOwner => exact (outboundShutdown_writeOwner w).trans hopen
        | sendDatagrams =>
            exact (outboundShutdown_sendSegments _ w).trans hopen
    | receiveDatagram => trivial
    | writeOwner => trivial
    | sendDatagrams => trivial

theorem rules_tick (s : TCPSpongeSocket A) (ms : ℕ) :
    (s.tick ms).rules = s.rules := by
  unfold tick
  split
  · dsimp only
    rcases FdAdapter.tick s.world.adapter ms with ⟨adapter, e | ⟨⟩⟩ <;> rfl
  · rfl

theorem tick_reached {w₀ : World A} {s : TCPSpongeSocket A}
    (h : Reached w₀ s.world) (ms : ℕ) : Reached w₀ (s.tick ms).world := by
  have htick : Acts s.world { s.world with tcp := s.world.tcp.tick ms } :=
    ⟨⟨[.act (.tick ms)], .of_step rfl trivial (by simp [segment?]) rfl⟩,
      fun hflagged => hflagged.trans
        (TCPConnection.inputEnded_tick _ ms).symm⟩
  unfold tick
  split
  · dsimp only
    rcases FdAdapter.tick s.world.adapter ms with ⟨adapter, e | ⟨⟩⟩
    · exact (h.acts htick).acts ⟨⟨[], .of_eq rfl rfl Or.inl⟩, id⟩
    · exact (h.acts htick).acts ⟨⟨[], .of_eq rfl rfl Or.inl⟩, id⟩
  · exact h

/-- What holds between two turns. -/
structure Orderly (s : TCPSpongeSocket A) : Prop where
  nodup : s.rules.Nodup
  flagged : s.world.Flagged

/-- **A turn of the loop is a run of the endpoint.** -/
theorem tcpLoop_follows {s : TCPSpongeSocket A} (h : s.Orderly)
    (turn : Turn) :
    (∃ events, Follows s.world (s.tcpLoop turn).world events) ∧
      (s.tcpLoop turn).Orderly := by
  have hstart : Reached s.world s.world :=
    ⟨⟨[], .of_eq rfl rfl Or.inl⟩, h.flagged⟩
  obtain ⟨⟨installed, hany⟩, hok⟩ := EventLoop.waitNextEvent_invariant
    (reached_invariant s.world) h.nodup turn.answer hstart
    (fun _ _ => trivial)
  unfold tcpLoop
  split
  · rcases hwait : EventLoop.waitNextEvent rule s.rules turn.answer s.world with
      ⟨w, e | ⟨rules, result⟩⟩
    · rw [hwait] at hany
      exact ⟨hany.follows, h.nodup, hany.flagged⟩
    · rw [hwait] at hok
      obtain ⟨hreached, hsub⟩ := hok rules result rfl
      have hnodup := h.nodup.sublist hsub
      dsimp only
      split
      · exact ⟨hreached.follows, hnodup, hreached.flagged⟩
      · have htick := tick_reached (s := { s with rules := rules, world := w })
          hreached turn.ms
        refine ⟨htick.follows, ?_, htick.flagged⟩
        rw [rules_tick]
        exact hnodup
  · exact ⟨⟨[], .of_eq rfl rfl Or.inl⟩, h.nodup, h.flagged⟩

/-! ## A run -/

/-- How a socket starts: `connect` or `listen_and_accept`. -/
inductive Role where
  | connect
  | listenAndAccept
deriving DecidableEq

/-- The events of the endpoint before the loop. -/
def Role.events : Role → List Endpoint.Event
  | .connect => [.act .connect]
  | .listenAndAccept => []

/-- A socket that was started with a new local socket, for which the kernel has
the given answers. -/
def start (role : Role) (reads : List (Option (List UInt8)))
    (writes : List (Option ℕ)) (shutdownWorks : Bool) (adapter : A)
    (cTcp : TCPConfig) (random : UInt32) (cAd : FdAdapterConfig) :
    TCPSpongeSocket A :=
  let threadData : FileDescriptor :=
    { reads := reads, writes := writes, shutdownWorks := shutdownWorks }
  match role with
  | .connect => connect threadData adapter cTcp random cAd
  | .listenAndAccept => listenAndAccept threadData adapter cTcp random cAd

section Start

variable (role : Role) (reads : List (Option (List UInt8)))
  (writes : List (Option ℕ)) (shutdownWorks : Bool) (adapter : A)
  (cTcp : TCPConfig) (random : UInt32) (cAd : FdAdapterConfig)

theorem orderly_start :
    (start role reads writes shutdownWorks adapter cTcp random
      cAd).Orderly := by
  cases role with
  | connect =>
      refine ⟨show allRules.Nodup by decide, ?_⟩
      change false = (TCPConnection.fillWindow _).sender.stream.inputEnded
      rw [TCPConnection.inputEnded_fillWindow]
      rfl
  | listenAndAccept => exact ⟨show allRules.Nodup by decide, rfl⟩

theorem endpoint_start :
    (start role reads writes shutdownWorks adapter cTcp random
        cAd).world.endpoint =
      role.events.foldl Endpoint.step (.new cTcp random) := by
  cases role <;> rfl

theorem arrived_start :
    (start role reads writes shutdownWorks adapter cTcp random
      cAd).world.arrived = [] := by
  cases role <;> rfl

theorem inboundShutdown_start :
    (start role reads writes shutdownWorks adapter cTcp random
      cAd).world.inboundShutdown = false := by
  cases role <;> rfl

/-- What the run of a socket has in common with a run of an endpoint. -/
structure Refines (cTcp : TCPConfig) (random : UInt32)
    (events : List Endpoint.Event) (w : World A) : Prop where
  noLateWrite :
    EveryStep Endpoint.step (.new cTcp random) events Endpoint.NoLateWrite
  endpoint : Endpoint.run cTcp random events = w.endpoint
  arrived : events.filterMap segment? = w.arrived
  shut : w.inboundShutdown = true →
    ∃ done, done <+: events ∧ AtEnd (Endpoint.run cTcp random done)

omit [FdAdapter A] in
theorem Refines.follows {cTcp : TCPConfig} {random : UInt32}
    {events events' : List Endpoint.Event} {w w' : World A}
    (h : Refines cTcp random events w) (hfollows : Follows w w' events') :
    Refines cTcp random (events ++ events') w' where
  noLateWrite := by
    refine everyStep_append.mpr ⟨h.noLateWrite, ?_⟩
    have hlater := hfollows.noLateWrite
    rw [← h.endpoint] at hlater
    exact hlater
  endpoint := by
    rw [hfollows.endpoint, ← h.endpoint, Endpoint.run, List.foldl_append]
    rfl
  arrived := by
    rw [hfollows.arrived, List.filterMap_append, h.arrived]
  shut := by
    intro hshut
    rcases hfollows.shut hshut with hbefore | ⟨done, hdone, hend⟩
    · obtain ⟨done, hdone, hend⟩ := h.shut hbefore
      exact ⟨done, hdone.trans (List.prefix_append _ _), hend⟩
    · refine ⟨events ++ done, (List.prefix_append_right_inj _).mpr hdone, ?_⟩
      rw [Endpoint.run, List.foldl_append]
      rw [← h.endpoint] at hend
      exact hend

theorem refines_start :
    Refines cTcp random role.events
      (start role reads writes shutdownWorks adapter cTcp random
        cAd).world where
  noLateWrite := by
    cases role with
    | connect => exact everyStep_cons.mpr ⟨trivial, everyStep_nil⟩
    | listenAndAccept => exact everyStep_nil
  endpoint := (endpoint_start role reads writes shutdownWorks adapter cTcp
    random cAd).symm
  arrived := by
    rw [arrived_start]
    cases role <;> rfl
  shut := by
    intro hshut
    rw [inboundShutdown_start] at hshut
    cases hshut

theorem refines_run (turns : List Turn) :
    let s := turns.foldl tcpLoop
      (start role reads writes shutdownWorks adapter cTcp random cAd)
    s.Orderly ∧ ∃ events, Refines cTcp random events s.world := by
  refine foldl_invariant (I := fun s : TCPSpongeSocket A => s.Orderly ∧
    ∃ events, Refines cTcp random events s.world) ?_ turns ?_
  · rintro s turn ⟨horderly, events, hrefines⟩
    obtain ⟨⟨events', hfollows⟩, horderly'⟩ := tcpLoop_follows horderly turn
    exact ⟨horderly', _, hrefines.follows hfollows⟩
  · exact ⟨orderly_start role reads writes shutdownWorks adapter cTcp random
      cAd, _, refines_start role reads writes shutdownWorks adapter cTcp
        random cAd⟩

end Start

end TCPSpongeSocket
end Sponge
