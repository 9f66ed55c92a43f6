import Sponge.EventLoop.Calls
import Sponge.TCPSpongeSocket.Refinement

/-!
# What a socket throws

An exception that ends the loop of a socket is one that a descriptor or the
adapter has thrown in that turn, or stands for an error that `poll` has reported.
The checks that the program makes itself never fail: after `connect` the
connection is in SYN_SENT, the connection accepts what it has advertised, and no
rule waits busily.
-/

namespace Sponge

open Support

/-- The inbound stream of an endpoint keeps the capacity of its configuration. -/
theorem Endpoint.inbound_valid_run (cfg : TCPConfig) (random : UInt32)
    (events : List Endpoint.Event) :
    (Endpoint.run cfg random events).inbound.Valid cfg.recvCapacity :=
  foldl_invariant (I := fun e : Endpoint => e.inbound.Valid cfg.recvCapacity)
    (fun _ event he => Endpoint.inbound_valid_step he event) events
    (TCPReceiver.Session.valid_new cfg.recvCapacity)

namespace TCPSpongeSocket

variable {A : Type*}

/-! ## The callbacks -/

theorem adapter_noteAcked (w : World A) : w.noteAcked.adapter = w.adapter := by
  unfold World.noteAcked
  split <;> rfl

theorem writeCount_writeOwner {w : World A} (h : w.writeOwner.2 = .ok ()) :
    w.writeOwner.1.threadData.writeCount = w.threadData.writeCount + 1 ∨
      w.writeOwner.1.threadData.writeCount =
        w.threadData.writeCount + (1 + 1) := by
  rcases writeOwner_cases w with ⟨threadData, e, heq, -⟩ |
    ⟨threadData, n, heq, -, hcount, -⟩
  · rw [heq] at h
    cases h
  · rw [heq] at h ⊢
    dsimp only at h ⊢
    split at h
    · rename_i hend
      rw [if_pos hend]
      rcases shutdownWr_cases ({ w with
          threadData := threadData }.popInbound n).threadData with
        hshut | ⟨f, hshut, -, -, hcount'⟩
      · rw [hshut] at h
        cases h
      · rw [hshut]
        right
        rw [← UInt32.add_assoc, ← hcount]
        exact hcount'
    · rename_i hend
      rw [if_neg hend]
      exact Or.inl hcount

variable [FdAdapter A]

theorem segmentsOut_sendSegments {segments : List SentSegment} {w : World A}
    (hqueue : w.tcp.segmentsOut = segments)
    (h : (World.sendSegments segments w).2 = .ok ()) :
    (World.sendSegments segments w).1.tcp.segmentsOut = [] := by
  induction segments generalizing w with
  | nil => exact hqueue
  | cons seg segments ih =>
      unfold World.sendSegments at h ⊢
      rcases hwrite : FdAdapter.write w.adapter seg.toTCPSegment with
        ⟨adapter, e | ⟨⟩⟩
      · rw [hwrite] at h
        cases h
      · rw [hwrite] at h
        exact ih rfl h

theorem receiveDatagram_counts [CountsReads A] {w : World A}
    (h : w.receiveDatagram.2 = .ok ()) :
    (FdAdapter.fd w.receiveDatagram.1.adapter).readCount =
      (FdAdapter.fd w.adapter).readCount + 1 := by
  unfold World.receiveDatagram at h ⊢
  rcases hread : FdAdapter.read w.adapter with ⟨adapter, e | seg⟩
  · rw [hread] at h
    cases h
  · have hcount := CountsReads.readCount w.adapter seg
      (congrArg Prod.snd hread)
    rw [hread] at hcount
    cases seg with
    | none =>
        dsimp only
        rw [adapter_noteAcked]
        exact hcount
    | some seg =>
        dsimp only
        rw [adapter_noteAcked]
        exact hcount

theorem rule_serves [CountsReads A] (i : Name) :
    (rule (A := A) i).Serves := by
  intro w hok hinterest hcount
  cases i with
  | receiveDatagram =>
      have hcounts := receiveDatagram_counts hok
      change (FdAdapter.fd w.adapter).readCount =
        (FdAdapter.fd w.receiveDatagram.1.adapter).readCount at hcount
      rw [← hcount] at hcounts
      simp at hcounts
  | readOwner =>
      change w.threadData.readCount =
        w.readOwner.1.threadData.readCount at hcount
      change w.readOwner.2 = .ok () at hok
      rcases readOwner_cases w with ⟨threadData, e, heq, -⟩ |
        ⟨threadData, data, heq, -, -, hcounts, -⟩
      · rw [heq] at hok
        cases hok
      · rw [heq] at hcount
        have hsame : threadData.readCount = w.threadData.readCount := by
          rw [hcount]
          dsimp only
          split <;> rfl
        rw [hsame] at hcounts
        simp at hcounts
  | writeOwner =>
      change w.threadData.writeCount =
        w.writeOwner.1.threadData.writeCount at hcount
      rcases writeCount_writeOwner hok with hone | htwo
      · rw [← hcount] at hone
        simp at hone
      · rw [← hcount] at htwo
        simp at htwo
  | sendDatagrams =>
      have hempty := segmentsOut_sendSegments (w := w) rfl hok
      change (!w.sendDatagrams.1.tcp.segmentsOut.isEmpty) = true at hinterest
      rw [World.sendDatagrams, hempty] at hinterest
      cases hinterest

/-! ## The calls that fail -/

/-- What a rule calls in this world, on the socket of the owner or on the
adapter, throws `e`. -/
def FailedCall (e : Failure) (w : World A) : Name → Prop
  | .receiveDatagram => (FdAdapter.read w.adapter).2 = .error e
  | .readOwner =>
      (w.threadData.read w.tcp.remainingOutboundCapacity).2 = .error e
  | .writeOwner =>
      let inbound := w.tcp.inboundStream
      let (threadData, written) := w.threadData.write
        [inbound.peekOutput (min 65536 inbound.bufferSize)] false
      written = .error e ∨
        ∃ n, written = .ok n ∧
          ((inbound.popOutput n).eof = true ∨
            (inbound.popOutput n).error = true) ∧
          threadData.shutdownWr.2 = .error e
  | .sendDatagrams =>
      ∃ sent seg rest, w.tcp.segmentsOut = sent ++ seg :: rest ∧
        (World.sendSegments sent w).2 = .ok () ∧
        (FdAdapter.write (World.sendSegments sent w).1.adapter
          seg.toTCPSegment).2 = .error e

/-- What the adapter does in the loop of rule 4 depends on nothing else. -/
theorem sendSegments_congr (segments : List SentSegment) (w w' : World A)
    (h : w.adapter = w'.adapter) :
    (World.sendSegments segments w).1.adapter =
        (World.sendSegments segments w').1.adapter ∧
      (World.sendSegments segments w).2 =
        (World.sendSegments segments w').2 := by
  induction segments generalizing w w' with
  | nil => exact ⟨h, rfl⟩
  | cons seg segments ih =>
      unfold World.sendSegments
      rw [h]
      rcases FdAdapter.write w'.adapter seg.toTCPSegment with
        ⟨adapter, e | ⟨⟩⟩
      · exact ⟨rfl, rfl⟩
      · exact ih _ _ rfl

theorem sendSegments_error {segments : List SentSegment} {w : World A}
    {e : Failure} (h : (World.sendSegments segments w).2 = .error e) :
    ∃ sent seg rest, segments = sent ++ seg :: rest ∧
      (World.sendSegments sent w).2 = .ok () ∧
      (FdAdapter.write (World.sendSegments sent w).1.adapter
        seg.toTCPSegment).2 = .error e := by
  induction segments generalizing w with
  | nil => cases h
  | cons seg segments ih =>
      unfold World.sendSegments at h
      rcases hwrite : FdAdapter.write w.adapter seg.toTCPSegment with
        ⟨adapter, e' | ⟨⟩⟩
      · rw [hwrite] at h
        cases h
        exact ⟨[], seg, segments, rfl, rfl, congrArg Prod.snd hwrite⟩
      · rw [hwrite] at h
        obtain ⟨sent, seg', rest, hsplit, hok, hfails⟩ := ih h
        have hsame := sendSegments_congr sent
          { w with
            adapter := adapter
            tcp := { w.tcp with segmentsOut := segments }
            wire := w.wire ++ [seg] }
          { w with
            adapter := adapter
            tcp := { w.tcp with segmentsOut := sent }
            wire := w.wire ++ [seg] } rfl
        rw [hsame.2] at hok
        rw [hsame.1] at hfails
        refine ⟨seg :: sent, seg', rest, congrArg (seg :: ·) hsplit, ?_, ?_⟩
        · unfold World.sendSegments
          rw [hwrite]
          exact hok
        · unfold World.sendSegments
          rw [hwrite]
          exact hfails

/-- A callback throws what it was thrown. -/
theorem callback_error {i : Name} {w : World A} {e : Failure}
    (h : ((rule i).callback w).2 = .error e) : FailedCall e w i := by
  cases i with
  | receiveDatagram =>
      change w.receiveDatagram.2 = .error e at h
      unfold World.receiveDatagram at h
      rcases hread : FdAdapter.read w.adapter with ⟨adapter, e' | _ | seg⟩
      · rw [hread] at h
        cases h
        exact congrArg Prod.snd hread
      · rw [hread] at h
        cases h
      · rw [hread] at h
        cases h
  | readOwner =>
      change w.readOwner.2 = .error e at h
      change (w.threadData.read w.tcp.remainingOutboundCapacity).2 = .error e
      rcases hread : w.threadData.read w.tcp.remainingOutboundCapacity with
        ⟨threadData, e' | data⟩
      · simp only [World.readOwner, hread] at h
        cases h
        rfl
      · have hresult := congrArg Prod.snd hread
        obtain ⟨hle, -⟩ := FileDescriptor.read_of_ok hresult
        simp only [World.readOwner, hread] at h
        rw [if_neg (not_not.mpr (TCPConnection.write_of_le hle))] at h
        cases h
  | writeOwner =>
      change w.writeOwner.2 = .error e at h
      unfold World.writeOwner at h
      unfold FailedCall
      dsimp only at h ⊢
      rcases hwrite : w.threadData.write [w.tcp.inboundStream.peekOutput
          (min 65536 w.tcp.inboundStream.bufferSize)] false with
        ⟨threadData, e' | n⟩
      · rw [hwrite] at h
        cases h
        exact Or.inl rfl
      · rw [hwrite] at h
        dsimp only at h
        right
        split at h
        · rename_i hend
          refine ⟨n, rfl, hend, ?_⟩
          rcases hshut : threadData.shutdownWr with ⟨threadData', e' | ⟨⟩⟩
          · simp only [World.popInbound, hshut] at h
            exact h
          · simp only [World.popInbound, hshut] at h
            cases h
        · cases h
  | sendDatagrams => exact sendSegments_error h

/-! ## The checks -/

/-- The checks that are made in a call succeed: the rule has read or written, or
is not interested any more; the connection has accepted all that was read; and
the buffer from which bytes are popped is not of size 0, by which `pop_output`
divides. -/
structure ChecksPass (w : World A) (i : Name) : Prop where
  serves : ((rule i).callback w).2 = .ok () →
    (rule i).interest ((rule i).callback w).1 = true →
      (rule i).serviceCount w ≠ (rule i).serviceCount ((rule i).callback w).1
  accepts : i = .readOwner → ∀ data,
    (w.threadData.read w.tcp.remainingOutboundCapacity).2 = .ok data →
      (w.tcp.write data).2 = data.length
  divides : i = .writeOwner → w.tcp.inboundStream.capacity ≠ 0

theorem checksPass [CountsReads A] {w : World A}
    (h : w.tcp.inboundStream.capacity ≠ 0) (i : Name) : ChecksPass w i where
  serves := rule_serves i w
  accepts _ _ hread :=
    TCPConnection.write_of_le (FileDescriptor.read_of_ok hread).1
  divides _ := h

/-- The calls of a turn: the rules, each with the world in which it is called. -/
def calls (s : TCPSpongeSocket A) (turn : Turn) : List (Name × World A) :=
  if continues s.phase s.world.tcp.state then
    EventLoop.calls rule s.rules turn.answer s.world
  else []

omit [FdAdapter A] in
theorem Refines.capacity_inboundStream {cTcp : TCPConfig} {random : UInt32}
    {events : List Endpoint.Event} {w : World A}
    (h : Refines cTcp random events w) :
    w.tcp.inboundStream.capacity = cTcp.recvCapacity := by
  have hvalid := Endpoint.inbound_valid_run cTcp random events
  rw [h.endpoint] at hvalid
  exact hvalid.wellFormed.capacity.trans hvalid.stream.capacity_eq

theorem capacity_calls {cTcp : TCPConfig} {random : UInt32}
    {s : TCPSpongeSocket A} (horderly : s.Orderly)
    {events : List Endpoint.Event} (h : Refines cTcp random events s.world)
    {turn : Turn} {call : Name × World A} (hmem : call ∈ s.calls turn) :
    call.2.tcp.inboundStream.capacity = cTcp.recvCapacity := by
  unfold calls at hmem
  split at hmem
  · obtain ⟨-, hreached⟩ := EventLoop.calls_invariant
      (reached_invariant s.world) horderly.nodup
      ⟨⟨[], .of_eq rfl rfl Or.inl⟩, horderly.flagged⟩
      (fun _ _ => trivial) hmem
    obtain ⟨events', hfollows⟩ := hreached.follows
    exact (h.follows hfollows).capacity_inboundStream
  · cases hmem

/-! ## A run -/

/-- After `connect` the SYN is in flight. -/
theorem state_connect (cTcp : TCPConfig) (random : UInt32) :
    (TCPConnection.new cTcp random).connect.state = .ofState .synSent := rfl

theorem phase_start_ne (role : Role) (reads : List (Option (List UInt8)))
    (writes : List (Option ℕ)) (shutdownWorks : Bool) (adapter : A)
    (cTcp : TCPConfig) (random : UInt32) (cAd : FdAdapterConfig) (e : Failure) :
    (start role reads writes shutdownWorks adapter cTcp random cAd).phase ≠
      .failed e := by
  intro h
  cases role with
  | connect =>
      simp only [start, connect, initializeTCP, state_connect, ne_eq,
        not_true_eq_false, if_false] at h
      cases h
  | listenAndAccept => cases h

/-- What makes a turn end with `e`: an error that `poll` has reported, what the
last rule that was called was thrown, or what the adapter throws when it is told
of the time. -/
inductive Cause (s : TCPSpongeSocket A) (turn : Turn) (e : Failure) : Prop
  | poll (heq : e = pollFailure)
      (hreports : EventLoop.ReportsError turn.answer.revents)
  | call {i : Name} {w : World A}
      (hlast : (s.calls turn).getLast? = some (i, w)) (hfails : FailedCall e w i)
  | tick {rules : List Name} {result : EventLoop.Result} {w : World A}
      (hwait : EventLoop.waitNextEvent rule s.rules turn.answer s.world =
        (w, .ok (rules, result)))
      (hgoes : ¬(result = .exit ∨ turn.abort = true))
      (hactive : w.tcp.active = true)
      (hfails : (FdAdapter.tick w.adapter turn.ms).2 = .error e)

/-- The turn ends the loop of a socket with `e`. -/
structure FailsIn (s : TCPSpongeSocket A) (turn : Turn) (e : Failure) :
    Prop where
  running : continues s.phase s.world.tcp.state = true
  failed : (s.tcpLoop turn).phase = .failed e
  cause : s.Cause turn e

theorem failed_of_next {phase : Phase} {e : Failure}
    (h : next phase = .failed e) : phase = .failed e := by
  cases phase with
  | failed e' => exact h
  | connecting | listening | main | finished => cases h

theorem failed_of_tick {s : TCPSpongeSocket A} {ms : ℕ} {e : Failure}
    (h : (s.tick ms).phase = .failed e) :
    s.phase = .failed e ∨ (s.world.tcp.active = true ∧
      (FdAdapter.tick s.world.adapter ms).2 = .error e) := by
  unfold TCPSpongeSocket.tick at h
  split at h
  · rename_i hactive
    dsimp only at h
    rcases htick : FdAdapter.tick s.world.adapter ms with ⟨adapter, e' | ⟨⟩⟩
    · rw [htick] at h
      cases h
      exact Or.inr ⟨hactive, rfl⟩
    · rw [htick] at h
      exact Or.inl h
  · exact Or.inl h

/-- A turn after which a socket has failed finds it so, or fails itself. -/
theorem failsIn_of_failed [CountsReads A] {s : TCPSpongeSocket A} {turn : Turn}
    {e : Failure} (h : (s.tcpLoop turn).phase = .failed e) :
    s.phase = .failed e ∨ s.FailsIn turn e := by
  by_cases hrunning : continues s.phase s.world.tcp.state = true
  · refine or_iff_not_imp_left.mpr fun hnot => ⟨hrunning, h, ?_⟩
    unfold tcpLoop at h
    rw [if_pos hrunning] at h
    rcases hwait : EventLoop.waitNextEvent rule s.rules turn.answer s.world with
      ⟨w, e' | ⟨rules, result⟩⟩
    · rw [hwait] at h
      cases h
      rcases EventLoop.waitNextEvent_error (congrArg Prod.snd hwait) with
        ⟨heq, hreports⟩ | ⟨⟨i, w'⟩, hlast, hcall⟩
      · exact .poll heq hreports
      · refine .call ?_ (callback_error ((rule_serves i).call_error hcall))
        rw [calls, if_pos hrunning]
        exact hlast
    · rw [hwait] at h
      dsimp only at h
      split at h
      · exact absurd (failed_of_next h) hnot
      · rename_i hgoes
        rcases failed_of_tick h with hphase | ⟨hactive, hfails⟩
        · exact absurd hphase hnot
        · exact .tick hwait hgoes hactive hfails
  · unfold tcpLoop at h
    rw [if_neg hrunning] at h
    exact Or.inl (failed_of_next h)

theorem exists_failsIn [CountsReads A] {s : TCPSpongeSocket A}
    {turns : List Turn} {e : Failure}
    (h : (turns.foldl tcpLoop s).phase = .failed e)
    (hstart : s.phase ≠ .failed e) :
    ∃ done turn later, turns = done ++ turn :: later ∧
      (done.foldl tcpLoop s).FailsIn turn e := by
  induction turns generalizing s with
  | nil => exact absurd h hstart
  | cons turn turns ih =>
      by_cases hnow : (s.tcpLoop turn).phase = .failed e
      · exact ⟨[], turn, turns, rfl,
          (failsIn_of_failed hnow).resolve_left hstart⟩
      · obtain ⟨done, turn', later, hsplit, hfails⟩ := ih h hnow
        exact ⟨turn :: done, turn', later, congrArg (turn :: ·) hsplit, hfails⟩

end TCPSpongeSocket
end Sponge
