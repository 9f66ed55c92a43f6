import Sponge.TCPBenchmark.Turn
import Sponge.TCPConnection.PassiveClose

/-!
# The string arrives

The benchmark starts with the SYN of each connection on its queue.  Every turn
raises the number that `x` has sent up to, until the FIN was sent, and a turn
after the FIN was sent `y` has read its stream to the end: the first loop ends,
and what was read is the string.
-/

namespace Sponge
namespace TCPBenchmark

open Support

/-! ## The start -/

/-- A connection that has sent its SYN and nothing else. -/
structure Opened (config : TCPConfig) (c : TCPConnection) : Prop where
  clean : c.Clean
  receiver : c.receiver = .new config.recvCapacity
  nextSeqno : c.sender.nextSeqno = 1
  ackno : c.sender.ackno = 0
  windowSize : c.sender.windowSize = 1
  queueStart : c.sender.queueStart = 0
  settles : c.sender.Settles
  settled : c.sender.Settled
  queues : c.Queues 0
  count : c.sender.consecutiveRetransmissions = 0
  single : c.sender.Single

/-- The first segment is the SYN alone, since the window is taken to be one. -/
theorem nextSeqno_fillWindow_one {s : TCPSender} (hvalid : s.Valid)
    (hsyn : s.FinAfterSyn) (hnext : s.nextSeqno = 0) (hend : s.endSeqno = 1) :
    s.fillWindow.nextSeqno = 1 := by
  obtain ⟨segs, hfills, -⟩ := s.fillWindow_spec
  have hle := hfills.nextSeqno_le
  rw [hnext, hend] at hle
  have hpos := hvalid.inFlight_fillWindow hsyn hnext
  exact le_antisymm hle (hpos.trans_le (hvalid.fills hfills).1.inFlight_le)

theorem opened_refill_new (config : TCPConfig) (random : UInt32)
    (stream : ByteStream) :
    Opened config ((TCPConnection.new config random).refill stream) := by
  have hnew := TCPSender.valid_new config.sendCapacity config.rtTimeout
    config.fixedIsn random
  have hrefills := refills_refill (TCPConnection.new config random) stream
  have hvalid := hnew.with_streams stream []
  have hnext := nextSeqno_fillWindow_one hvalid nofun rfl rfl
  obtain ⟨segs, hfills, -⟩ := TCPSender.fillWindow_spec
    { (TCPConnection.new config random).sender with stream := stream }
  obtain ⟨hvalid', hstart⟩ := hvalid.fills hfills
  have hsegs : ∀ seg ∈ segs, seg.lengthInSequenceSpace ≤ 1 :=
    hfills.forall_mem (I := fun _ => True) (fun _ seg _ _ _ hemits =>
      ⟨trivial, (Nat.le_add_left _ _).trans hemits.fits⟩) trivial
  have houtstandings : ∀ entry ∈ ((TCPConnection.new config random).refill
      stream).sender.timer.outstandings, entry.1 ∈ segs := by
    have hmap : ((TCPConnection.new config random).refill
        stream).sender.timer.outstandings.map Prod.fst = segs :=
      hfills.outstandings
    intro entry hentry
    rw [← hmap]
    exact List.mem_map_of_mem hentry
  refine ⟨⟨hvalid'.with_streams _ _, ?_, rfl, ?_, nofun, ?_⟩, rfl, hnext,
    hrefills.ackno, hfills.unchanged.2.1, hstart, ?_,
    TCPSender.settled_fillWindow _, ?_, hrefills.count, ?_⟩
  · exact hnext ▸ Nat.one_pos
  · intro entry hentry
    exact hfills.bare _ (houtstandings entry hentry)
  · have hqueue : ((TCPConnection.new config random).refill
        stream).segmentsOut = segs.map (TCPConnection.new config random).stamp :=
      congrArg (List.map (TCPConnection.new config random).stamp)
        hfills.segmentsOut
    intro seg hseg
    rw [hqueue] at hseg
    obtain ⟨seg, hmem, rfl⟩ := List.mem_map.mp hseg
    obtain ⟨hrst, hack⟩ := hfills.bare seg hmem
    -- no SYN was received, so that nothing is stamped
    change TCPConnection.Plain seg
    exact ⟨hrst, by rw [hack]; nofun⟩
  · exact hrefills.settles ⟨hnew, fun _ => rfl⟩
  · refine hrefills.queues 0 ?_
    intro k _ hlt
    exact absurd hlt (Nat.not_lt_zero k)
  · intro entry hentry
    exact hsegs _ (houtstandings entry hentry)

/-- The ends of the network at the start. -/
def startEnd (config : TCPConfig) (randomX randomY : UInt32) : Network
  | .a => (Endpoint.new config randomX).act .connect
  | .b => (Endpoint.new config randomY).act .endInputStream

theorem joined_startEnd (config : TCPConfig) (randomX randomY : UInt32) :
    Network.Joined (fun _ => config) (startEnd config randomX randomY) := by
  have hnew := Network.joined_new (fun _ => config) fun
    | .a => randomX
    | .b => randomY
  have hconnected := @Network.Joined.step _ _ hnew (.act .a .connect) trivial
  have hjoined := @Network.Joined.step _ _ hconnected
    (.act .b .endInputStream) trivial
  convert hjoined using 1
  funext side
  cases side <;> rfl

theorem Opened.fit {config : TCPConfig} {e : Endpoint}
    (h : Opened config e.conn) (haccepted : e.accepted = [])
    (hwire : e.wire = []) (hdrained : e.conn.sender.Drained) : e.Fit where
  short := by
    rw [haccepted]
    decide
  drained := hdrained
  clean := h.clean
  settled := h.settled
  upToDate := by
    rw [TCPConnection.UpToDate, h.receiver]
    intro hsyn
    cases hsyn
  wire := by
    rw [hwire]
    intro seg hseg
    cases hseg

theorem Opened.paced {config : TCPConfig} {c : TCPConnection}
    (h : Opened config c) (r : TCPReceiver) : c.sender.Paced r := by
  refine ⟨Or.inl ?_, Or.inl ?_⟩
  · rw [h.nextSeqno]
    exact Nat.le_add_left _ _
  · rw [TCPSender.endSeqno, h.windowSize, h.ackno]
    exact Nat.le_add_left _ _

theorem Opened.room {config : TCPConfig} {c : TCPConnection}
    (h : Opened config c) (hroom : 0 < config.recvCapacity) :
    0 < c.receiver.edge := by
  rw [h.receiver]
  change 0 < 0 + (config.recvCapacity - 0)
  omega

theorem opened_startEnd (config : TCPConfig) (randomX randomY : UInt32)
    (side : Side) :
    Opened config (startEnd config randomX randomY side).conn := by
  cases side with
  | a => exact opened_refill_new config randomX (.new config.sendCapacity)
  | b =>
      exact opened_refill_new config randomY
        (ByteStream.new config.sendCapacity).endInput

theorem healthy_startEnd (config : TCPConfig) (randomX randomY : UInt32)
    (hroom : 0 < config.recvCapacity) :
    Network.Healthy (fun _ => config) (startEnd config randomX randomY) where
  joined := joined_startEnd config randomX randomY
  fit := by
    intro side
    refine (opened_startEnd config randomX randomY side).fit ?_ ?_ ?_
    · cases side <;> rfl
    · cases side <;> rfl
    · cases side with
      | a =>
          exact @Endpoint.drained_step _ (Endpoint.drained_new config randomX)
            (.act .connect) trivial
      | b =>
          exact @Endpoint.drained_step _ (Endpoint.drained_new config randomY)
            (.act .endInputStream) trivial
  paced := fun side =>
    (opened_startEnd config randomX randomY side).paced _
  room := fun side =>
    (opened_startEnd config randomX randomY side).room hroom

theorem tracks_start (config : TCPConfig) (randomX randomY : UInt32)
    (string : List UInt8) (hroom : 0 < config.recvCapacity) :
    Tracks config string (startEnd config randomX randomY)
      (start config randomX randomY string) where
  healthy := healthy_startEnd config randomX randomY hroom
  x := rfl
  y := rfl
  sent := rfl
  silent := rfl
  received := rfl
  xEnded := inputEnded_refill (.new config randomX) (.new config.sendCapacity)
  closed := nofun
  yEnded := inputEnded_refill (.new config randomY)
    (ByteStream.new config.sendCapacity).endInput
  capacity := capacity_refill (.new config randomX) (.new config.sendCapacity)

/-- Nothing is ever written to `y`. -/
theorem Tracks.emptyY {config : TCPConfig} {string : List UInt8} {n : Network}
    {b : State} (h : Tracks config string n b) :
    b.y.sender.stream.sz = 0 := by
  obtain ⟨o, hlinked⟩ := h.healthy.joined
  have hcontents := (hlinked .b).sending.contents
  rw [h.silent, List.append_eq_nil_iff, h.y] at hcontents
  rw [← ByteStream.length_contents, hcontents.2]
  rfl

theorem between_start (config : TCPConfig) (randomX randomY : UInt32)
    (string : List UInt8) (hroom : 0 < config.recvCapacity) :
    Between (start config randomX randomY string) := by
  have hx := opened_startEnd config randomX randomY .a
  have hy := opened_startEnd config randomX randomY .b
  change Opened config (start config randomX randomY string).x at hx
  change Opened config (start config randomX randomY string).y at hy
  have hacknoX : (start config randomX randomY string).x.receiver.ackno = 0 := by
    rw [hx.receiver]
    rfl
  have hacknoY : (start config randomX randomY string).y.receiver.ackno = 0 := by
    rw [hy.receiver]
    rfl
  refine ⟨?_, ?_, ?_, hx.settles, ⟨hy.single, ?_, ?_⟩,
    ⟨hy.clean.valid, Or.inl hy.queueStart⟩, ?_, Or.inr hy.count, ?_, ?_, ?_⟩
  · rw [hacknoY]
    exact hx.queues
  · rw [hacknoX]
    exact hy.queues
  · rw [hacknoY]
    exact hx.ackno
  · rw [hy.nextSeqno]
    exact Nat.one_pos
  · exact (tracks_start config randomX randomY string hroom).emptyY
  · rw [hacknoX]
    exact Or.inl (Nat.zero_le _)
  · rw [hx.count]
    exact Nat.zero_le _
  · rw [hy.count]
    exact Nat.zero_le _
  · rw [TCPConnection.inboundStream, hy.receiver]
    rfl

/-! ## The first loop -/

/-- The benchmark between two turns. -/
def Running (config : TCPConfig) (string : List UInt8) (b : State) : Prop :=
  ∃ n, Tracks config string n b ∧ Between b

/-- The state after a turn. -/
def next (reorder : Bool) (b : State) : State :=
  match loop reorder b with
  | .ok b' => b'
  | .error _ => b

/-- What is assumed: the string is short, and no capacity is zero. -/
structure Admissible (config : TCPConfig) (string : List UInt8) : Prop where
  short : string.length + 2 < 2 ^ 31
  send : 0 < config.sendCapacity
  room : 0 < config.recvCapacity

section

variable {config : TCPConfig} {string : List UInt8} {b : State}
  (hadmissible : Admissible config string) (reorder : Bool)

include hadmissible

theorem Running.next (h : Running config string b) :
    loop reorder b = .ok (next reorder b) ∧
      Running config string (next reorder b) ∧
      Progress b (TCPBenchmark.next reorder b) := by
  obtain ⟨n, htracks, hbetween⟩ := h
  obtain ⟨b', n', hok, htracks', hbetween', hprogress⟩ :=
    htracks.turn hbetween hadmissible.short hadmissible.send hadmissible.room
      reorder
  have hnext : TCPBenchmark.next reorder b = b' := by
    rw [TCPBenchmark.next, hok]
  rw [hnext]
  exact ⟨hok, ⟨n', htracks', hbetween'⟩, hprogress⟩

end

theorem Running.nextSeqno_le {config : TCPConfig} {string : List UInt8}
    {b : State} (h : Running config string b) :
    b.x.sender.nextSeqno ≤ string.length + 2 := by
  obtain ⟨n, htracks, -⟩ := h
  obtain ⟨o, hlinked⟩ := htracks.healthy.joined
  have hsending := (hlinked .a).sending
  have hle := Network.next_le hsending
  rw [← hsending.next_eq, htracks.x] at hle
  have hlength := congrArg List.length htracks.sent
  rw [List.length_append] at hlength
  omega

/-- How many turns are left at most: one for each sequence number, one for the
FIN, and one in which `y` reads to the end. -/
def turnsLeft (string : List UInt8) (b : State) : ℕ :=
  if b.y.inboundStream.eof = true then 0
  else (string.length + 2 - b.x.sender.nextSeqno) +
    (!b.x.sender.finSended).toNat + 1

theorem turnsLeft_le (string : List UInt8) (b : State) :
    turnsLeft string b ≤ string.length + 4 := by
  have hfin := Bool.toNat_le (!b.x.sender.finSended)
  unfold turnsLeft
  split <;> omega

/-- Every turn before the end of the stream leaves fewer. -/
theorem Progress.turnsLeft_lt {config : TCPConfig} {string : List UInt8}
    {b b' : State} (h : Progress b b') (hb' : Running config string b')
    (hopen : ¬b.y.inboundStream.eof = true) :
    turnsLeft string b' < turnsLeft string b := by
  have hbound := hb'.nextSeqno_le
  obtain ⟨n', -, hbetween⟩ := hb'
  have hacked := hbetween.acked
  have hle := hbetween.settles.1.ackno_le
  have hackno := h.ackno
  rw [turnsLeft, turnsLeft, if_neg hopen]
  split
  · omega
  · rename_i heof
    have hfin : b.x.sender.finSended = false :=
      Bool.eq_false_of_not_eq_true (mt h.ended heof)
    rw [hfin, Bool.not_false, Bool.toNat_true]
    rcases h.further with hfin' | hlt
    · rw [hfin', Bool.not_true, Bool.toNat_false]
      omega
    · have hfin' := Bool.toNat_le (!b'.x.sender.finSended)
      omega

/-- At the end of its stream, `y` has read the string. -/
theorem Running.stringReceived_eq {config : TCPConfig} {string : List UInt8}
    {b : State} (h : Running config string b)
    (heof : b.y.inboundStream.eof = true) : b.stringReceived = string := by
  obtain ⟨n, htracks, -⟩ := h
  obtain ⟨hended, hsz⟩ := ByteStream.eof_iff.mp heof
  have hended' : (n Side.a.other).conn.inboundStream.inputEnded = true := by
    change (n .b).conn.inboundStream.inputEnded = true
    rw [htracks.y]
    exact hended
  have hstreams := (htracks.healthy.joined.streams
    (fun side => (htracks.healthy.fit side).drained) .a).2 hended'
  change (n .b).consumed ++ (n .b).conn.inboundStream.contents =
    (n .a).accepted at hstreams
  have hnil : b.y.inboundStream.contents = [] :=
    List.length_eq_zero_iff.mp ((ByteStream.length_contents _).trans hsz)
  have hfin := htracks.healthy.joined.finSended_of_inputEnded .a hended'
  rw [htracks.x] at hfin
  have hsent := htracks.sent
  rw [htracks.y, hnil, List.append_nil, htracks.received] at hstreams
  rw [(htracks.closed_of_finSended hfin).2, List.append_nil] at hsent
  exact hstreams.trans hsent

/-- The first loop ends, and the string has arrived. -/
theorem transfer_returns {config : TCPConfig} {string : List UInt8}
    (hadmissible : Admissible config string) (reorder : Bool)
    (randomX randomY : UInt32) {fuel : ℕ} (hfuel : string.length + 4 < fuel) :
    ∃ b, whileLoop (fun b => !b.y.inboundStream.eof) (loop reorder) fuel
        (start config randomX randomY string) = some (.ok b) ∧
      Running config string b ∧ b.y.inboundStream.eof = true := by
  have hstart : Running config string (start config randomX randomY string) :=
    ⟨_, tracks_start config randomX randomY string hadmissible.room,
      between_start config randomX randomY string hadmissible.room⟩
  have hleads : LeadsTo (next reorder) (string.length + 4)
      (Running config string) fun b => b.y.inboundStream.eof = true := by
    refine leadsTo_of_rank (turnsLeft string) ?_ fun b _ =>
      turnsLeft_le string b
    intro b hb
    obtain ⟨-, hnext, hprogress⟩ := hb.next hadmissible reorder
    by_cases heof : b.y.inboundStream.eof = true
    · exact Or.inl heof
    · exact Or.inr ⟨hnext, hprogress.turnsLeft_lt hnext heof⟩
  obtain ⟨j, hj, heof⟩ := hleads _ hstart
  obtain ⟨b, hreturns, hb, hcond⟩ := whileLoop_returns
    (fun b : State => !b.y.inboundStream.eof)
    (fun b hb => (hb.next hadmissible reorder).imp_right And.left) hstart
    ⟨j, hj, by rw [heof]; rfl⟩ hfuel
  exact ⟨b, hreturns, hb, by simpa using hcond⟩

end TCPBenchmark
end Sponge
