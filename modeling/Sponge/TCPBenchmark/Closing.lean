import Sponge.TCPBenchmark.Transfer

/-!
# The connections close

Once `y` has read to the end, three turns suffice for the FIN of `y` to be sent,
received and acknowledged.  From then on only acknowledgments are exchanged, and
after one more turn none are: every turn is a tick of both connections, until
they have lingered long enough.
-/

namespace Sponge
namespace TCPBenchmark

open Support

/-! ## The end of both streams -/

/-- The string has arrived. -/
structure Arrived (config : TCPConfig) (string : List UInt8) (b : State) :
    Prop where
  running : Running config string b
  eof : b.y.inboundStream.eof = true

variable {config : TCPConfig} {string : List UInt8} {b : State}

theorem Arrived.finSended (h : Arrived config string b) :
    b.x.sender.finSended = true := by
  obtain ⟨n, htracks, -⟩ := h.running
  have hfin := htracks.healthy.joined.finSended_of_inputEnded .a (by
    change (n .b).conn.inboundStream.inputEnded = true
    rw [htracks.y]
    exact (ByteStream.eof_iff.mp h.eof).1)
  rw [htracks.x] at hfin
  exact hfin

/-- With the FIN sent, all sequence numbers are used. -/
theorem Arrived.nextSeqno (h : Arrived config string b) :
    b.x.sender.nextSeqno = string.length + 2 := by
  have hfin := h.finSended
  obtain ⟨n, htracks, -⟩ := h.running
  obtain ⟨o, hlinked⟩ := htracks.healthy.joined
  have hsending := (hlinked .a).sending
  have hdrained := (htracks.healthy.fit .a).drained
  rw [htracks.x] at hsending hdrained
  have hnil : b.x.sender.stream.contents = [] :=
    List.length_eq_zero_iff.mp ((ByteStream.length_contents _).trans
      (ByteStream.eof_iff.mp (hdrained hfin)).2)
  have hsent := htracks.sent
  rw [← hsending.contents, hnil, (htracks.closed_of_finSended hfin).2,
    List.append_nil, List.append_nil] at hsent
  have hfin' := hsending.fin_eq.symm.trans hfin
  rw [hsending.next_eq, Outgoing.next, Outgoing.syn_of_fin hfin', hfin', hsent,
    Bool.toNat_true]
  omega

/-- The stream of `y` is empty, so that there is nothing but the SYN and the
FIN. -/
theorem Running.nextSeqnoY (h : Running config string b) :
    b.y.sender.nextSeqno = 1 + b.y.sender.finSended.toNat := by
  obtain ⟨n, htracks, -⟩ := h
  obtain ⟨o, hlinked⟩ := htracks.healthy.joined
  have hsending := (hlinked .b).sending
  have hopened := (htracks.healthy.fit .b).clean.opened
  rw [htracks.y, htracks.silent] at hsending
  rw [htracks.y, hsending.next_eq] at hopened
  have hnil := (List.append_eq_nil_iff.mp hsending.contents).1
  have hsyn : (o .b).syn = true := by
    by_contra hno
    have hzero := (o .b).synFirst (Bool.eq_false_of_not_eq_true hno)
    rw [Outgoing.next, Bool.eq_false_of_not_eq_true hno, hzero.1,
      hzero.2] at hopened
    exact absurd hopened (Nat.lt_irrefl 0)
  rw [hsending.next_eq, hsending.fin_eq, Outgoing.next, hnil, hsyn]
  rfl

/-- Once its SYN was acknowledged, `y` sends its FIN. -/
theorem Running.finSendedY (h : Running config string b)
    (hstart : 0 < b.y.sender.queueStart) :
    b.y.sender.finSended = true := by
  have hnext := h.nextSeqnoY
  obtain ⟨n, htracks, hbetween⟩ := h
  have hackno := hbetween.begun.2.resolve_left (Nat.ne_of_gt hstart)
  have hsettled := (htracks.healthy.fit .b).settled
  rw [htracks.y] at hsettled
  rcases hsettled with hfin | ⟨-, hfull⟩ | ⟨-, hopen⟩
  · exact hfin
  · by_contra hopen
    rw [Bool.eq_false_of_not_eq_true hopen, Bool.toNat_false] at hnext
    rw [TCPSender.endSeqno_eq] at hfull
    omega
  · rw [htracks.yEnded] at hopen
    cases hopen

/-- `y` has heard that its SYN was received, and `x` has received all that `y`
has sent. -/
structure Told (config : TCPConfig) (string : List UInt8) (b : State) : Prop
    extends Arrived config string b where
  queueStart : 0 < b.y.sender.queueStart
  heard : b.x.receiver.ackno = b.y.sender.nextSeqno

/-- Both FINs are acknowledged. -/
structure Done (config : TCPConfig) (string : List UInt8) (b : State) : Prop
    extends Told config string b where
  idleX : b.x.sender.bytesInFlight = 0
  idleY : b.y.sender.bytesInFlight = 0
  quietY : b.y.segmentsOut = []

section Turns

variable (hadmissible : Admissible config string) (reorder : Bool)

include hadmissible

theorem Arrived.next (h : Arrived config string b) :
    Arrived config string (next reorder b) := by
  obtain ⟨-, hnext, hprogress⟩ := h.running.next hadmissible reorder
  exact ⟨hnext, hprogress.ended h.finSended⟩

theorem Told.next (h : Told config string b) :
    Done config string (next reorder b) := by
  have harrived := h.toArrived.next hadmissible reorder
  obtain ⟨-, hnext, hprogress⟩ := h.running.next hadmissible reorder
  have htold := hprogress.told
  rw [h.heard, h.running.nextSeqnoY, h.running.finSendedY h.queueStart,
    Bool.toNat_true] at htold
  have hstart : 0 < (TCPBenchmark.next reorder b).y.sender.queueStart := by
    omega
  have hnextY := hnext.nextSeqnoY
  rw [hnext.finSendedY hstart, Bool.toNat_true] at hnextY
  obtain ⟨n, htracks, hbetween⟩ := hnext
  have hidleY : (TCPBenchmark.next reorder b).y.sender.bytesInFlight = 0 := by
    have hle := hbetween.begun.1.inFlight_le
    unfold TCPSender.queueStart at htold
    omega
  refine ⟨⟨harrived, hstart, hprogress.heard⟩, ?_, hidleY,
    hprogress.quiet hidleY⟩
  refine hbetween.settles.2 (le_antisymm hbetween.settles.1.ackno_le ?_)
  rw [hbetween.acked, harrived.nextSeqno, ← h.nextSeqno]
  exact hprogress.ackno

theorem leadsTo_done : LeadsTo (next reorder) 3 (Arrived config string)
    (Done config string) := by
  have hfirst : LeadsTo (next reorder) 1 (Arrived config string) fun b =>
      Arrived config string b ∧ 0 < b.x.receiver.ackno := by
    refine leadsTo_next fun b h => ⟨h.next hadmissible reorder, ?_⟩
    obtain ⟨-, hnext, hprogress⟩ := h.running.next hadmissible reorder
    rw [hprogress.heard, hnext.nextSeqnoY]
    omega
  have hsecond : LeadsTo (next reorder) 1
      (fun b => Arrived config string b ∧ 0 < b.x.receiver.ackno)
      (Told config string) := by
    refine leadsTo_next fun b h => ?_
    obtain ⟨-, hnext, hprogress⟩ := h.1.running.next hadmissible reorder
    exact ⟨h.1.next hadmissible reorder, h.2.trans_le hprogress.told,
      hprogress.heard⟩
  exact (hfirst.trans hsecond).trans
    (leadsTo_next fun b h => h.next hadmissible reorder)

end Turns

/-! ## Nothing more to say -/

/-- With everything written, a turn only exchanges segments. -/
theorem Tracks.next_eq {n : Network} (h : Tracks config string n b)
    (hfin : b.x.sender.finSended = true) (reorder : Bool) :
    next reorder b = tick (readOutput (exchange b reorder)) := by
  obtain ⟨hclosed, hnil⟩ := h.closed_of_finSended hfin
  have hwrite : writeInput b.bytesToSend.length b = .ok b := by
    rw [hnil]
    rfl
  have hloop : loop reorder b =
      .ok (tick (readOutput (exchange b reorder))) := by
    rw [loop, hwrite]
    change Except.ok (tick (readOutput (exchange (closeInput b) reorder))) = _
    rw [closeInput_of_closed hclosed]
  rw [next, hloop]

/-- The acknowledgments of `y` are not answered. -/
theorem Done.segmentsOut_exchange {n : Network} (hdone : Done config string b)
    (h : Tracks config string n b) (reorder : Bool) :
    (exchange b reorder).x.segmentsOut = [] := by
  rw [exchange_eq]
  have hover := tracks_handOver h reorder
  have hacks : (handOver b reorder).y.OnlyAcks b.y.sender.nextSeqno := by
    have hflushed := (h.healthy.fit .b).clean.flushed
    have honly := (h.healthy.transmitted Side.b.other).onlyAcks_deliverAll
      (Network.mem_wire_transmitted (h.mem_queue reorder))
      (m := b.y.sender.nextSeqno) (by
        rw [Network.transmitted_other, h.y]
        rw [h.y] at hflushed
        refine ⟨hdone.running.finSendedY hdone.queueStart, hflushed, rfl, ?_⟩
        rw [hdone.quietY]
        intro seg hseg
        cases hseg)
    rw [← hover.y]
    exact honly
  have hquiet := (hover.healthy.transmitted Side.a.other).quiet_deliverAll
    (Network.mem_wire_transmitted hover.mem_queueY) (by
      rw [Network.transmitted_other, hover.x]
      exact hdone.finSended) (by
      rw [Network.transmitted_other, hover.x]
      intro seg hseg
      have hack := hacks.acks seg hseg
      rw [← hdone.heard] at hack
      exact hack) (by
      rw [Network.transmitted_other, hover.x]
      rfl)
  rw [← (tracks_handBack hover).x]
  exact hquiet

/-- Both FINs are acknowledged, and there is nothing to send. -/
structure Idle (config : TCPConfig) (string : List UInt8) (b : State) : Prop
    extends Done config string b where
  quietX : b.x.segmentsOut = []

theorem Done.next (hadmissible : Admissible config string) (reorder : Bool)
    (h : Done config string b) : Idle config string (next reorder b) := by
  have hdone := h.toTold.next hadmissible reorder
  refine ⟨hdone, ?_⟩
  obtain ⟨n, htracks, hbetween⟩ := h.running
  have hidle := hdone.idleX
  obtain ⟨-, -, -, hqueue⟩ :=
    htracks.exchanged hbetween hadmissible.room reorder
  rw [htracks.next_eq h.finSended reorder] at hidle ⊢
  rw [hqueue hidle, h.segmentsOut_exchange htracks reorder]

theorem Idle.next_eq (h : Idle config string b) (reorder : Bool) :
    next reorder b = tick b := by
  obtain ⟨n, htracks, hbetween⟩ := h.running
  have hexchange : exchange b reorder = b := by
    obtain ⟨x, y, bytes, closed, received⟩ := b
    obtain ⟨cfg, receiver, sender, queue, linger, time, active⟩ := x
    obtain ⟨cfg', receiver', sender', queue', linger', time', active'⟩ := y
    have hx : queue = [] := h.quietX
    have hy : queue' = [] := h.quietY
    subst hx hy
    cases reorder <;> rfl
  have hread : readOutput b = b := by
    simp [readOutput, ByteStream.bufferSize_eq, hbetween.read]
  rw [htracks.next_eq h.finSended reorder, hexchange, hread]

/-! ## Lingering -/

/-- How many ticks of a second an idle connection stays active at most.  The time
since the last segment may wrap around once. -/
def ticksLeft (c : TCPConnection) : ℕ :=
  let limit := c.cfg.rtTimeout.toNat * 10
  if c.active = false then 0
  else if limit ≤ c.lingerTime then limit / 1000 + 3
  else (limit - c.lingerTime) / 1000 + 1

theorem ticksLeft_le (c : TCPConnection) : ticksLeft c ≤ 658 := by
  have hlimit := c.cfg.rtTimeout.toNat_lt
  unfold ticksLeft
  dsimp only
  split_ifs <;> omega

theorem ticksLeft_eq_zero_iff (c : TCPConnection) :
    ticksLeft c = 0 ↔ c.active = false := by
  unfold ticksLeft
  dsimp only
  split_ifs with hinactive hlong <;> simp [hinactive]

/-- A tick leaves one tick less. -/
theorem ticksLeft_tick {c : TCPConnection} (hendures : c.Endures 1000)
    (hin : c.inboundStream.eof = true) (hout : c.sender.stream.eof = true)
    (hidle : c.sender.bytesInFlight = 0) :
    ticksLeft (c.tick 1000) ≤ ticksLeft c - 1 := by
  have hlimit := c.cfg.rtTimeout.toNat_lt
  have hflags : (c.tick 1000).cfg = c.cfg ∧
      (c.tick 1000).lingerTime = (c.lingerTime + 1000) % 2 ^ 64 := by
    rw [hendures.tick_eq, TCPConnection.tryCleanClosed_eq]
    exact ⟨rfl, rfl⟩
  have hactive : (c.tick 1000).active = false ↔ c.active = false ∨
      c.lingerAfterStreamsFinish = false ∨
        c.cfg.rtTimeout.toNat * 10 ≤ (c.lingerTime + 1000) % 2 ^ 64 := by
    obtain ⟨timer, again, heq, -⟩ := c.sender.tick_spec 1000
    rw [hendures.tick_eq, TCPConnection.active_tryCleanClosed]
    simp only [TCPConnection.afterTick, TCPConnection.updateQueue,
      TCPConnection.inboundStream, heq, hout, hidle, true_and]
    rw [TCPConnection.inboundStream] at hin
    simp only [hin, true_and]
    rfl
  unfold ticksLeft
  dsimp only
  rw [hflags.1, hflags.2]
  by_cases hclosed : (c.tick 1000).active = false
  · rw [if_pos hclosed]
    exact Nat.zero_le _
  · obtain ⟨hwas, -, hshort⟩ := by
      simpa only [hactive, not_or] using hclosed
    rw [if_neg hclosed, if_neg hwas, if_neg hshort]
    split_ifs <;> omega

/-- Nothing is left to be read from `x`. -/
theorem Tracks.eofX {n : Network} (h : Tracks config string n b)
    (hfin : b.y.sender.finSended = true)
    (hheard : b.x.receiver.ackno = b.y.sender.nextSeqno) :
    b.x.inboundStream.eof = true := by
  have hended := h.healthy.joined.inputEnded_of_ackno .b
    (by rw [h.y]; exact hfin) (by
      change (n .a).conn.receiver.ackno = _
      rw [h.x, h.y, hheard])
  change (n .a).conn.inboundStream.inputEnded = true at hended
  rw [h.x] at hended
  exact ByteStream.eof_iff.mpr ⟨hended, h.inboundX⟩

/-- An idle turn brings the end of both connections nearer. -/
theorem Idle.ticksLeft_next (h : Idle config string b) (reorder : Bool) :
    ticksLeft (next reorder b).x ≤ ticksLeft b.x - 1 ∧
      ticksLeft (next reorder b).y ≤ ticksLeft b.y - 1 := by
  obtain ⟨n, htracks, hbetween⟩ := h.running
  have hfinY := h.running.finSendedY h.queueStart
  have hfitX := htracks.healthy.fit .a
  have hfitY := htracks.healthy.fit .b
  rw [h.next_eq reorder]
  constructor
  · refine ticksLeft_tick (endures_of_unhurried
      (Or.inr ⟨hbetween.countX, h.idleX⟩) ?_ 1000)
      (htracks.eofX hfinY h.heard) ?_ h.idleX
    · rw [← htracks.x]
      exact hfitX.clean.valid
    · rw [← htracks.x]
      exact hfitX.drained (by rw [htracks.x]; exact h.finSended)
  · refine ticksLeft_tick (endures_of_unhurried
      (Or.inr ⟨hbetween.countY, h.idleY⟩) ?_ 1000) h.eof ?_ h.idleY
    · rw [← htracks.y]
      exact hfitY.clean.valid
    · rw [← htracks.y]
      exact hfitY.drained (by rw [htracks.y]; exact hfinY)

theorem leadsTo_closed (hadmissible : Admissible config string)
    (reorder : Bool) : LeadsTo (next reorder) 1316 (Idle config string)
      fun b => (b.x.active || b.y.active) = false := by
  refine leadsTo_of_rank (fun b => ticksLeft b.x + ticksLeft b.y) ?_ ?_
  · intro b h
    obtain ⟨hx, hy⟩ := h.ticksLeft_next reorder
    by_cases hactive : ticksLeft b.x = 0 ∧ ticksLeft b.y = 0
    · left
      rw [(ticksLeft_eq_zero_iff _).mp hactive.1,
        (ticksLeft_eq_zero_iff _).mp hactive.2]
      rfl
    · exact Or.inr ⟨h.toDone.next hadmissible reorder, by omega⟩
  · intro b _
    have hx := ticksLeft_le b.x
    have hy := ticksLeft_le b.y
    omega

/-- The second loop ends. -/
theorem closing_returns (hadmissible : Admissible config string)
    (reorder : Bool) (h : Arrived config string b) {fuel : ℕ}
    (hfuel : 1320 < fuel) :
    ∃ b', whileLoop (fun b => b.x.active || b.y.active) (loop reorder) fuel
      b = some (.ok b') := by
  obtain ⟨j, hj, hend⟩ := (((leadsTo_done hadmissible reorder).trans
    (leadsTo_next fun b h => h.next hadmissible reorder)).trans
      (leadsTo_closed hadmissible reorder)) b h
  obtain ⟨b', hreturns, -⟩ := whileLoop_returns
    (fun b : State => b.x.active || b.y.active) (P := Running config string)
    (fun b hb => (hb.next hadmissible reorder).imp_right And.left) h.running
    ⟨j, hj, hend⟩ hfuel
  exact ⟨b', hreturns⟩

/-- **The benchmark succeeds.**  For every string below `2 ^ 31 - 2` bytes,
every pair of initial sequence numbers and every configuration with room in both
streams, in order and with the segments of `x` reversed: neither loop throws,
the string received is the one sent, and each of the two loops ends after at most
`stringToSend.length + 1320` turns. -/
theorem mainLoop_returns (reorder : Bool) (config : TCPConfig)
    (randomX randomY : UInt32) (stringToSend : List UInt8)
    (hsend : 0 < config.sendCapacity) (hrecv : 0 < config.recvCapacity)
    (hshort : stringToSend.length + 2 < 2 ^ 31) (fuel : ℕ)
    (hfuel : stringToSend.length + 1320 < fuel) :
    mainLoop reorder config randomX randomY stringToSend fuel =
      some (.ok ()) := by
  have hadmissible : Admissible config stringToSend := ⟨hshort, hsend, hrecv⟩
  obtain ⟨b, hfirst, hrunning, heof⟩ := transfer_returns hadmissible reorder
    randomX randomY (show _ < fuel by omega)
  obtain ⟨b', hsecond⟩ := closing_returns hadmissible reorder
    ⟨hrunning, heof⟩ (show _ < fuel by omega)
  rw [mainLoop, hfirst]
  dsimp only
  rw [if_neg (not_not.mpr (hrunning.stringReceived_eq heof)), hsecond]
  rfl

/-- Two bytes, with the segments of `x` reversed. -/
theorem mainLoop_returns_two :
    mainLoop true {} 5 9 [104, 105] 1323 = some (.ok ()) :=
  mainLoop_returns true {} 5 9 [104, 105] (by decide) (by decide) (by decide)
    1323 (by decide)

end TCPBenchmark
end Sponge
