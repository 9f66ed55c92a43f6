import Sponge.NetworkInterface.Conservation
import Sponge.Support.Expiry

/-!
# The address table over time

The interface has no clock; an entry of its table knows how long it has left.  A
session is watched here together with the time that its ticks add up to, the
moments at which its frames were pushed, and the last ARP message from each
sender.  Requests for one next hop are five seconds apart, and a datagram is sent
to the address that its next hop said last, less than thirty seconds ago.
-/

namespace Sponge
namespace NetworkInterface

open Support

namespace Session

/-! ## What an event does -/

/-- What an event does to the table, and the frames that it pushes. -/
inductive Acts (n : NetworkInterface) :
    Event → (UInt32 → Option (ℕ × EthernetAddress)) → List SentFrame → Prop
  | asks {dgram : IPv4Datagram} {nextHop : Address} :
      n.addrMp nextHop.ipv4Numeric = none →
      Acts n (.sendDatagram dgram nextHop)
        (Function.update n.addrMp nextHop.ipv4Numeric (some (5000, .broadcast)))
        [n.arpFrame .broadcast (n.arpRequest nextHop.ipv4Numeric).fields]
  | drops {dgram : IPv4Datagram} {nextHop : Address} :
      Acts n (.sendDatagram dgram nextHop) n.addrMp []
  | sends {dgram : IPv4Datagram} {nextHop : Address} {time : ℕ}
      {address : EthernetAddress} :
      n.addrMp nextHop.ipv4Numeric = some (time, address) →
      address ≠ .broadcast →
      Acts n (.sendDatagram dgram nextHop) n.addrMp
        [n.ipv4Frame address dgram.wire nextHop.ipv4Numeric dgram]
  | ignores {frame : EthernetFrame} :
      arpMessage? frame = none → Acts n (.recvFrame frame) n.addrMp []
  | learns {frame : EthernetFrame} {am : ARPMessage}
      {frames : List SentFrame} :
      arpMessage? frame = some am →
      frames ⊆ n.heldFrames am ++ n.answerFrames am →
      Acts n (.recvFrame frame)
        (Function.update n.addrMp am.senderIpAddress
          (some (30000, am.senderEthernetAddress))) frames
  | ages {ms : ℕ} : Acts n (.tick ms) (n.tick ms).addrMp []
  | transmits : Acts n .transmit n.addrMp []

/-- The frames that an event pushes. -/
def pushedBy (s : Session) (event : Event) : List SentFrame :=
  (s.step event).pushed.drop s.pushed.length

theorem advance_acts {s : Session} {event : Event} {n : NetworkInterface}
    {frames : List SentFrame}
    (hframes : n.framesOut = s.interface.framesOut ++ frames)
    (hacts : Acts s.interface event n.addrMp frames) :
    Acts s.interface event (s.advance n).interface.addrMp
      ((s.advance n).pushed.drop s.pushed.length) := by
  rw [advance_eq hframes, List.drop_left]
  exact hacts

/-- Whatever is thrown on the way, these are the things that can happen. -/
theorem step_acts (s : Session) (event : Event) :
    Acts s.interface event (s.step event).interface.addrMp
      (s.pushedBy event) := by
  have hnone : s.interface.framesOut = s.interface.framesOut ++ [] :=
    (List.append_nil _).symm
  cases event with
  | sendDatagram dgram nextHop =>
      rcases s.interface.fst_sendDatagram_cases dgram nextHop with
        ⟨hentry, hask⟩ | hdrop | ⟨time, address, hentry, hknown, hsend⟩
      · simp only [pushedBy, step, hask]
        exact advance_acts rfl (.asks hentry)
      · simp only [pushedBy, step, hdrop]
        exact advance_acts hnone .drops
      · simp only [pushedBy, step, hsend]
        exact advance_acts rfl (.sends hentry hknown)
  | recvFrame frame =>
      cases ham : arpMessage? frame with
      | none =>
          simp only [pushedBy, step, recvFrame_of_none _ ham]
          exact advance_acts hnone (.ignores ham)
      | some am =>
          rcases s.interface.processArp_cases am with hdone | ⟨e, hthrown⟩
          · simp only [pushedBy, step, recvFrame_of_some _ ham, hdone]
            exact advance_acts rfl (.learns ham (List.Subset.refl _))
          · simp only [pushedBy, step, recvFrame_of_some _ ham, hthrown]
            exact advance_acts hnone (.learns ham (List.nil_subset _))
  | tick ms =>
      simp only [pushedBy, step, List.drop_length]
      exact .ages
  | transmit =>
      simp only [pushedBy, step, List.drop_length]
      exact .transmits

/-! ## The watched session -/

/-- The time that has passed, the frames that were pushed with the time of each,
and the last ARP message from each sender: when it came and the address in it. -/
structure History where
  clock : ℕ := 0
  log : List (ℕ × SentFrame) := []
  heard : UInt32 → Option (ℕ × EthernetAddress) := fun _ => none

def elapsed : Event → ℕ
  | .tick ms => ms
  | _ => 0

/-- The ARP message that an event delivers. -/
def delivered : Event → Option ARPMessage
  | .recvFrame frame => arpMessage? frame
  | _ => none

/-- The history after an event that pushed `frames`. -/
def History.record (h : History) (event : Event) (frames : List SentFrame) :
    History where
  clock := h.clock + elapsed event
  log := h.log ++ frames.map (Prod.mk h.clock)
  heard :=
    match delivered event with
    | none => h.heard
    | some am =>
        Function.update h.heard am.senderIpAddress
          (some (h.clock, am.senderEthernetAddress))

def note (s : Session) (h : History) (event : Event) : History :=
  h.record event (s.pushedBy event)

/-- A session of a new interface, with its history. -/
def watch (ethernetAddress : EthernetAddress) (ipAddress : Address)
    (events : List Event) : Session × History :=
  events.foldl (observe step note) (new ethernetAddress ipAddress, {})

/-- The frame carries an ARP request for the address of `target`. -/
def RequestFor (target : UInt32) (frame : SentFrame) : Prop :=
  ∃ am, arpMessage? frame.toEthernetFrame = some am ∧
    am.opcode = ARPMessage.opcodeRequest ∧ am.targetIpAddress = target

/-- Requests for one next hop are five seconds apart. -/
def Spaced (log : List (ℕ × SentFrame)) : Prop :=
  log.Pairwise fun earlier later => ∀ target,
    RequestFor target earlier.2 → RequestFor target later.2 →
      earlier.1 + 5000 ≤ later.1

theorem not_requestFor_ipv4Frame (n : NetworkInterface)
    (address : EthernetAddress) (payload : BufferList) (ip : UInt32)
    (dgram : IPv4Datagram) (target : UInt32) :
    ¬RequestFor target (n.ipv4Frame address payload ip dgram) := by
  rintro ⟨am, ham, -⟩
  rw [arpMessage?_of_ipv4 rfl] at ham
  cases ham

theorem requestFor_arpFrame {n : NetworkInterface} {address : EthernetAddress}
    {am : ARPMessage} (hsupported : am.Supported) {target : UInt32} :
    RequestFor target (n.arpFrame address am.fields) ↔
      am.opcode = ARPMessage.opcodeRequest ∧ am.targetIpAddress = target := by
  have ham : arpMessage? (n.arpFrame address am.fields).toEthernetFrame =
      some am := arpMessage?_of_arp rfl rfl hsupported
  simp only [RequestFor, ham, Option.some.injEq, exists_eq_left']

/-- An ARP message does not make the interface ask. -/
theorem not_requestFor_of_subset {n : NetworkInterface} {am : ARPMessage}
    {frames : List SentFrame}
    (h : frames ⊆ n.heldFrames am ++ n.answerFrames am) :
    ∀ frame ∈ frames, ∀ target, ¬RequestFor target frame := by
  intro frame hmem target
  rcases List.mem_append.mp (h hmem) with hheld | hanswer
  · obtain ⟨dgram, -, rfl⟩ := mem_heldFrames.mp hheld
    apply not_requestFor_ipv4Frame
  · obtain ⟨-, rfl⟩ := mem_answerFrames.mp hanswer
    rw [requestFor_arpFrame (n.supported_arpReply am)]
    rintro ⟨hopcode, -⟩
    have hne : ¬ARPMessage.opcodeReply = ARPMessage.opcodeRequest := by decide
    exact hne hopcode

/-! ## The table has deadlines -/

/-- The table is what is left of a table of deadlines.  A deadline is at least
five seconds after any request for its next hop; and apart from the entries with
the broadcast address, it is thirty seconds after the last ARP message. -/
structure Dated (table : UInt32 → Option (ℕ × EthernetAddress)) (h : History)
    (deadlines : UInt32 → Option (ℕ × EthernetAddress)) : Prop where
  table : table = Expiry.live h.clock deadlines
  past : ∀ entry ∈ h.log, entry.1 ≤ h.clock
  asked : ∀ entry ∈ h.log, ∀ target, RequestFor target entry.2 →
    ∃ deadline address, deadlines target = some (deadline, address) ∧
      entry.1 + 5000 ≤ deadline
  spaced : Spaced h.log
  learned : ∀ ip deadline address, deadlines ip = some (deadline, address) →
    address ≠ .broadcast →
      ∃ time, h.heard ip = some (time, address) ∧ time + 30000 = deadline
  current : ∀ ip time address, h.heard ip = some (time, address) →
    h.clock < time + 30000 → deadlines ip = some (time + 30000, address)

section Steps

variable {table table' : UInt32 → Option (ℕ × EthernetAddress)} {h : History}
    {deadlines : UInt32 → Option (ℕ × EthernetAddress)}
    {frames : List SentFrame}

theorem Dated.past_append (hdated : Dated table h deadlines)
    (frames : List SentFrame) (ms : ℕ) :
    ∀ entry ∈ h.log ++ frames.map (Prod.mk h.clock),
      entry.1 ≤ h.clock + ms := by
  intro entry hmem
  rcases List.mem_append.mp hmem with hold | hnew
  · exact (hdated.past entry hold).trans (Nat.le_add_right _ _)
  · obtain ⟨frame, -, rfl⟩ := List.mem_map.mp hnew
    exact Nat.le_add_right _ _

/-- Frames without a request may be pushed at any time. -/
theorem Spaced.append {log : List (ℕ × SentFrame)} (hspaced : Spaced log)
    (clock : ℕ)
    (hframes : ∀ frame ∈ frames, ∀ target, ¬RequestFor target frame) :
    Spaced (log ++ frames.map (Prod.mk clock)) := by
  have hnew : ∀ entry ∈ frames.map (Prod.mk clock), ∀ target,
      ¬RequestFor target entry.2 := by
    intro entry hmem
    obtain ⟨frame, hframe, rfl⟩ := List.mem_map.mp hmem
    exact hframes frame hframe
  refine List.pairwise_append.mpr ⟨hspaced, ?_, ?_⟩
  · refine List.pairwise_of_forall_mem_list ?_
    intro earlier _ later hlater target _ hrequest
    exact absurd hrequest (hnew later hlater target)
  · intro earlier _ later hlater target _ hrequest
    exact absurd hrequest (hnew later hlater target)

/-- The request was pushed before, unless one of the new frames carries it. -/
theorem Dated.asked_append (hdated : Dated table h deadlines)
    (hframes : ∀ frame ∈ frames, ∀ target, ¬RequestFor target frame) :
    ∀ entry ∈ h.log ++ frames.map (Prod.mk h.clock), ∀ target,
      RequestFor target entry.2 →
        ∃ deadline address, deadlines target = some (deadline, address) ∧
          entry.1 + 5000 ≤ deadline := by
  intro entry hmem target hrequest
  rcases List.mem_append.mp hmem with hold | hnew
  · exact hdated.asked entry hold target hrequest
  · obtain ⟨frame, hframe, rfl⟩ := List.mem_map.mp hnew
    exact absurd hrequest (hframes frame hframe target)

/-- Time passes and nothing is asked or learned. -/
theorem Dated.pass (hdated : Dated table h deadlines)
    (hframes : ∀ frame ∈ frames, ∀ target, ¬RequestFor target frame) (ms : ℕ)
    (htable : table' = Expiry.live (h.clock + ms) deadlines) :
    Dated table'
      { h with
        clock := h.clock + ms
        log := h.log ++ frames.map (Prod.mk h.clock) } deadlines where
  table := htable
  past := hdated.past_append frames ms
  asked := hdated.asked_append hframes
  spaced := hdated.spaced.append h.clock hframes
  learned := hdated.learned
  current := by
    intro ip time address hheard hclock
    exact hdated.current ip time address hheard
      ((Nat.le_add_right _ _).trans_lt hclock)

/-- A later deadline takes the place of one for the same next hop. -/
theorem Dated.asked_update (hdated : Dated table h deadlines) (ip : UInt32)
    {time : ℕ} (htime : 5000 ≤ time) (address : EthernetAddress) :
    ∀ entry ∈ h.log, ∀ target, RequestFor target entry.2 →
      ∃ deadline address',
        Function.update deadlines ip (some (h.clock + time, address)) target =
            some (deadline, address') ∧ entry.1 + 5000 ≤ deadline := by
  intro entry hmem target hrequest
  by_cases htarget : target = ip
  · subst htarget
    exact ⟨_, _, Function.update_self .., by
      have := hdated.past entry hmem
      omega⟩
  · rw [Function.update_of_ne htarget]
    exact hdated.asked entry hmem target hrequest

/-- A next hop that is not in the table is asked for. -/
theorem Dated.ask (hdated : Dated table h deadlines) {ip : UInt32}
    (hentry : table ip = none) {frame : SentFrame}
    (hframe : ∀ target, RequestFor target frame → ip = target) :
    Dated (Function.update table ip (some (5000, .broadcast)))
      { h with log := h.log ++ [(h.clock, frame)] }
      (Function.update deadlines ip (some (h.clock + 5000, .broadcast))) where
  table := by
    rw [hdated.table]
    exact Expiry.update_live h.clock deadlines ip (by decide) _
  past := hdated.past_append [frame] 0
  asked := by
    intro entry hmem target hrequest
    rcases List.mem_append.mp hmem with hold | hnew
    · exact hdated.asked_update ip le_rfl _ entry hold target hrequest
    · rw [List.mem_singleton] at hnew
      subst hnew
      obtain rfl := hframe target hrequest
      exact ⟨_, _, Function.update_self .., le_rfl⟩
  spaced := by
    refine List.pairwise_append.mpr
      ⟨hdated.spaced, List.pairwise_singleton _ _, ?_⟩
    intro earlier hearlier later hlater target hrequest hagain
    rw [List.mem_singleton] at hlater
    subst hlater
    obtain rfl := hframe target hagain
    -- the deadline after the earlier request has passed
    obtain ⟨deadline, address, hdeadline, hle⟩ :=
      hdated.asked earlier hearlier ip hrequest
    rw [hdated.table] at hentry
    exact hle.trans (Expiry.le_of_live_eq_none hentry hdeadline)
  learned := by
    intro ip' deadline address hdeadline hknown
    by_cases hip : ip' = ip
    · subst hip
      rw [Function.update_self] at hdeadline
      cases hdeadline
      exact absurd rfl hknown
    · rw [Function.update_of_ne hip] at hdeadline
      exact hdated.learned ip' deadline address hdeadline hknown
  current := by
    intro ip' time address hheard hclock
    have hdeadline := hdated.current ip' time address hheard hclock
    by_cases hip : ip' = ip
    · subst hip
      rw [hdated.table] at hentry
      exact absurd (Expiry.le_of_live_eq_none hentry hdeadline)
        (Nat.not_le.mpr hclock)
    · rw [Function.update_of_ne hip]
      exact hdeadline

/-- The sender of an ARP message is entered into the table. -/
theorem Dated.learn (hdated : Dated table h deadlines) (ip : UInt32)
    (address : EthernetAddress)
    (hframes : ∀ frame ∈ frames, ∀ target, ¬RequestFor target frame) :
    Dated (Function.update table ip (some (30000, address)))
      { h with
        log := h.log ++ frames.map (Prod.mk h.clock)
        heard := Function.update h.heard ip (some (h.clock, address)) }
      (Function.update deadlines ip (some (h.clock + 30000, address))) where
  table := by
    rw [hdated.table]
    exact Expiry.update_live h.clock deadlines ip (by decide) _
  past := hdated.past_append frames 0
  asked := by
    intro entry hmem target hrequest
    rcases List.mem_append.mp hmem with hold | hnew
    · exact hdated.asked_update ip (by decide) _ entry hold target hrequest
    · obtain ⟨frame, hframe, rfl⟩ := List.mem_map.mp hnew
      exact absurd hrequest (hframes frame hframe target)
  spaced := hdated.spaced.append h.clock hframes
  learned := by
    intro ip' deadline address' hdeadline hknown
    dsimp only
    by_cases hip : ip' = ip
    · subst hip
      rw [Function.update_self] at hdeadline ⊢
      cases hdeadline
      exact ⟨h.clock, rfl, rfl⟩
    · rw [Function.update_of_ne hip] at hdeadline ⊢
      exact hdated.learned ip' deadline address' hdeadline hknown
  current := by
    intro ip' time address' hheard hclock
    dsimp only at hheard
    by_cases hip : ip' = ip
    · subst hip
      rw [Function.update_self] at hheard ⊢
      cases hheard
      rfl
    · rw [Function.update_of_ne hip] at hheard ⊢
      exact hdated.current ip' time address' hheard hclock

end Steps

/-- Each of the things that can happen keeps to the deadlines. -/
theorem Dated.record {n : NetworkInterface} {h : History}
    {deadlines : UInt32 → Option (ℕ × EthernetAddress)}
    (hdated : Dated n.addrMp h deadlines) {event : Event}
    {table : UInt32 → Option (ℕ × EthernetAddress)} {frames : List SentFrame}
    (hacts : Acts n event table frames) :
    ∃ deadlines, Dated table (h.record event frames) deadlines := by
  have hnone : ∀ frame ∈ ([] : List SentFrame), ∀ target,
      ¬RequestFor target frame := by
    intro frame hmem
    cases hmem
  cases hacts with
  | asks hentry =>
      refine ⟨_, hdated.ask hentry ?_⟩
      intro target hrequest
      exact ((requestFor_arpFrame (n.supported_arpRequest _)).mp hrequest).2
  | drops => exact ⟨_, hdated.pass hnone 0 hdated.table⟩
  | sends hentry hknown =>
      refine ⟨_, hdated.pass ?_ 0 hdated.table⟩
      intro frame hmem target
      rw [List.mem_singleton] at hmem
      subst hmem
      apply not_requestFor_ipv4Frame
  | @ignores frame ham =>
      have hrecord : h.record (.recvFrame frame) [] =
          { h with log := h.log ++ [] } := by
        simp only [History.record, delivered, ham]
        rfl
      rw [hrecord]
      exact ⟨_, hdated.pass hnone 0 hdated.table⟩
  | @learns frame am frames ham hframes =>
      have hrecord : h.record (.recvFrame frame) frames =
          { h with
            log := h.log ++ frames.map (Prod.mk h.clock)
            heard := Function.update h.heard am.senderIpAddress
              (some (h.clock, am.senderEthernetAddress)) } := by
        simp only [History.record, delivered, ham]
        rfl
      rw [hrecord]
      exact ⟨_, hdated.learn _ _ (not_requestFor_of_subset hframes)⟩
  | @ages ms =>
      refine ⟨_, hdated.pass hnone ms ?_⟩
      rw [← Expiry.bind_live, ← hdated.table]
      rfl
  | transmits => exact ⟨_, hdated.pass hnone 0 hdated.table⟩

theorem dated_new (ethernetAddress : EthernetAddress) (ipAddress : Address) :
    Dated (new ethernetAddress ipAddress).interface.addrMp {}
      (fun _ => none) where
  table := rfl
  past := by
    intro entry hmem
    cases hmem
  asked := by
    intro entry hmem
    cases hmem
  spaced := List.Pairwise.nil
  learned := by
    intro ip deadline address hdeadline
    cases hdeadline
  current := by
    intro ip time address hheard
    cases hheard

/-- In every state of a watched session the table has deadlines. -/
theorem exists_dated (ethernetAddress : EthernetAddress) (ipAddress : Address)
    (events : List Event) :
    ∃ deadlines,
      Dated (watch ethernetAddress ipAddress events).1.interface.addrMp
        (watch ethernetAddress ipAddress events).2 deadlines := by
  apply foldl_invariant (I := fun w : Session × History =>
    ∃ deadlines, Dated w.1.interface.addrMp w.2 deadlines)
  · rintro ⟨s, h⟩ event ⟨deadlines, hdated⟩
    exact hdated.record (s.step_acts event)
  · exact ⟨_, dated_new ethernetAddress ipAddress⟩

/-! ## Whole runs -/

theorem pushed_step (s : Session) (event : Event) :
    (s.step event).pushed = s.pushed ++ s.pushedBy event := by
  cases event <;> simp [pushedBy, step, advance]

/-- The log holds the frames that were pushed, in this order. -/
theorem map_snd_log (ethernetAddress : EthernetAddress) (ipAddress : Address)
    (events : List Event) :
    (watch ethernetAddress ipAddress events).2.log.map Prod.snd =
      (watch ethernetAddress ipAddress events).1.pushed := by
  apply foldl_invariant (I := fun w : Session × History =>
    w.2.log.map Prod.snd = w.1.pushed)
  · rintro ⟨s, h⟩ event hlog
    have hnew : ((s.pushedBy event).map (Prod.mk h.clock)).map Prod.snd =
        s.pushedBy event := by
      simp [Function.comp_def]
    dsimp only [observe] at hlog ⊢
    rw [pushed_step, note, History.record, List.map_append, hnew, hlog]
  · rfl

/-- **ARP requests are rate limited.**  Any two requests for the same next hop
among the frames of a run are at least five seconds of ticks apart. -/
theorem arp_requests_rate_limited (ethernetAddress : EthernetAddress)
    (ipAddress : Address) (events : List Event) :
    let watched := watch ethernetAddress ipAddress events
    watched.2.log.map Prod.snd =
        (events.foldl step (new ethernetAddress ipAddress)).pushed ∧
      Spaced watched.2.log := by
  obtain ⟨deadlines, hdated⟩ := exists_dated ethernetAddress ipAddress events
  refine ⟨?_, hdated.spaced⟩
  rw [map_snd_log, watch, fst_foldl_observe]

/-- Each frame of type IPv4 that an event pushes was made for a next hop from
which an ARP message has come less than thirty seconds ago, and goes to the
address in the last one. -/
def FreshFrames (w : Session × History) (event : Event) : Prop :=
  ∀ frame ∈ w.1.pushedBy event,
    frame.header.type = EthernetHeader.typeIPv4 →
      ∃ ip dgram time, frame.datagram = some (ip, dgram) ∧
        (note w.1 w.2 event).heard ip = some (time, frame.header.dst) ∧
        (note w.1 w.2 event).clock < time + 30000

/-- A datagram for a next hop from which an ARP message has come less than thirty
seconds ago is sent at once, and nothing else is. -/
def SendsToHeard (w : Session × History) : Event → Prop
  | .sendDatagram dgram nextHop =>
      dgram.Serializable → ∀ time address,
        w.2.heard nextHop.ipv4Numeric = some (time, address) →
        w.2.clock < time + 30000 → address ≠ .broadcast →
          ∃ payload, dgram.serialize = .ok payload ∧
            w.1.pushedBy (.sendDatagram dgram nextHop) =
              [w.1.interface.ipv4Frame address payload nextHop.ipv4Numeric
                dgram]
  | _ => True

theorem Dated.freshFrames {s : Session} {h : History}
    {deadlines : UInt32 → Option (ℕ × EthernetAddress)}
    (hdated : Dated s.interface.addrMp h deadlines) (event : Event) :
    FreshFrames (s, h) event := by
  intro frame hmem htype
  have hacts := s.step_acts event
  dsimp only [note] at hmem ⊢
  generalize s.pushedBy event = frames at hmem hacts ⊢
  generalize (s.step event).interface.addrMp = table at hacts
  have hnot : ¬EthernetHeader.typeARP = EthernetHeader.typeIPv4 := by decide
  cases hacts with
  | asks hentry =>
      rw [List.mem_singleton] at hmem
      subst hmem
      exact absurd htype hnot
  | @sends dgram nextHop left address hentry hknown =>
      rw [List.mem_singleton] at hmem
      subst hmem
      rw [hdated.table] at hentry
      obtain ⟨hleft, hdeadline⟩ := Expiry.live_eq_some_iff.mp hentry
      obtain ⟨time, hheard, htime⟩ :=
        hdated.learned _ _ _ hdeadline hknown
      refine ⟨nextHop.ipv4Numeric, dgram, time, rfl, hheard, ?_⟩
      show h.clock < time + 30000
      omega
  | @learns _ am _ ham hframes =>
      rcases List.mem_append.mp (hframes hmem) with hheld | hanswer
      · obtain ⟨dgram, -, rfl⟩ := mem_heldFrames.mp hheld
        refine ⟨am.senderIpAddress, dgram, h.clock, rfl, ?_, ?_⟩
        · simp only [History.record, delivered, ham, Function.update_self]
          rfl
        · show h.clock < h.clock + 30000
          omega
      · obtain ⟨-, rfl⟩ := mem_answerFrames.mp hanswer
        exact absurd htype hnot
  | drops => cases hmem
  | ignores ham => cases hmem
  | ages => cases hmem
  | transmits => cases hmem

theorem Dated.sendsToHeard {s : Session} {h : History}
    {deadlines : UInt32 → Option (ℕ × EthernetAddress)}
    (hdated : Dated s.interface.addrMp h deadlines) (event : Event) :
    SendsToHeard (s, h) event := by
  cases event with
  | sendDatagram dgram nextHop =>
      intro hdgram time address hheard hclock hknown
      dsimp only at hheard hclock ⊢
      have hdeadline := hdated.current _ time address hheard hclock
      have hentry : s.interface.addrMp nextHop.ipv4Numeric =
          some (time + 30000 - h.clock, address) := by
        rw [hdated.table, Expiry.live_eq_some_iff, hdeadline]
        exact ⟨by omega, by rw [Nat.add_sub_cancel' (by omega)]⟩
      refine ⟨dgram.wire, IPv4Datagram.serialize_eq hdgram, ?_⟩
      rw [pushedBy, step, sendDatagram_of_known hentry hknown hdgram,
        advance_eq rfl, List.drop_left]
  | recvFrame frame => trivial
  | tick ms => trivial
  | transmit => trivial

/-- **Only fresh mappings are used.**  At every step of a run, the frames of type
IPv4 go to the address in the last ARP message from their next hop, which is less
than thirty seconds old; and as long as it is, a datagram for the next hop is sent
at once and no request is made, unless the address is the one for broadcast. -/
theorem fresh_mappings_used (ethernetAddress : EthernetAddress)
    (ipAddress : Address) (events : List Event) :
    EveryStep (observe step note) (new ethernetAddress ipAddress, {}) events
      fun w event => FreshFrames w event ∧ SendsToHeard w event := by
  intro done event _
  obtain ⟨deadlines, hdated⟩ := exists_dated ethernetAddress ipAddress done
  exact ⟨hdated.freshFrames event, hdated.sendsToHeard event⟩

end Session
end NetworkInterface
end Sponge
