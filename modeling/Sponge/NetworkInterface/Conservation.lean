import Mathlib.Data.List.Perm.Basic
import Sponge.NetworkInterface.Model
import Sponge.Support.Runs

/-!
# What becomes of the datagrams given to an interface

A session is an interface with its history: the datagrams that it was given with
their next hops, and the frames that it pushed to `frames_out`.  The datagrams
for a next hop are emitted or held, each of them once, as long as none is sent
while a request for the next hop is pending or while one is held for it already.
-/

namespace Sponge
namespace NetworkInterface

open Support

/-- What can be done with an interface; `transmit` takes one frame from
`frames_out`. -/
inductive Event where
  | sendDatagram (dgram : IPv4Datagram) (nextHop : Address)
  | recvFrame (frame : EthernetFrame)
  | tick (ms : ℕ)
  | transmit
deriving DecidableEq

structure Session where
  interface : NetworkInterface
  sent : List (UInt32 × IPv4Datagram)
  pushed : List SentFrame

namespace Session

def new (ethernetAddress : EthernetAddress) (ipAddress : Address) :
    Session where
  interface :=
    { ethernetAddress := ethernetAddress, ipAddress := ipAddress }
  sent := []
  pushed := []

/-- The session goes on with the interface `n`; the frames that were pushed are
recorded. -/
def advance (s : Session) (n : NetworkInterface) : Session :=
  { s with
    interface := n
    pushed := s.pushed ++ n.framesOut.drop s.interface.framesOut.length }

def step (s : Session) : Event → Session
  | .sendDatagram dgram nextHop =>
      { s.advance (s.interface.sendDatagram dgram nextHop).1 with
        sent := s.sent ++ [(nextHop.ipv4Numeric, dgram)] }
  | .recvFrame frame => s.advance (s.interface.recvFrame frame).1
  | .tick ms => { s with interface := s.interface.tick ms }
  | .transmit =>
      { s with
        interface :=
          { s.interface with framesOut := s.interface.framesOut.tail } }

theorem advance_eq {s : Session} {n : NetworkInterface}
    {frames : List SentFrame}
    (h : n.framesOut = s.interface.framesOut ++ frames) :
    s.advance n = { s with interface := n, pushed := s.pushed ++ frames } := by
  rw [advance, h, List.drop_left]

/-! ## Conservation -/

/-- The datagrams among `dgrams` whose next hop is `ip`. -/
def towards (ip : UInt32) (dgrams : List (UInt32 × IPv4Datagram)) :
    List IPv4Datagram :=
  (dgrams.filter fun entry => entry.1 = ip).map Prod.snd

/-- The datagrams that the frames were made for. -/
def emitted (frames : List SentFrame) : List (UInt32 × IPv4Datagram) :=
  frames.filterMap fun frame => frame.datagram

/-- Each datagram given to the interface has been emitted once in a frame of type
IPv4, or is held for its next hop. -/
structure Conserved (s : Session) : Prop where
  perm : ∀ ip, (towards ip s.sent).Perm
    (towards ip (emitted s.pushed) ++ (s.interface.dataMp ip).toList)
  ipv4 : ∀ frame ∈ s.pushed, ∀ ip dgram,
    frame.datagram = some (ip, dgram) →
      frame.header.type = EthernetHeader.typeIPv4 ∧
        dgram.serialize = .ok frame.payload

@[simp] theorem towards_append (ip : UInt32)
    (front back : List (UInt32 × IPv4Datagram)) :
    towards ip (front ++ back) = towards ip front ++ towards ip back := by
  simp [towards]

@[simp] theorem towards_singleton (ip ip' : UInt32) (dgram : IPv4Datagram) :
    towards ip [(ip', dgram)] = if ip' = ip then [dgram] else [] := by
  unfold towards
  split <;> simp [*]

@[simp] theorem emitted_append (front back : List SentFrame) :
    emitted (front ++ back) = emitted front ++ emitted back := by
  simp [emitted]

theorem emitted_ipv4Frame (n : NetworkInterface) (address : EthernetAddress)
    (payload : BufferList) (ip : UInt32) (dgram : IPv4Datagram) :
    emitted [n.ipv4Frame address payload ip dgram] = [(ip, dgram)] :=
  rfl

theorem emitted_arpFrame (n : NetworkInterface) (address : EthernetAddress)
    (payload : List UInt8) : emitted [n.arpFrame address payload] = [] :=
  rfl

theorem emitted_answerFrames (n : NetworkInterface) (am : ARPMessage) :
    emitted (n.answerFrames am) = [] := by
  unfold answerFrames
  split <;> rfl

theorem towards_heldFrames (n : NetworkInterface) (am : ARPMessage)
    (ip : UInt32) :
    towards ip (emitted (n.heldFrames am)) =
      if am.senderIpAddress = ip then
        (n.dataMp am.senderIpAddress).toList
      else [] := by
  unfold heldFrames
  cases n.dataMp am.senderIpAddress with
  | none => simp [emitted, towards]
  | some dgram =>
      simp only [Option.map_some, Option.toList_some, emitted_ipv4Frame,
        towards_singleton]

/-! ## One step -/

/-- What holds besides: everything that is held can be serialized. -/
structure Keeps (s : Session) : Prop extends Conserved s where
  serializable : s.interface.HoldsSerializable

/-- A datagram that is given to the interface can be serialized. -/
def Serializable : Event → Prop
  | .sendDatagram dgram _ => dgram.Serializable
  | _ => True

instance : (event : Event) → Decidable (Serializable event)
  | .sendDatagram dgram _ => inferInstanceAs (Decidable dgram.Serializable)
  | .recvFrame _ => .isTrue trivial
  | .tick _ => .isTrue trivial
  | .transmit => .isTrue trivial

/-- A datagram for `ip` is neither dropped nor put in the place of another: the
next hop is known, or nothing is known of it and nothing held for it. -/
def Takes (n : NetworkInterface) (ip : UInt32) : Prop :=
  (∃ entry ∈ n.addrMp ip, entry.2 ≠ .broadcast) ∨
    (n.addrMp ip = none ∧ n.dataMp ip = none)

instance (n : NetworkInterface) (ip : UInt32) : Decidable (Takes n ip) :=
  inferInstanceAs (Decidable (_ ∨ _))

/-- No datagram is sent to a next hop that does not take it. -/
def TakesSends (s : Session) : Event → Prop
  | .sendDatagram _ nextHop => Takes s.interface nextHop.ipv4Numeric
  | _ => True

instance (s : Session) : (event : Event) → Decidable (s.TakesSends event)
  | .sendDatagram _ nextHop =>
      inferInstanceAs (Decidable (Takes s.interface nextHop.ipv4Numeric))
  | .recvFrame _ => .isTrue trivial
  | .tick _ => .isTrue trivial
  | .transmit => .isTrue trivial

theorem ipv4_append {s : Session} (h : s.Keeps) {frames : List SentFrame}
    (hframes : ∀ frame ∈ frames, ∀ ip dgram,
      frame.datagram = some (ip, dgram) →
        frame.header.type = EthernetHeader.typeIPv4 ∧
          dgram.serialize = .ok frame.payload) :
    ∀ frame ∈ s.pushed ++ frames, ∀ ip dgram,
      frame.datagram = some (ip, dgram) →
        frame.header.type = EthernetHeader.typeIPv4 ∧
          dgram.serialize = .ok frame.payload := by
  intro frame hmem
  rcases List.mem_append.mp hmem with hold | hnew
  · exact h.ipv4 frame hold
  · exact hframes frame hnew

/-- A datagram for a known next hop is emitted at once. -/
theorem Keeps.send_known {s : Session} (h : s.Keeps) {dgram : IPv4Datagram}
    (hdgram : dgram.Serializable) {nextHop : Address} {time : ℕ}
    {address : EthernetAddress}
    (hentry : s.interface.addrMp nextHop.ipv4Numeric = some (time, address))
    (hknown : address ≠ .broadcast) :
    (s.step (.sendDatagram dgram nextHop)).Keeps := by
  rw [step, sendDatagram_of_known hentry hknown hdgram, advance_eq rfl]
  refine ⟨⟨?_, ?_⟩, h.serializable⟩
  · intro ip
    have hperm := (h.perm ip).append_right
      (towards ip [(nextHop.ipv4Numeric, dgram)])
    simp only [pushFrame, emitted_append, emitted_ipv4Frame, towards_append,
      List.append_assoc] at hperm ⊢
    exact hperm.trans (List.perm_append_comm.append_left _)
  · refine ipv4_append h ?_
    intro frame hmem ip dgram' hframe
    rw [List.mem_singleton] at hmem
    subst hmem
    cases hframe
    exact ⟨rfl, IPv4Datagram.serialize_eq hdgram⟩

/-- The first datagram for an unknown next hop is held. -/
theorem Keeps.send_unknown {s : Session} (h : s.Keeps) {dgram : IPv4Datagram}
    (hdgram : dgram.Serializable) {nextHop : Address}
    (hentry : s.interface.addrMp nextHop.ipv4Numeric = none)
    (hfree : s.interface.dataMp nextHop.ipv4Numeric = none) :
    (s.step (.sendDatagram dgram nextHop)).Keeps := by
  rw [step, sendDatagram_of_unknown hentry, advance_eq rfl]
  refine ⟨⟨?_, ?_⟩, ?_⟩
  · intro ip
    have hperm := h.perm ip
    simp only [asking, emitted_append, emitted_arpFrame, towards_append,
      towards_singleton, List.append_nil]
    by_cases hip : nextHop.ipv4Numeric = ip
    · subst hip
      rw [hfree, Option.toList_none, List.append_nil] at hperm
      rw [if_pos rfl, Function.update_self, Option.toList_some]
      exact hperm.append_right _
    · rw [if_neg hip, Function.update_of_ne (Ne.symm hip), List.append_nil]
      exact hperm
  · refine ipv4_append h ?_
    intro frame hmem ip dgram' hframe
    rw [List.mem_singleton] at hmem
    subst hmem
    cases hframe
  · exact h.serializable.asking hdgram _

/-- What an ARP message does to the history. -/
theorem Keeps.step_arp {s : Session} (h : s.Keeps) {frame : EthernetFrame}
    {am : ARPMessage} (ham : arpMessage? frame = some am) :
    s.step (.recvFrame frame) =
      { s with
        interface := s.interface.processed am
        pushed := s.pushed ++
          (s.interface.heldFrames am ++ s.interface.answerFrames am) } := by
  rw [step, recvFrame_of_some _ ham,
    processArp_eq (h.serializable am.senderIpAddress), advance_eq rfl]

/-- An ARP message makes the interface emit what is held for its sender. -/
theorem Keeps.recv_arp {s : Session} (h : s.Keeps) {frame : EthernetFrame}
    {am : ARPMessage} (ham : arpMessage? frame = some am) :
    (s.step (.recvFrame frame)).Keeps := by
  rw [h.step_arp ham]
  refine ⟨⟨?_, ?_⟩, ?_⟩
  · intro ip
    have hperm := h.perm ip
    simp only [processed, emitted_append, emitted_answerFrames,
      towards_append, towards_heldFrames, List.append_nil]
    by_cases hip : am.senderIpAddress = ip
    · subst hip
      rw [if_pos rfl, Function.update_self, Option.toList_none,
        List.append_nil]
      exact hperm
    · rw [if_neg hip, Function.update_of_ne (Ne.symm hip), List.append_nil]
      exact hperm
  · refine ipv4_append h ?_
    intro frame' hmem ip dgram hframe
    rcases List.mem_append.mp hmem with hheld | hanswer
    · obtain ⟨held, hdata, rfl⟩ := mem_heldFrames.mp hheld
      cases hframe
      exact ⟨rfl, IPv4Datagram.serialize_eq
        (h.serializable _ _ hdata)⟩
    · obtain ⟨-, rfl⟩ := mem_answerFrames.mp hanswer
      cases hframe
  · exact h.serializable.processed am

theorem Keeps.step {s : Session} (h : s.Keeps) {event : Event}
    (hevent : Serializable event) (htakes : s.TakesSends event) :
    (s.step event).Keeps := by
  cases event with
  | sendDatagram dgram nextHop =>
      rcases htakes with ⟨⟨time, address⟩, hentry, hknown⟩ | ⟨hentry, hfree⟩
      · exact h.send_known hevent hentry hknown
      · exact h.send_unknown hevent hentry hfree
  | recvFrame frame =>
      cases ham : arpMessage? frame with
      | none =>
          rw [Session.step, recvFrame_of_none _ ham,
            advance_eq (List.append_nil _).symm, List.append_nil]
          exact h
      | some am => exact h.recv_arp ham
  | tick ms => exact ⟨⟨h.perm, h.ipv4⟩, h.serializable⟩
  | transmit => exact ⟨⟨h.perm, h.ipv4⟩, h.serializable⟩

/-- A datagram that is not taken is lost, or takes the place of one that is. -/
theorem Keeps.not_conserved {s : Session} (h : s.Keeps) {event : Event}
    (htakes : ¬s.TakesSends event) : ¬(s.step event).Conserved := by
  intro hafter
  cases event with
  | sendDatagram dgram nextHop =>
      have hbefore := (h.perm nextHop.ipv4Numeric).length_eq
      have hlength := (hafter.perm nextHop.ipv4Numeric).length_eq
      cases hentry : s.interface.addrMp nextHop.ipv4Numeric with
      | none =>
          cases hheld : s.interface.dataMp nextHop.ipv4Numeric with
          | none => exact htakes (Or.inr ⟨hentry, hheld⟩)
          | some held =>
              rw [Session.step, sendDatagram_of_unknown hentry,
                advance_eq rfl] at hlength
              simp [asking, emitted_arpFrame] at hlength
              simp [hheld] at hbefore
              omega
      | some entry =>
          obtain ⟨time, address⟩ := entry
          by_cases hknown : address = .broadcast
          · subst hknown
            rw [Session.step, sendDatagram_of_pending hentry,
              advance_eq (List.append_nil _).symm] at hlength
            simp at hlength
            simp at hbefore
            omega
          · exact htakes (Or.inl ⟨(time, address), hentry, hknown⟩)
  | recvFrame frame => exact htakes trivial
  | tick ms => exact htakes trivial
  | transmit => exact htakes trivial

/-! ## Whole runs -/

/-- An ARP message makes the interface emit all that is held for its sender. -/
def Flushes (s : Session) : Event → Prop
  | .recvFrame frame => ∀ am, arpMessage? frame = some am →
      (s.step (.recvFrame frame)).interface.dataMp am.senderIpAddress = none ∧
        towards am.senderIpAddress
            (emitted (s.step (.recvFrame frame)).pushed) =
          towards am.senderIpAddress (emitted s.pushed) ++
            (s.interface.dataMp am.senderIpAddress).toList
  | _ => True

theorem Keeps.flushes {s : Session} (h : s.Keeps) (event : Event) :
    s.Flushes event := by
  cases event with
  | recvFrame frame =>
      intro am ham
      rw [h.step_arp ham]
      simp only [processed, Function.update_self, emitted_append,
        towards_append, towards_heldFrames, emitted_answerFrames,
        List.append_nil, if_true, and_self]
  | sendDatagram dgram nextHop => trivial
  | tick ms => trivial
  | transmit => trivial

theorem keeps_new (ethernetAddress : EthernetAddress) (ipAddress : Address) :
    (new ethernetAddress ipAddress).Keeps where
  perm := by
    intro ip
    exact List.Perm.refl _
  ipv4 := by
    intro frame hmem
    cases hmem
  serializable := by
    intro ip dgram hheld
    cases hheld

/-- **When no datagram is lost or duplicated.**  Over a run in which the datagrams
that are sent can be serialized, each of them is in every later state emitted
exactly once or held, and an ARP message makes the interface emit what it holds
for its sender, if and only if no datagram is ever sent to a next hop while an
entry with the broadcast address stands for it in the table, or while there is no
entry but a datagram is held for it already. -/
theorem conserved_iff_takesSends (ethernetAddress : EthernetAddress)
    (ipAddress : Address) (events : List Event)
    (hevents : ∀ event ∈ events, Serializable event) :
    (EveryState step (new ethernetAddress ipAddress) events Conserved ∧
        EveryStep step (new ethernetAddress ipAddress) events Flushes) ↔
      EveryStep step (new ethernetAddress ipAddress) events TakesSends := by
  have hstart := keeps_new ethernetAddress ipAddress
  have hguard : EveryStep step (new ethernetAddress ipAddress) events
      (fun _ event => Serializable event) :=
    everyStep_iff_forall_mem.mpr hevents
  have hiff : EveryState step (new ethernetAddress ipAddress) events
      Conserved ↔
        EveryStep step (new ethernetAddress ipAddress) events TakesSends := by
    apply EveryStep.everyState_iff (I := Keeps)
      (G := fun _ event => Serializable event)
    · intro s event h hevent htakes
      exact h.step hevent htakes
    · intro s h
      exact h.toConserved
    · intro s event h _ htakes
      exact h.not_conserved htakes
    · exact hstart
    · exact hguard
  constructor
  · rintro ⟨hconserved, -⟩
    exact hiff.mp hconserved
  · intro htakes
    refine ⟨hiff.mpr htakes, ?_⟩
    have hkeeps := (hguard.and htakes).everyState (I := Keeps)
      (fun s event h hboth => h.step hboth.1 hboth.2) hstart
    intro done event hdone
    exact (hkeeps done ((List.prefix_append _ _).trans hdone)).flushes event

/-- A datagram waits for the answer of its next hop, a second one follows it at
once. -/
theorem conserved_answered :
    let dgram : IPv4Datagram := { header := { len := 20 } }
    let reply : ARPMessage :=
      { opcode := ARPMessage.opcodeReply
        senderIpAddress := 7
        targetIpAddress := 1 }
    let events : List Event :=
      [.sendDatagram dgram ⟨7, 0⟩,
        .recvFrame ⟨{ type := EthernetHeader.typeARP }, [reply.fields]⟩,
        .sendDatagram dgram ⟨7, 0⟩]
    (events.foldl step (new .zero ⟨1, 0⟩)).Conserved := by
  intro dgram reply events
  have h := (conserved_iff_takesSends .zero ⟨1, 0⟩ events
    (by decide +kernel)).mpr (by decide +kernel)
  exact h.1.last

/-- A datagram that is sent while a request for its next hop is pending is
lost. -/
theorem not_conserved_pending :
    let dgram : IPv4Datagram := { header := { len := 20 } }
    let events : List Event :=
      [.sendDatagram dgram ⟨7, 0⟩, .sendDatagram dgram ⟨7, 0⟩]
    ¬EveryState step (new .zero ⟨1, 0⟩) events Conserved := by
  intro dgram events h
  have hlength := (h.last.perm 7).length_eq
  revert hlength
  decide +kernel

end Session
end NetworkInterface
end Sponge
