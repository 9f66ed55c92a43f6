import Sponge.NetworkInterface.Timing
import Sponge.Support.Insertion

/-!
# Frames for other stations

`recv_frame` looks at the destination of a frame only if the frame is of type
IPv4.  An ARP message is processed whoever it was sent to, and so a frame for
another station shows in what the interface does next, unless the message in it
says nothing new.
-/

namespace Sponge
namespace NetworkInterface

open Support

/-- The frame is neither for the station nor for all. -/
def Foreign (ethernetAddress : EthernetAddress) (frame : EthernetFrame) :
    Prop :=
  frame.header.dst ≠ ethernetAddress ∧ frame.header.dst ≠ .broadcast

/-- The frame is not of type ARP; or it is read without an exception, and if there
is an ARP message in it, then its sender has been entered with the same address
since the last tick, nothing is held for the sender, and it is not a request for
the own address. -/
def TellsNothing (n : NetworkInterface) (frame : EthernetFrame) : Prop :=
  frame.header.type = EthernetHeader.typeARP →
    frame.payload.length ≤ 1 ∧
      ∀ am, arpMessage? frame = some am →
        n.addrMp am.senderIpAddress =
            some (30000, am.senderEthernetAddress) ∧
          n.dataMp am.senderIpAddress = none ∧
          ¬(am.opcode = ARPMessage.opcodeRequest ∧
            am.targetIpAddress = n.ipAddress.ipv4Numeric)

instance (ethernetAddress : EthernetAddress) (frame : EthernetFrame) :
    Decidable (Foreign ethernetAddress frame) :=
  inferInstanceAs (Decidable (_ ∧ _))

instance (n : NetworkInterface) (frame : EthernetFrame) :
    Decidable (TellsNothing n frame) :=
  inferInstanceAs (Decidable (_ → _ ∧ ∀ am ∈ arpMessage? frame, _))

/-! ## Outputs -/

/-- What a call shows: the frames that it pushes, and what it returns. -/
structure Output where
  pushed : List EthernetFrame
  returned : Except Exception (Option IPv4Datagram)

def Output.silent : Output := ⟨[], .ok none⟩

/-- What a call returns, no datagram if it is not `recv_frame`. -/
def returned (n : NetworkInterface) :
    Event → Except Exception (Option IPv4Datagram)
  | .sendDatagram dgram nextHop =>
      (n.sendDatagram dgram nextHop).2.map fun _ => none
  | .recvFrame frame => (n.recvFrame frame).2
  | .tick _ => .ok none
  | .transmit => .ok none

/-! ## Frames that tell nothing -/

theorem recvFrame_of_not_arp {n : NetworkInterface} {frame : EthernetFrame}
    (hdst : frame.header.dst ≠ n.ethernetAddress)
    (htype : frame.header.type ≠ EthernetHeader.typeARP) :
    n.recvFrame frame = (n, .ok none) := by
  simp only [recvFrame, hdst, htype, and_false, if_false]

/-- A frame of type ARP without a message in it makes `recv_frame` throw if its
payload is in several buffers. -/
theorem snd_recvFrame_of_arp {n : NetworkInterface} {frame : EthernetFrame}
    (htype : frame.header.type = EthernetHeader.typeARP)
    (ham : arpMessage? frame = none) :
    (n.recvFrame frame).2 = .ok none ↔ frame.payload.length ≤ 1 := by
  have hipv4 : ¬EthernetHeader.typeARP = EthernetHeader.typeIPv4 := by decide
  rcases frame.payload.toBuffer_cases with
    ⟨hlength, buffer, hbuffer⟩ | ⟨hlength, e, he⟩
  · simp only [arpMessage?, htype, hbuffer, if_true] at ham
    simp only [recvFrame, htype, hbuffer, hipv4, false_and,
      if_false, if_true, hlength, iff_true]
    split at ham
    · cases ham
    · rfl
  · simp only [recvFrame, htype, he, hipv4, false_and,
      if_false, if_true, hlength, reduceCtorEq]

theorem length_payload_of_arpMessage? {frame : EthernetFrame}
    {am : ARPMessage} (ham : arpMessage? frame = some am) :
    frame.payload.length ≤ 1 := by
  rcases frame.payload.toBuffer_cases with ⟨hlength, -⟩ | ⟨-, e, he⟩
  · exact hlength
  · simp only [arpMessage?, he, ite_self, reduceCtorEq] at ham

/-- A message that says nothing new leaves the interface as it is. -/
theorem processed_eq_self {n : NetworkInterface} {am : ARPMessage}
    (hentry : n.addrMp am.senderIpAddress =
      some (30000, am.senderEthernetAddress))
    (hheld : n.dataMp am.senderIpAddress = none)
    (hasked : ¬(am.opcode = ARPMessage.opcodeRequest ∧
      am.targetIpAddress = n.ipAddress.ipv4Numeric)) :
    n.processed am = n := by
  have hframes : n.heldFrames am ++ n.answerFrames am = [] := by
    rw [heldFrames, hheld, answerFrames, if_neg hasked]
    rfl
  have htable : Function.update n.addrMp am.senderIpAddress
      (some (30000, am.senderEthernetAddress)) = n.addrMp := by
    rw [Function.update_eq_self_iff, hentry]
  have hdata : Function.update n.dataMp am.senderIpAddress none =
      n.dataMp := by
    rw [Function.update_eq_self_iff, hheld]
  rw [processed, hframes, htable, hdata, List.append_nil]

theorem TellsNothing.recvFrame_eq {n : NetworkInterface}
    {frame : EthernetFrame} (h : TellsNothing n frame)
    (hdst : frame.header.dst ≠ n.ethernetAddress) :
    n.recvFrame frame = (n, .ok none) := by
  by_cases htype : frame.header.type = EthernetHeader.typeARP
  · obtain ⟨hpayload, hmessage⟩ := h htype
    cases ham : arpMessage? frame with
    | none =>
        exact Prod.ext (recvFrame_of_none n ham)
          ((snd_recvFrame_of_arp htype ham).mpr hpayload)
    | some am =>
        obtain ⟨hentry, hheld, hasked⟩ := hmessage am ham
        have hdone : n.processArp am = (n.processed am, .ok ()) := by
          refine processArp_eq ?_
          intro dgram hdgram
          rw [hheld] at hdgram
          cases hdgram
        rw [recvFrame_of_some n ham, hdone,
          processed_eq_self hentry hheld hasked]
        rfl
  · exact recvFrame_of_not_arp hdst htype

namespace Session

def call (s : Session) (event : Event) : Session × Output :=
  (s.step event,
    ⟨(s.pushedBy event).map SentFrame.toEthernetFrame,
      s.interface.returned event⟩)

/-- The frames in `items` are received besides the events of the run. -/
def Ignores (s : Session) (items : List (Event ⊕ EthernetFrame)) : Prop :=
  Unnoticed call Event.recvFrame Output.silent s items

theorem call_of_recvFrame_eq {s : Session} {frame : EthernetFrame}
    (h : s.interface.recvFrame frame = (s.interface, .ok none)) :
    s.call (.recvFrame frame) = (s, .silent) := by
  have hstep : s.step (.recvFrame frame) = s := by
    rw [step, h, advance_eq (List.append_nil _).symm, List.append_nil]
  rw [call, pushedBy, hstep, List.drop_length, returned, h]
  rfl

/-! ## Frames that tell something -/

/-- A datagram to probe the table with. -/
def probe : IPv4Datagram := { header := { len := 20 } }

/-- The entry that a call with the probe gives away. -/
def shown : List EthernetFrame → Option EthernetAddress
  | [] => some .broadcast
  | frame :: _ =>
      if frame.header.type = EthernetHeader.typeIPv4 then
        some frame.header.dst
      else none

theorem shown_probe (s : Session) (nextHop : Address) :
    shown (s.call (.sendDatagram probe nextHop)).2.pushed =
      (s.interface.addrMp nextHop.ipv4Numeric).map Prod.snd := by
  have hprobe : probe.Serializable := by decide
  simp only [call, pushedBy, step]
  cases hentry : s.interface.addrMp nextHop.ipv4Numeric with
  | none =>
      rw [sendDatagram_of_unknown hentry, advance_eq rfl, List.drop_left]
      rfl
  | some entry =>
      obtain ⟨time, address⟩ := entry
      by_cases hknown : address = .broadcast
      · subst hknown
        rw [sendDatagram_of_pending hentry,
          advance_eq (List.append_nil _).symm, List.drop_left]
        rfl
      · rw [sendDatagram_of_known hentry hknown hprobe, advance_eq rfl,
          List.drop_left]
        rfl

/-- The station has its address, and no entry has more than thirty seconds
left. -/
structure Runs (ethernetAddress : EthernetAddress) (s : Session) : Prop where
  mac : s.interface.ethernetAddress = ethernetAddress
  left : ∀ ip entry, s.interface.addrMp ip = some entry → entry.1 ≤ 30000

theorem ethernetAddress_step (s : Session) (event : Event) :
    (s.step event).interface.ethernetAddress = s.interface.ethernetAddress := by
  cases event with
  | sendDatagram dgram nextHop =>
      rw [step]
      rcases s.interface.fst_sendDatagram_cases dgram nextHop with
        ⟨-, hask⟩ | hdrop | ⟨time, address, -, -, hsend⟩
      · rw [hask]
        rfl
      · rw [hdrop]
        rfl
      · rw [hsend]
        rfl
  | recvFrame frame =>
      rw [step]
      cases ham : arpMessage? frame with
      | none =>
          rw [recvFrame_of_none _ ham]
          rfl
      | some am =>
          rw [recvFrame_of_some _ ham]
          rcases s.interface.processArp_cases am with hdone | ⟨e, hthrown⟩
          · rw [hdone]
            rfl
          · rw [hthrown]
            rfl
  | tick ms => rfl
  | transmit => rfl

theorem left_step {s : Session}
    (h : ∀ ip entry, s.interface.addrMp ip = some entry → entry.1 ≤ 30000)
    (event : Event) :
    ∀ ip entry, (s.step event).interface.addrMp ip = some entry →
      entry.1 ≤ 30000 := by
  have hacts := s.step_acts event
  generalize (s.step event).interface.addrMp = table at hacts ⊢
  generalize s.pushedBy event = frames at hacts
  cases hacts with
  | asks hentry => exact Table.forall_insert h (by decide)
  | learns ham hframes => exact Table.forall_insert h le_rfl
  | ages =>
      refine Table.forall_bind h ?_
      rintro ip ⟨time, address⟩ entry hle hage
      simp only [ageEntry] at hage
      split at hage
      · cases hage
        exact (Nat.sub_le _ _).trans hle
      · cases hage
  | drops => exact h
  | sends hentry hknown => exact h
  | ignores ham => exact h
  | transmits => exact h

theorem Runs.step {ethernetAddress : EthernetAddress} {s : Session}
    (h : s.Runs ethernetAddress) (event : Event) :
    (s.step event).Runs ethernetAddress where
  mac := (s.ethernetAddress_step event).trans h.mac
  left := left_step h.left event

/-- If a call with an ARP message shows nothing, then nothing was held for the
sender, and no answer was asked for. -/
theorem step_of_silent {s : Session} {frame : EthernetFrame} {am : ARPMessage}
    (ham : arpMessage? frame = some am)
    (h : (s.call (.recvFrame frame)).2 = .silent) :
    s.interface.dataMp am.senderIpAddress = none ∧
      ¬(am.opcode = ARPMessage.opcodeRequest ∧
        am.targetIpAddress = s.interface.ipAddress.ipv4Numeric) ∧
      (s.step (.recvFrame frame)).interface.addrMp =
        Function.update s.interface.addrMp am.senderIpAddress
          (some (30000, am.senderEthernetAddress)) := by
  have hreturned : (s.interface.recvFrame frame).2 = .ok none :=
    congrArg Output.returned h
  have hpushed : (s.pushedBy (.recvFrame frame)).map
      SentFrame.toEthernetFrame = [] := congrArg Output.pushed h
  rw [List.map_eq_nil_iff, pushedBy] at hpushed
  rw [step] at hpushed ⊢
  rw [recvFrame_of_some _ ham] at hreturned hpushed ⊢
  rcases s.interface.processArp_cases am with hdone | ⟨e, hthrown⟩
  · rw [hdone, advance_eq rfl, List.drop_left, List.append_eq_nil_iff]
      at hpushed
    obtain ⟨hheld, hanswer⟩ := hpushed
    refine ⟨?_, ?_, by rw [hdone]; rfl⟩
    · rw [heldFrames, Option.toList_eq_nil_iff, Option.map_eq_none_iff]
        at hheld
      exact hheld
    · intro hasked
      rw [answerFrames, if_pos hasked] at hanswer
      cases hanswer
  · rw [hthrown] at hreturned
    cases hreturned

/-- If two sessions answer all calls in the same way, then they know the same
address for every next hop. -/
theorem known_of_outputs {s t : Session}
    (h : ∀ later, outputs call s later = outputs call t later) (ip : UInt32) :
    (s.interface.addrMp ip).map Prod.snd =
      (t.interface.addrMp ip).map Prod.snd := by
  have hprobe := h [.sendDatagram probe ⟨ip, 0⟩]
  simp only [outputs, List.cons.injEq, and_true] at hprobe
  have hs := s.shown_probe ⟨ip, 0⟩
  have ht := t.shown_probe ⟨ip, 0⟩
  rw [hprobe] at hs
  exact hs.symm.trans ht

theorem addrMp_tick (s : Session) (ms : ℕ) (ip : UInt32) :
    (s.step (.tick ms)).interface.addrMp ip =
      (s.interface.addrMp ip).bind (ageEntry ms) :=
  rfl

theorem outputs_tick {s t : Session}
    (h : ∀ later, outputs call s later = outputs call t later) (ms : ℕ) :
    ∀ later, outputs call (s.step (.tick ms)) later =
      outputs call (t.step (.tick ms)) later := by
  intro later
  have hafter := h (.tick ms :: later)
  rw [outputs, outputs, List.cons.injEq] at hafter
  exact hafter.2

/-- A frame that shows neither at once nor later tells nothing. -/
theorem Runs.tellsNothing {ethernetAddress : EthernetAddress} {s : Session}
    (hruns : s.Runs ethernetAddress) {frame : EthernetFrame}
    (hsilent : (s.call (.recvFrame frame)).2 = .silent)
    (hlater : ∀ later, outputs call (s.call (.recvFrame frame)).1 later =
      outputs call s later) : TellsNothing s.interface frame := by
  intro htype
  have hreturned : (s.interface.recvFrame frame).2 = .ok none :=
    congrArg Output.returned hsilent
  cases ham : arpMessage? frame with
  | none =>
      refine ⟨(snd_recvFrame_of_arp htype ham).mp hreturned, ?_⟩
      intro am hsome
      cases hsome
  | some am =>
      obtain ⟨hheld, hasked, htable⟩ := step_of_silent ham hsilent
      refine ⟨length_payload_of_arpMessage? ham, ?_⟩
      intro am' hsome
      cases hsome
      refine ⟨?_, hheld, hasked⟩
      -- a datagram shows the address, and after as much time as the entry has
      -- left it shows the time
      have hknown := known_of_outputs hlater am.senderIpAddress
      rw [call, htable, Function.update_self, Option.map_some] at hknown
      obtain ⟨⟨time, address⟩, hentry, rfl⟩ :=
        Option.map_eq_some_iff.mp hknown.symm
      have hle := hruns.left _ _ hentry
      have hticked := known_of_outputs (outputs_tick hlater time)
        am.senderIpAddress
      rw [addrMp_tick, addrMp_tick, call, htable, hentry,
        Function.update_self] at hticked
      simp only [Option.bind_some, ageEntry, gt_iff_lt, lt_irrefl, if_false,
        Option.map_none, Option.map_eq_none_iff, ite_eq_right_iff,
        reduceCtorEq, imp_false] at hticked
      have htime : time = 30000 := by
        dsimp only at hle
        omega
      rw [hentry, htime]

/-! ## Whole runs -/

/-- **When frames for other stations are ignored.**  Frames for other stations are
received in the course of a run.  Each of them is answered with nothing, and all
frames and datagrams of the rest of the run are the same as without them,
wherever the run is stopped and whatever follows, if and only if each of the
frames tells nothing to the interface in the state in which it comes. -/
theorem foreign_frames_ignored_iff (ethernetAddress : EthernetAddress)
    (ipAddress : Address) (items : List (Event ⊕ EthernetFrame))
    (hforeign : ∀ item ∈ items, ∀ frame, item = .inr frame →
      Foreign ethernetAddress frame) :
    (∀ done, done <+: items → ∀ later : List Event,
        (new ethernetAddress ipAddress).Ignores (done ++ later.map .inl)) ↔
      EveryStep (insertedStep call Event.recvFrame)
        (new ethernetAddress ipAddress) items fun s item =>
          ∀ frame, item = .inr frame → TellsNothing s.interface frame := by
  apply forall_unnoticed_iff (I := Runs ethernetAddress)
    (G := Foreign ethernetAddress)
  · intro s event hruns
    exact hruns.step event
  · intro s frame hruns hframe htells
    refine call_of_recvFrame_eq (htells.recvFrame_eq ?_)
    rw [hruns.mac]
    exact hframe.1
  · intro s frame hruns _ hsilent hlater
    exact hruns.tellsNothing hsilent hlater
  · refine ⟨rfl, ?_⟩
    intro ip entry hentry
    cases hentry
  · intro frame hmem
    exact hforeign _ hmem frame rfl

/-- A reply is heard again on its way to another station, and a datagram for
another station comes by. -/
theorem foreign_frames_ignored_reply :
    let another : EthernetAddress := ⟨[1, 1, 1, 1, 1, 1], rfl⟩
    let reply : ARPMessage :=
      { opcode := ARPMessage.opcodeReply
        senderIpAddress := 7
        senderEthernetAddress := ⟨[2, 0, 0, 0, 0, 7], rfl⟩ }
    let items : List (Event ⊕ EthernetFrame) :=
      [.inl (.recvFrame
          ⟨{ type := EthernetHeader.typeARP }, [reply.fields]⟩),
        .inr ⟨{ dst := another, type := EthernetHeader.typeARP },
          [reply.fields]⟩,
        .inr ⟨{ dst := another, type := EthernetHeader.typeIPv4 },
          probe.wire⟩,
        .inl (.sendDatagram probe ⟨7, 0⟩)]
    (new .zero ⟨1, 0⟩).Ignores items := by
  intro another reply items
  have h := (foreign_frames_ignored_iff .zero ⟨1, 0⟩ items
    (by decide +kernel)).mpr (by decide +kernel)
  simpa using h items (List.prefix_refl _) []

/-- A reply to another station teaches the interface an address: the next
datagram is sent to it, and without the reply a request would be. -/
theorem not_ignores_foreign_reply :
    let frame : EthernetFrame :=
      ⟨{ dst := ⟨[1, 1, 1, 1, 1, 1], rfl⟩, type := EthernetHeader.typeARP },
        [ARPMessage.fields
          { opcode := ARPMessage.opcodeReply
            senderIpAddress := 7
            senderEthernetAddress := ⟨[2, 0, 0, 0, 0, 7], rfl⟩ }]⟩
    Foreign .zero frame ∧
      ¬(new .zero ⟨1, 0⟩).Ignores
        [.inr frame, .inl (.sendDatagram probe ⟨7, 0⟩)] := by
  intro frame
  refine ⟨by decide +kernel, ?_⟩
  intro h
  have htypes := congrArg (List.map fun output =>
    output.pushed.map fun frame => frame.header.type) h.1
  revert htypes
  decide +kernel

end Session
end NetworkInterface
end Sponge
