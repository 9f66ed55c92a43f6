import Sponge.NetworkInterface.Model
import Sponge.Support.Runs

/-!
# Interfaces on one link

Any number of stations with different addresses share a link.  The link keeps
every frame that a station has pushed and may deliver any of them to any station,
in any order, again and again, or never; the payload arrives in one buffer.

No frame is made up: what is on the link says the truth about who has which
address, and so the tables of the stations do.
-/

namespace Sponge
namespace NetworkInterface

open Support

/-- The addresses of the stations `ι`. -/
structure Addressing (ι : Type*) where
  mac : ι → EthernetAddress
  ip : ι → Address
  mac_injective : Function.Injective mac
  ip_injective : Function.Injective fun i => (ip i).ipv4Numeric
  mac_ne_broadcast : ∀ i, mac i ≠ .broadcast

/-- `ip` and `mac` are the addresses of one station. -/
def Addressing.Owns {ι : Type*} (a : Addressing ι) (ip : UInt32)
    (mac : EthernetAddress) : Prop :=
  ∃ j, (a.ip j).ipv4Numeric = ip ∧ a.mac j = mac

/-- The stations, the frames that they pushed, and who sent which datagram to
which next hop. -/
structure Link (ι : Type*) where
  station : ι → NetworkInterface
  wire : List SentFrame
  sent : List (ι × UInt32 × IPv4Datagram)

/-- The frame as it arrives. -/
def onWire (frame : SentFrame) : EthernetFrame :=
  ⟨frame.header, [frame.payload.concatenate]⟩

namespace Link

variable {ι : Type*}

/-- Something is done at a station, or the `k`-th frame of the link is delivered
to it. -/
inductive Event (ι : Type*) where
  | sendDatagram (i : ι) (dgram : IPv4Datagram) (nextHop : Address)
  | deliver (i : ι) (k : ℕ)
  | tick (i : ι) (ms : ℕ)

def new (a : Addressing ι) : Link ι where
  station i := { ethernetAddress := a.mac i, ipAddress := a.ip i }
  wire := []
  sent := []

variable [DecidableEq ι]

/-- Station `i` goes on as `n`; the frames that it pushed are on the link. -/
def advance (l : Link ι) (i : ι) (n : NetworkInterface) : Link ι :=
  { l with
    station := Function.update l.station i n
    wire := l.wire ++ n.framesOut.drop (l.station i).framesOut.length }

def step (l : Link ι) : Event ι → Link ι
  | .sendDatagram i dgram nextHop =>
      { l.advance i ((l.station i).sendDatagram dgram nextHop).1 with
        sent := l.sent ++ [(i, nextHop.ipv4Numeric, dgram)] }
  | .deliver i k =>
      match l.wire[k]? with
      | none => l
      | some frame => l.advance i ((l.station i).recvFrame (onWire frame)).1
  | .tick i ms =>
      { l with station := Function.update l.station i ((l.station i).tick ms) }

/-- The datagrams are well-formed and go to stations of the link. -/
def Regular (a : Addressing ι) : Event ι → Prop
  | .sendDatagram _ dgram nextHop =>
      dgram.WellFormed ∧ ∃ j, (a.ip j).ipv4Numeric = nextHop.ipv4Numeric
  | _ => True

end Link

/-! ## What is true of frames and stations -/

section Truth

variable {ι : Type*} (a : Addressing ι) (sent : List (ι × UInt32 × IPv4Datagram))

/-- A frame carries a datagram that was sent to the owner of its destination
address, or an ARP message that tells the addresses of a station. -/
inductive Genuine (frame : SentFrame) : Prop
  | datagram {i : ι} {ip : UInt32} {dgram : IPv4Datagram}
      (hsent : (i, ip, dgram) ∈ sent) (hwell : dgram.WellFormed)
      (hframe : frame.datagram = some (ip, dgram))
      (htype : frame.header.type = EthernetHeader.typeIPv4)
      (hdst : a.Owns ip frame.header.dst)
      (hpayload : frame.payload = dgram.wire)
  | arp {am : ARPMessage} (hframe : frame.datagram = none)
      (htype : frame.header.type = EthernetHeader.typeARP)
      (hpayload : frame.payload = [am.fields]) (hsupported : am.Supported)
      (hsender : a.Owns am.senderIpAddress am.senderEthernetAddress)

/-- Station `i` has its addresses, a table without wrong entries, and holds
datagrams that it was given for stations of the link. -/
structure Truthful (i : ι) (n : NetworkInterface) : Prop where
  mac : n.ethernetAddress = a.mac i
  ip : n.ipAddress = a.ip i
  table : ∀ ip entry, n.addrMp ip = some entry → entry.2 ≠ .broadcast →
    a.Owns ip entry.2
  held : ∀ ip dgram, n.dataMp ip = some dgram →
    dgram.WellFormed ∧ (i, ip, dgram) ∈ sent

variable {a sent}

theorem Genuine.mono {frame : SentFrame} (h : Genuine a sent frame)
    {sent' : List (ι × UInt32 × IPv4Datagram)} (hsub : sent ⊆ sent') :
    Genuine a sent' frame := by
  cases h with
  | datagram hsent hwell hframe htype hdst hpayload =>
      exact .datagram (hsub hsent) hwell hframe htype hdst hpayload
  | arp hframe htype hpayload hsupported hsender =>
      exact .arp hframe htype hpayload hsupported hsender

theorem Truthful.mono {i : ι} {n : NetworkInterface}
    (h : Truthful a sent i n) {sent' : List (ι × UInt32 × IPv4Datagram)}
    (hsub : sent ⊆ sent') : Truthful a sent' i n where
  mac := h.mac
  ip := h.ip
  table := h.table
  held := by
    intro ip dgram hheld
    obtain ⟨hwell, hsent⟩ := h.held ip dgram hheld
    exact ⟨hwell, hsub hsent⟩

theorem Truthful.owns {i : ι} {n : NetworkInterface}
    (h : Truthful a sent i n) :
    a.Owns n.ipAddress.ipv4Numeric n.ethernetAddress :=
  ⟨i, by rw [h.ip], h.mac.symm⟩

/-- A station tells its own addresses. -/
theorem Truthful.genuine_arpFrame {i : ι} {n : NetworkInterface}
    (h : Truthful a sent i n) (address : EthernetAddress) {am : ARPMessage}
    (hsupported : am.Supported)
    (hip : am.senderIpAddress = n.ipAddress.ipv4Numeric)
    (hmac : am.senderEthernetAddress = n.ethernetAddress) :
    Genuine a sent (n.arpFrame address am.fields) := by
  refine .arp rfl rfl rfl hsupported ?_
  rw [hip, hmac]
  exact h.owns

/-! ## Sending -/

theorem Truthful.sendDatagram {i : ι} {n : NetworkInterface}
    (h : Truthful a sent i n) {dgram : IPv4Datagram}
    (hwell : dgram.WellFormed) {nextHop : Address}
    (hsent : (i, nextHop.ipv4Numeric, dgram) ∈ sent) :
    ∃ frames, (n.sendDatagram dgram nextHop).1.framesOut =
        n.framesOut ++ frames ∧
      (∀ frame ∈ frames, Genuine a sent frame) ∧
      Truthful a sent i (n.sendDatagram dgram nextHop).1 := by
  rcases n.sendDatagram_cases hwell.serializable nextHop with
    hasks | hwaits | ⟨time, address, hentry, hknown, hsends⟩
  · rw [hasks]
    refine ⟨_, rfl, ?_, h.mac, h.ip, ?_, ?_⟩
    · intro frame hmem
      rw [List.mem_singleton] at hmem
      subst hmem
      exact h.genuine_arpFrame _ (n.supported_arpRequest _) rfl rfl
    · exact Table.forall_insert h.table fun hknown => absurd rfl hknown
    · exact Table.forall_insert h.held ⟨hwell, hsent⟩
  · rw [hwaits]
    exact ⟨[], by simp, by simp, h⟩
  · rw [hsends]
    refine ⟨_, rfl, ?_, h.mac, h.ip, h.table, h.held⟩
    intro frame hmem
    rw [List.mem_singleton] at hmem
    subst hmem
    exact .datagram hsent hwell rfl rfl (h.table _ _ hentry hknown) rfl

/-! ## Receiving -/

/-- The message in a genuine ARP frame is read as it was written. -/
theorem arpMessage?_onWire {frame : SentFrame} {am : ARPMessage}
    (htype : frame.header.type = EthernetHeader.typeARP)
    (hpayload : frame.payload = [am.fields]) (hsupported : am.Supported) :
    arpMessage? (onWire frame) = some am := by
  refine arpMessage?_of_arp htype ?_ hsupported
  rw [onWire, hpayload]
  exact congrArg (fun buffer => [buffer]) (List.append_nil am.fields)

theorem Truthful.processed {i : ι} {n : NetworkInterface}
    (h : Truthful a sent i n) {am : ARPMessage}
    (hsender : a.Owns am.senderIpAddress am.senderEthernetAddress) :
    (∀ frame ∈ n.heldFrames am ++ n.answerFrames am,
        Genuine a sent frame) ∧
      Truthful a sent i (n.processed am) := by
  refine ⟨?_, h.mac, h.ip, ?_, ?_⟩
  · intro frame hmem
    rcases List.mem_append.mp hmem with hheld | hanswer
    · obtain ⟨dgram, hdata, rfl⟩ := mem_heldFrames.mp hheld
      obtain ⟨hwell, hsent⟩ := h.held _ _ hdata
      exact .datagram hsent hwell rfl rfl hsender rfl
    · obtain ⟨⟨-, hasked⟩, rfl⟩ := mem_answerFrames.mp hanswer
      exact h.genuine_arpFrame _ (n.supported_arpReply am) hasked rfl
  · exact Table.forall_insert h.table fun _ => hsender
  · exact Table.forall_erase h.held am.senderIpAddress

theorem Truthful.processArp_eq {i : ι} {n : NetworkInterface}
    (h : Truthful a sent i n) (am : ARPMessage) :
    n.processArp am = (n.processed am, .ok ()) :=
  NetworkInterface.processArp_eq fun dgram hheld =>
    (h.held _ dgram hheld).1.serializable

theorem Truthful.recvFrame {i : ι} {n : NetworkInterface}
    (h : Truthful a sent i n) {frame : SentFrame}
    (hframe : Genuine a sent frame) :
    ∃ frames, (n.recvFrame (onWire frame)).1.framesOut =
        n.framesOut ++ frames ∧
      (∀ frame ∈ frames, Genuine a sent frame) ∧
      Truthful a sent i (n.recvFrame (onWire frame)).1 := by
  cases hframe with
  | datagram hsent hwell hdatagram htype hdst hpayload =>
      have hnone : arpMessage? (onWire frame) = none :=
        arpMessage?_of_ipv4 htype
      rw [recvFrame_of_none _ hnone]
      exact ⟨[], by simp, by simp, h⟩
  | arp hdatagram htype hpayload hsupported hsender =>
      rw [recvFrame_of_some _ (arpMessage?_onWire htype hpayload hsupported),
        h.processArp_eq]
      obtain ⟨hframes, hnext⟩ := h.processed hsender
      exact ⟨_, rfl, hframes, hnext⟩

/-- What `recv_frame` returns for a genuine frame: the datagram if there is one
and the frame is for the station. -/
theorem Truthful.recvFrame_snd {i : ι} {n : NetworkInterface}
    (h : Truthful a sent i n) {frame : SentFrame}
    (hframe : Genuine a sent frame) :
    (n.recvFrame (onWire frame)).2 =
      .ok (if frame.header.dst = n.ethernetAddress then
        frame.datagram.map fun entry => entry.2.arriving else none) := by
  cases hframe with
  | datagram hsent hwell hdatagram htype hdst hpayload =>
      by_cases hown : frame.header.dst = n.ethernetAddress
      · simp only [NetworkInterface.recvFrame, onWire, htype, hown, hpayload,
          BufferList.toBuffer, IPv4Datagram.parse_wire hwell, hdatagram,
          and_self, if_true, Option.map_some]
      · have harp : ¬EthernetHeader.typeIPv4 = EthernetHeader.typeARP := by
          decide
        simp only [NetworkInterface.recvFrame, onWire, htype, hown, harp,
          and_false, if_false]
  | arp hdatagram htype hpayload hsupported hsender =>
      rw [recvFrame_of_some _ (arpMessage?_onWire htype hpayload hsupported),
        h.processArp_eq, hdatagram]
      simp [Except.map]

theorem Truthful.tick {i : ι} {n : NetworkInterface}
    (h : Truthful a sent i n) (ms : ℕ) : Truthful a sent i (n.tick ms) where
  mac := h.mac
  ip := h.ip
  table := by
    refine Table.forall_bind h.table ?_
    rintro ip ⟨time, address⟩ entry howns hage
    simp only [ageEntry] at hage
    split_ifs at hage
    cases hage
    exact howns
  held := h.held

end Truth

/-! ## The invariant of the link -/

namespace Link

variable {ι : Type*} {a : Addressing ι}

structure Honest (a : Addressing ι) (l : Link ι) : Prop where
  station : ∀ i, Truthful a l.sent i (l.station i)
  wire : ∀ frame ∈ l.wire, Genuine a l.sent frame

theorem honest_new (a : Addressing ι) : Honest a (new a) where
  station := by
    intro i
    refine ⟨rfl, rfl, ?_, ?_⟩
    · intro ip entry hentry
      cases hentry
    · intro ip dgram hheld
      cases hheld
  wire := by
    intro frame hmem
    cases hmem

variable [DecidableEq ι]

/-- The rule for a step at one station. -/
theorem Honest.advance {l : Link ι} (h : Honest a l) {i : ι}
    {n : NetworkInterface}
    (hn : ∃ frames, n.framesOut = (l.station i).framesOut ++ frames ∧
      (∀ frame ∈ frames, Genuine a l.sent frame) ∧
      Truthful a l.sent i n) :
    Honest a (l.advance i n) := by
  obtain ⟨frames, hout, hframes, hnext⟩ := hn
  refine ⟨?_, ?_⟩
  · exact (Function.forall_update_iff l.station
      (fun j n => Truthful a l.sent j n)).mpr
        ⟨hnext, fun j _ => h.station j⟩
  · intro frame hmem
    simp only [Link.advance, hout, List.drop_left] at hmem
    rcases List.mem_append.mp hmem with hold | hnew
    · exact h.wire frame hold
    · exact hframes frame hnew

theorem Honest.step {l : Link ι} (h : Honest a l) {event : Event ι}
    (hevent : Regular a event) : Honest a (l.step event) := by
  cases event with
  | sendDatagram i dgram nextHop =>
      -- the datagram is entered into the history before it is sent
      have hsub : l.sent ⊆ l.sent ++ [(i, nextHop.ipv4Numeric, dgram)] :=
        List.subset_append_left _ _
      have hentered : Honest a
          { l with sent := l.sent ++ [(i, nextHop.ipv4Numeric, dgram)] } :=
        ⟨fun j => (h.station j).mono hsub,
          fun frame hmem => (h.wire frame hmem).mono hsub⟩
      exact hentered.advance
        ((hentered.station i).sendDatagram hevent.1 (by simp))
  | deliver i k =>
      cases hframe : l.wire[k]? with
      | none =>
          simp only [Link.step, hframe]
          exact h
      | some frame =>
          simp only [Link.step, hframe]
          exact h.advance ((h.station i).recvFrame
            (h.wire frame (List.mem_of_getElem? hframe)))
  | tick i ms =>
      exact ⟨(Function.forall_update_iff l.station
        (fun j n => Truthful a l.sent j n)).mpr
          ⟨(h.station i).tick ms, fun j _ => h.station j⟩, h.wire⟩

/-- **Honest stations agree.**  Whatever is delivered to whom, in every state of
the link each entry of a table that is not pending has the Ethernet address of
the station with that IP address.  Each frame with a datagram is addressed to
the station with the IP address of the next hop that it was sent to, and only
there `recv_frame` returns it, equal to the one sent except for the checksum of
the header and with its payload in one buffer; for any other frame it returns
nothing. -/
theorem arp_agreement (a : Addressing ι) (events : List (Event ι))
    (hevents : ∀ event ∈ events, Regular a event) :
    EveryState step (new a) events fun l =>
      (∀ i ip time mac, (l.station i).addrMp ip = some (time, mac) →
        mac ≠ .broadcast → ∃ j, (a.ip j).ipv4Numeric = ip ∧ a.mac j = mac) ∧
      ∀ frame ∈ l.wire,
        (∀ ip dgram, frame.datagram = some (ip, dgram) →
          frame.header.type = EthernetHeader.typeIPv4 ∧
            (∃ i, (i, ip, dgram) ∈ l.sent) ∧
            ∃ j, (a.ip j).ipv4Numeric = ip ∧ frame.header.dst = a.mac j ∧
              ∀ i, ((l.station i).recvFrame (onWire frame)).2 =
                .ok (if i = j then some dgram.arriving else none)) ∧
        (frame.datagram = none →
          ∀ i, ((l.station i).recvFrame (onWire frame)).2 = .ok none) := by
  intro done hdone
  have hguard : EveryStep step (new a) done
      fun _ event => Regular a event :=
    (everyStep_iff_forall_mem.mpr hevents).restrict hdone
  have h := hguard.invariant (I := Honest a)
    (fun l event hl hevent => hl.step hevent) (honest_new a)
  refine ⟨?_, ?_⟩
  · intro i ip time mac hentry hknown
    exact (h.station i).table ip (time, mac) hentry hknown
  · intro frame hmem
    have hgenuine := h.wire frame hmem
    refine ⟨?_, ?_⟩
    · intro ip dgram hdatagram
      cases hgenuine with
      | datagram hsent hwell hframe htype hdst hpayload =>
          rw [hframe, Option.some.injEq, Prod.mk.injEq] at hdatagram
          obtain ⟨rfl, rfl⟩ := hdatagram
          obtain ⟨j, hip, hmac⟩ := hdst
          refine ⟨htype, ⟨_, hsent⟩, j, hip, hmac.symm, ?_⟩
          intro i
          rw [(h.station i).recvFrame_snd (h.wire frame hmem), hframe,
            ← hmac, (h.station i).mac]
          by_cases hi : i = j
          · simp [hi]
          · have hne : ¬a.mac j = a.mac i :=
              fun heq => hi (a.mac_injective heq).symm
            simp [hi, hne]
      | arp hframe htype hpayload hsupported hsender =>
          rw [hframe] at hdatagram
          cases hdatagram
    · intro hnone i
      rw [(h.station i).recvFrame_snd hgenuine, hnone]
      simp

/-- One station asks for the address of another, which answers, and gets the
datagram that waited for it. -/
theorem arp_agreement_answered :
    let a : Addressing Bool :=
      { mac := fun i => if i then .zero else ⟨[1, 0, 0, 0, 0, 0], rfl⟩
        ip := fun i => if i then ⟨2, 0⟩ else ⟨1, 0⟩
        mac_injective := by unfold Function.Injective; decide
        ip_injective := by unfold Function.Injective; decide
        mac_ne_broadcast := by decide }
    let dgram : IPv4Datagram := { header := { len := 20 } }
    let events : List (Event Bool) :=
      [.sendDatagram false dgram ⟨2, 0⟩, .deliver true 0, .deliver false 1]
    let l := events.foldl step (new a)
    ∃ frame ∈ l.wire, frame.datagram = some (2, dgram) ∧
      ((l.station true).recvFrame (onWire frame)).2 =
        .ok (some dgram.arriving) := by
  intro a dgram events l
  have hwell : dgram.WellFormed :=
    ⟨rfl, by decide, by decide, by decide, by decide⟩
  have hevents : ∀ event ∈ events, Regular a event := by
    simp only [events, List.forall_mem_cons, Regular]
    exact ⟨⟨hwell, true, rfl⟩, trivial, trivial, by simp⟩
  obtain ⟨-, hwire⟩ := (arp_agreement a events hevents).last
  obtain ⟨frame, hmem, hdatagram⟩ :
      ∃ frame ∈ l.wire, frame.datagram = some (2, dgram) := by
    decide +kernel
  obtain ⟨-, -, j, hip, -, hreturns⟩ := (hwire frame hmem).1 2 dgram hdatagram
  have hj : j = true := by
    revert hip
    cases j <;> decide
  refine ⟨frame, hmem, hdatagram, ?_⟩
  rw [hreturns true, hj]
  rfl

end Link
end NetworkInterface
end Sponge
