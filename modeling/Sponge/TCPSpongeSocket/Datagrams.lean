import Sponge.Network.Headers
import Sponge.TCPSpongeSocket.Pair

/-!
# Two sockets over UDP

Each socket has a `TCPOverUDPSocketAdapter`.  Of the network between them only
this is assumed: the bytes of a datagram that one socket receives were sent by
the other one before.  Datagrams may be lost, repeated and reordered, and may
come from any address.  Then the adapters return only segments that the other
one has taken, and what one owner writes arrives at the other.
-/

namespace Sponge

open Support

/-! ## What a UDP socket carries -/

namespace UDPSocket

theorem recv_cases (s : UDPSocket) :
    (∃ e, s.recv.2 = .error e ∧ s.recv.1.received = s.received ∧
        s.recv.1.sent = s.sent) ∨
      ∃ datagram, s.recv.2 = .ok datagram ∧ datagram.2.length ≤ mtu ∧
        s.recv.1.received = s.received ++ [datagram] ∧
        s.recv.1.sent = s.sent := by
  unfold recv
  split
  · exact Or.inl ⟨_, rfl, rfl, rfl⟩
  · exact Or.inl ⟨_, rfl, rfl, rfl⟩
  · rename_i datagram recvs _
    dsimp only
    split
    · exact Or.inl ⟨_, rfl, rfl, rfl⟩
    · rename_i hle
      exact Or.inr ⟨datagram, rfl, Nat.not_lt.mp hle, rfl, rfl⟩

theorem sendto_cases (s : UDPSocket) (destination : Address)
    (payload : BufferList) :
    (∃ e, (s.sendto destination payload).2 = .error e ∧
        (s.sendto destination payload).1.sent = s.sent ∧
        (s.sendto destination payload).1.received = s.received) ∨
      (s.sendto destination payload).2 = .ok () ∧
        (s.sendto destination payload).1.sent =
          s.sent ++ [(destination, payload.concatenate)] ∧
        (s.sendto destination payload).1.received = s.received := by
  unfold sendto
  split
  · exact Or.inl ⟨_, rfl, rfl, rfl⟩
  · exact Or.inl ⟨_, rfl, rfl, rfl⟩
  · dsimp only
    split
    · exact Or.inl ⟨_, rfl, rfl, rfl⟩
    · exact Or.inr ⟨rfl, rfl, rfl⟩

end UDPSocket

namespace TCPOverUDPSocketAdapter

/-- The segment is sent as these bytes, with some ports. -/
def Encodes (seg : TCPSegment) (bytes : List UInt8) : Prop :=
  ∃ sport dport payload,
    TCPSegment.serialize
      { seg with
        header := { seg.header with sport := sport, dport := dport } } 0 =
      .ok payload ∧ payload.concatenate = bytes

/-- The bytes are a datagram that is read as this segment. -/
def Decodes (bytes : List UInt8) (seg : TCPSegment) : Prop :=
  bytes.length ≤ UDPSocket.mtu ∧
    TCPSegment.parse {} bytes 0 = (.noError, seg)

/-- What is read is what was sent, but for the ports and the checksum.  In a
datagram the sum behind the checksum does not overflow. -/
theorem Encodes.core_eq {seg seg' : TCPSegment} {bytes : List UInt8}
    (h : Encodes seg bytes) (hdoff : seg.header.doff = 5)
    (h' : Decodes bytes seg') : seg.core = seg'.core := by
  obtain ⟨sport, dport, payload, hserialize, rfl⟩ := h
  obtain ⟨hsize, hparse⟩ := h'
  have hfive : (5 : UInt8).toNat = 5 := rfl
  rw [TCPSegment.serialize_eq (by rw [hdoff]; decide)] at hserialize
  cases hserialize
  simp only [BufferList.concatenate, List.flatten_cons, List.flatten_nil,
    List.append_nil, List.length_append, UDPSocket.mtu] at hsize hparse
  rw [TCPSegment.parse_serialize (by dsimp only; rw [hdoff, hfive])
    (by dsimp only; rw [hdoff, hfive]; decide) (by decide)
    (by dsimp only; rw [length_resize, hdoff, hfive] at hsize; omega)]
    at hparse
  cases hparse
  rfl

theorem read_spec (a : TCPOverUDPSocketAdapter) :
    a.read.1.sock.sent = a.sock.sent ∧
      a.sock.received <+: a.read.1.sock.received ∧
      ∀ seg, a.read.2 = .ok (some seg) →
        ∃ datagram ∈ a.read.1.sock.received, Decodes datagram.2 seg := by
  have hcases := a.sock.recv_cases
  unfold read
  rcases hrecv : a.sock.recv with ⟨sock, e | datagram⟩
  · rw [hrecv] at hcases
    rcases hcases with ⟨e', -, hreceived, hsent⟩ | ⟨datagram, hok, -⟩
    · refine ⟨hsent, ?_, fun seg hseg => by cases hseg⟩
      dsimp only at hreceived ⊢
      rw [hreceived]
    · cases hok
  · rw [hrecv] at hcases
    rcases hcases with ⟨e', herror, -⟩ | ⟨datagram', hok, hle, hreceived, hsent⟩
    · cases herror
    cases hok
    have hfront : a.sock.received <+: sock.received := by
      rw [hreceived]
      exact List.prefix_append _ _
    have hmem : datagram ∈ sock.received := by
      rw [hreceived]
      exact List.mem_append_right _ (List.mem_singleton_self datagram)
    dsimp only
    split
    · exact ⟨hsent, hfront, fun seg hseg => by cases hseg⟩
    split
    · rename_i seg hparse
      split
      · split
        · refine ⟨hsent, hfront, fun seg' hseg' => ?_⟩
          cases hseg'
          exact ⟨datagram, hmem, hle, hparse⟩
        · exact ⟨hsent, hfront, fun seg' hseg' => by cases hseg'⟩
      · refine ⟨hsent, hfront, fun seg' hseg' => ?_⟩
        cases hseg'
        exact ⟨datagram, hmem, hle, hparse⟩
    · exact ⟨hsent, hfront, fun seg' hseg' => by cases hseg'⟩

theorem write_spec (a : TCPOverUDPSocketAdapter) (seg : TCPSegment) :
    (a.write seg).1.sock.received = a.sock.received ∧
      (∀ e, (a.write seg).2 = .error e →
        (a.write seg).1.sock.sent = a.sock.sent) ∧
      ((a.write seg).2 = .ok () → ∃ datagram,
        (a.write seg).1.sock.sent = a.sock.sent ++ [datagram] ∧
          Encodes seg datagram.2) := by
  unfold write
  dsimp only
  split
  · exact ⟨rfl, fun _ _ => rfl, fun hok => by cases hok⟩
  · rename_i payload hserialize
    rcases a.sock.sendto_cases a.config.destination payload with
      ⟨e, herror, hsent, hreceived⟩ | ⟨hok, hsent, hreceived⟩
    · refine ⟨hreceived, fun _ _ => hsent, fun hok => ?_⟩
      cases herror.symm.trans hok
    · refine ⟨hreceived, fun e herror => ?_, fun _ => ?_⟩
      · cases hok.symm.trans herror
      · exact ⟨_, hsent, _, _, payload, hserialize, rfl⟩

end TCPOverUDPSocketAdapter

namespace TCPSpongeSocket

/-! ## The datagrams of a socket -/

variable {w w' : World TCPOverUDPSocketAdapter}

/-- The datagrams that were sent are segments of the wire, and the segments that
arrived are datagrams that were received. -/
structure World.Datagrams (w : World TCPOverUDPSocketAdapter) : Prop where
  sent : ∀ datagram ∈ w.adapter.sock.sent, ∃ seg ∈ w.wire,
    TCPOverUDPSocketAdapter.Encodes seg.toTCPSegment datagram.2
  arrived : ∀ seg ∈ w.arrived, ∃ datagram ∈ w.adapter.sock.received,
    TCPOverUDPSocketAdapter.Decodes datagram.2 seg

/-- What neither sends nor passes on a segment. -/
theorem World.Datagrams.keep (h : w.Datagrams)
    (hsent : w'.adapter.sock.sent = w.adapter.sock.sent)
    (hreceived : w.adapter.sock.received <+: w'.adapter.sock.received)
    (hwire : w'.wire = w.wire) (harrived : w'.arrived = w.arrived) :
    w'.Datagrams := by
  refine ⟨?_, ?_⟩
  · rw [hsent, hwire]
    exact h.sent
  · rw [harrived]
    intro seg hseg
    obtain ⟨datagram, hmem, hdecodes⟩ := h.arrived seg hseg
    exact ⟨datagram, hreceived.subset hmem, hdecodes⟩

theorem World.Datagrams.of_eq (h : w.Datagrams)
    (hadapter : w'.adapter = w.adapter) (hwire : w'.wire = w.wire)
    (harrived : w'.arrived = w.arrived) : w'.Datagrams :=
  h.keep (by rw [hadapter]) (by rw [hadapter]) hwire harrived

theorem World.Datagrams.noteAcked (h : w.Datagrams) :
    w.noteAcked.Datagrams := by
  unfold World.noteAcked
  split
  · exact h.of_eq rfl rfl rfl
  · exact h

theorem World.Datagrams.receiveDatagram (h : w.Datagrams) :
    w.receiveDatagram.1.Datagrams := by
  obtain ⟨hsent, hreceived, hdecodes⟩ := w.adapter.read_spec
  have hkept : World.Datagrams { w with adapter := w.adapter.read.1 } :=
    h.keep hsent hreceived rfl rfl
  have hread : FdAdapter.read w.adapter = w.adapter.read := rfl
  unfold World.receiveDatagram
  rw [hread]
  rcases hresult : w.adapter.read with ⟨adapter, e | _ | seg⟩
  · rw [hresult] at hkept
    exact hkept
  · rw [hresult] at hkept
    exact hkept.noteAcked
  · rw [hresult] at hkept hdecodes
    refine World.Datagrams.noteAcked ⟨hkept.sent, ?_⟩
    intro seg' hseg'
    rcases List.mem_append.mp hseg' with hold | hnew
    · exact hkept.arrived seg' hold
    · rw [List.mem_singleton.mp hnew]
      exact hdecodes seg rfl

theorem World.Datagrams.sendSegments (segments : List SentSegment)
    (h : w.Datagrams) : (World.sendSegments segments w).1.Datagrams := by
  induction segments generalizing w with
  | nil => exact h
  | cons seg segments ih =>
      have hspec := w.adapter.write_spec seg.toTCPSegment
      have hwrite : FdAdapter.write w.adapter seg.toTCPSegment =
        w.adapter.write seg.toTCPSegment := rfl
      unfold World.sendSegments
      rw [hwrite]
      rcases hresult : w.adapter.write seg.toTCPSegment with
        ⟨adapter, e | ⟨⟩⟩
      · rw [hresult] at hspec
        obtain ⟨hreceived, herror, -⟩ := hspec
        exact h.keep (herror e rfl) (by rw [hreceived]) rfl rfl
      · rw [hresult] at hspec
        obtain ⟨hreceived, -, hok⟩ := hspec
        obtain ⟨datagram, hsent, hencodes⟩ := hok rfl
        dsimp only at hreceived hsent
        refine ih ⟨?_, ?_⟩
        · dsimp only
          rw [hsent]
          intro datagram' hmem
          rcases List.mem_append.mp hmem with hold | hnew
          · obtain ⟨seg', hseg', hencodes'⟩ := h.sent datagram' hold
            exact ⟨seg', List.mem_append_left _ hseg', hencodes'⟩
          · rw [List.mem_singleton.mp hnew]
            exact ⟨seg, List.mem_append_right _ (List.mem_singleton_self seg),
              hencodes⟩
        · dsimp only
          rw [hreceived]
          exact h.arrived

theorem World.Datagrams.readOwner (h : w.Datagrams) :
    w.readOwner.1.Datagrams := by
  rcases readOwner_cases w with ⟨threadData, e, heq, -⟩ |
    ⟨threadData, data, heq, -⟩
  · rw [heq]
    exact h.of_eq rfl rfl rfl
  · rw [heq]
    dsimp only
    split
    · exact h.of_eq rfl rfl rfl
    · exact h.of_eq rfl rfl rfl

theorem World.Datagrams.writeOwner (h : w.Datagrams) :
    w.writeOwner.1.Datagrams := by
  rcases writeOwner_cases w with ⟨threadData, e, heq, -⟩ |
    ⟨threadData, n, heq, -⟩
  · rw [heq]
    exact h.of_eq rfl rfl rfl
  · rw [heq]
    dsimp only
    split
    · split
      · exact h.of_eq rfl rfl rfl
      · exact h.of_eq rfl rfl rfl
    · exact h.of_eq rfl rfl rfl

theorem datagrams_invariant :
    Reactor.Invariant (EventLoop.reactor rule) (fun _ => True)
      (fun _ => World.Datagrams) fun _ _ => True where
  cancel := by
    intro installed w i hw _ _
    cases i with
    | readOwner => exact hw.of_eq rfl rfl rfl
    | receiveDatagram => exact hw
    | writeOwner => exact hw
    | sendDatagrams => exact hw
  arm := fun _ _ _ _ => trivial
  call := by
    intro installed w i hw _ _
    cases i with
    | readOwner => exact hw.readOwner
    | receiveDatagram => exact hw.receiveDatagram
    | writeOwner => exact hw.writeOwner
    | sendDatagrams => exact hw.sendSegments _
  armed_cancel := fun _ _ _ => trivial
  armed_call := fun _ _ _ => trivial

theorem datagrams_tick {s : TCPSpongeSocket TCPOverUDPSocketAdapter}
    (h : s.world.Datagrams) (ms : ℕ) : (s.tick ms).world.Datagrams := by
  unfold tick
  split
  · exact h.of_eq rfl rfl rfl
  · exact h

/-- A turn of the loop keeps account of the datagrams, also when it throws. -/
theorem datagrams_tcpLoop {s : TCPSpongeSocket TCPOverUDPSocketAdapter}
    (hrules : s.rules.Nodup) (h : s.world.Datagrams) (turn : Turn) :
    (s.tcpLoop turn).world.Datagrams := by
  obtain ⟨⟨installed, hany⟩, -⟩ := EventLoop.waitNextEvent_invariant
    datagrams_invariant hrules turn.answer h (fun _ _ => trivial)
  unfold tcpLoop
  split
  · rcases hwait : EventLoop.waitNextEvent rule s.rules turn.answer s.world with
      ⟨w, e | ⟨rules, result⟩⟩
    · rw [hwait] at hany
      exact hany
    · rw [hwait] at hany
      dsimp only
      split
      · exact hany
      · exact datagrams_tick (s := { s with rules := rules, world := w }) hany
          turn.ms
  · exact h

theorem sock_start (role : Role) (reads : List (Option (List UInt8)))
    (writes : List (Option ℕ)) (shutdownWorks : Bool)
    (adapter : TCPOverUDPSocketAdapter) (cTcp : TCPConfig) (random : UInt32)
    (cAd : FdAdapterConfig) :
    (start role reads writes shutdownWorks adapter cTcp random
      cAd).world.adapter.sock = adapter.sock := by
  cases role <;> rfl

/-! ## Pairs over UDP -/

namespace Pair

/-- Two sockets over UDP. -/
abbrev OverUDP := Pair fun _ => TCPOverUDPSocketAdapter

/-- What the socket has received when the turn is over was sent by the other. -/
def Conveys (p : OverUDP) (event : Side × Turn) : Prop :=
  ∀ datagram ∈ ((p event.1).tcpLoop event.2).world.adapter.sock.received,
    ∃ sent ∈ (p event.1.other).world.adapter.sock.sent, sent.2 = datagram.2

instance (p : OverUDP) (event : Side × Turn) : Decidable (p.Conveys event) :=
  inferInstanceAs (Decidable (∀ datagram ∈ UDPSocket.received _,
    ∃ sent ∈ UDPSocket.sent _, sent.2 = datagram.2))

variable {setup : Side → Setup TCPOverUDPSocketAdapter}
  {turns : List (Side × Turn)}

theorem Matches.doff_wire {events : List Network.Event} {p : OverUDP}
    (h : Matches setup events p) (side : Side) :
    ∀ seg ∈ (p side).world.wire, seg.header.doff = 5 := by
  have hstandard := Network.standard_run (fun side => (setup side).cTcp)
    (fun side => (setup side).random) events side
  rw [h.network] at hstandard
  exact hstandard.wire

/-- Equal bytes are read as the segment that was sent. -/
theorem Conveys.delivers {events : List Network.Event} {p : OverUDP}
    {event : Side × Turn} (h : p.Conveys event)
    (hmatches : Matches setup events p)
    (hdatagrams : ∀ side, (p side).world.Datagrams) : p.Delivers event := by
  have hafter := datagrams_tcpLoop (hmatches.orderly event.1).nodup
    (hdatagrams event.1) event.2
  intro seg hseg
  obtain ⟨datagram, hdatagram, hdecodes⟩ :=
    hafter.arrived seg (List.drop_subset _ _ hseg)
  obtain ⟨sent, hsent, hsame⟩ := h datagram hdatagram
  obtain ⟨seg', hwire, hencodes⟩ := (hdatagrams event.1.other).sent sent hsent
  rw [hsame] at hencodes
  exact ⟨seg', hwire, hencodes.core_eq
    (hmatches.doff_wire event.1.other seg' hwire) hdecodes⟩

theorem datagrams_start (hsent : ∀ side, (setup side).adapter.sock.sent = [])
    (side : Side) : (start setup side).world.Datagrams := by
  have hsock : (start setup side).world.adapter.sock =
      (setup side).adapter.sock := sock_start _ _ _ _ _ _ _ _
  have harrived : (start setup side).world.arrived = [] :=
    arrived_start _ _ _ _ _ _ _ _
  refine ⟨?_, ?_⟩
  · rw [hsock, hsent]
    intro datagram hmem
    cases hmem
  · rw [harrived]
    intro seg hmem
    cases hmem

theorem exists_matches_of_conveys
    (hsent : ∀ side, (setup side).adapter.sock.sent = [])
    (h : EveryStep step (start setup) turns Conveys) :
    ∃ events, Matches setup events (run setup turns) := by
  have hboth := h.invariant
    (I := fun p => (∃ events, Matches setup events p) ∧
      ∀ side, (p side).world.Datagrams) ?_
    ⟨exists_matches_start setup, datagrams_start hsent⟩
  · exact hboth.1
  rintro p event ⟨⟨events, hmatches⟩, hdatagrams⟩ hconveys
  obtain ⟨events', hnext⟩ :=
    hmatches.step (hconveys.delivers hmatches hdatagrams)
  refine ⟨⟨_, hnext⟩, ?_⟩
  exact (Function.forall_update_iff p (p := fun _ s => s.world.Datagrams)).mpr
    ⟨datagrams_tcpLoop (hmatches.orderly event.1).nodup (hdatagrams event.1)
      event.2, fun side _ => hdatagrams side⟩

end Pair

end TCPSpongeSocket
end Sponge
