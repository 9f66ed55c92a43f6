import Sponge.Network.Bounded
import Sponge.TCPSpongeSocket.Refinement

/-!
# Two sockets

Two sockets, with an adapter each, take turns in any order.  Of what is between
the adapters only this is assumed: a segment that one adapter returns was taken
by the other one before, and at most its ports and its checksum were changed.
Segments may be lost, repeated and reordered.  The two sockets are then a network
of two endpoints, and what one owner writes arrives at the other.
-/

namespace Sponge

open Support

/-! ## What a connection looks at -/

/-- The segment without its ports and its checksum. -/
def TCPSegment.core (seg : TCPSegment) : TCPSegment :=
  { seg with header := { seg.header with sport := 0, dport := 0, cksum := 0 } }

namespace TCPReceiver

theorem segmentReceived_core (r : TCPReceiver) (seg : TCPSegment) :
    r.segmentReceived seg.core = r.segmentReceived seg := by
  have hnote : r.noteSyn seg.core = r.noteSyn seg := rfl
  have hindex : (r.noteSyn seg).streamIndex? seg.core =
      (r.noteSyn seg).streamIndex? seg := rfl
  unfold segmentReceived
  rw [hnote]
  dsimp only
  rewrite [hindex]
  rfl

end TCPReceiver

namespace TCPConnection

/-- Ports and checksum do not matter to a connection. -/
theorem segmentReceived_core (c : TCPConnection) (seg : TCPSegment) :
    c.segmentReceived seg.core = c.segmentReceived seg := by
  have hreply : ∀ c' : TCPConnection, c'.reply seg.core = c'.reply seg :=
    fun _ => rfl
  have hkeepAlive : ∀ c' : TCPConnection,
      c'.replyKeepAlive seg.core = c'.replyKeepAlive seg := fun _ => rfl
  have hrst : seg.core.header.rst = seg.header.rst := rfl
  have hack : seg.core.header.ack = seg.header.ack := rfl
  have hackno : seg.core.header.ackno = seg.header.ackno := rfl
  have hwin : seg.core.header.win = seg.header.win := rfl
  unfold segmentReceived
  simp only [hrst, hack, hackno, hwin, TCPReceiver.segmentReceived_core,
    hreply, hkeepAlive]

theorem segmentReceived_of_core_eq {seg seg' : TCPSegment}
    (h : seg.core = seg'.core) (c : TCPConnection) :
    c.segmentReceived seg = c.segmentReceived seg' := by
  rw [← segmentReceived_core, h, segmentReceived_core]

end TCPConnection

namespace TCPSpongeSocket

/-! ## Events of an endpoint as events of a network -/

/-- An event at one side, when the other side has put `wire` on the wire. -/
def networkEvent (side : Side) (wire : List SentSegment) :
    Endpoint.Event → Network.Event
  | .act op => .act side op
  | .receive seg =>
      .deliver side (wire.findIdx fun sent => sent.toTCPSegment.core = seg.core)

/-- What the event receives has been on the wire. -/
def Carried (wire : List SentSegment) (seg : TCPSegment) : Prop :=
  ∃ sent ∈ wire, sent.toTCPSegment.core = seg.core

instance (wire : List SentSegment) (seg : TCPSegment) :
    Decidable (Carried wire seg) :=
  inferInstanceAs (Decidable (∃ sent ∈ wire, sent.toTCPSegment.core = seg.core))

theorem step_networkEvent {n : Network} {side : Side} {event : Endpoint.Event}
    (h : ∀ seg ∈ segment? event, Carried (n side.other).wire seg) :
    n.step (networkEvent side (n side.other).wire event) =
      Function.update n side ((n side).step event) := by
  cases event with
  | act op => rfl
  | receive seg =>
      obtain ⟨sent, hsent, hcore⟩ := h seg rfl
      let p : SentSegment → Bool :=
        fun sent => sent.toTCPSegment.core = seg.core
      have hlt : (n side.other).wire.findIdx p < (n side.other).wire.length :=
        List.findIdx_lt_length_of_exists ⟨sent, hsent, by simpa [p] using hcore⟩
      have hfound : p ((n side.other).wire[(n side.other).wire.findIdx p]) =
          true := List.findIdx_getElem
      have hget := List.getElem?_eq_getElem hlt
      simp only [networkEvent, Network.step]
      rw [show (n side.other).wire.findIdx
          (fun sent => sent.toTCPSegment.core = seg.core) =
        (n side.other).wire.findIdx p from rfl, hget]
      have hsame := TCPConnection.segmentReceived_of_core_eq
        (of_decide_eq_true hfound) (n side).conn
      simp only [Endpoint.step, Endpoint.receive, hsame]

section Runs

variable {side : Side} {wire : List SentSegment}
  {event : Endpoint.Event} {events : List Endpoint.Event}

theorem Carried.split
    (h : ∀ seg ∈ (event :: events).filterMap segment?, Carried wire seg) :
    (∀ seg ∈ segment? event, Carried wire seg) ∧
      ∀ seg ∈ events.filterMap segment?, Carried wire seg := by
  constructor
  · intro seg hseg
    exact h seg (List.mem_filterMap.mpr ⟨event, List.mem_cons_self, hseg⟩)
  · intro seg hseg
    obtain ⟨event', hevent', hreceives⟩ := List.mem_filterMap.mp hseg
    exact h seg (List.mem_filterMap.mpr
      ⟨event', List.mem_cons_of_mem _ hevent', hreceives⟩)

/-- A run of one endpoint is a run of the network. -/
theorem foldl_networkEvent {n : Network} (hwire : (n side.other).wire = wire)
    (h : ∀ seg ∈ events.filterMap segment?, Carried wire seg) :
    (events.map (networkEvent side wire)).foldl Network.step n =
      Function.update n side (events.foldl Endpoint.step (n side)) := by
  induction events generalizing n with
  | nil => simp
  | cons event events ih =>
      obtain ⟨hfirst, hrest⟩ := Carried.split h
      have hstep : n.step (networkEvent side wire event) =
          Function.update n side ((n side).step event) := by
        subst hwire
        exact step_networkEvent hfirst
      rw [List.map_cons, List.foldl_cons, hstep, ih ?_ hrest]
      · rw [Function.update_self, Function.update_idem]
        rfl
      · rw [Function.update_of_ne side.other_ne]
        exact hwire

theorem noLateWrite_networkEvent {n : Network}
    (hwire : (n side.other).wire = wire)
    (h : ∀ seg ∈ events.filterMap segment?, Carried wire seg)
    (hguard : EveryStep Endpoint.step (n side) events
      Endpoint.NoLateWrite) :
    EveryStep Network.step n (events.map (networkEvent side wire))
      Network.NoLateWrite := by
  induction events generalizing n with
  | nil => exact everyStep_nil
  | cons event events ih =>
      obtain ⟨hfirst, hrest⟩ := Carried.split h
      obtain ⟨hallowed, hlater⟩ := everyStep_cons.mp hguard
      have hstep : n.step (networkEvent side wire event) =
          Function.update n side ((n side).step event) := by
        subst hwire
        exact step_networkEvent hfirst
      refine everyStep_cons.mpr ⟨?_, ?_⟩
      · cases event with
        | act op => exact hallowed
        | receive seg => trivial
      · rw [hstep]
        refine ih ?_ hrest ?_
        · rw [Function.update_of_ne side.other_ne]
          exact hwire
        · rw [Function.update_self]
          exact hlater

end Runs

/-! ## Pairs -/

/-- How a socket is started. -/
structure Setup (A : Type*) where
  role : Role
  reads : List (Option (List UInt8)) := []
  writes : List (Option ℕ) := []
  shutdownWorks : Bool := true
  adapter : A
  cTcp : TCPConfig := {}
  random : UInt32 := 0
  cAd : FdAdapterConfig := {}

variable {A : Side → Type*} [∀ side, FdAdapter (A side)]

/-- Two sockets. -/
abbrev Pair (A : Side → Type*) := ∀ side, TCPSpongeSocket (A side)

namespace Pair

def start (setup : ∀ side, Setup (A side)) : Pair A :=
  fun side =>
    let s := setup side
    TCPSpongeSocket.start s.role s.reads s.writes s.shutdownWorks s.adapter
      s.cTcp s.random s.cAd

/-- One of the sockets takes a turn. -/
def step (p : Pair A) (event : Side × Turn) : Pair A :=
  Function.update p event.1 ((p event.1).tcpLoop event.2)

def run (setup : ∀ side, Setup (A side)) (turns : List (Side × Turn)) :
    Pair A :=
  turns.foldl step (start setup)

/-- What the adapter returns in the turn was taken by the other adapter. -/
def Delivers (p : Pair A) (event : Side × Turn) : Prop :=
  ∀ seg ∈ ((p event.1).tcpLoop event.2).world.arrived.drop
      (p event.1).world.arrived.length,
    Carried (p event.1.other).world.wire seg

instance (p : Pair A) (event : Side × Turn) : Decidable (p.Delivers event) :=
  inferInstanceAs (Decidable (∀ seg ∈ List.drop _ _, Carried _ seg))

/-- The two endpoints. -/
def network (p : Pair A) : Network := fun side => (p side).world.endpoint

theorem network_step (p : Pair A) (event : Side × Turn) :
    (p.step event).network = Function.update p.network event.1
      ((p event.1).tcpLoop event.2).world.endpoint := by
  funext x
  by_cases hx : x = event.1
  · subst hx
    simp only [network, step, Function.update_self]
  · simp only [network, step, Function.update_of_ne hx]

/-- What a run of the pair has in common with a run of the network. -/
structure Matches (setup : ∀ side, Setup (A side))
    (events : List Network.Event) (p : Pair A) : Prop where
  orderly : ∀ side, (p side).Orderly
  noLateWrite : EveryStep Network.step
    (.new (fun side => (setup side).cTcp) fun side => (setup side).random)
    events Network.NoLateWrite
  network : Network.run (fun side => (setup side).cTcp)
    (fun side => (setup side).random) events = p.network
  shut : ∀ side, (p side).world.inboundShutdown = true →
    ∃ done, done <+: events ∧ AtEnd (Network.run
      (fun side => (setup side).cTcp) (fun side => (setup side).random)
      done side)

theorem Matches.step {setup : ∀ side, Setup (A side)}
    {events : List Network.Event} {p : Pair A} (h : Matches setup events p)
    {event : Side × Turn} (hdelivers : p.Delivers event) :
    ∃ events', Matches setup (events ++ events') (p.step event) := by
  obtain ⟨side, turn⟩ := event
  obtain ⟨⟨events', hfollows⟩, horderly⟩ :=
    tcpLoop_follows (h.orderly side) turn
  have hcarried : ∀ seg ∈ events'.filterMap segment?,
      Carried (p.network side.other).wire seg := by
    unfold Delivers at hdelivers
    dsimp only at hdelivers
    rw [hfollows.arrived, List.drop_left] at hdelivers
    exact hdelivers
  refine ⟨events'.map (networkEvent side (p.network side.other).wire), ?_, ?_,
    ?_, ?_⟩
  · intro x
    by_cases hx : x = side
    · subst hx
      rw [Pair.step, Function.update_self]
      exact horderly
    · rw [Pair.step, Function.update_of_ne hx]
      exact h.orderly x
  · refine everyStep_append.mpr ⟨h.noLateWrite, ?_⟩
    have hrun := h.network
    rw [Network.run] at hrun
    rw [hrun]
    exact noLateWrite_networkEvent rfl hcarried hfollows.noLateWrite
  · have hrun := h.network
    rw [Network.run] at hrun ⊢
    rw [List.foldl_append, hrun, foldl_networkEvent rfl hcarried, network_step,
      hfollows.endpoint]
    rfl
  · intro x hshut
    by_cases hx : x = side
    · subst hx
      rw [Pair.step, Function.update_self] at hshut
      rcases hfollows.shut hshut with hbefore | ⟨done, hdone, hend⟩
      · obtain ⟨done, hdone, hend⟩ := h.shut x hbefore
        exact ⟨done, hdone.trans (List.prefix_append _ _), hend⟩
      · refine ⟨events ++ done.map (networkEvent x (p.network x.other).wire),
          (List.prefix_append_right_inj _).mpr (hdone.map _), ?_⟩
        have hrun := h.network
        rw [Network.run] at hrun ⊢
        have hearlier : ∀ seg ∈ done.filterMap segment?,
            Carried (p.network x.other).wire seg :=
          fun seg hseg => hcarried seg ((hdone.filterMap _).subset hseg)
        rw [List.foldl_append, hrun, foldl_networkEvent rfl hearlier,
          Function.update_self]
        exact hend
    · rw [Pair.step, Function.update_of_ne hx] at hshut
      obtain ⟨done, hdone, hend⟩ := h.shut x hshut
      exact ⟨done, hdone.trans (List.prefix_append _ _), hend⟩

/-- Before the first turn at most a SYN was queued at each side. -/
theorem exists_matches_start (setup : ∀ side, Setup (A side)) :
    ∃ events, Matches setup events (start setup) := by
  let cfg := fun side => (setup side).cTcp
  let random := fun side => (setup side).random
  let events := fun side =>
    (setup side).role.events.map (networkEvent side [])
  have hempty : ∀ side, (setup side).role.events.filterMap segment? = [] := by
    intro side
    cases (setup side).role <;> rfl
  have hcarried : ∀ side, ∀ seg ∈ (setup side).role.events.filterMap segment?,
      Carried [] seg := by
    intro side seg hseg
    rw [hempty] at hseg
    cases hseg
  have hguard : ∀ side (e : Endpoint),
      EveryStep Endpoint.step e (setup side).role.events
        Endpoint.NoLateWrite := by
    intro side e
    cases (setup side).role with
    | connect => exact everyStep_cons.mpr ⟨trivial, everyStep_nil⟩
    | listenAndAccept => exact everyStep_nil
  have hfirst : (events .a).foldl Network.step (.new cfg random) =
      Function.update (Network.new cfg random) .a
        ((setup .a).role.events.foldl Endpoint.step
          (.new (cfg .a) (random .a))) :=
    foldl_networkEvent rfl (hcarried .a)
  have hwire : (Function.update (Network.new cfg random) .a
      ((setup .a).role.events.foldl Endpoint.step
        (.new (cfg .a) (random .a))) .a).wire = [] := by
    rw [Function.update_self]
    cases (setup .a).role <;> rfl
  refine ⟨events .a ++ events .b, ?_, ?_, ?_, ?_⟩
  · intro side
    exact orderly_start _ _ _ _ _ _ _ _
  · refine everyStep_append.mpr
      ⟨noLateWrite_networkEvent rfl (hcarried .a) (hguard .a _), ?_⟩
    rw [hfirst]
    exact noLateWrite_networkEvent hwire (hcarried .b) (hguard .b _)
  · rw [Network.run, List.foldl_append, hfirst,
      foldl_networkEvent hwire (hcarried .b)]
    funext side
    have hendpoint := endpoint_start (setup side).role (setup side).reads
      (setup side).writes (setup side).shutdownWorks (setup side).adapter
      (setup side).cTcp (setup side).random (setup side).cAd
    cases side with
    | a => exact hendpoint.symm
    | b => exact hendpoint.symm
  · intro side hshut
    have hopen : (start setup side).world.inboundShutdown = false :=
      inboundShutdown_start _ _ _ _ _ _ _ _
    rw [hopen] at hshut
    cases hshut

/-- **Two sockets are a network of two endpoints.** -/
theorem exists_matches_run {setup : ∀ side, Setup (A side)}
    {turns : List (Side × Turn)}
    (h : EveryStep step (start setup) turns Delivers) :
    ∃ events, Matches setup events (run setup turns) := by
  refine h.invariant (I := fun p => ∃ events, Matches setup events p) ?_
    (exists_matches_start setup)
  rintro p event ⟨events, hmatches⟩ hdelivers
  obtain ⟨events', hnext⟩ := hmatches.step hdelivers
  exact ⟨_, hnext⟩

omit [∀ side, FdAdapter (A side)] in
/-- What one owner can read was written by the other. -/
theorem Matches.streams {setup : ∀ side, Setup (A side)}
    {events : List Network.Event} {p : Pair A} (h : Matches setup events p)
    (hshort : ∀ side, (p side).world.threadData.received.length + 2 < 2 ^ 31)
    (side : Side) :
    let src := (p side).world
    let dst := (p side.other).world
    dst.threadData.written <+: src.threadData.received ∧
      (dst.inboundShutdown = true → dst.tcp.inboundStream.error = false →
        dst.threadData.written = src.threadData.received) := by
  intro src dst
  have hnetwork := h.network
  have hshort' : (Network.run (fun side => (setup side).cTcp)
      (fun side => (setup side).random) events).Short := by
    rw [hnetwork]
    exact hshort
  have hstreams := Network.streams_of_short hshort' h.noLateWrite side
  rw [hnetwork] at hstreams
  obtain ⟨hfront, hall⟩ := hstreams
  refine ⟨(List.prefix_append _ _).trans hfront, ?_⟩
  intro hshut herror
  obtain ⟨done, hdone, hend⟩ := h.shut side.other hshut
  have hstays := Network.ended_run hdone hshort' h.noLateWrite hend
  rw [hnetwork] at hstays
  rcases hstays with heof | hmarked
  · obtain ⟨hended, hsz⟩ := ByteStream.eof_iff.mp heof
    have hcontents : dst.tcp.inboundStream.contents = [] :=
      List.length_eq_zero_iff.mp ((ByteStream.length_contents _).trans hsz)
    have hread := hall hended
    change dst.threadData.written ++ dst.tcp.inboundStream.contents =
      src.threadData.received at hread
    rwa [hcontents, List.append_nil] at hread
  · exact absurd (herror.symm.trans hmarked) (by decide)

/-- Over UDP, the first socket connects to the second one, which listens; its
owner writes one byte and closes. -/
def exchangeSetup : Side → Setup TCPOverUDPSocketAdapter
  | .a =>
      { role := .connect
        reads := [some [7], some []]
        adapter :=
          { sock :=
              { recvs :=
                  [some (⟨2, 2⟩, [0, 2, 0, 1, 0, 0, 0, 0, 0, 0, 0, 1, 80, 18,
                    250, 0, 181, 232, 0, 0])]
                sends := [some 20, some 20, some 21, some 20] } }
        cTcp := { fixedIsn := some ⟨0⟩ }
        cAd := { source := ⟨1, 1⟩, destination := ⟨2, 2⟩ } }
  | .b =>
      { role := .listenAndAccept
        writes := [some 1]
        adapter :=
          { sock :=
              { recvs :=
                  [some (⟨1, 1⟩, [0, 1, 0, 2, 0, 0, 0, 0, 0, 0, 0, 0, 80, 2,
                      0, 0, 175, 250, 0, 0]),
                    some (⟨1, 1⟩, [0, 1, 0, 2, 0, 0, 0, 2, 0, 0, 0, 1, 80, 17,
                      250, 0, 181, 231, 0, 0]),
                    some (⟨1, 1⟩, [0, 1, 0, 2, 0, 0, 0, 1, 0, 0, 0, 1, 80, 16,
                      250, 0, 174, 233, 0, 0, 7])]
                sends := [some 20] } }
        cTcp := { fixedIsn := some ⟨0⟩ }
        cAd := { source := ⟨2, 2⟩ } }

/-- The ACK of the handshake is lost, and the FIN arrives before the byte.  A
turn ends the loop of `connect` and one that of `listen_and_accept`. -/
def exchangeTurns : List (Side × Turn) :=
  let receive : Turn := { answer := .ready [{ pollIn := true }] }
  let readOwner : Turn := { answer := .ready [{}, { pollIn := true }] }
  let writeOwner : Turn := { answer := .ready [{}, {}, { pollOut := true }] }
  let send : Turn := { answer := .ready [{}, {}, {}, { pollOut := true }] }
  -- the rule for reading from the owner is gone
  let sendLast : Turn := { answer := .ready [{}, {}, { pollOut := true }] }
  [(.a, send), (.b, receive), (.b, send), (.a, receive), (.a, receive),
    (.a, readOwner), (.a, readOwner), (.a, sendLast), (.b, receive),
    (.b, receive), (.b, receive), (.b, writeOwner)]

end Pair

end TCPSpongeSocket
end Sponge
