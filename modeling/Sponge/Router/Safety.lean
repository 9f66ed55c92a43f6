import Sponge.Router.Model
import Sponge.Support.Runs

/-!
# Faults of the router

`recv_frame` and `route` throw when a datagram that was received cannot be
serialized.  The parser of datagrams accepts some that cannot: their version is
not 4, or their header is too short.  A tick that makes an entry of an address
table expire has no defined behaviour at all.  As long as no such datagram is
forwarded and no entry expires, nothing goes wrong, whatever the frames contain.
-/

namespace Sponge

open Support

/-! ## One interface -/

namespace NetworkInterface

theorem HoldsSerializable.sendDatagram {n : NetworkInterface}
    (h : n.HoldsSerializable) {dgram : IPv4Datagram}
    (hdgram : dgram.Serializable) (nextHop : Address) :
    (n.sendDatagram dgram nextHop).1.HoldsSerializable ∧
      (n.sendDatagram dgram nextHop).2 = .ok () := by
  rcases n.sendDatagram_cases hdgram nextHop with
    hasks | hwaits | ⟨time, address, -, -, hsends⟩
  · rw [hasks]
    exact ⟨h.asking hdgram _, rfl⟩
  · rw [hwaits]
    exact ⟨h, rfl⟩
  · rw [hsends]
    exact ⟨h, rfl⟩

/-- What an interface does with a frame of type IPv4 that is for it. -/
theorem recvFrame_of_ipv4 {n : NetworkInterface} {header : EthernetHeader}
    (h : header.type = EthernetHeader.typeIPv4 ∧
      header.dst = n.ethernetAddress) (payload : Buffer) :
    n.recvFrame ⟨header, [payload]⟩ =
      (n, .ok (if (IPv4Datagram.parse {} payload).1 = .noError then
        some (IPv4Datagram.parse {} payload).2 else none)) := by
  simp only [recvFrame, if_pos h, BufferList.toBuffer]
  rcases IPv4Datagram.parse {} payload with ⟨result, dgram⟩
  cases result <;> rfl

/-- Any other frame in one buffer is received without an exception. -/
theorem HoldsSerializable.recvFrame {n : NetworkInterface}
    (h : n.HoldsSerializable) {header : EthernetHeader}
    (hheader : ¬(header.type = EthernetHeader.typeIPv4 ∧
      header.dst = n.ethernetAddress)) (payload : Buffer) :
    (n.recvFrame ⟨header, [payload]⟩).1.HoldsSerializable ∧
      (n.recvFrame ⟨header, [payload]⟩).2 = .ok none := by
  simp only [NetworkInterface.recvFrame, if_neg hheader, BufferList.toBuffer]
  split_ifs with harp
  · rcases ARPMessage.parse {} payload with ⟨result, am⟩
    cases result with
    | noError =>
        simp only [processArp_eq (h am.senderIpAddress)]
        exact ⟨h.processed am, trivial⟩
    | _ => exact ⟨h, rfl⟩
  · exact ⟨h, rfl⟩

end NetworkInterface

namespace AsyncNetworkInterface

open NetworkInterface

/-- What an interface holds, and what waits in its queue to be forwarded, can be
serialized. -/
structure Sound (routes : RouteMps) (n : AsyncNetworkInterface) : Prop where
  held : n.HoldsSerializable
  queued : ∀ dgram ∈ n.datagramsOut,
    (routes.destination dgram).isSome → dgram.Serializable

/-- If a frame brings a datagram that will be forwarded, then the header of the
datagram can be serialized. -/
def BringsSerializable (routes : RouteMps) (n : AsyncNetworkInterface)
    (header : EthernetHeader) (payload : Buffer) : Prop :=
  header.type = EthernetHeader.typeIPv4 ∧ header.dst = n.ethernetAddress →
    (IPv4Datagram.parse {} payload).1 = .noError →
      (routes.destination (IPv4Datagram.parse {} payload).2).isSome →
        (IPv4Datagram.parse {} payload).2.header.ver = 4 ∧
          5 ≤ (IPv4Datagram.parse {} payload).2.header.hlen.toNat

instance (routes : RouteMps) (n : AsyncNetworkInterface)
    (header : EthernetHeader) (payload : Buffer) :
    Decidable (BringsSerializable routes n header payload) :=
  inferInstanceAs (Decidable (_ → _))

variable {routes : RouteMps} {n : AsyncNetworkInterface}

theorem Sound.sendDatagram (h : n.Sound routes) {dgram : IPv4Datagram}
    (hdgram : dgram.Serializable) (nextHop : Address) :
    (n.sendDatagram dgram nextHop).1.Sound routes ∧
      (n.sendDatagram dgram nextHop).2 = .ok () := by
  obtain ⟨hheld, hok⟩ := h.held.sendDatagram hdgram nextHop
  exact ⟨⟨hheld, h.queued⟩, hok⟩

theorem Sound.recvFrame (h : n.Sound routes) {header : EthernetHeader}
    {payload : Buffer} (hbrings : BringsSerializable routes n header payload) :
    (n.recvFrame ⟨header, [payload]⟩).1.Sound routes ∧
      (n.recvFrame ⟨header, [payload]⟩).2 = .ok () := by
  unfold AsyncNetworkInterface.recvFrame
  by_cases hipv4 : header.type = EthernetHeader.typeIPv4 ∧
      header.dst = n.ethernetAddress
  · rw [recvFrame_of_ipv4 hipv4]
    by_cases haccepts : (IPv4Datagram.parse {} payload).1 = .noError
    · rw [if_pos haccepts]
      refine ⟨⟨h.held, ?_⟩, rfl⟩
      intro dgram hmem hdest
      rcases List.mem_append.mp hmem with hold | hnew
      · exact h.queued dgram hold hdest
      · rw [List.mem_singleton] at hnew
        subst hnew
        obtain ⟨hver, hhlen⟩ := hbrings hipv4 haccepts hdest
        exact ⟨hver, hhlen, IPv4Datagram.size_payload_of_parse haccepts⟩
    · rw [if_neg haccepts]
      exact ⟨h, rfl⟩
  · have hrecv := h.held.recvFrame hipv4 payload
    rcases hframe : n.toNetworkInterface.recvFrame ⟨header, [payload]⟩ with
      ⟨m, result⟩
    rw [hframe] at hrecv
    obtain ⟨hheld, rfl⟩ := hrecv
    exact ⟨⟨hheld, h.queued⟩, rfl⟩

end AsyncNetworkInterface

/-! ## One call -/

namespace Router

/-- The routes name some of the `size` interfaces, and all interfaces are
sound. -/
structure Sound (size : ℕ) (r : Router) : Prop where
  length_eq : r.interfaces.length = size
  routes : ∀ len dst route, r.routeMps len dst = some route → route.2 < size
  interfaces : ∀ n ∈ r.interfaces, n.Sound r.routeMps

variable {size : ℕ} {r : Router}

theorem Sound.onInterface (h : r.Sound size) {num : ℕ} (hnum : num < size)
    {call : AsyncNetworkInterface →
      AsyncNetworkInterface × Except Exception Unit}
    (hcall : ∀ n, r.interfaces[num]? = some n →
      (call n).1.Sound r.routeMps ∧ (call n).2 = .ok ()) :
    (r.onInterface num call).1.Sound size ∧
      (r.onInterface num call).2 = .ok () := by
  have hget := List.getElem?_eq_getElem (h.length_eq.symm ▸ hnum)
  obtain ⟨hsound, hok⟩ := hcall _ hget
  simp only [Router.onInterface, hget]
  refine ⟨⟨?_, h.routes, ?_⟩, hok⟩
  · rw [List.length_set, h.length_eq]
  · intro n hmem
    rcases List.mem_or_eq_of_mem_set hmem with hold | rfl
    · exact h.interfaces n hold
    · exact hsound

theorem Sound.routeOneDatagram (h : r.Sound size) {dgram : IPv4Datagram}
    (hdgram : (r.routeMps.destination dgram).isSome → dgram.Serializable) :
    (r.routeOneDatagram dgram).1.Sound size ∧
      (r.routeOneDatagram dgram).2.2 = .ok () := by
  rcases hdest : r.routeMps.destination dgram with _ | ⟨nextHop, num⟩
  · obtain ⟨hsame, hok⟩ := routeOneDatagram_of_none hdest
    rw [hsame]
    exact ⟨h, hok⟩
  · rw [routeOneDatagram_of_some hdest]
    have hserializable := hdgram (by rw [hdest]; rfl)
    have hdecremented : dgram.decrementTtl.Serializable :=
      ⟨hserializable.ver, hserializable.hlen_ge, hserializable.size_eq⟩
    refine h.onInterface (RouteMps.lt_of_destination h.routes hdest) ?_
    intro n hget
    exact (h.interfaces n (List.mem_of_getElem? hget)).sendDatagram
      hdecremented nextHop

theorem Sound.of_mem_queue (h : r.Sound size) {num : ℕ}
    {dgram : IPv4Datagram} (hmem : dgram ∈ r.queue num)
    (hdest : (r.routeMps.destination dgram).isSome) : dgram.Serializable := by
  rcases hget : r.interfaces[num]? with _ | n
  · rw [queue, hget] at hmem
    cases hmem
  · rw [queue_of_getElem? hget] at hmem
    exact (h.interfaces n (List.mem_of_getElem? hget)).queued dgram hmem hdest

theorem Sound.setQueue (h : r.Sound size) {num : ℕ}
    {queue : List IPv4Datagram} (hqueue : queue ⊆ r.queue num) :
    (r.setQueue num queue).Sound size := by
  refine ⟨?_, h.routes, ?_⟩
  · rw [Router.setQueue, List.length_modify, h.length_eq]
  · intro n hmem
    obtain ⟨other, hget⟩ := List.mem_iff_getElem?.mp hmem
    simp only [Router.setQueue, List.getElem?_modify] at hget
    obtain ⟨before, hbefore, rfl⟩ := Option.map_eq_some_iff.mp hget
    have hsound := h.interfaces before (List.mem_of_getElem? hbefore)
    split_ifs with hnum
    · refine ⟨hsound.held, ?_⟩
      intro dgram hdgram
      exact h.of_mem_queue (hqueue hdgram)
    · exact hsound

theorem Sound.routeQueue (h : r.Sound size) (num fuel : ℕ) :
    (routeQueue num fuel r).1.Sound size ∧
      (routeQueue num fuel r).2 = .ok () := by
  induction fuel generalizing r with
  | zero => exact ⟨h, rfl⟩
  | succ fuel ih =>
      rcases hqueue : r.queue num with _ | ⟨dgram, rest⟩
      · simp only [Router.routeQueue, hqueue]
        exact ⟨h, trivial⟩
      · have hmem : dgram ∈ r.queue num := by
          rw [hqueue]
          exact List.mem_cons_self
        have hone := h.routeOneDatagram (h.of_mem_queue hmem)
        rcases hroute : r.routeOneDatagram dgram with ⟨r', dgram', result⟩
        rw [hroute] at hone
        obtain ⟨hsound, rfl⟩ := hone
        simp only [Router.routeQueue, hqueue, hroute]
        exact ih (hsound.setQueue (List.tail_subset _))

theorem Sound.routeInterfaces (h : r.Sound size) (nums : List ℕ) :
    (routeInterfaces nums r).1.Sound size ∧
      (routeInterfaces nums r).2 = .ok () := by
  induction nums generalizing r with
  | nil => exact ⟨h, rfl⟩
  | cons num nums ih =>
      have hqueue := h.routeQueue num (r.queue num).length
      rcases hroute : Router.routeQueue num (r.queue num).length r with
        ⟨r', result⟩
      rw [hroute] at hqueue
      obtain ⟨hsound, rfl⟩ := hqueue
      simp only [Router.routeInterfaces, hroute]
      exact ih hsound

/-! ## Whole runs -/

/-- What happens to a router.  A frame comes in one buffer; `transmit` takes one
frame from the `frames_out` of an interface. -/
inductive Event where
  | recvFrame (num : ℕ) (header : EthernetHeader) (payload : Buffer)
  | tick (num ms : ℕ)
  | transmit (num : ℕ)
  | route
deriving DecidableEq

/-- Why a call does not return: an exception, or undefined behaviour. -/
inductive Fault where
  | thrown (e : Exception)
  | undefined
deriving DecidableEq

/-- A call that may throw. -/
def throwing (result : Router × Except Exception Unit) :
    Router × Except Fault Unit :=
  (result.1, result.2.mapError .thrown)

/-- The table of the interface `num` has an entry that expires. -/
def Expires (r : Router) (num ms : ℕ) : Prop :=
  ∃ n ∈ r.interfaces[num]?, n.toNetworkInterface.Expires ms

instance (r : Router) (num ms : ℕ) : Decidable (r.Expires num ms) :=
  inferInstanceAs (Decidable (∃ n ∈ r.interfaces[num]?, _))

/-- Nothing is known of the router after a tick whose behaviour is undefined. -/
def call (r : Router) : Event → Router × Except Fault Unit
  | .recvFrame num header payload =>
      throwing (r.onInterface num fun n => n.recvFrame ⟨header, [payload]⟩)
  | .tick num ms =>
      if r.Expires num ms then (r, .error .undefined)
      else throwing (r.onInterface num fun n =>
        ({ n with toNetworkInterface := n.tick ms }, .ok ()))
  | .transmit num => throwing (r.onInterface num fun n =>
      ({ n with framesOut := n.framesOut.tail }, .ok ()))
  | .route => throwing r.route

def step (r : Router) (event : Event) : Router :=
  (r.call event).1

/-- The interface of the event is one of the `size` interfaces. -/
def Event.Names (size : ℕ) : Event → Prop
  | .recvFrame num _ _ => num < size
  | .tick num _ => num < size
  | .transmit num => num < size
  | .route => True

instance (size : ℕ) : (event : Event) → Decidable (event.Names size)
  | .recvFrame num _ _ => inferInstanceAs (Decidable (num < size))
  | .tick num _ => inferInstanceAs (Decidable (num < size))
  | .transmit num => inferInstanceAs (Decidable (num < size))
  | .route => .isTrue trivial

/-- No frame brings a datagram that will be forwarded and whose header cannot be
serialized, and no tick makes an entry of a table expire. -/
def Harmless (r : Router) : Event → Prop
  | .recvFrame num header payload =>
      ∀ n ∈ r.interfaces[num]?, n.BringsSerializable r.routeMps header payload
  | .tick num ms => ¬r.Expires num ms
  | _ => True

instance (r : Router) : (event : Event) → Decidable (r.Harmless event)
  | .recvFrame num header payload => inferInstanceAs (Decidable
      (∀ n ∈ r.interfaces[num]?, n.BringsSerializable r.routeMps header payload))
  | .tick num ms => inferInstanceAs (Decidable ¬r.Expires num ms)
  | .transmit _ => .isTrue trivial
  | .route => .isTrue trivial

/-- The call returns, and `route` leaves all queues empty. -/
def Safe (r : Router) (event : Event) : Prop :=
  (r.call event).2 = .ok () ∧
    (event = .route → ∀ n ∈ (r.call event).1.interfaces, n.datagramsOut = [])

instance (r : Router) (event : Event) : Decidable (r.Safe event) :=
  inferInstanceAs (Decidable (_ ∧ _))

/-- A router with routes to existing interfaces, which have no datagrams yet. -/
structure Starts (r : Router) : Prop where
  routes : ∀ len dst route, r.routeMps len dst = some route →
    route.2 < r.interfaces.length
  queue_empty : ∀ n ∈ r.interfaces, n.datagramsOut = []
  none_held : ∀ n ∈ r.interfaces, ∀ ip, n.dataMp ip = none

theorem Starts.sound (h : r.Starts) : r.Sound r.interfaces.length where
  length_eq := rfl
  routes := h.routes
  interfaces := by
    intro n hmem
    refine ⟨?_, ?_⟩
    · intro ip dgram hheld
      rw [h.none_held n hmem ip] at hheld
      cases hheld
    · intro dgram hqueued
      rw [h.queue_empty n hmem] at hqueued
      cases hqueued

theorem Sound.throwing {result : Router × Except Exception Unit}
    (h : result.1.Sound size ∧ result.2 = .ok ()) :
    (throwing result).1.Sound size ∧ (throwing result).2 = .ok () := by
  obtain ⟨hsound, hok⟩ := h
  refine ⟨hsound, ?_⟩
  rw [Router.throwing, hok]
  rfl

theorem Sound.call (h : r.Sound size) {event : Event}
    (hnames : event.Names size) (hharmless : r.Harmless event) :
    (r.call event).1.Sound size ∧ (r.call event).2 = .ok () := by
  cases event with
  | recvFrame num header payload =>
      refine Sound.throwing (h.onInterface hnames ?_)
      intro n hget
      exact (h.interfaces n (List.mem_of_getElem? hget)).recvFrame
        (hharmless n hget)
  | tick num ms =>
      rw [Router.call, if_neg hharmless]
      refine Sound.throwing (h.onInterface hnames ?_)
      intro n hget
      have hsound := h.interfaces n (List.mem_of_getElem? hget)
      exact ⟨⟨hsound.held, hsound.queued⟩, rfl⟩
  | transmit num =>
      refine Sound.throwing (h.onInterface hnames ?_)
      intro n hget
      have hsound := h.interfaces n (List.mem_of_getElem? hget)
      exact ⟨⟨hsound.held, hsound.queued⟩, rfl⟩
  | route => exact Sound.throwing (h.routeInterfaces _)

/-- **Nothing goes wrong.**  In a run of a router whose routes name existing
interfaces, in which no datagram that is to be forwarded arrives with a version
other than 4 or a header of fewer than 20 bytes, and no tick makes an entry of an
address table expire, every call returns, and `route` leaves all queues
empty. -/
theorem never_throws (hr : r.Starts) {events : List Event}
    (hnames : ∀ event ∈ events, event.Names r.interfaces.length)
    (hharmless : EveryStep step r events Harmless) :
    EveryStep step r events Safe := by
  have hguard : EveryStep step r events
      (fun _ event => event.Names r.interfaces.length) :=
    everyStep_iff_forall_mem.mpr hnames
  have hsound := (hguard.and hharmless).everyState
    (I := Sound r.interfaces.length)
    (fun r event h hboth => (h.call hboth.1 hboth.2).1) hr.sound
  intro done event hdone
  have hbefore := hsound done ((List.prefix_append _ _).trans hdone)
  obtain ⟨-, hok⟩ := hbefore.call (hguard done event hdone)
    (hharmless done event hdone)
  refine ⟨hok, ?_⟩
  rintro rfl n hmem
  exact datagramsOut_route (hbefore.routeInterfaces _).2 hmem

/-- A router with one interface and a default route. -/
def withDefaultRoute : Router :=
  { (addInterface {} { ethernetAddress := .zero, ipAddress := ⟨1, 0⟩ }).1 with
    routeMps := fun len _ => if len = 0 then some (some ⟨7, 0⟩, 0) else none }

theorem starts_withDefaultRoute : withDefaultRoute.Starts where
  routes := by
    intro len dst route hroute
    simp only [withDefaultRoute] at hroute
    split_ifs at hroute
    cases hroute
    exact Nat.one_pos
  queue_empty := by
    simp [withDefaultRoute, addInterface]
  none_held := by
    simp [withDefaultRoute, addInterface]

/-- Nothing is in the table yet. -/
theorem tick_withDefaultRoute (ms : ℕ) :
    ¬withDefaultRoute.Expires 0 ms ∧
      withDefaultRoute.step (.tick 0 ms) = withDefaultRoute := by
  have hlive : ¬withDefaultRoute.Expires 0 ms := by
    simp [withDefaultRoute, addInterface, Expires, NetworkInterface.Expires]
  refine ⟨hlive, ?_⟩
  rw [step, call, if_neg hlive]
  rfl

/-- Time passes before the first frame.  A datagram is forwarded after the answer
of the next hop, one of version 5 has no time left to live. -/
theorem never_throws_answered :
    let reply : ARPMessage :=
      { opcode := ARPMessage.opcodeReply
        senderIpAddress := 7
        targetIpAddress := 1 }
    let events : List Event :=
      [.recvFrame 0 { type := EthernetHeader.typeIPv4 }
        [0x45, 0, 0, 20, 0, 0, 0, 0, 64, 6, 0, 0, 10, 0, 0, 1, 10, 0, 0, 2],
        .recvFrame 0 { type := EthernetHeader.typeIPv4 }
        [0x55, 0, 0, 20, 0, 0, 0, 0, 1, 6, 0, 0, 10, 0, 0, 1, 10, 0, 0, 2],
        .route,
        .recvFrame 0 { type := EthernetHeader.typeARP } reply.fields]
    EveryStep step withDefaultRoute (.tick 0 1000 :: events) Safe := by
  intro reply events
  obtain ⟨hlive, hstep⟩ := tick_withDefaultRoute 1000
  refine never_throws starts_withDefaultRoute (by decide +kernel)
    (everyStep_cons.mpr ⟨hlive, ?_⟩)
  rw [hstep]
  decide +kernel

/-- A datagram of version 5 is accepted and held, and the answer of the next hop
makes `recv_frame` throw.  Where the next hop has answered before, its entry
expires with a tick. -/
theorem throws_wrong_version :
    let reply : ARPMessage :=
      { opcode := ARPMessage.opcodeReply
        senderIpAddress := 7
        targetIpAddress := 1 }
    let answer : Event :=
      .recvFrame 0 { type := EthernetHeader.typeARP } reply.fields
    let events : List Event :=
      [.recvFrame 0 { type := EthernetHeader.typeIPv4 }
        [0x55, 0, 0, 20, 0, 0, 0, 0, 64, 6, 0, 0, 10, 0, 0, 1, 10, 0, 0, 2],
        .route, answer]
    withDefaultRoute.Starts ∧
      (∀ event ∈ events ++ [.tick 0 30000],
        event.Names withDefaultRoute.interfaces.length) ∧
      ¬EveryStep step withDefaultRoute events Safe ∧
      ¬EveryStep step withDefaultRoute [answer, .tick 0 30000] Safe := by
  intro reply answer events
  refine ⟨starts_withDefaultRoute, by decide +kernel, by decide +kernel, ?_⟩
  intro hsafe
  obtain ⟨-, hrest⟩ := everyStep_cons.mp hsafe
  obtain ⟨⟨hok, -⟩, -⟩ := everyStep_cons.mp hrest
  have hentry : ∃ n ∈ (withDefaultRoute.step answer).interfaces[0]?,
      n.addrMp 7 = some (30000, .zero) := by decide +kernel
  have hexpires : (withDefaultRoute.step answer).Expires 0 30000 := by
    obtain ⟨n, hn, hknown⟩ := hentry
    exact ⟨n, hn, 7, _, hknown, by decide⟩
  rw [call, if_pos hexpires] at hok
  cases hok

end Router
end Sponge
