import Mathlib.Data.List.Basic
import Sponge.Router.Model

/-!
# The routing pass

`route` goes through the interfaces and their queues, and sends on some of the
interfaces while it goes.  It amounts to a list of calls of `send_datagram`, one for
each queued datagram that is not dropped, in the order of the interfaces and of
their queues; after them, all queues are empty.
-/

namespace Sponge

/-- The arguments of `send_datagram`, and the interface on which it is called. -/
structure Send where
  interfaceNum : ℕ
  dgram : IPv4Datagram
  nextHop : Address
deriving DecidableEq

/-- What is to be sent for a queued datagram, unless it is dropped. -/
def RouteMps.forward (routes : RouteMps) (dgram : IPv4Datagram) :
    Option Send :=
  (routes.destination dgram).map fun (nextHop, interfaceNum) =>
    ⟨interfaceNum, dgram.decrementTtl, nextHop⟩

namespace Router

def perform (r : Router) (send : Send) : Router :=
  (r.onInterface send.interfaceNum fun n =>
    n.sendDatagram send.dgram send.nextHop).1

/-- The datagrams in the queues, in the order of the interfaces. -/
def queued (r : Router) : List IPv4Datagram :=
  (List.range r.interfaces.length).flatMap r.queue

/-- The router with all queues empty. -/
def emptied (r : Router) : Router :=
  { r with
    interfaces := r.interfaces.map fun n => { n with datagramsOut := [] } }

/-- The routes name interfaces that the router has. -/
def RoutesExist (r : Router) : Prop :=
  ∀ len dst route, r.routeMps len dst = some route →
    route.2 < r.interfaces.length

/-! ## Calls and queues -/

theorem perform_eq (r : Router) (send : Send) :
    r.perform send =
      { r with
        interfaces := r.interfaces.modify send.interfaceNum fun n =>
          (n.sendDatagram send.dgram send.nextHop).1 } := by
  unfold perform onInterface
  cases hn : r.interfaces[send.interfaceNum]? with
  | none =>
      rw [List.modify_eq_self (List.getElem?_eq_none_iff.mp hn)]
  | some n =>
      have hset : r.interfaces.set send.interfaceNum
          (n.sendDatagram send.dgram send.nextHop).1 =
          r.interfaces.modify send.interfaceNum fun n =>
            (n.sendDatagram send.dgram send.nextHop).1 := by
        refine List.ext_getElem? ?_
        intro num
        rw [List.getElem?_modify, List.getElem?_set]
        by_cases hnum : send.interfaceNum = num
        · subst hnum
          have hlt := (List.getElem?_eq_some_iff.mp hn).1
          rw [if_pos rfl, if_pos hlt, hn]
          simp
        · simp [hnum]
      rw [← hset]

/-- A call does not look at the queues. -/
theorem perform_setQueue (r : Router) (send : Send) (num : ℕ)
    (queue : List IPv4Datagram) :
    (r.setQueue num queue).perform send =
      (r.perform send).setQueue num queue := by
  simp only [perform_eq, setQueue]
  by_cases hnum : num = send.interfaceNum
  · subst hnum
    rw [List.modify_modify_eq, List.modify_modify_eq]
    rfl
  · rw [List.modify_modify_ne _ _ _ hnum]

theorem foldl_perform_setQueue (sends : List Send) (r : Router) (num : ℕ)
    (queue : List IPv4Datagram) :
    sends.foldl perform (r.setQueue num queue) =
      (sends.foldl perform r).setQueue num queue := by
  induction sends generalizing r with
  | nil => rfl
  | cons send sends ih =>
      rw [List.foldl_cons, List.foldl_cons, perform_setQueue, ih]

theorem setQueue_setQueue (r : Router) (num : ℕ)
    (first second : List IPv4Datagram) :
    (r.setQueue num first).setQueue num second = r.setQueue num second := by
  simp only [setQueue, List.modify_modify_eq]
  rfl

theorem setQueue_queue (r : Router) (num : ℕ) :
    r.setQueue num (r.queue num) = r := by
  have hsame : (r.interfaces.modify num fun n =>
      { n with datagramsOut := r.queue num }) = r.interfaces := by
    refine List.ext_getElem? ?_
    intro other
    rw [List.getElem?_modify]
    cases hn : r.interfaces[other]? with
    | none => rfl
    | some n =>
        by_cases hnum : num = other
        · subst hnum
          simp [queue_of_getElem? hn]
        · simp [hnum]
  rw [setQueue, hsame]

theorem queue_perform (r : Router) (send : Send) :
    (r.perform send).queue = r.queue :=
  queue_onInterface fun _ => rfl

theorem queue_foldl_perform (sends : List Send) (r : Router) :
    (sends.foldl perform r).queue = r.queue := by
  induction sends generalizing r with
  | nil => rfl
  | cons send sends ih => rw [List.foldl_cons, ih, queue_perform]

theorem queue_setQueue_of_ne (r : Router) {num other : ℕ} (h : other ≠ num)
    (queue : List IPv4Datagram) :
    (r.setQueue num queue).queue other = r.queue other := by
  simp [Router.queue, setQueue, Ne.symm h]

theorem routeMps_foldl_perform (sends : List Send) (r : Router) :
    (sends.foldl perform r).routeMps = r.routeMps := by
  induction sends generalizing r with
  | nil => rfl
  | cons send sends ih => rw [List.foldl_cons, ih, perform_eq]

theorem length_interfaces_foldl_perform (sends : List Send) (r : Router) :
    (sends.foldl perform r).interfaces.length = r.interfaces.length := by
  induction sends generalizing r with
  | nil => rfl
  | cons send sends ih =>
      rw [List.foldl_cons, ih, perform_eq, List.length_modify]

/-- Calls do not touch the routes and the number of interfaces, nor do changes of
the queues. -/
theorem RoutesExist.foldl_perform {r : Router} (hr : r.RoutesExist)
    (sends : List Send) (num : ℕ) (queue : List IPv4Datagram) :
    ((sends.foldl perform r).setQueue num queue).RoutesExist := by
  intro len dst route hentry
  rw [setQueue, List.length_modify, length_interfaces_foldl_perform]
  rw [setQueue, routeMps_foldl_perform] at hentry
  exact hr len dst route hentry

/-! ## One datagram -/

/-- A datagram that can be serialized is dropped or sent in one call. -/
theorem routeOneDatagram_eq {r : Router} (hr : r.RoutesExist)
    {dgram : IPv4Datagram} (hdgram : dgram.Serializable) :
    (r.routeOneDatagram dgram).1 =
        (r.routeMps.forward dgram).toList.foldl perform r ∧
      (r.routeOneDatagram dgram).2.2 = .ok () := by
  rcases hdest : r.routeMps.destination dgram with _ | ⟨nextHop, num⟩
  · rw [RouteMps.forward, hdest]
    exact routeOneDatagram_of_none hdest
  · rw [RouteMps.forward, hdest, routeOneDatagram_of_some hdest]
    refine ⟨rfl, ?_⟩
    have hnum := List.getElem?_eq_getElem
      (RouteMps.lt_of_destination hr hdest)
    have hdecremented : dgram.decrementTtl.Serializable :=
      ⟨hdgram.ver, hdgram.hlen_ge, hdgram.size_eq⟩
    simp only [onInterface, hnum]
    exact NetworkInterface.snd_sendDatagram _ hdecremented nextHop

/-! ## The loops -/

/-- The loop over one queue performs what is to be sent for its datagrams. -/
theorem routeQueue_eq {num : ℕ} {queue : List IPv4Datagram} {r : Router}
    (hr : r.RoutesExist) (hqueue : r.queue num = queue)
    (hserializable : ∀ dgram ∈ queue, dgram.Serializable) :
    routeQueue num queue.length r =
      (((queue.filterMap r.routeMps.forward).foldl perform r).setQueue num [],
        .ok ()) := by
  induction queue generalizing r with
  | nil =>
      have hsame := r.setQueue_queue num
      rw [hqueue] at hsame
      rw [List.filterMap_nil, List.foldl_nil, hsame]
      rfl
  | cons dgram rest ih =>
      obtain ⟨hone, hrest⟩ := List.forall_mem_cons.mp hserializable
      have hsends := routeOneDatagram_eq hr hone
      have hsame := r.queue_routeOneDatagram dgram
      rcases hroute : r.routeOneDatagram dgram with ⟨r', dgram', result⟩
      rw [hroute] at hsends hsame
      obtain ⟨hr', rfl⟩ := hsends
      dsimp only at hr' hsame
      have htail : (r'.queue num).tail = rest := by
        rw [hsame, hqueue, List.tail_cons]
      have hne : r'.queue num ≠ [] := by
        rw [hsame, hqueue]
        exact List.cons_ne_nil _ _
      have hqueue' : (r'.setQueue num rest).queue num = rest := by
        rw [queue_setQueue hne, Function.update_self]
      have hnext := hr.foldl_perform (r.routeMps.forward dgram).toList num rest
      have hmps := routeMps_foldl_perform
        (r.routeMps.forward dgram).toList r
      rw [← hr'] at hnext hmps
      have hmps' : (r'.setQueue num rest).routeMps = r.routeMps := hmps
      have hcons : (dgram :: rest).filterMap r.routeMps.forward =
          (r.routeMps.forward dgram).toList ++
            rest.filterMap r.routeMps.forward := by
        rw [List.filterMap_cons]
        cases r.routeMps.forward dgram <;> rfl
      simp only [List.length_cons, routeQueue, hqueue, hroute, htail]
      rw [ih hnext hqueue' hrest, hmps', foldl_perform_setQueue,
        setQueue_setQueue, hcons, List.foldl_append, ← hr']

/-- The queues with the given numbers are emptied. -/
def clearQueues (nums : List ℕ) (r : Router) : Router :=
  nums.foldl (fun r num => r.setQueue num []) r

/-- The loop over the interfaces performs what is to be sent for all their
queues. -/
theorem routeInterfaces_eq {nums : List ℕ} (hnodup : nums.Nodup) {r : Router}
    (hr : r.RoutesExist)
    (hserializable : ∀ num ∈ nums, ∀ dgram ∈ r.queue num,
      dgram.Serializable) :
    routeInterfaces nums r =
      (clearQueues nums (((nums.flatMap r.queue).filterMap
        r.routeMps.forward).foldl perform r), .ok ()) := by
  induction nums generalizing r with
  | nil => rfl
  | cons num nums ih =>
      obtain ⟨hone, hrest⟩ := List.forall_mem_cons.mp hserializable
      obtain ⟨hnot, hnodup⟩ := List.nodup_cons.mp hnodup
      obtain ⟨sends, hsends⟩ :
          ∃ sends, (r.queue num).filterMap r.routeMps.forward = sends :=
        ⟨_, rfl⟩
      have hfirst := routeQueue_eq hr rfl hone
      rw [hsends] at hfirst
      have hmps : ((sends.foldl perform r).setQueue num []).routeMps =
          r.routeMps := routeMps_foldl_perform sends r
      have hqueue : ∀ other ∈ nums,
          ((sends.foldl perform r).setQueue num []).queue other =
            r.queue other := by
        intro other hmem
        have hne : other ≠ num := by
          rintro rfl
          exact hnot hmem
        rw [queue_setQueue_of_ne _ hne, queue_foldl_perform]
      have hflat : nums.flatMap
          ((sends.foldl perform r).setQueue num []).queue =
            nums.flatMap r.queue := List.flatMap_congr hqueue
      simp only [routeInterfaces, hfirst]
      rw [ih hnodup (hr.foldl_perform sends num []), hmps, hflat,
        foldl_perform_setQueue, List.flatMap_cons, List.filterMap_append,
        List.foldl_append, hsends]
      · rfl
      · intro other hmem
        rw [hqueue other hmem]
        exact hrest other hmem

/-! ## The whole pass -/

theorem routeMps_clearQueues (nums : List ℕ) (r : Router) :
    (clearQueues nums r).routeMps = r.routeMps := by
  induction nums generalizing r with
  | nil => rfl
  | cons num nums ih => exact ih _

theorem getElem?_clearQueues (nums : List ℕ) (r : Router) (num : ℕ) :
    (clearQueues nums r).interfaces[num]? =
      r.interfaces[num]?.map fun n =>
        if num ∈ nums then { n with datagramsOut := [] } else n := by
  induction nums generalizing r with
  | nil => simp [clearQueues]
  | cons first nums ih =>
      have hcons : clearQueues (first :: nums) r =
          clearQueues nums (r.setQueue first []) := rfl
      rw [hcons, ih, setQueue, List.getElem?_modify]
      by_cases hfirst : first = num
      · simp [hfirst, Function.comp_def]
      · simp [hfirst, Ne.symm hfirst]

theorem clearQueues_range (r : Router) :
    clearQueues (List.range r.interfaces.length) r = r.emptied := by
  have hinterfaces : (clearQueues (List.range r.interfaces.length)
      r).interfaces = r.emptied.interfaces := by
    refine List.ext_getElem? ?_
    intro num
    rw [getElem?_clearQueues, emptied, List.getElem?_map]
    cases hn : r.interfaces[num]? with
    | none => rfl
    | some n =>
        have hlt := (List.getElem?_eq_some_iff.mp hn).1
        simp [hlt]
  have hmps := routeMps_clearQueues (List.range r.interfaces.length) r
  rcases hclear : clearQueues (List.range r.interfaces.length) r with
    ⟨interfaces, routeMps⟩
  rw [hclear] at hinterfaces hmps
  subst hinterfaces hmps
  rfl

/-- The pass performs what is to be sent for the queued datagrams and leaves all
queues empty. -/
theorem route_eq {r : Router} (hr : r.RoutesExist)
    (hserializable : ∀ dgram ∈ r.queued, dgram.Serializable) :
    r.route = (((r.queued.filterMap r.routeMps.forward).foldl perform
      r).emptied, .ok ()) := by
  have hqueues : ∀ num ∈ List.range r.interfaces.length,
      ∀ dgram ∈ r.queue num, dgram.Serializable := by
    intro num hnum dgram hmem
    exact hserializable dgram (List.mem_flatMap.mpr ⟨num, hnum, hmem⟩)
  have hpass := routeInterfaces_eq List.nodup_range hr hqueues
  have hlength := length_interfaces_foldl_perform
    (r.queued.filterMap r.routeMps.forward) r
  rw [route, hpass, ← clearQueues_range, hlength]
  rfl

theorem wellFormed_decrementTtl {dgram : IPv4Datagram}
    (h : dgram.WellFormed) : dgram.decrementTtl.WellFormed :=
  ⟨h.ver, h.hlen_ge, h.hlen_le, h.offset_lt, h.len_eq⟩

/-- **The routing pass.**  If the routes name existing interfaces and the queued
datagrams are well-formed, then `route` returns.  It has taken every queued
datagram once, in the order of the interfaces and of their queues, and has made one
call of `send_datagram` for each of them that has a route and is left with time to
live.  The datagram that is sent is the queued one with a time to live of one
less; what it is serialized to is parsed to it, and its header has a valid
checksum. -/
theorem routing_pass {r : Router} (hr : r.RoutesExist)
    (hqueued : ∀ dgram ∈ r.queued, dgram.WellFormed) :
    r.route = (((r.queued.filterMap r.routeMps.forward).foldl perform
        r).emptied, .ok ()) ∧
      (∀ dgram ∈ r.queued, dgram.header.ttl.toNat ≤ 1 →
        r.routeMps.forward dgram = none) ∧
      ∀ dgram ∈ r.queued, 2 ≤ dgram.header.ttl.toNat →
        ∀ nextHop num,
          r.routeMps.search 32 dgram.header.dst = some (nextHop, num) →
          ∃ send wire cksum, r.routeMps.forward dgram = some send ∧
            send.interfaceNum = num ∧
            send.nextHop = nextHop.getD ⟨dgram.header.dst, 0⟩ ∧
            send.dgram = ⟨{ dgram.header with
              ttl := dgram.header.ttl - 1 }, dgram.payload⟩ ∧
            send.dgram.serialize = .ok wire ∧
            (IPv4Header.parse {} ⟨wire.concatenate, .noError⟩).1 = .noError ∧
            IPv4Datagram.parse {} wire.concatenate =
              (.noError, ⟨{ send.dgram.header with cksum := cksum },
                [dgram.payload.concatenate]⟩) := by
  refine ⟨route_eq hr fun dgram hmem => (hqueued dgram hmem).serializable,
    ?_, ?_⟩
  · intro dgram _ httl
    rw [RouteMps.forward, RouteMps.destination, if_neg (by omega)]
    rfl
  · intro dgram hmem httl nextHop num hsearch
    have hwell := wellFormed_decrementTtl (hqueued dgram hmem)
    have hforward : r.routeMps.forward dgram =
        some ⟨num, dgram.decrementTtl,
          nextHop.getD ⟨dgram.header.dst, 0⟩⟩ := by
      rw [RouteMps.forward, RouteMps.destination, if_pos httl, hsearch]
      rfl
    exact ⟨_, dgram.decrementTtl.wire, dgram.decrementTtl.headerOut.cksum,
      hforward, rfl, rfl, rfl, IPv4Datagram.serialize_eq hwell.serializable,
      IPv4Datagram.parse_header_wire hwell {},
      IPv4Datagram.parse_wire hwell {}⟩

/-- One of two queued datagrams has time to live, and its next hop is asked
for. -/
theorem routing_pass_default_route :
    let dgram : IPv4Datagram := { header := { ttl := 64, len := 20 } }
    let expired : IPv4Datagram := { header := { ttl := 1, len := 20 } }
    let r : Router :=
      { interfaces :=
          [{ ethernetAddress := .zero
             ipAddress := ⟨1, 0⟩
             datagramsOut := [expired, dgram] }]
        routeMps := fun len _ =>
          if len = 0 then some (some ⟨7, 0⟩, 0) else none }
    r.route = ((r.perform ⟨0, dgram.decrementTtl, ⟨7, 0⟩⟩).emptied,
      .ok ()) := by
  intro dgram expired r
  have hr : r.RoutesExist := by
    intro len dst route hroute
    simp only [r] at hroute
    split_ifs at hroute
    cases hroute
    exact Nat.one_pos
  have hqueued : ∀ dgram ∈ r.queued, dgram.WellFormed := by
    have hboth : r.queued = [expired, dgram] := rfl
    rw [hboth]
    refine List.forall_mem_cons.mpr ⟨?_, List.forall_mem_singleton.mpr ?_⟩
    · exact ⟨rfl, by decide, by decide, by decide, rfl⟩
    · exact ⟨rfl, by decide, by decide, by decide, rfl⟩
  have hsends : r.queued.filterMap r.routeMps.forward =
      [⟨0, dgram.decrementTtl, ⟨7, 0⟩⟩] := by
    decide +kernel
  rw [(routing_pass hr hqueued).1, hsends]
  rfl

end Router
end Sponge
