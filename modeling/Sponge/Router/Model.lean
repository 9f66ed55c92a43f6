import Sponge.NetworkInterface.Model

/-!
# The router

A router moves the datagrams that its interfaces have received to the interface
and the next hop of the longest matching route.

The routes are one table for each prefix length.  A route of length 0 is added
with a shift by all 32 bits, which C++ leaves undefined.

As in the source, a datagram is worked on in its place at the front of the queue:
if routing it throws, it is still there, with the time to live that it has by
then.
-/

namespace Sponge

/-! ## Interfaces with a queue -/

/-- An interface that keeps the datagrams it receives. -/
structure AsyncNetworkInterface extends NetworkInterface where
  datagramsOut : List IPv4Datagram := []

namespace AsyncNetworkInterface

def recvFrame (n : AsyncNetworkInterface) (frame : EthernetFrame) :
    AsyncNetworkInterface × Except Exception Unit :=
  match n.toNetworkInterface.recvFrame frame with
  | (m, .error e) => ({ n with toNetworkInterface := m }, .error e)
  | (m, .ok none) => ({ n with toNetworkInterface := m }, .ok ())
  | (m, .ok (some dgram)) =>
      ({ toNetworkInterface := m, datagramsOut := n.datagramsOut ++ [dgram] },
        .ok ())

def sendDatagram (n : AsyncNetworkInterface) (dgram : IPv4Datagram)
    (nextHop : Address) : AsyncNetworkInterface × Except Exception Unit :=
  let (m, result) := n.toNetworkInterface.sendDatagram dgram nextHop
  ({ n with toNetworkInterface := m }, result)

end AsyncNetworkInterface

/-! ## Routes -/

/-- The routes by prefix length and prefix: the next hop, if there is one, and
the number of the interface. -/
abbrev RouteMps := ℕ → UInt32 → Option (Option Address × ℕ)

namespace RouteMps

/-- The search for a route, from the prefix length `len` down to 0. -/
def search (routes : RouteMps) :
    ℕ → UInt32 → Option (Option Address × ℕ)
  | 0, _ => routes 0 0
  | len + 1, dst =>
      let shift := UInt32.ofNat (32 - (len + 1))
      let dst := dst >>> shift <<< shift
      match routes (len + 1) dst with
      | some route => some route
      | none => search routes len dst

/-- The next hop and the interface that a datagram is sent to, unless it is
dropped. -/
def destination (routes : RouteMps) (dgram : IPv4Datagram) :
    Option (Address × ℕ) :=
  if 2 ≤ dgram.header.ttl.toNat then
    (routes.search 32 dgram.header.dst).map fun (nextHop, interfaceNum) =>
      (nextHop.getD ⟨dgram.header.dst, 0⟩, interfaceNum)
  else none

end RouteMps

/-- `x >> n << n` for a number of 32 bits.  It is defined for `0 ≤ n < 32`; `full`
is what it is taken to be for `n = 32`, if it is taken to be anything. -/
def clearLow (full : UInt32 → Option UInt32) (x : UInt32) (n : ℤ) :
    Option UInt32 :=
  if n = 32 then full x
  else if 0 ≤ n ∧ n < 32 then
    some (x >>> UInt32.ofNat n.toNat <<< UInt32.ofNat n.toNat)
  else none

/-! ## Routing -/

def IPv4Datagram.decrementTtl (dgram : IPv4Datagram) : IPv4Datagram :=
  { dgram with header := { dgram.header with ttl := dgram.header.ttl - 1 } }

structure Router where
  interfaces : List AsyncNetworkInterface := []
  routeMps : RouteMps := fun _ _ => none

namespace Router

/-- The number of the new interface is returned. -/
def addInterface (r : Router) (n : AsyncNetworkInterface) : Router × ℕ :=
  ({ r with interfaces := r.interfaces ++ [n] }, r.interfaces.length)

/-- There is no result where the behaviour of the source is undefined. -/
def addRoute (full : UInt32 → Option UInt32) (r : Router)
    (routePrefix : UInt32) (prefixLength : UInt8) (nextHop : Option Address)
    (interfaceNum : ℕ) : Option Router :=
  (clearLow full routePrefix (32 - prefixLength.toNat)).map fun realPrefix =>
    { r with
      routeMps := Function.update r.routeMps prefixLength.toNat
        (Function.update (r.routeMps prefixLength.toNat) realPrefix
          (some (nextHop, interfaceNum))) }

/-- A call on the interface `num`, which `vector::at` looks up. -/
def onInterface (r : Router) (num : ℕ)
    (call : AsyncNetworkInterface →
      AsyncNetworkInterface × Except Exception Unit) :
    Router × Except Exception Unit :=
  match r.interfaces[num]? with
  | none => (r, .error (.outOfRange "vector::_M_range_check"))
  | some n =>
      let (n, result) := call n
      ({ r with interfaces := r.interfaces.set num n }, result)

/-- The datagram is returned with the time to live that it is left with. -/
def routeOneDatagram (r : Router) (dgram : IPv4Datagram) :
    Router × IPv4Datagram × Except Exception Unit :=
  if dgram.header.ttl = 0 then (r, dgram, .ok ())
  else
    let dgram := dgram.decrementTtl
    if dgram.header.ttl = 0 then (r, dgram, .ok ())
    else
      match r.routeMps.search 32 dgram.header.dst with
      | none => (r, dgram, .ok ())
      | some (nextHop, interfaceNum) =>
          let realNextHop := nextHop.getD ⟨dgram.header.dst, 0⟩
          let (r, result) := r.onInterface interfaceNum fun n =>
            n.sendDatagram dgram realNextHop
          (r, dgram, result)

/-- The queue `datagrams_out` of an interface. -/
def queue (r : Router) (num : ℕ) : List IPv4Datagram :=
  (r.interfaces[num]?.map AsyncNetworkInterface.datagramsOut).getD []

def setQueue (r : Router) (num : ℕ) (queue : List IPv4Datagram) : Router :=
  { r with
    interfaces := r.interfaces.modify num fun n =>
      { n with datagramsOut := queue } }

/-- The loop over the queue of one interface.  The fuel is the length of the
queue when the loop begins. -/
def routeQueue (num : ℕ) : ℕ → Router → Router × Except Exception Unit
  | 0, r => (r, .ok ())
  | fuel + 1, r =>
      match r.queue num with
      | [] => (r, .ok ())
      | dgram :: _ =>
          match r.routeOneDatagram dgram with
          | (r, dgram, .error e) =>
              (r.setQueue num (dgram :: (r.queue num).tail), .error e)
          | (r, _, .ok ()) =>
              routeQueue num fuel (r.setQueue num (r.queue num).tail)

/-- The loop over the interfaces with the given numbers. -/
def routeInterfaces : List ℕ → Router → Router × Except Exception Unit
  | [], r => (r, .ok ())
  | num :: nums, r =>
      match routeQueue num (r.queue num).length r with
      | (r, .error e) => (r, .error e)
      | (r, .ok ()) => routeInterfaces nums r

def route (r : Router) : Router × Except Exception Unit :=
  routeInterfaces (List.range r.interfaces.length) r

end Router

/-! ## Where a datagram goes -/

theorem RouteMps.exists_of_search {routes : RouteMps} {len : ℕ}
    {dst : UInt32} {route : Option Address × ℕ}
    (h : routes.search len dst = some route) :
    ∃ len dst, routes len dst = some route := by
  induction len generalizing dst with
  | zero => exact ⟨0, 0, h⟩
  | succ len ih =>
      simp only [search] at h
      split at h
      · rename_i found hfound
        cases h
        exact ⟨_, _, hfound⟩
      · exact ih h

/-- If the routes name some of `size` interfaces, then a datagram goes to one of
them. -/
theorem RouteMps.lt_of_destination {routes : RouteMps} {size : ℕ}
    (h : ∀ len dst route, routes len dst = some route → route.2 < size)
    {dgram : IPv4Datagram} {nextHop : Address} {num : ℕ}
    (hdest : routes.destination dgram = some (nextHop, num)) : num < size := by
  unfold destination at hdest
  split_ifs at hdest
  obtain ⟨route, hsearch, hroute⟩ := Option.map_eq_some_iff.mp hdest
  obtain ⟨len, dst, hentry⟩ := exists_of_search hsearch
  cases hroute
  exact h len dst route hentry

namespace Router


theorem toNat_decrementTtl {dgram : IPv4Datagram}
    (h : dgram.header.ttl ≠ 0) :
    dgram.decrementTtl.header.ttl.toNat + 1 = dgram.header.ttl.toNat := by
  have hpos : 1 ≤ dgram.header.ttl.toNat := by
    rw [Nat.one_le_iff_ne_zero]
    intro hzero
    exact h (UInt8.toNat_inj.mp hzero)
  have hsub := UInt8.toNat_sub_of_le dgram.header.ttl 1 hpos
  simp only [IPv4Datagram.decrementTtl, hsub, UInt8.reduceToNat]
  omega

theorem two_le_ttl_iff (dgram : IPv4Datagram) :
    2 ≤ dgram.header.ttl.toNat ↔
      dgram.header.ttl ≠ 0 ∧ dgram.decrementTtl.header.ttl ≠ 0 := by
  by_cases hzero : dgram.header.ttl = 0
  · simp [hzero]
  · have hdecrement := toNat_decrementTtl hzero
    have hleft : dgram.decrementTtl.header.ttl ≠ 0 ↔
        dgram.decrementTtl.header.ttl.toNat ≠ 0 :=
      UInt8.toNat_inj.not.symm
    rw [hleft, and_iff_right hzero]
    omega

/-- A datagram without a destination is dropped. -/
theorem routeOneDatagram_of_none {r : Router} {dgram : IPv4Datagram}
    (h : r.routeMps.destination dgram = none) :
    (r.routeOneDatagram dgram).1 = r ∧
      (r.routeOneDatagram dgram).2.2 = .ok () := by
  unfold routeOneDatagram
  by_cases hzero : dgram.header.ttl = 0
  · simp [hzero]
  by_cases hone : dgram.decrementTtl.header.ttl = 0
  · simp [hzero, hone]
  have hsearch : r.routeMps.search 32 dgram.decrementTtl.header.dst =
      none := by
    have httl := (two_le_ttl_iff dgram).mpr ⟨hzero, hone⟩
    rw [RouteMps.destination, if_pos httl, Option.map_eq_none_iff] at h
    exact h
  simp [hzero, hone, hsearch]

/-- A datagram with a destination is sent there, with one less to live. -/
theorem routeOneDatagram_of_some {r : Router} {dgram : IPv4Datagram}
    {nextHop : Address} {num : ℕ}
    (h : r.routeMps.destination dgram = some (nextHop, num)) :
    r.routeOneDatagram dgram =
      ((r.onInterface num fun n =>
          n.sendDatagram dgram.decrementTtl nextHop).1,
        dgram.decrementTtl,
        (r.onInterface num fun n =>
          n.sendDatagram dgram.decrementTtl nextHop).2) := by
  unfold RouteMps.destination at h
  split_ifs at h with httl
  obtain ⟨hzero, hone⟩ := (two_le_ttl_iff dgram).mp httl
  rw [Option.map_eq_some_iff] at h
  obtain ⟨⟨hop, num'⟩, hsearch, hdest⟩ := h
  cases hdest
  have hsearch' : r.routeMps.search 32 dgram.decrementTtl.header.dst =
      some (hop, num) := hsearch
  simp only [routeOneDatagram, if_neg hzero, if_neg hone, hsearch']
  rfl

/-! ## The queues -/

theorem queue_of_getElem? {r : Router} {num : ℕ} {n : AsyncNetworkInterface}
    (h : r.interfaces[num]? = some n) : r.queue num = n.datagramsOut := by
  simp [queue, h]

theorem queue_of_le {r : Router} {num : ℕ} (h : r.interfaces.length ≤ num) :
    r.queue num = [] := by
  simp [queue, h]

theorem queue_setQueue {r : Router} {num : ℕ} (h : r.queue num ≠ [])
    (queue : List IPv4Datagram) :
    (r.setQueue num queue).queue = Function.update r.queue num queue := by
  have hnum : num < r.interfaces.length := by
    by_contra hle
    exact h (queue_of_le (Nat.not_lt.mp hle))
  funext other
  by_cases hother : other = num
  · subst hother
    simp [Router.queue, setQueue, hnum]
  · simp [Router.queue, setQueue, hother, Ne.symm hother]

/-- Only the queue of the interface that is called can change. -/
theorem queue_onInterface {r : Router} {num : ℕ}
    {call : AsyncNetworkInterface →
      AsyncNetworkInterface × Except Exception Unit}
    (hcall : ∀ n, (call n).1.datagramsOut = n.datagramsOut) :
    (r.onInterface num call).1.queue = r.queue := by
  unfold onInterface
  cases hn : r.interfaces[num]? with
  | none => rfl
  | some n =>
      obtain ⟨hnum, rfl⟩ := List.getElem?_eq_some_iff.mp hn
      funext other
      by_cases hother : other = num
      · subst hother
        simp [queue, hcall, hnum]
      · simp [queue, Ne.symm hother]

/-- Routing a datagram does not change the queues. -/
theorem queue_routeOneDatagram (r : Router) (dgram : IPv4Datagram) :
    (r.routeOneDatagram dgram).1.queue = r.queue := by
  rcases h : r.routeMps.destination dgram with _ | ⟨nextHop, num⟩
  · rw [(routeOneDatagram_of_none h).1]
  · rw [routeOneDatagram_of_some h]
    exact queue_onInterface fun n => rfl

/-- The loop over a queue ends with the queue empty, unless it throws. -/
theorem queue_routeQueue {num fuel : ℕ} {r : Router}
    (hfuel : (r.queue num).length ≤ fuel)
    (hok : (routeQueue num fuel r).2 = .ok ()) :
    (routeQueue num fuel r).1.queue = Function.update r.queue num [] := by
  induction fuel generalizing r with
  | zero =>
      have hqueue := List.eq_nil_of_length_eq_zero (Nat.le_zero.mp hfuel)
      rw [← hqueue, Function.update_eq_self, routeQueue]
  | succ fuel ih =>
      rcases hqueue : r.queue num with _ | ⟨dgram, rest⟩
      · rw [← hqueue, Function.update_eq_self]
        simp only [routeQueue, hqueue]
      · have hsame := r.queue_routeOneDatagram dgram
        rcases hroute : r.routeOneDatagram dgram with ⟨r', dgram', e | ⟨⟩⟩
        · simp only [routeQueue, hqueue, hroute] at hok
          cases hok
        · rw [hroute] at hsame
          have hne : r'.queue num ≠ [] := by
            rw [hsame, hqueue]
            exact List.cons_ne_nil _ _
          have hpop : (r'.setQueue num (r'.queue num).tail).queue =
              Function.update r.queue num rest := by
            rw [queue_setQueue hne, hsame, hqueue, List.tail_cons]
          simp only [routeQueue, hqueue, hroute] at hok ⊢
          rw [ih _ hok, hpop, Function.update_idem]
          rw [hpop, Function.update_self]
          rw [hqueue, List.length_cons] at hfuel
          exact Nat.le_of_succ_le_succ hfuel

theorem queue_routeInterfaces {nums : List ℕ} {r : Router}
    (hok : (routeInterfaces nums r).2 = .ok ()) {num : ℕ}
    (hnum : num ∈ nums ∨ r.queue num = []) :
    (routeInterfaces nums r).1.queue num = [] := by
  induction nums generalizing r with
  | nil =>
      rcases hnum with hmem | hempty
      · cases hmem
      · exact hempty
  | cons first nums ih =>
      have hqueue := queue_routeQueue (le_refl (r.queue first).length)
      rcases hroute : routeQueue first (r.queue first).length r with
        ⟨r', e | ⟨⟩⟩
      · simp only [routeInterfaces, hroute] at hok
        cases hok
      · rw [hroute] at hqueue
        have hqueue' := hqueue rfl
        simp only [routeInterfaces, hroute] at hok ⊢
        refine ih hok ?_
        rw [hqueue']
        by_cases hfirst : num = first
        · right
          rw [hfirst, Function.update_self]
        · rw [Function.update_of_ne hfirst]
          exact hnum.imp_left (List.mem_of_ne_of_mem hfirst)

/-- When `route` returns, all queues are empty. -/
theorem datagramsOut_route {r : Router} (hok : r.route.2 = .ok ())
    {n : AsyncNetworkInterface} (hn : n ∈ r.route.1.interfaces) :
    n.datagramsOut = [] := by
  obtain ⟨num, hget⟩ := List.mem_iff_getElem?.mp hn
  rw [← queue_of_getElem? hget]
  refine queue_routeInterfaces hok ?_
  rw [List.mem_range]
  exact (Nat.lt_or_ge num r.interfaces.length).imp_right queue_of_le

end Router
end Sponge
