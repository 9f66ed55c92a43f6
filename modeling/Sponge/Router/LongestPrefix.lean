import Sponge.Router.Model
import Sponge.Support.Table

/-!
# Longest-prefix match

The lookup goes down through the tables and masks the destination a bit further
at each of them.  It finds, among the routes whose prefix the destination has, one
of the greatest length, and of those the one that was added last.
-/

namespace Sponge

/-- The arguments of `add_route`. -/
structure Route where
  routePrefix : UInt32
  prefixLength : UInt8
  nextHop : Option Address
  interfaceNum : ℕ
deriving DecidableEq

namespace Route

/-- The destination has the high-order bits of the prefix that the route asks
for. -/
def Matches (route : Route) (dst : UInt32) : Prop :=
  route.routePrefix.toNat / 2 ^ (32 - route.prefixLength.toNat) =
    dst.toNat / 2 ^ (32 - route.prefixLength.toNat)

instance (route : Route) (dst : UInt32) : Decidable (route.Matches dst) :=
  inferInstanceAs (Decidable (_ = _))

/-- The route is the longest of `routes` that matches, and the last of them. -/
def Best (routes : List Route) (dst : UInt32) (route : Route) : Prop :=
  ∃ before after, routes = before ++ route :: after ∧ route.Matches dst ∧
    (∀ other ∈ before, other.Matches dst →
      other.prefixLength.toNat ≤ route.prefixLength.toNat) ∧
    ∀ other ∈ after, other.Matches dst →
      other.prefixLength.toNat < route.prefixLength.toNat

theorem Best.mem {routes : List Route} {dst : UInt32} {route : Route}
    (h : Best routes dst route) : route ∈ routes := by
  obtain ⟨before, after, rfl, -⟩ := h
  exact List.mem_append_cons_self

end Route

/-! ## Masks -/

/-- The high-order `len` bits. -/
def mask (len : ℕ) (x : UInt32) : UInt32 :=
  if len = 0 then 0
  else x >>> UInt32.ofNat (32 - len) <<< UInt32.ofNat (32 - len)

theorem toNat_mask {len : ℕ} (hlen : len ≤ 32) (x : UInt32) :
    (mask len x).toNat = x.toNat / 2 ^ (32 - len) * 2 ^ (32 - len) := by
  unfold mask
  split_ifs with hzero
  · subst hzero
    have hlt := x.toNat_lt
    rw [Nat.div_eq_of_lt hlt]
    rfl
  · have hshift : (UInt32.ofNat (32 - len)).toNat % 32 = 32 - len := by
      rw [UInt32.toNat_ofNat_of_lt' (by unfold UInt32.size; omega)]
      exact Nat.mod_eq_of_lt (by omega)
    rw [UInt32.toNat_shiftLeft, UInt32.toNat_shiftRight, hshift,
      Nat.shiftLeft_eq, Nat.shiftRight_eq_div_pow]
    exact Nat.mod_eq_of_lt ((Nat.div_mul_le_self _ _).trans_lt x.toNat_lt)

theorem mask_eq_mask_iff {len : ℕ} (hlen : len ≤ 32) {x y : UInt32} :
    mask len x = mask len y ↔
      x.toNat / 2 ^ (32 - len) = y.toNat / 2 ^ (32 - len) := by
  rw [← UInt32.toNat_inj, toNat_mask hlen, toNat_mask hlen]
  exact Nat.mul_left_inj (Nat.pos_iff_ne_zero.mp (Nat.two_pow_pos _))

/-- The lookup may mask what has been masked before. -/
theorem mask_mask {len : ℕ} (hlen : len + 1 ≤ 32) (x : UInt32) :
    mask len (mask (len + 1) x) = mask len x := by
  rw [mask_eq_mask_iff (Nat.le_of_succ_le hlen), toNat_mask hlen]
  have hpow : 32 - len = 32 - (len + 1) + 1 := by omega
  rw [hpow, pow_succ, ← Nat.div_div_eq_div_mul, ← Nat.div_div_eq_div_mul,
    Nat.mul_div_cancel _ (Nat.two_pow_pos _)]

/-! ## The lookup -/

namespace RouteMps

/-- What is found for a destination in the table of a prefix length. -/
def found (routes : RouteMps) (dst : UInt32) (len : ℕ) :
    Option (Option Address × ℕ) :=
  routes len (mask len dst)

theorem search_eq_or (routes : RouteMps) (len : ℕ) (dst : UInt32) :
    routes.search (len + 1) dst =
      (routes.found dst (len + 1)).or
        (routes.search len (mask (len + 1) dst)) := by
  rw [search, found, mask, if_neg (Nat.succ_ne_zero len)]
  split <;> simp only [*, Option.some_or, Option.none_or]

/-- One turn of the loop, as if nothing had been masked before it. -/
theorem search_succ (routes : RouteMps) {len : ℕ} (hlen : len + 1 ≤ 32)
    (dst : UInt32) :
    routes.search (len + 1) dst =
      (routes.found dst (len + 1)).or (routes.search len dst) := by
  have hmasked : routes.search len (mask (len + 1) dst) =
      routes.search len dst := by
    cases len with
    | zero => rw [search, search]
    | succ len => rw [search_eq_or, search_eq_or, found, found, mask_mask hlen]
  rw [search_eq_or, hmasked]

theorem search_zero (routes : RouteMps) (dst : UInt32) :
    routes.search 0 dst = routes.found dst 0 := by
  rw [search, found, mask, if_pos rfl]

/-- The lookup finds what is found for the longest prefix length for which
anything is. -/
theorem search_cases (routes : RouteMps) (dst : UInt32) {len : ℕ}
    (hlen : len ≤ 32) :
    (∃ k entry, routes.found dst k = some entry ∧
        (∀ longer ≤ len, k < longer → routes.found dst longer = none) ∧
        routes.search len dst = some entry) ∨
      ((∀ k ≤ len, routes.found dst k = none) ∧
        routes.search len dst = none) := by
  induction len with
  | zero =>
      rw [search_zero]
      cases hfound : routes.found dst 0 with
      | some entry =>
          left
          refine ⟨0, entry, hfound, ?_, rfl⟩
          intro longer hle hlt
          omega
      | none =>
          right
          refine ⟨?_, rfl⟩
          intro k hle
          rw [Nat.le_zero.mp hle, hfound]
  | succ len ih =>
      rw [search_succ routes hlen]
      cases hfound : routes.found dst (len + 1) with
      | some entry =>
          left
          refine ⟨len + 1, entry, hfound, ?_, rfl⟩
          intro longer hle hlt
          omega
      | none =>
          rw [Option.none_or]
          -- what holds up to `len` holds up to `len + 1`
          have hextend : ∀ {k : ℕ},
              (∀ longer ≤ len, k ≤ longer → routes.found dst longer = none) →
              ∀ longer ≤ len + 1, k ≤ longer →
                routes.found dst longer = none := by
            intro k hnone longer hle hk
            rcases Nat.le_succ_iff.mp hle with hle | rfl
            · exact hnone longer hle hk
            · exact hfound
          rcases ih (Nat.le_of_succ_le hlen) with
            ⟨k, entry, hentry, hnone, hsearch⟩ | ⟨hnone, hsearch⟩
          · exact Or.inl ⟨k, entry, hentry, hextend hnone, hsearch⟩
          · right
            refine ⟨?_, hsearch⟩
            intro k hle
            exact hextend (fun longer hle _ => hnone longer hle) k hle
              (Nat.zero_le k)

end RouteMps

/-! ## The tables -/

/-- The table and the prefix at which a route is entered. -/
def Route.key (route : Route) : ℕ × UInt32 :=
  (route.prefixLength.toNat,
    mask route.prefixLength.toNat route.routePrefix)

def Route.entry (route : Route) : Option Address × ℕ :=
  (route.nextHop, route.interfaceNum)

theorem Route.key_eq_iff {route : Route}
    (hlen : route.prefixLength.toNat ≤ 32) {len : ℕ} {dst : UInt32} :
    route.key = (len, mask len dst) ↔
      route.prefixLength.toNat = len ∧ route.Matches dst := by
  rw [Route.key, Prod.mk.injEq]
  refine and_congr_right ?_
  rintro rfl
  exact mask_eq_mask_iff hlen

/-- The length of a route is not 0, or its prefix is 0 and a shift of 0 is known to
give 0. -/
def Route.Defined (route : Route) : Prop :=
  (1 ≤ route.prefixLength.toNat ∧ route.prefixLength.toNat ≤ 32) ∨
    (route.prefixLength.toNat = 0 ∧ route.routePrefix = 0)

instance (route : Route) : Decidable route.Defined :=
  inferInstanceAs (Decidable (_ ∨ _))

theorem clearLow_eq_mask (full : UInt32 → Option UInt32) {len : ℕ}
    (hpos : 1 ≤ len) (hle : len ≤ 32) (x : UInt32) :
    clearLow full x (32 - len) = some (mask len x) := by
  have hshift : ((32 : ℤ) - len).toNat = 32 - len := by omega
  rw [clearLow, if_neg (by omega), if_pos (by omega), hshift, mask,
    if_neg (by omega)]

theorem Route.Defined.clearLow_eq {route : Route} (h : route.Defined)
    {full : UInt32 → Option UInt32} (hfull : full 0 = some 0) :
    clearLow full route.routePrefix (32 - route.prefixLength.toNat) =
      some (mask route.prefixLength.toNat route.routePrefix) := by
  rcases h with ⟨hpos, hle⟩ | ⟨hzero, hprefix⟩
  · exact clearLow_eq_mask full hpos hle _
  · rw [hzero, hprefix, clearLow, if_pos (by simp), mask, if_pos rfl, hfull]

/-- The tables after the routes have been added. -/
def RouteMps.ofRoutes (routes : List Route) : RouteMps := fun len dst =>
  routes.foldl (fun (table : ℕ × UInt32 → Option (Option Address × ℕ)) route =>
    Function.update table route.key (some route.entry)) (fun _ => none)
    (len, dst)

theorem RouteMps.ofRoutes_append (routes : List Route) (route : Route) :
    ofRoutes (routes ++ [route]) =
      Function.update (ofRoutes routes) route.prefixLength.toNat
        (Function.update (ofRoutes routes route.prefixLength.toNat)
          (mask route.prefixLength.toNat route.routePrefix)
          (some route.entry)) := by
  funext len dst
  simp only [ofRoutes, List.foldl_append, List.foldl_cons, List.foldl_nil]
  by_cases hlen : len = route.prefixLength.toNat
  · subst hlen
    rw [Function.update_self]
    by_cases hdst : dst = mask route.prefixLength.toNat route.routePrefix
    · rw [hdst, Function.update_self]
      exact Function.update_self route.key _ _
    · have hkey : (route.prefixLength.toNat, dst) ≠ route.key := by
        intro h
        exact hdst (congrArg Prod.snd h)
      rw [Function.update_of_ne hdst]
      exact Function.update_of_ne hkey _ _
  · have hkey : (len, dst) ≠ route.key := by
      intro h
      exact hlen (congrArg Prod.fst h)
    rw [Function.update_of_ne hlen]
    exact Function.update_of_ne hkey _ _

/-- What is found for a prefix length is the last matching route of that
length. -/
theorem RouteMps.found_ofRoutes {routes : List Route}
    (hlen : ∀ route ∈ routes, route.prefixLength.toNat ≤ 32) (dst : UInt32)
    (len : ℕ) :
    (∃ before route after, routes = before ++ route :: after ∧
        route.prefixLength.toNat = len ∧ route.Matches dst ∧
        (∀ later ∈ after, later.prefixLength.toNat = len →
          ¬later.Matches dst) ∧
        (ofRoutes routes).found dst len = some route.entry) ∨
      ((∀ route ∈ routes, route.prefixLength.toNat = len →
          ¬route.Matches dst) ∧ (ofRoutes routes).found dst len = none) := by
  have hkey : ∀ route ∈ routes, (route.key = (len, mask len dst) ↔
      route.prefixLength.toNat = len ∧ route.Matches dst) :=
    fun route hmem => Route.key_eq_iff (hlen route hmem)
  rcases Support.Table.foldl_update_cases Route.key Route.entry routes
      (len, mask len dst) with
    ⟨before, route, after, hroutes, hroute, hafter, hfound⟩ |
      ⟨hnone, hmissing⟩
  · have hmem : route ∈ routes := by
      rw [hroutes]
      exact List.mem_append_right _ List.mem_cons_self
    obtain ⟨hlength, hmatches⟩ := (hkey route hmem).mp hroute
    refine Or.inl ⟨before, route, after, hroutes, hlength, hmatches, ?_,
      hfound⟩
    intro later hlater hlength' hmatches'
    have hmem' : later ∈ routes := by
      rw [hroutes]
      exact List.mem_append_right _ (List.mem_cons_of_mem _ hlater)
    exact hafter later hlater ((hkey later hmem').mpr ⟨hlength', hmatches'⟩)
  · refine Or.inr ⟨?_, hmissing⟩
    intro route hmem hlength hmatches
    exact hnone route hmem ((hkey route hmem).mpr ⟨hlength, hmatches⟩)

/-- The lookup finds the best route, if any matches. -/
theorem RouteMps.search_ofRoutes {routes : List Route}
    (hlen : ∀ route ∈ routes, route.prefixLength.toNat ≤ 32) (dst : UInt32) :
    (∃ route, Route.Best routes dst route ∧
        (ofRoutes routes).search 32 dst = some route.entry) ∨
      ((∀ route ∈ routes, ¬route.Matches dst) ∧
        (ofRoutes routes).search 32 dst = none) := by
  have hmissing : ∀ {k : ℕ}, (ofRoutes routes).found dst k = none →
      ∀ route ∈ routes, route.prefixLength.toNat = k →
        ¬route.Matches dst := by
    intro k hnone
    rcases found_ofRoutes hlen dst k with
      ⟨before, route, after, -, -, -, -, hfound⟩ | ⟨hall, -⟩
    · rw [hnone] at hfound
      cases hfound
    · exact hall
  rcases (ofRoutes routes).search_cases dst le_rfl with
    ⟨k, entry, hentry, hlonger, hsearch⟩ | ⟨hnone, hsearch⟩
  · left
    rcases found_ofRoutes hlen dst k with
      ⟨before, route, after, hroutes, rfl, hmatches, hafter, hfound⟩ |
        ⟨-, hnone⟩
    · -- a longer route would have been found before
      have hle : ∀ other ∈ routes, other.Matches dst →
          other.prefixLength.toNat ≤ route.prefixLength.toNat := by
        intro other hmem hother
        by_contra hlt
        exact hmissing (hlonger _ (hlen other hmem) (Nat.not_le.mp hlt))
          other hmem rfl hother
      rw [hfound] at hentry
      cases hentry
      refine ⟨route, ⟨before, after, hroutes, hmatches, ?_, ?_⟩, hsearch⟩
      · intro other hmem
        exact hle other (by rw [hroutes]; exact List.mem_append_left _ hmem)
      · intro other hmem hother
        refine lt_of_le_of_ne (hle other ?_ hother) ?_
        · rw [hroutes]
          exact List.mem_append_right _ (List.mem_cons_of_mem _ hmem)
        · intro hsame
          exact hafter other hmem hsame hother
    · rw [hentry] at hnone
      cases hnone
  · refine Or.inr ⟨?_, hsearch⟩
    intro route hmem
    exact hmissing (hnone _ (hlen route hmem)) route hmem rfl

namespace Router

variable {full : UInt32 → Option UInt32}

/-- `add_route` is called for each of `routes`. -/
def addRoutes (full : UInt32 → Option UInt32) (r : Router)
    (routes : List Route) : Option Router :=
  routes.foldlM (fun r route => r.addRoute full route.routePrefix
    route.prefixLength route.nextHop route.interfaceNum) r

theorem addRoute_eq {r : Router} {routes : List Route}
    (hr : r.routeMps = .ofRoutes routes) {route : Route}
    (hclear : clearLow full route.routePrefix
      (32 - route.prefixLength.toNat) =
        some (mask route.prefixLength.toNat route.routePrefix)) :
    r.addRoute full route.routePrefix route.prefixLength route.nextHop
        route.interfaceNum =
      some { r with routeMps := .ofRoutes (routes ++ [route]) } := by
  rw [addRoute, hclear, hr, RouteMps.ofRoutes_append]
  rfl

theorem addRoutes_eq {r : Router} {before routes : List Route}
    (hr : r.routeMps = .ofRoutes before)
    (hclear : ∀ route ∈ routes, clearLow full route.routePrefix
      (32 - route.prefixLength.toNat) =
        some (mask route.prefixLength.toNat route.routePrefix)) :
    r.addRoutes full routes =
      some { r with routeMps := .ofRoutes (before ++ routes) } := by
  induction routes generalizing r before with
  | nil =>
      rw [List.append_nil, ← hr]
      rfl
  | cons route routes ih =>
      have hrest : ∀ route ∈ routes, _ :=
        fun other hmem => hclear other (List.mem_cons_of_mem _ hmem)
      rw [addRoutes, List.foldlM_cons,
        addRoute_eq hr (hclear route List.mem_cons_self)]
      have hih := ih (r := { r with routeMps := .ofRoutes (before ++ [route]) })
        rfl hrest
      rw [List.append_assoc, List.singleton_append] at hih
      exact hih

/-- **Longest-prefix match.**  Routes to existing interfaces are added to a router
without routes; a prefix length of 0 comes with the prefix 0, and a shift of 0 by
32 bits is taken to give 0.  Then a datagram that has time to live is handed to
the interface of the longest route that matches, the last one of these, with the
next hop of the route or else with its own destination.  If no route matches,
nothing is sent. -/
theorem longest_prefix_match (hfull : full 0 = some 0) (r : Router)
    (hempty : ∀ len dst, r.routeMps len dst = none) (routes : List Route)
    (hdefined : ∀ route ∈ routes, route.Defined)
    (hnum : ∀ route ∈ routes, route.interfaceNum < r.interfaces.length) :
    ∃ r', r.addRoutes full routes = some r' ∧
      ∀ dgram : IPv4Datagram, 2 ≤ dgram.header.ttl.toNat →
        (∃ route n, Route.Best routes dgram.header.dst route ∧
          r'.interfaces[route.interfaceNum]? = some n ∧
          let (n', result) := n.sendDatagram dgram.decrementTtl
            (route.nextHop.getD ⟨dgram.header.dst, 0⟩)
          r'.routeOneDatagram dgram =
            ({ r' with
                interfaces := r'.interfaces.set route.interfaceNum n' },
              dgram.decrementTtl, result)) ∨
        ((∀ route ∈ routes, ¬route.Matches dgram.header.dst) ∧
          (r'.routeOneDatagram dgram).1 = r' ∧
          (r'.routeOneDatagram dgram).2.2 = .ok ()) := by
  have hlen : ∀ route ∈ routes, route.prefixLength.toNat ≤ 32 := by
    intro route hmem
    rcases hdefined route hmem with ⟨-, hle⟩ | ⟨hzero, -⟩
    · exact hle
    · omega
  have hr : r.routeMps = .ofRoutes [] := by
    funext len dst
    exact hempty len dst
  refine ⟨_, addRoutes_eq hr fun route hmem =>
    (hdefined route hmem).clearLow_eq hfull, ?_⟩
  intro dgram httl
  rw [List.nil_append]
  rcases RouteMps.search_ofRoutes hlen dgram.header.dst with
    ⟨route, hbest, hsearch⟩ | ⟨hnone, hsearch⟩
  · left
    have hexists := List.getElem?_eq_getElem (hnum route hbest.mem)
    refine ⟨route, _, hbest, hexists, ?_⟩
    have hdest : (RouteMps.ofRoutes routes).destination dgram =
        some (route.nextHop.getD ⟨dgram.header.dst, 0⟩,
          route.interfaceNum) := by
      rw [RouteMps.destination, if_pos httl, hsearch]
      rfl
    rw [routeOneDatagram_of_some hdest]
    simp only [onInterface, hexists]
  · right
    refine ⟨hnone, routeOneDatagram_of_none ?_⟩
    rw [RouteMps.destination, if_pos httl, hsearch]
    rfl

/-- A route of length 8 for a prefix that has one already, within a route of
length 0. -/
theorem longest_prefix_match_nested :
    let r : Router :=
      { interfaces := [{ ethernetAddress := .zero, ipAddress := ⟨1, 0⟩ }] }
    let routes : List Route :=
      [⟨0, 0, some ⟨7, 0⟩, 0⟩, ⟨0x0a000001, 8, some ⟨8, 0⟩, 0⟩,
        ⟨0x0a000000, 8, none, 0⟩]
    ∃ r', r.addRoutes some routes = some r' ∧
      ∃ route, Route.Best routes 0x0a000005 route := by
  intro r routes
  obtain ⟨r', hr', hroute⟩ := longest_prefix_match rfl r (fun _ _ => rfl)
    routes (by decide) (by decide)
  refine ⟨r', hr', ?_⟩
  rcases hroute { header := { ttl := 64, dst := 0x0a000005 } } (by decide) with
    ⟨route, n, hbest, -⟩ | ⟨hnone, -⟩
  · exact ⟨route, hbest⟩
  · exact absurd hnone (by decide)

/-! ## Host bits -/

/-- The routes differ at most in bits of the prefix that they do not ask for. -/
structure SameRoute (a b : Route) : Prop where
  prefixLength : a.prefixLength = b.prefixLength
  nextHop : a.nextHop = b.nextHop
  interfaceNum : a.interfaceNum = b.interfaceNum
  routePrefix : a.routePrefix.toNat / 2 ^ (32 - a.prefixLength.toNat) =
    b.routePrefix.toNat / 2 ^ (32 - a.prefixLength.toNat)

theorem SameRoute.addRoute_eq {a b : Route} (h : SameRoute a b)
    (hpos : 1 ≤ a.prefixLength.toNat) (hle : a.prefixLength.toNat ≤ 32)
    (r : Router) :
    r.addRoute full a.routePrefix a.prefixLength a.nextHop a.interfaceNum =
      r.addRoute full b.routePrefix b.prefixLength b.nextHop
        b.interfaceNum := by
  rw [← h.prefixLength, ← h.nextHop, ← h.interfaceNum, addRoute, addRoute,
    clearLow_eq_mask full hpos hle, clearLow_eq_mask full hpos hle,
    (mask_eq_mask_iff hle).mpr h.routePrefix]

/-- Routes whose length is not 0 can be added, and their host bits do not
matter. -/
theorem addRoutes_of_sameRoute {routes routes' : List Route}
    (hsame : List.Forall₂ SameRoute routes routes')
    (hlen : ∀ route ∈ routes, route.prefixLength.toNat ≤ 32)
    (hpos : ∀ route ∈ routes, 1 ≤ route.prefixLength.toNat) (r : Router) :
    ∃ r', r.addRoutes full routes = some r' ∧
      r.addRoutes full routes' = some r' := by
  induction hsame generalizing r with
  | nil => exact ⟨r, rfl, rfl⟩
  | @cons a b routes routes' hfirst _ ih =>
      have ha := List.forall_mem_cons.mp hlen
      have hb := List.forall_mem_cons.mp hpos
      have hadd : ∃ r', r.addRoute full a.routePrefix a.prefixLength a.nextHop
          a.interfaceNum = some r' := by
        rw [addRoute, clearLow_eq_mask full hb.1 ha.1]
        exact ⟨_, rfl⟩
      obtain ⟨next, hnext⟩ := hadd
      obtain ⟨r', hroutes, hroutes'⟩ := ih ha.2 hb.2 next
      refine ⟨r', ?_, ?_⟩
      · rw [addRoutes, List.foldlM_cons, hnext]
        exact hroutes
      · rw [addRoutes, List.foldlM_cons, ← hfirst.addRoute_eq hb.1 ha.1, hnext]
        exact hroutes'

/-- Where nothing is taken for granted about a shift by 32 bits, no route of
length 0 can be added. -/
theorem pos_of_addRoutes {r r' : Router} {routes : List Route}
    (h : r.addRoutes (fun _ => none) routes = some r') :
    ∀ route ∈ routes, 1 ≤ route.prefixLength.toNat := by
  induction routes generalizing r with
  | nil =>
      intro route hmem
      cases hmem
  | cons first routes ih =>
      rw [addRoutes, List.foldlM_cons, Option.bind_eq_bind,
        Option.bind_eq_some_iff] at h
      obtain ⟨next, hfirst, hrest⟩ := h
      refine List.forall_mem_cons.mpr ⟨?_, ih hrest⟩
      by_contra hzero
      have hlength : (32 : ℤ) - first.prefixLength.toNat = 32 := by omega
      rw [addRoute, hlength, clearLow, if_pos rfl] at hfirst
      cases hfirst

/-- **When host bits do not matter.**  Two sequences of routes differ only in bits
of the prefixes below the prefix lengths.  Without relying on a shift by all 32
bits, both can be added and every datagram is forwarded or dropped in the same
way with both, if and only if no route has the length 0. -/
theorem host_bits_ignored_iff (r : Router) {routes routes' : List Route}
    (hlen : ∀ route ∈ routes, route.prefixLength.toNat ≤ 32)
    (hsame : List.Forall₂ SameRoute routes routes') :
    (∃ r₁ r₂, r.addRoutes (fun _ => none) routes = some r₁ ∧
        r.addRoutes (fun _ => none) routes' = some r₂ ∧
        ∀ dgram, r₁.routeMps.destination dgram =
          r₂.routeMps.destination dgram) ↔
      ∀ route ∈ routes, 1 ≤ route.prefixLength.toNat := by
  constructor
  · rintro ⟨r₁, -, hr₁, -⟩
    exact pos_of_addRoutes hr₁
  · intro hpos
    obtain ⟨r', hroutes, hroutes'⟩ := addRoutes_of_sameRoute hsame hlen hpos r
    exact ⟨r', r', hroutes, hroutes', fun _ => rfl⟩

/-- The route of length 16 in the simulator has host bits. -/
theorem host_bits_ignored_simulator :
    let r : Router := {}
    let routes : List Route := [⟨0x801e4cff, 16, some ⟨0x801e0001, 0⟩, 6⟩]
    let routes' : List Route := [⟨0x801e0000, 16, some ⟨0x801e0001, 0⟩, 6⟩]
    ∃ r₁ r₂, r.addRoutes (fun _ => none) routes = some r₁ ∧
      r.addRoutes (fun _ => none) routes' = some r₂ ∧
      ∀ dgram, r₁.routeMps.destination dgram =
        r₂.routeMps.destination dgram := by
  intro r routes routes'
  refine (host_bits_ignored_iff r (by decide) ?_).mpr (by decide)
  exact .cons ⟨rfl, rfl, rfl, by decide⟩ .nil

/-- A default route cannot be added without a shift by 32 bits.  If that shift
leaves the prefix as it is, then a default route with a bit set in its prefix is
never found. -/
theorem host_bits_default_route :
    let r : Router := {}
    let zero : Route := ⟨0, 0, some ⟨7, 0⟩, 0⟩
    let one : Route := ⟨1, 0, some ⟨7, 0⟩, 0⟩
    let dgram : IPv4Datagram := { header := { ttl := 64, dst := 5 } }
    SameRoute zero one ∧
      (r.addRoutes (fun _ => none) [zero]).isNone ∧
      ((r.addRoutes some [zero]).map fun r =>
          r.routeMps.destination dgram) = some (some (⟨7, 0⟩, 0)) ∧
      ((r.addRoutes some [one]).map fun r =>
          r.routeMps.destination dgram) = some none := by
  intro r zero one dgram
  exact ⟨⟨rfl, rfl, rfl, by decide⟩, by decide, by decide +kernel,
    by decide +kernel⟩

end Router

end Sponge
