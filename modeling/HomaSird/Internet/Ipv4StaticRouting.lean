import Mathlib.Data.List.MinMax
import Mathlib.Data.Prod.Lex
import HomaSird.Internet.Ipv4EndPointDemux

/-! # Static routing

`Ipv4StaticRouting::LookupStatic` goes once through the table and keeps the longest mask, among
these the least metric, and among these the last. It stops at the first host route that it takes.
-/

namespace HomaSird.Internet

open List

structure Ipv4RoutingTableEntry where
  dest : Ipv4Address
  destNetworkMask : Ipv4Mask
  gateway : Ipv4Address
  interface : Nat
deriving DecidableEq

structure Ipv4Route where
  destination : Ipv4Address
  source : Ipv4Address
  gateway : Ipv4Address
  outputDevice : Option NetDevice
deriving DecidableEq

/-- What the routing asks of the node's `Ipv4`. -/
structure Ipv4Node where
  getNetDevice : Nat → Option NetDevice
  sourceAddressSelection : Nat → Ipv4Address → Ipv4Address
  /-- the first address of the interface of a device -/
  deviceAddress : NetDevice → Ipv4Address

namespace Ipv4StaticRouting

abbrev NetworkRoute := Ipv4RoutingTableEntry × BitVec 32

def lookupRoute (networkRoutes : List NetworkRoute) (route : Ipv4RoutingTableEntry)
    (metric : BitVec 32) : Bool :=
  networkRoutes.any fun j =>
    j.1.dest == route.dest && j.1.destNetworkMask == route.destNetworkMask &&
      j.1.gateway == route.gateway && j.1.interface == route.interface && j.2 == metric

def addRoute (networkRoutes : List NetworkRoute) (route : Ipv4RoutingTableEntry)
    (metric : BitVec 32) : List NetworkRoute :=
  if lookupRoute networkRoutes route metric then networkRoutes
  else networkRoutes ++ [(route, metric)]

/-- `AddNetworkRouteTo`; a route without a next hop has the zero address for one. -/
def addNetworkRouteTo (networkRoutes : List NetworkRoute) (network : Ipv4Address)
    (networkMask : Ipv4Mask) (nextHop : Option Ipv4Address) (interface : Nat)
    (metric : BitVec 32) : List NetworkRoute :=
  addRoute networkRoutes ⟨network, networkMask, nextHop.getD 0, interface⟩ metric

def addHostRouteTo (networkRoutes : List NetworkRoute) (dest : Ipv4Address)
    (nextHop : Option Ipv4Address) (interface : Nat) (metric : BitVec 32) : List NetworkRoute :=
  addNetworkRouteTo networkRoutes dest Ipv4Mask.getOnes nextHop interface metric

def setDefaultRoute (networkRoutes : List NetworkRoute) (nextHop : Ipv4Address) (interface : Nat)
    (metric : BitVec 32) : List NetworkRoute :=
  addNetworkRouteTo networkRoutes 0 Ipv4Mask.getZero (some nextHop) interface metric

inductive RouteCall where
  | addNetworkRouteTo (network : Ipv4Address) (networkMask : Ipv4Mask)
      (nextHop : Option Ipv4Address) (interface : Nat) (metric : BitVec 32)
  | addHostRouteTo (dest : Ipv4Address) (nextHop : Option Ipv4Address) (interface : Nat)
      (metric : BitVec 32)
  | setDefaultRoute (nextHop : Ipv4Address) (interface : Nat) (metric : BitVec 32)
deriving DecidableEq

def call (networkRoutes : List NetworkRoute) : RouteCall → List NetworkRoute
  | .addNetworkRouteTo network networkMask nextHop interface metric =>
    addNetworkRouteTo networkRoutes network networkMask nextHop interface metric
  | .addHostRouteTo dest nextHop interface metric =>
    addHostRouteTo networkRoutes dest nextHop interface metric
  | .setDefaultRoute nextHop interface metric =>
    setDefaultRoute networkRoutes nextHop interface metric

def table (calls : List RouteCall) : List NetworkRoute := calls.foldl call []

/-! ## Lookup -/

def routeOf (ipv4 : Ipv4Node) (route : Ipv4RoutingTableEntry) : Ipv4Route where
  destination := route.dest
  source := ipv4.sourceAddressSelection route.interface route.dest
  gateway := route.gateway
  outputDevice := ipv4.getNetDevice route.interface

/-- The variables of the loop of `LookupStatic`. -/
structure RouteScan where
  rtentry : Option Ipv4Route := none
  longestMask : Nat := 0
  shortestMetric : BitVec 32 := 0xffffffff

def lookupLoop (ipv4 : Ipv4Node) (dest : Ipv4Address) (oif : Option NetDevice) :
    List NetworkRoute → RouteScan → Option Ipv4Route
  | [], scan => scan.rtentry
  | (j, metric) :: rest, scan =>
    let masklen := Ipv4Mask.getPrefixLength j.destNetworkMask
    if Ipv4Mask.isMatch j.destNetworkMask dest j.dest then
      if oif ≠ none ∧ oif ≠ ipv4.getNetDevice j.interface then
        lookupLoop ipv4 dest oif rest scan
      else if masklen < scan.longestMask then lookupLoop ipv4 dest oif rest scan
      else
        let scan := if masklen > scan.longestMask then
          { scan with shortestMetric := 0xffffffff } else scan
        let scan := { scan with longestMask := masklen }
        if metric > scan.shortestMetric then lookupLoop ipv4 dest oif rest scan
        else
          let scan := { scan with shortestMetric := metric, rtentry := some (routeOf ipv4 j) }
          if masklen = 32 then scan.rtentry else lookupLoop ipv4 dest oif rest scan
    else lookupLoop ipv4 dest oif rest scan

inductive LookupFault where
  /-- the assertion that a link-local multicast address comes with a device -/
  | noOutputDevice
deriving DecidableEq

def lookupStatic (ipv4 : Ipv4Node) (networkRoutes : List NetworkRoute) (dest : Ipv4Address)
    (oif : Option NetDevice) : Except LookupFault (Option Ipv4Route) :=
  if dest.isLocalMulticast then
    match oif with
    | none => .error .noOutputDevice
    | some device => .ok (some ⟨dest, ipv4.deviceAddress device, 0, some device⟩)
  else .ok (lookupLoop ipv4 dest oif networkRoutes {})

/-! ## The best route -/

def maskLength (route : NetworkRoute) : Nat := Ipv4Mask.getPrefixLength route.1.destNetworkMask

def fits (ipv4 : Ipv4Node) (dest : Ipv4Address) (oif : Option NetDevice) (route : NetworkRoute) :
    Bool :=
  Ipv4Mask.isMatch route.1.destNetworkMask dest route.1.dest &&
    decide (oif = none ∨ oif = ipv4.getNetDevice route.1.interface)

def candidates (ipv4 : Ipv4Node) (networkRoutes : List NetworkRoute) (dest : Ipv4Address)
    (oif : Option NetDevice) : List NetworkRoute :=
  networkRoutes.filter (fits ipv4 dest oif)

/-- No candidate has a longer prefix, and none with as long a prefix a lesser metric. -/
structure Best (candidates : List NetworkRoute) (route : NetworkRoute) : Prop where
  mem : route ∈ candidates
  longest : ∀ other ∈ candidates, maskLength other ≤ maskLength route
  least : ∀ other ∈ candidates, maskLength other = maskLength route → route.2 ≤ other.2

def Takes (ipv4 : Ipv4Node) (rtentry : Ipv4Route) (route : NetworkRoute) : Prop :=
  rtentry.gateway = route.1.gateway ∧ rtentry.outputDevice = ipv4.getNetDevice route.1.interface

def Routes (ipv4 : Ipv4Node) (candidates : List NetworkRoute) : Option Ipv4Route → Prop
  | none => candidates = []
  | some rtentry => ∃ route, Best candidates route ∧ Takes ipv4 rtentry route

def FirstHostLeast (ipv4 : Ipv4Node) (candidates : List NetworkRoute) : Prop :=
  ∀ first, candidates.find? (fun route => maskLength route == 32) = some first →
    ∃ route ∈ candidates, maskLength route = 32 ∧
      (∀ other ∈ candidates, maskLength other = 32 → route.2 ≤ other.2) ∧
      first.1.gateway = route.1.gateway ∧
      ipv4.getNetDevice first.1.interface = ipv4.getNetDevice route.1.interface

def rank (route : NetworkRoute) : ℕᵒᵈ ×ₗ ℕ :=
  toLex (OrderDual.toDual (maskLength route), route.2.toNat)

variable {ipv4 : Ipv4Node} {dest : Ipv4Address} {oif : Option NetDevice}
  {routes seen rest : List NetworkRoute} {route other kept : NetworkRoute} {scan : RouteScan}

theorem rank_le_iff :
    rank route ≤ rank other ↔
      maskLength other < maskLength route ∨
        maskLength route = maskLength other ∧ route.2 ≤ other.2 := by
  rw [rank, rank, Prod.Lex.toLex_le_toLex, BitVec.le_def]
  exact Iff.rfl

theorem maskLength_le (route : NetworkRoute) : maskLength route ≤ 32 := by
  rw [maskLength, Ipv4Mask.getPrefixLength]
  cases hfind : (range 33).find? fun tmp =>
      decide (route.1.destNetworkMask <<< tmp = 0) with
  | none => exact le_refl 32
  | some tmp => exact Nat.le_of_lt_succ (mem_range.mp (mem_of_find?_eq_some hfind))

theorem best_of_argmin (hkept : (routes.reverse).argmin rank = some kept) : Best routes kept := by
  have hle : ∀ other ∈ routes, rank kept ≤ rank other := fun other hother =>
    le_of_mem_argmin (mem_reverse.mpr hother) hkept
  refine ⟨mem_reverse.mp (argmin_mem hkept), fun other hother => ?_,
    fun other hother hlen => ?_⟩
  · exact (rank_le_iff.mp (hle other hother)).elim le_of_lt fun hboth => hboth.1.ge
  · exact (rank_le_iff.mp (hle other hother)).elim (fun hlt => absurd hlen hlt.ne) And.right

/-! ## What the loop finds -/

def Keeps (ipv4 : Ipv4Node) (scan : RouteScan) : Option NetworkRoute → Prop
  | none => scan = {}
  | some kept => scan = ⟨some (routeOf ipv4 kept.1), maskLength kept, kept.2⟩ ∧
      maskLength kept ≠ 32

theorem lookupLoop_misfit (hfits : fits ipv4 dest oif route = false) :
    lookupLoop ipv4 dest oif (route :: rest) scan = lookupLoop ipv4 dest oif rest scan := by
  rw [lookupLoop]
  by_cases hmatch : Ipv4Mask.isMatch route.1.destNetworkMask dest route.1.dest = true
  · have hdevice : oif ≠ none ∧ oif ≠ ipv4.getNetDevice route.1.interface := by
      simpa [fits, hmatch] using hfits
    simp [hmatch, hdevice]
  · simp [hmatch]

theorem lookupLoop_fit (hfits : fits ipv4 dest oif route = true) :
    lookupLoop ipv4 dest oif (route :: rest) scan =
      if maskLength route < scan.longestMask then lookupLoop ipv4 dest oif rest scan
      else if (if scan.longestMask < maskLength route then 0xffffffff else scan.shortestMetric) <
              route.2 then
          lookupLoop ipv4 dest oif rest ⟨scan.rtentry, maskLength route,
              if scan.longestMask < maskLength route then 0xffffffff else scan.shortestMetric⟩
        else if maskLength route = 32 then
            some (routeOf ipv4 route.1)
          else lookupLoop ipv4 dest oif rest
              ⟨some (routeOf ipv4 route.1), maskLength route, route.2⟩ := by
  obtain ⟨hmatch, hdevice⟩ := Bool.and_eq_true_iff.mp hfits
  have hkeep : ¬ (oif ≠ none ∧ oif ≠ ipv4.getNetDevice route.1.interface) := by
    rw [not_and_or, not_not, not_not]
    exact of_decide_eq_true hdevice
  rw [lookupLoop, if_pos hmatch, if_neg hkeep]
  simp only [maskLength, gt_iff_lt]
  by_cases hlonger : scan.longestMask < Ipv4Mask.getPrefixLength route.1.destNetworkMask
  · simp only [hlonger, if_true]
    rfl
  · simp only [hlonger, if_false]
    rfl

theorem lookupLoop_skip (hfits : fits ipv4 dest oif route = true)
    (hkeeps : Keeps ipv4 scan (some kept)) (hlt : rank kept < rank route) :
    lookupLoop ipv4 dest oif (route :: rest) scan = lookupLoop ipv4 dest oif rest scan := by
  rw [lookupLoop_fit hfits]
  obtain ⟨rfl, -⟩ := hkeeps
  have hnot := mt rank_le_iff.mpr (not_le.mpr hlt)
  rw [not_or, not_lt, not_and] at hnot
  rcases hnot.1.lt_or_eq with hshorter | hequal
  · rw [if_pos hshorter]
  · have hmetric : kept.2 < route.2 := BitVec.not_le.mp (hnot.2 hequal)
    simp [hequal, hmetric]

theorem lookupLoop_take (hfits : fits ipv4 dest oif route = true) {best : Option NetworkRoute}
    (hkeeps : Keeps ipv4 scan best) (hle : ∀ kept ∈ best, rank route ≤ rank kept) :
    lookupLoop ipv4 dest oif (route :: rest) scan =
      if maskLength route = 32 then some (routeOf ipv4 route.1)
      else lookupLoop ipv4 dest oif rest
          ⟨some (routeOf ipv4 route.1), maskLength route, route.2⟩ := by
  have hmost : ¬ 0xffffffff#32 < route.2 := by
    rw [BitVec.lt_def]
    exact not_lt.mpr (Nat.le_of_lt_succ route.2.isLt)
  rw [lookupLoop_fit hfits]
  cases best with
  | none =>
    obtain rfl : scan = {} := hkeeps
    simp [hmost]
  | some kept =>
    obtain ⟨rfl, -⟩ := hkeeps
    rcases rank_le_iff.mp (hle kept rfl) with hlonger | ⟨hequal, hmetric⟩
    · simp [hlonger, hlonger.le.not_gt, hmost]
    · simp [hequal, BitVec.not_lt.mpr hmetric]

theorem maskLength_ne_of_worse {kept : NetworkRoute} (hkeeps : Keeps ipv4 scan (some kept))
    (hlt : rank kept < rank route) : maskLength route ≠ 32 := by
  intro hhost
  rcases rank_le_iff.mp hlt.le with hlonger | ⟨hequal, -⟩
  · exact absurd (maskLength_le kept) (not_le.mpr (hhost ▸ hlonger))
  · exact hkeeps.2 (hequal.trans hhost)

theorem lookupLoop_eq (hkeeps : Keeps ipv4 scan (seen.reverse.argmin rank)) :
    lookupLoop ipv4 dest oif rest scan =
      (((candidates ipv4 rest dest oif).find? fun route => maskLength route == 32).or
        ((seen ++ candidates ipv4 rest dest oif).reverse.argmin rank)).map fun route => routeOf ipv4
        route.1 := by
  induction rest generalizing seen scan with
  | nil =>
    rw [lookupLoop]
    cases hbest : seen.reverse.argmin rank with
    | none =>
      rw [hbest] at hkeeps
      obtain rfl : scan = {} := hkeeps
      simp [candidates, hbest]
    | some kept =>
      rw [hbest] at hkeeps
      obtain ⟨rfl, -⟩ := hkeeps
      simp [candidates, hbest]
  | cons route rest ih =>
    rw [candidates, filter_cons]
    by_cases hfits : fits ipv4 dest oif route = true
    case neg =>
      rw [lookupLoop_misfit (eq_false_of_ne_true hfits), if_neg hfits]
      exact ih hkeeps
    rw [if_pos hfits, find?_cons]
    have hnext := @ih (seen ++ [route])
    rw [reverse_append, reverse_singleton, singleton_append,
      argmin_cons, append_assoc, singleton_append] at hnext
    by_cases hskip : ∃ kept, seen.reverse.argmin rank = some kept ∧ rank kept < rank route
    · obtain ⟨kept, hbest, hlt⟩ := hskip
      rw [hbest] at hkeeps hnext
      simp only [hlt, if_true] at hnext
      rw [lookupLoop_skip hfits hkeeps hlt,
        beq_eq_false_iff_ne.mpr (maskLength_ne_of_worse hkeeps hlt)]
      exact hnext hkeeps
    · have hle : ∀ kept ∈ seen.reverse.argmin rank, rank route ≤ rank kept :=
        fun kept hbest => not_lt.mp fun hlt => hskip ⟨kept, hbest, hlt⟩
      rw [lookupLoop_take hfits hkeeps hle]
      split
      next hhost =>
        rw [beq_iff_eq.mpr hhost]
        rfl
      next hnet =>
        rw [beq_eq_false_iff_ne.mpr hnet]
        refine hnext ?_
        cases hbest : seen.reverse.argmin rank with
        | none => exact ⟨rfl, hnet⟩
        | some kept =>
          simp only [if_neg (not_lt.mpr (hle kept hbest))]
          exact ⟨rfl, hnet⟩

theorem lookupLoop_table (ipv4 : Ipv4Node) (networkRoutes : List NetworkRoute) (dest : Ipv4Address)
    (oif : Option NetDevice) :
    lookupLoop ipv4 dest oif networkRoutes {} =
      (((candidates ipv4 networkRoutes dest oif).find? fun route => maskLength route == 32).or
        ((candidates ipv4 networkRoutes dest oif).reverse.argmin rank)).map fun route => routeOf
        ipv4 route.1 :=
  lookupLoop_eq (show Keeps ipv4 {} ([].reverse.argmin rank) from rfl)

theorem best_host_iff (hhost : ∃ first ∈ routes, maskLength first = 32) :
    Best routes route ↔ route ∈ routes ∧
    maskLength route = 32 ∧ ∀ other ∈ routes, maskLength other = 32 → route.2 ≤ other.2 := by
  obtain ⟨first, hfst, hlen⟩ := hhost
  constructor
  · intro hbest
    have hroute : maskLength route = 32 :=
      (maskLength_le route).antisymm (hlen ▸ hbest.longest first hfst)
    exact ⟨hbest.mem, hroute, fun other hother hequal =>
      hbest.least other hother (hequal.trans hroute.symm)⟩
  · rintro ⟨hmem, hroute, hleast⟩
    exact ⟨hmem, fun other _ => hroute ▸ maskLength_le other, fun other hother hequal =>
      hleast other hother (hequal.trans hroute)⟩

/-- The lookup is by longest prefix and then least metric if the first host route that fits goes
the way of one with the least metric; otherwise it returns that first one. -/
theorem lookupStatic_routes_iff (ipv4 : Ipv4Node) (calls : List RouteCall) (dest : Ipv4Address)
    (oif : Option NetDevice) (hdest : dest.isLocalMulticast = false) :
    (∃ result,
      lookupStatic ipv4 (table calls) dest oif = .ok result ∧
        Routes ipv4 (candidates ipv4 (table calls) dest oif) result) ↔
      FirstHostLeast ipv4 (candidates ipv4 (table calls) dest oif) := by
  have hlook : lookupStatic ipv4 (table calls) dest oif =
      .ok (lookupLoop ipv4 dest oif (table calls) {}) := by
    unfold lookupStatic
    rw [hdest]
    rfl
  rw [hlook, lookupLoop_table, FirstHostLeast]
  generalize candidates ipv4 (table calls) dest oif = routes
  simp only [Except.ok.injEq, exists_eq_left']
  cases hfind : routes.find? fun route => maskLength route == 32 with
  | none =>
    refine iff_of_true ?_ fun first hfst => absurd hfst (Option.some_ne_none first).symm
    rw [Option.none_or]
    cases hkept : routes.reverse.argmin rank with
    | none => exact List.reverse_eq_nil_iff.mp (List.argmin_eq_none.mp hkept)
    | some kept => exact ⟨kept, best_of_argmin hkept, rfl, rfl⟩
  | some first =>
    have hlen := List.find?_some hfind
    have hhost : ∃ host ∈ routes, maskLength host = 32 :=
      ⟨first, List.mem_of_find?_eq_some hfind, beq_iff_eq.mp hlen⟩
    simp only [Option.some_or, Option.map_some, Routes, best_host_iff hhost, Takes, routeOf,
      Option.some.injEq, forall_eq', and_assoc]

def plainNode : Ipv4Node := ⟨some, fun _ _ => 0x0a000001, fun _ => 0x0a000001⟩

/-- Of two routes to one host the one that was added first has the least metric. -/
theorem lookupStatic_routes_twoRoutes :
    let calls : List RouteCall :=
      [.setDefaultRoute 0x0a0000fe 3 0, .addHostRouteTo 0x0a020001 none 2 1,
        .addHostRouteTo 0x0a020001 none 1 7]
    ∃ result, lookupStatic plainNode (table calls) 0x0a020001 none = .ok result ∧
      Routes plainNode (candidates plainNode (table calls) 0x0a020001 none) result := by
  intro calls
  refine (lookupStatic_routes_iff plainNode calls 0x0a020001 none (by decide)).mpr ?_
  intro first hfst
  have hfound : (candidates plainNode (table calls) 0x0a020001 none).find?
      (fun route => maskLength route == 32) = some (⟨0x0a020001, 0xffffffff, 0, 2⟩, 1) := by
    decide +kernel
  obtain rfl := Option.some.inj (hfst.symm.trans hfound)
  exact ⟨_, List.mem_of_find?_eq_some hfound, by decide +kernel, by decide +kernel, rfl, rfl⟩

/-- Two routes to one host: the one that was added first is returned, whatever the metrics. -/
theorem lookupStatic_first_host :
    ¬ ∀ ipv4 calls dest oif,
      Ipv4Address.isMulticast dest = false →
        ∃ result,
          lookupStatic ipv4 (table calls) dest oif = .ok result ∧
            Routes ipv4 (candidates ipv4 (table calls) dest oif) result := by
  intro hall
  obtain ⟨result, hlook, hroutes⟩ := hall plainNode
    [.addHostRouteTo 0x0a020001 none 1 7, .addHostRouteTo 0x0a020001 none 2 1] 0x0a020001 none
    (by decide)
  have hreturned : lookupStatic plainNode (table [.addHostRouteTo 0x0a020001 none 1 7,
      .addHostRouteTo 0x0a020001 none 2 1]) 0x0a020001 none =
        .ok (some (routeOf plainNode ⟨0x0a020001, 0xffffffff, 0, 1⟩)) := by decide +kernel
  obtain rfl := Except.ok.inj (hlook.symm.trans hreturned)
  obtain ⟨route, hbest, -, hdevice⟩ := hroutes
  have hcandidates : candidates plainNode (table [.addHostRouteTo 0x0a020001 none 1 7,
      .addHostRouteTo 0x0a020001 none 2 1]) 0x0a020001 none =
        [(⟨0x0a020001, 0xffffffff, 0, 1⟩, 7), (⟨0x0a020001, 0xffffffff, 0, 2⟩, 1)] := by
    decide +kernel
  rw [hcandidates] at hbest
  rcases List.mem_pair.mp hbest.mem with rfl | rfl
  · exact absurd (hbest.least _ (List.mem_pair.mpr (.inr rfl)) rfl) (by decide)
  · cases hdevice

end Ipv4StaticRouting

end HomaSird.Internet
