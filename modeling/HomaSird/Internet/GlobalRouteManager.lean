import HomaSird.Internet.Ipv4Header

/-! # Next hops over a transit network

The next hops of a router on a network next to the root are read from those link records of the
router that point back to the network. `SPFGetNextLink` is the iterator over them: it is given the
record that it returned last, and looks only whether there was one.
-/

namespace HomaSird.Internet.GlobalRouteManager

structure GlobalRoutingLinkRecord where
  linkId : Ipv4Address
  linkData : Ipv4Address
deriving DecidableEq

structure LinkPointer where
  index : Nat
  record : GlobalRoutingLinkRecord
deriving DecidableEq

abbrev NodeExit := Ipv4Address × BitVec 32

/-- A router; `linkRecords` are those of its LSA. -/
structure SPFVertex where
  vertexId : Ipv4Address
  linkRecords : List GlobalRoutingLinkRecord
  ecmpRootExits : List NodeExit := []
  nextHop : Ipv4Address := 0
  rootOif : BitVec 32 := -1
deriving DecidableEq

structure TransitNetwork where
  vertexId : Ipv4Address
  rootExitDirection : NodeExit
deriving DecidableEq

namespace SPFVertex

def setRootExitDirection (vertex : SPFVertex) (nextHop : Ipv4Address) (id : BitVec 32) :
    SPFVertex :=
  { vertex with ecmpRootExits := [(nextHop, id)], nextHop := nextHop, rootOif := id }

end SPFVertex

/-- The loop of `SPFGetNextLink` over the records from `i` on. -/
def nextLinkLoop (vertexId : Ipv4Address) :
    List GlobalRoutingLinkRecord → Nat → Bool → Bool → Option LinkPointer
  | [], _, _, _ => none
  | l :: rest, i, skip, foundPrevLink =>
    if l.linkId = vertexId then
      if !foundPrevLink then nextLinkLoop vertexId rest (i + 1) skip true
      else if skip = false then some ⟨i, l⟩
      else nextLinkLoop vertexId rest (i + 1) false foundPrevLink
    else nextLinkLoop vertexId rest (i + 1) skip foundPrevLink

/-- `SPFGetNextLink`, which asks of `prevLink` only whether it is null. -/
def spfGetNextLink (v : SPFVertex) (w : TransitNetwork) (prevLink : Option LinkPointer) :
    Option LinkPointer :=
  match prevLink with
  | none => nextLinkLoop w.vertexId v.linkRecords 0 false true
  | some _ => nextLinkLoop w.vertexId v.linkRecords 0 true false

/-- The loop of `SPFNexthopCalculation` for a network next to the root, and the records visited. No
result where the rounds do not suffice. -/
def nexthopLoop (v : TransitNetwork) :
    Nat → SPFVertex → Option LinkPointer → List LinkPointer → Option (SPFVertex × List LinkPointer)
  | 0, _, _, _ => none
  | rounds + 1, w, linkRemote, visited =>
    match spfGetNextLink w v linkRemote with
    | none => some (w, visited)
    | some linkRemote =>
      let nextHop := linkRemote.record.linkData
      let outIf := v.rootExitDirection.2
      nexthopLoop v rounds (w.setRootExitDirection nextHop outIf) (some linkRemote)
        (visited ++ [linkRemote])

/-! ## The records that point to a network -/

/-- The matching records from `i` on, in order. -/
def matchingFrom (vertexId : Ipv4Address) :
    List GlobalRoutingLinkRecord → Nat → List LinkPointer
  | [], _ => []
  | l :: rest, i =>
    if l.linkId = vertexId then ⟨i, l⟩ :: matchingFrom vertexId rest (i + 1)
    else matchingFrom vertexId rest (i + 1)

def matching (w : SPFVertex) (v : TransitNetwork) : List LinkPointer :=
  matchingFrom v.vertexId w.linkRecords 0

def Enumerates (w : SPFVertex) (v : TransitNetwork) : Prop :=
  ∃ rounds after, nexthopLoop v rounds w none [] = some (after, matching w v)

variable {w : SPFVertex} {v : TransitNetwork} {visited : List LinkPointer}

theorem nextLinkLoop_eq (vertexId : Ipv4Address) (records : List GlobalRoutingLinkRecord) (i : Nat)
    (skip foundPrevLink : Bool) :
    nextLinkLoop vertexId records i skip foundPrevLink =
      (matchingFrom vertexId records i)[(!foundPrevLink).toNat + skip.toNat]? := by
  induction records generalizing i skip foundPrevLink with
  | nil => rfl
  | cons l rest ih =>
    rw [nextLinkLoop, matchingFrom]
    split
    next hmatch =>
      cases foundPrevLink with
      | false => simpa [Nat.add_comm] using ih (i + 1) skip true
      | true =>
        cases skip with
        | false => rfl
        | true => simpa using ih (i + 1) false true
    · exact ih (i + 1) skip foundPrevLink

theorem spfGetNextLink_eq (w : SPFVertex) (v : TransitNetwork) (prevLink : Option LinkPointer) :
    spfGetNextLink w v prevLink = (matching w v)[if prevLink.isNone then 0 else 2]? := by
  cases prevLink <;> exact nextLinkLoop_eq ..

theorem nexthopLoop_endless (hlen : 2 < (matching w v).length)
    (link : LinkPointer) (rounds : Nat) : nexthopLoop v rounds w (some link) visited = none := by
  induction rounds generalizing w link visited with
  | zero => rfl
  | succ rounds ih =>
    have hnext : spfGetNextLink w v (some link) = some (matching w v)[2] := by
      rw [spfGetNextLink_eq]
      exact List.getElem?_eq_getElem hlen
    rw [nexthopLoop, hnext]
    exact @ih (w.setRootExitDirection _ _) _ hlen _

theorem nexthopLoop_ends (hlen : (matching w v).length ≤ 2) (link : LinkPointer)
    (rounds : Nat) : nexthopLoop v (rounds + 1) w (some link) visited = some (w, visited) := by
  have hnext : spfGetNextLink w v (some link) = none := by
    rw [spfGetNextLink_eq]
    exact List.getElem?_eq_none hlen
  rw [nexthopLoop, hnext]

theorem nexthopLoop_first {first : LinkPointer} {rest : List LinkPointer}
    (hmatch : matching w v = first :: rest) (rounds : Nat) :
    nexthopLoop v (rounds + 1) w none [] =
      nexthopLoop v rounds (w.setRootExitDirection first.record.linkData v.rootExitDirection.2)
        (some first) [first] := by
  have hnext : spfGetNextLink w v none = some first := by
    rw [spfGetNextLink_eq, hmatch]
    rfl
  rw [nexthopLoop, hnext]
  rfl

/-- The next hops are enumerated while at most one record points to the network. -/
theorem enumerates_iff (w : SPFVertex)
    (v : TransitNetwork) : Enumerates w v ↔ (matching w v).length ≤ 1 := by
  cases hmatching : matching w v with
  | nil =>
    have hnext : spfGetNextLink w v none = none := by
      rw [spfGetNextLink_eq, hmatching]
      rfl
    refine iff_of_true ⟨1, w, ?_⟩ (Nat.zero_le 1)
    rw [nexthopLoop, hnext, hmatching]
  | cons first rest =>
    constructor
    · rintro ⟨rounds, after, hends⟩
      cases rounds with
      | zero => cases hends
      | succ rounds =>
        rw [nexthopLoop_first hmatching] at hends
        rcases Nat.lt_or_ge 2 (matching w v).length with hmany | hfew
        · rw [@nexthopLoop_endless (w.setRootExitDirection _ _) v [first] hmany first] at hends
          cases hends
        · cases rounds with
          | zero => cases hends
          | succ rounds =>
            rw [@nexthopLoop_ends (w.setRootExitDirection _ _) v [first] hfew first] at hends
            have hvisited : [first] = first :: rest := by
              rw [← hmatching]
              exact (Prod.mk.inj (Option.some.inj hends)).2
            rw [← hvisited]
            exact Nat.le_refl 1
    · intro hlen
      have hrest : rest = [] := List.eq_nil_of_length_eq_zero (by simpa using hlen)
      subst hrest
      refine ⟨2, w.setRootExitDirection first.record.linkData v.rootExitDirection.2, ?_⟩
      have hfew : (matching w v).length ≤ 2 := by simp [hmatching]
      rw [nexthopLoop_first hmatching, hmatching]
      exact @nexthopLoop_ends (w.setRootExitDirection _ _) v [first] hfew first 0

/-- Of two interfaces on the network the second is not visited; with three the loop does not end.
-/
theorem not_enumerates_parallel :
    ¬ Enumerates ⟨1, [⟨9, 21⟩, ⟨9, 22⟩], [], 0, -1⟩ ⟨9, (0, 1)⟩ ∧
      ∀ rounds, nexthopLoop ⟨9, (0, 1)⟩ rounds ⟨1, [⟨9, 21⟩, ⟨9, 22⟩, ⟨9, 23⟩], [], 0, -1⟩ none [] =
          none := by
  constructor
  · rintro ⟨rounds, after, hends⟩
    match rounds with
    | 0 | 1 => cases hends
    | rounds + 2 => cases hends
  · intro rounds
    cases rounds with
    | zero => rfl
    | succ rounds =>
      rw [nexthopLoop_first rfl]
      exact nexthopLoop_endless (by decide) _ rounds

end HomaSird.Internet.GlobalRouteManager
