import HomaSird.Homa.Header
import HomaSird.Homa.SirdLedger

/-! # The credits of the receivers of `lab2`, replayed

`lab2` writes a line for every grant decision and for every DATA packet that arrives, at all
receivers. Below a run writes the lines next to the credits in use after each event, and the
counters that the plot rebuilds from the lines are compared with these.
-/

/-! ## The credits that the plot of `lab2` reconstructs -/

namespace HomaSird.Scripts.Lab2Plot

open List

open Homa (Ipv4Address)

/-! ## Replaying the events -/

inductive EventType where
  | grant
  | data
deriving DecidableEq

structure Event where
  timeNs : Nat
  eventType : EventType
  recvNode : Nat
  sender : Ipv4Address
deriving DecidableEq

/-- `parse_credit_events` sorts the lines by their times; the sort is stable. -/
def parseCreditEvents (lines : List Event) : List Event :=
  lines.mergeSort fun first second => first.timeNs ≤ second.timeNs

/-- The counters `outstanding` and `total_by_receiver`. -/
structure Replay where
  outstanding : UnorderedMap (Nat × Ipv4Address) Nat
  totalByReceiver : UnorderedMap Nat Nat

namespace Replay

def empty : Replay := ⟨∅, ∅⟩

def apply (replay : Replay) (event : Event) : Replay :=
  let key := (event.recvNode, event.sender)
  let outstanding := replay.outstanding.getD key 0
  let total := replay.totalByReceiver.getD event.recvNode 0
  match event.eventType with
  | .grant =>
    { outstanding := replay.outstanding.insert key (outstanding + 1)
      totalByReceiver := replay.totalByReceiver.insert event.recvNode (total + 1) }
  | .data =>
    if 0 < outstanding then
      { outstanding := replay.outstanding.insert key (outstanding - 1)
        totalByReceiver := replay.totalByReceiver.insert event.recvNode (total - 1) }
    else replay

def after (events : List Event) : Replay := events.foldl apply empty

end Replay

theorem parseCreditEvents_eq {lines : List Event}
    (hsort : lines.Pairwise fun first second => first.timeNs ≤ second.timeNs) :
    parseCreditEvents lines = lines :=
  mergeSort_of_pairwise (hsort.imp fun hle => decide_eq_true hle)

end HomaSird.Scripts.Lab2Plot

namespace HomaSird.Scripts.Lab2

open List

open Homa hiding Event
open Homa.HomaRecvScheduler Transition Transition.Machine Lab2Plot

/-! ## What a receiver traces -/

/-- The senders that `SendAppropriateGrants` grants, each with the state once its credit is
charged, as the decision is traced right before the GRANT. -/
def decisions (step : GrantRound → HomaInboundMsg → GrantRound × HomaInboundMsg) :
    GrantRound → List HomaInboundMsg → List (Ipv4Address × SirdState)
  | _, [] => []
  | round, currentMsg :: rest =>
    let next := (step round currentMsg).1
    if next.sent.length = round.sent.length then decisions step next rest
    else (currentMsg.getSrcAddress, next.sird) :: decisions step next rest

/-- The lines that one event at a receiver writes: type, sender, and the SIRD state after what they
report. `DataPktArrival` fires when the packet was received. -/
def traced (cfg : Config) (sched next : HomaRecvScheduler) :
    RecvInput → List (EventType × Ipv4Address × SirdState)
  | .packet packet =>
    if packet.hasFlag .data then [(.data, packet.ipv4Header.source, next.sird)] else []
  | .creditTick =>
    if cfg.sirdEnabled then
      (decisions (grantStep cfg sched.busySenders) (.start cfg sched.sird)
        sched.inboundMsgs).map fun decision => (.grant, decision)
    else []
  | .rtxExpire _ => []

/-! ## Runs -/

structure State where
  receivers : Nat → HomaRecvScheduler
  nowNs : Nat
  log : List (Lab2Plot.Event × (Nat → SirdState))

structure Input where
  timeNs : Nat
  recvNode : Nat
  input : RecvInput

namespace State

def sirds (state : State) (node : Nat) : SirdState := (state.receivers node).sird

def step (configs : Nat → Config) (state : State) (input : Input) : Except Fault State :=
  if input.timeNs < state.nowNs then .error .notPending
  else do
    let sched := state.receivers input.recvNode
    let result ← sched.handle (configs input.recvNode) input.input
    return {
      receivers := Function.update state.receivers input.recvNode result.1
      nowNs := input.timeNs
      log := state.log ++ (traced (configs input.recvNode) sched result.1 input.input).map
        fun line => (⟨input.timeNs, line.1, input.recvNode, line.2.1⟩,
          Function.update state.sirds input.recvNode line.2.2) }

def requestsAgain (state : State) (input : Input) : Bool :=
  match input.input with
  | .packet packet =>
    packet.hasFlag .data && packet.payload.isEmpty &&
      decide (0 < (state.sirds input.recvNode).creditsInUse packet.ipv4Header.source)
  | _ => false

end State

def machine (configs : Nat → Config) : Machine State Input Fault where
  init := ⟨fun _ => .initial, 0, []⟩
  step := State.step configs

/-- No credit request of a run comes from a sender with credits in use. -/
def requestsOnce (configs : Nat → Config) : List Input → State → Bool
  | [], _ => true
  | input :: rest, state =>
    !state.requestsAgain input &&
      match state.step configs input with
      | .ok next => requestsOnce configs rest next
      | .error _ => true

/-! ## Counters that agree -/

structure Agrees (replay : Replay) (sirds : Nat → SirdState) : Prop where
  outstanding_eq : ∀ node sender,
    replay.outstanding.getD (node, sender) 0 = (sirds node).creditsInUse sender
  total_eq : ∀ node,
    replay.totalByReceiver.getD node 0 = (sirds node).globalCreditsInUsePkts

/-- After each line of a run the plot's counters agree with what the receivers had in use then. -/
def ReplayAgrees (state : State) : Prop :=
  ∀ front entry back, state.log = front ++ entry :: back →
    Agrees (.after ((parseCreditEvents (state.log.map Prod.fst)).take (front.length + 1))) entry.2

def Tracks : Replay → List (Lab2Plot.Event × (Nat → SirdState)) → Prop
  | _, [] => True
  | replay, entry :: rest =>
    Agrees (replay.apply entry.1) entry.2 ∧ Tracks (replay.apply entry.1) rest

section Agreement

variable {replay : Replay} {sirds : Nat → SirdState} {sird : SirdState} {node timeNs : Nat}
  {sender : Ipv4Address} {first second log : List (Lab2Plot.Event × (Nat → SirdState))}

theorem tracks_append :
    Tracks replay (first ++ second) ↔
      Tracks replay first ∧ Tracks ((first.map Prod.fst).foldl Replay.apply replay) second := by
  induction first generalizing replay with
  | nil => exact (and_iff_right trivial).symm
  | cons entry rest ih =>
    rw [cons_append, Tracks, Tracks, ih, and_assoc]
    rfl

theorem tracks_iff :
    Tracks replay log ↔
      ∀ front entry back,
        log = front ++ entry :: back →
          Agrees (((log.map Prod.fst).take (front.length + 1)).foldl Replay.apply replay)
            entry.2 := by
  induction log generalizing replay with
  | nil => exact iff_of_true trivial fun front entry back hlog => by simp at hlog
  | cons entry rest ih =>
    rw [Tracks, ih]
    constructor
    · rintro ⟨hent, hrest⟩ front other back hlog
      cases front with
      | nil =>
        obtain ⟨rfl, -⟩ := cons.inj hlog
        exact hent
      | cons before others =>
        obtain ⟨rfl, hothers⟩ := cons.inj hlog
        exact hrest others other back hothers
    · intro hall
      exact ⟨hall [] entry rest rfl, fun front other back hlog =>
        hall (entry :: front) other back (by rw [hlog]; rfl)⟩

section

variable (hagrees : Agrees replay sirds)
include hagrees

theorem Agrees.insert {credits total : Nat}
    (hcred : ∀ other,
      sird.creditsInUse other = if other = sender then credits else (sirds node).creditsInUse other)
    (htotal : sird.globalCreditsInUsePkts = total) :
    Agrees
      ⟨replay.outstanding.insert (node, sender) credits, replay.totalByReceiver.insert node total⟩
      (Function.update sirds node sird) := by
  refine ⟨fun other key => ?_, fun other => ?_⟩
  · rw [UnorderedMap.getD_insert, hagrees.outstanding_eq]
    by_cases hnode : other = node
    · subst hnode
      rw [Function.update_self, hcred]
      simp
    · rw [Function.update_of_ne hnode, if_neg fun heq => hnode (congrArg Prod.fst heq)]
  · rw [UnorderedMap.getD_insert, hagrees.total_eq]
    by_cases hnode : other = node
    · subst hnode
      rw [Function.update_self, if_pos rfl, htotal]
    · rw [Function.update_of_ne hnode, if_neg hnode]

theorem Agrees.congr (hcred : ∀ other, sird.creditsInUse other = (sirds node).creditsInUse other)
    (htotal : sird.globalCreditsInUsePkts = (sirds node).globalCreditsInUsePkts) :
    Agrees replay (Function.update sirds node sird) := by
  refine ⟨fun other key => ?_, fun other => ?_⟩
  · rw [hagrees.outstanding_eq]
    by_cases hnode : other = node
    · subst hnode
      rw [Function.update_self, hcred]
    · rw [Function.update_of_ne hnode]
  · rw [hagrees.total_eq]
    by_cases hnode : other = node
    · subst hnode
      rw [Function.update_self, htotal]
    · rw [Function.update_of_ne hnode]

theorem Agrees.sameCredits (hsame : SirdState.SameCredits (sirds node) sird) :
    Agrees replay (Function.update sirds node sird) :=
  hagrees.congr (Receiver.SameCredits.creditsInUse_eq hsame) hsame.global_eq

theorem Agrees.grant :
    Agrees (replay.apply ⟨timeNs, .grant, node, sender⟩)
      (Function.update sirds node (((sirds node).openAccount sender).charge sender)) := by
  refine hagrees.insert (fun other => ?_) ?_
  · rw [SirdState.creditsInUse_charge, SirdState.creditsInUse_openAccount,
      SirdState.creditsInUse_openAccount, hagrees.outstanding_eq]
  · rw [hagrees.total_eq]
    rfl

theorem Agrees.data (hsame : SirdState.SameCredits ((sirds node).reclaim sender) sird) :
    Agrees (replay.apply ⟨timeNs, .data, node, sender⟩) (Function.update sirds node sird) := by
  have hheld := hagrees.outstanding_eq node sender
  have htotal := hagrees.total_eq node
  rw [Replay.apply]
  dsimp only
  split
  next hpos =>
    rw [hheld] at hpos
    refine hagrees.insert (fun other => ?_) ?_
    · rw [Receiver.SameCredits.creditsInUse_eq hsame, SirdState.creditsInUse_reclaim, hheld]
    · rw [hsame.global_eq, SirdState.reclaim, if_pos hpos, htotal]
      dsimp only
      split <;> omega
  next hzero =>
    rw [hheld] at hzero
    refine hagrees.sameCredits ?_
    rwa [SirdState.reclaim, if_neg hzero] at hsame

theorem Agrees.not_request (hsame : SirdState.SameCredits (sirds node) sird)
    (hpos : 0 < (sirds node).creditsInUse sender) :
    ¬ Agrees (replay.apply ⟨timeNs, .data, node, sender⟩) (Function.update sirds node sird) := by
  intro hafter
  have hheld := hagrees.outstanding_eq node sender
  have hlater := hafter.outstanding_eq node sender
  rw [Function.update_self, Receiver.SameCredits.creditsInUse_eq hsame, Replay.apply] at hlater
  dsimp only at hlater
  rw [hheld, if_pos hpos, UnorderedMap.getD_insert_self] at hlater
  omega

end

end Agreement

/-! ## Steps -/

section Steps

variable {configs : Nat → Config} {cfg : Config} {replay : Replay} {sirds : Nat → SirdState}
  {node timeNs : Nat} {busySenders : Finset Ipv4Address} {round : GrantRound}
  {state next final : State} {input : Input} {inputs : List Input}

theorem tracks_decisions (hsird : cfg.sirdEnabled = true) (msgs : List HomaInboundMsg)
    (hagrees : Agrees replay (Function.update sirds node round.sird)) :
    let lines := (decisions (grantStep cfg busySenders) round msgs).map fun decision =>
      ((⟨timeNs, .grant, node, decision.1⟩ : Lab2Plot.Event),
        Function.update sirds node decision.2)
    Tracks replay lines ∧ Agrees ((lines.map Prod.fst).foldl Replay.apply replay)
      (Function.update sirds node
        (GrantRound.loop (grantStep cfg busySenders) round msgs).1.sird) := by
  induction msgs generalizing round replay with
  | nil => exact ⟨trivial, hagrees⟩
  | cons currentMsg rest ih =>
    have hvisit := GrantRound.grantStep_visit cfg busySenders round currentMsg
    rw [GrantRound.loop, decisions]
    generalize grantStep cfg busySenders round currentMsg = result at hvisit ⊢
    obtain ⟨after, msg⟩ := result
    dsimp only at hvisit ⊢
    cases hvisit with
    | pass =>
      rw [if_pos (by simp)]
      exact ih (by simpa using hagrees)
    | hold _ _ _ =>
      rw [if_pos (by simp)]
      refine ih ?_
      have hopened := @Agrees.congr _ _ (round.sird.openAccount currentMsg.getSrcAddress) node
        hagrees (fun other => by rw [Function.update_self]; simp)
        (by rw [Function.update_self]; rfl)
      rwa [Function.update_idem] at hopened
    | homaGrant hplain _ _ =>
      rw [hsird] at hplain
      cases hplain
    | sirdGrant _ _ _ _ _ =>
      rw [if_neg (by simp [GrantRound.issue])]
      have hcharge := @Agrees.grant _ _ node timeNs currentMsg.getSrcAddress hagrees
      rw [Function.update_idem, Function.update_self] at hcharge
      refine ⟨⟨hcharge, ?_⟩, ?_⟩
      · exact And.left (ih hcharge)
      · exact And.right (ih hcharge)

theorem expireRtxTimeout_sird {sched after : HomaRecvScheduler} {events : List Homa.Event}
    {timer : Nat} (hexpire : sched.expireRtxTimeout cfg timer = .ok (after, events)) :
    after.sird = sched.sird := by
  unfold expireRtxTimeout at hexpire
  split at hexpire
  · cases hexpire
  · split at hexpire
    · cases hexpire
    · dsimp only at hexpire
      split at hexpire
      · obtain ⟨rfl, -⟩ := Prod.mk.inj (Except.ok.inj hexpire)
        rfl
      · split at hexpire
        · obtain ⟨rfl, -⟩ := Prod.mk.inj (Except.ok.inj hexpire)
          rfl
        · split at hexpire <;> obtain ⟨rfl, -⟩ := Prod.mk.inj (Except.ok.inj hexpire) <;> rfl

theorem step_tracks (hsird : ∀ node, (configs node).sirdEnabled = true)
    (hagrees : Agrees replay state.sirds) (hstep : state.step configs input = .ok next) :
    ∃ lines, next.log = state.log ++ lines ∧ (state.requestsAgain input = false →
    Tracks replay lines ∧ Agrees ((lines.map Prod.fst).foldl Replay.apply replay) next.sirds) ∧
    (state.requestsAgain input = true → ¬ Tracks replay lines) := by
  obtain ⟨timeNs, node, event⟩ := input
  rw [State.step] at hstep
  split at hstep
  · cases hstep
  · obtain ⟨⟨sched, events⟩, hhandle, hnext⟩ := bind_eq_ok.mp hstep
    cases hnext
    dsimp only at hhandle ⊢
    have hsirds : State.sirds ⟨Function.update state.receivers node sched, timeNs,
        state.log ++ (traced (configs node) (state.receivers node) sched event).map
          fun line => (⟨timeNs, line.1, node, line.2.1⟩,
            Function.update state.sirds node line.2.2)⟩ =
        Function.update state.sirds node sched.sird := by
      funext other
      by_cases hnode : other = node
      · subst hnode
        simp [State.sirds]
      · simp [State.sirds, Function.update_of_ne hnode]
    refine ⟨_, rfl, ?_⟩
    rw [hsirds]
    cases event with
    | packet packet =>
      have hrecv := (handle_packet hhandle).2
      cases hdata : packet.hasFlag .data with
      | false =>
        obtain ⟨-, -, hsame, -⟩ := receivePacket_not_data hdata hrecv
        simp only [State.requestsAgain, traced, hdata, Bool.false_and, Bool.false_eq_true,
          if_false, map_nil, foldl_nil]
        exact ⟨fun _ => ⟨trivial, hagrees.sameCredits ⟨by rw [hsame]; rfl, by rw [hsame]; rfl⟩⟩,
          by simp⟩
      | true =>
        obtain ⟨inboundMsg, others, hgot⟩ := receivePacket_data hdata hrecv
        have hsame := SirdState.sameCredits_receiveData (configs node) (state.sirds node) packet
        have hfed := hgot.sird_eq
        rw [fedSird, if_pos (hsird node)] at hfed
        rw [State.sirds, ← hfed] at hsame
        simp only [State.requestsAgain, traced, hdata, Bool.true_and, if_true, map_cons,
          map_nil, foldl_cons, foldl_nil, Tracks, and_true, and_self]
        by_cases hempty : packet.payload = []
        · rw [if_pos hempty] at hsame
          by_cases hpos : 0 < (state.sirds node).creditsInUse packet.ipv4Header.source
          · simp only [hempty, hpos, isEmpty_nil, decide_true, Bool.and_self,
              Bool.true_eq_false, false_implies, true_implies, true_and]
            exact hagrees.not_request hsame hpos
          · simp only [hpos, decide_false, Bool.and_false, Bool.false_eq_true, false_implies,
              true_implies, and_true]
            refine hagrees.data ?_
            rwa [SirdState.reclaim, if_neg hpos]
        · rw [if_neg hempty] at hsame
          simp only [isEmpty_eq_false_iff.mpr hempty, Bool.false_and, Bool.false_eq_true,
            false_implies, true_implies, and_true]
          exact hagrees.data hsame
    | creditTick =>
      obtain ⟨-, rfl, -⟩ := handle_creditTick hhandle
      rw [traced, if_pos (hsird node), map_map]
      refine ⟨fun _ => ?_, by rintro ⟨⟩⟩
      have hstart : Agrees replay (Function.update state.sirds node
          (GrantRound.start (configs node) (state.receivers node).sird).sird) :=
        hagrees.sameCredits ⟨rfl, rfl⟩
      exact tracks_decisions (hsird node) (state.receivers node).inboundMsgs hstart
    | rtxExpire timer =>
      have hsame := expireRtxTimeout_sird hhandle
      simp only [State.requestsAgain, traced, map_nil, foldl_nil]
      exact ⟨fun _ => ⟨trivial, hagrees.sameCredits ⟨by rw [hsame]; rfl, by rw [hsame]; rfl⟩⟩,
        by simp⟩

/-! ## The replay of a whole run -/

theorem run_log (hrun : (machine configs).run inputs state = .ok final) :
    state.log <+: final.log := by
  induction inputs generalizing state with
  | nil =>
    obtain rfl : state = final := by simpa [Machine.run] using hrun
    exact prefix_rfl
  | cons input rest ih =>
    obtain ⟨next, hstep, hrest⟩ := run_cons_ok.mp hrun
    refine List.IsPrefix.trans ?_ (ih hrest)
    change state.step configs input = .ok next at hstep
    rw [State.step] at hstep
    split at hstep
    · cases hstep
    · obtain ⟨result, -, hnext⟩ := bind_eq_ok.mp hstep
      rw [← Except.ok.inj hnext]
      exact prefix_append _ _

theorem run_tracks (hsird : ∀ node, (configs node).sirdEnabled = true)
    (hagrees : Agrees (.after (state.log.map Prod.fst)) state.sirds)
    (htracks : Tracks .empty state.log) (hrun : (machine configs).run inputs state = .ok final) :
    Tracks .empty final.log ↔ requestsOnce configs inputs state = true := by
  induction inputs generalizing state with
  | nil =>
    obtain rfl : state = final := by simpa [Machine.run] using hrun
    exact iff_of_true htracks rfl
  | cons input rest ih =>
    obtain ⟨next, hstep, hrest⟩ := run_cons_ok.mp hrun
    change state.step configs input = .ok next at hstep
    obtain ⟨lines, hlog, hset, hagain⟩ := step_tracks hsird hagrees hstep
    have hlater : Tracks .empty next.log ↔ Tracks (.after (state.log.map Prod.fst)) lines := by
      rw [hlog, tracks_append]
      exact and_iff_right htracks
    rw [requestsOnce, hstep]
    dsimp only
    cases hreq : state.requestsAgain input with
    | false =>
      obtain ⟨hlines, hnext⟩ := hset hreq
      rw [Bool.not_false, Bool.true_and]
      refine ih ?_ (hlater.mpr hlines) hrest
      rw [hlog, map_append, Replay.after, foldl_append]
      exact hnext
    | true =>
      refine iff_of_false (fun hfinal => hagain hreq (hlater.mp ?_)) Bool.false_ne_true
      obtain ⟨behind, hbehind⟩ := run_log hrest
      rw [← hbehind, tracks_append] at hfinal
      exact hfinal.1

theorem log_sorted (hst : (machine configs).Reachable state) :
    (state.log.map Prod.fst).Pairwise (fun first second => first.timeNs ≤ second.timeNs) := by
  have hkeep : (state.log.map Prod.fst).Pairwise
        (fun first second => first.timeNs ≤ second.timeNs) ∧
      ∀ entry ∈ state.log, entry.1.timeNs ≤ state.nowNs := by
    refine @ReachableUnder.invariant _ _ _ _ _ (fun state =>
      (state.log.map Prod.fst).Pairwise (fun first second => first.timeNs ≤ second.timeNs) ∧
        ∀ entry ∈ state.log, entry.1.timeNs ≤ state.nowNs) ⟨.nil, nofun⟩ ?_ _ hst
    rintro before input after ⟨hsort, hpast⟩ - hstep
    change before.step configs input = .ok after at hstep
    rw [State.step] at hstep
    split at hstep
    · cases hstep
    next hnow =>
      obtain ⟨result, -, hnext⟩ := bind_eq_ok.mp hstep
      rw [← Except.ok.inj hnext]
      dsimp only
      have hlater : ∀ entry ∈ before.log, entry.1.timeNs ≤ input.timeNs := fun entry hent =>
        (hpast entry hent).trans (Nat.le_of_not_lt hnow)
      constructor
      · rw [map_append, pairwise_append, map_map]
        refine ⟨hsort, ?_, ?_⟩
        · rw [pairwise_map]
          exact pairwise_of_forall fun _ _ => le_rfl
        · intro first hfst second hsnd
          obtain ⟨entry, hent, rfl⟩ := mem_map.mp hfst
          obtain ⟨line, -, rfl⟩ := mem_map.mp hsnd
          exact hlater entry hent
      · rw [forall_mem_append]
        refine ⟨hlater, fun entry hent => ?_⟩
        obtain ⟨line, -, rfl⟩ := mem_map.mp hent
        exact le_rfl
  exact hkeep.1

theorem agrees_initial : Agrees .empty (machine configs).init.sirds :=
  ⟨fun _ _ => rfl, fun _ => rfl⟩

theorem replayAgrees_iff_tracks (hst : (machine configs).Reachable state) :
    ReplayAgrees state ↔ Tracks .empty state.log := by
  rw [ReplayAgrees, parseCreditEvents_eq (log_sorted hst), tracks_iff]
  rfl

/-- The credits of the plot are those of the receivers, after every event, exactly when no credit
request comes from a sender with credits in use. -/
theorem offline_credits_agree_iff (configs : Nat → Config)
    (hsird : ∀ node, (configs node).sirdEnabled = true) {inputs : List Input} {state : State}
    (hrun : (machine configs).run inputs (machine configs).init = .ok state) :
    ReplayAgrees state ↔ requestsOnce configs inputs (machine configs).init = true := by
  have hst : (machine configs).Reachable state :=
    ReachableUnder.run .init (fun _ _ _ => trivial) hrun
  rw [replayAgrees_iff_tracks hst]
  exact run_tracks hsird agrees_initial trivial hrun

theorem offline_credits_agree_granted :
    let configs : Nat → Config := fun _ => Config.oneByteSird
    let inputs : List Input := [⟨0, 2, .packet (samplePacket 3 0 [])⟩, ⟨1, 2, .creditTick⟩,
      ⟨5, 2, .packet (samplePacket 3 0 [7])⟩]
    ∃ state, (machine configs).run inputs (machine configs).init = .ok state ∧
      state.log.map (fun entry => (entry.1.eventType, (entry.2 2).creditsInUse 1)) =
        [(.data, 0), (.grant, 1), (.data, 0)] ∧ ReplayAgrees state := by
  intro configs inputs
  have hran : ((machine configs).run inputs (machine configs).init).toOption.map
      (fun state => state.log.map fun entry => (entry.1.eventType, (entry.2 2).creditsInUse 1)) =
        some [(.data, 0), (.grant, 1), (.data, 0)] := by decide +kernel
  have honce : requestsOnce configs inputs (machine configs).init = true := by decide +kernel
  cases hrun : (machine configs).run inputs (machine configs).init with
  | error fault =>
    rw [hrun] at hran
    cases hran
  | ok state =>
    rw [hrun] at hran
    exact ⟨state, rfl, Option.some.inj hran,
      (offline_credits_agree_iff configs (fun _ => rfl) hrun).mpr honce⟩

/-- While a credit of one message is in use, credit is requested for another: the plot takes the
request for the payload. -/
theorem offline_credits_lose_request :
    let configs : Nat → Config := fun _ => Config.oneByteSird
    let request := samplePacket 3 0 []
    let other : Packet := { request with homaHeader := { request.homaHeader with txMsgId := 1 } }
    let inputs : List Input := [⟨0, 2, .packet request⟩, ⟨1, 2, .creditTick⟩,
      ⟨2, 2, .packet other⟩]
    ∃ state, (machine configs).run inputs (machine configs).init = .ok state ∧
      (state.sirds 2).creditsInUse 1 = 1 ∧
      (Replay.after (state.log.map Prod.fst)).outstanding.getD (2, 1) 0 = 0 ∧
      ¬ ReplayAgrees state := by
  intro configs request other inputs
  have hran : ((machine configs).run inputs (machine configs).init).toOption.map
      (fun state => ((state.sirds 2).creditsInUse 1,
        (Replay.after (state.log.map Prod.fst)).outstanding.getD (2, 1) 0)) = some (1, 0) := by
    decide +kernel
  have htwice : requestsOnce configs inputs (machine configs).init = false := by decide +kernel
  cases hrun : (machine configs).run inputs (machine configs).init with
  | error fault =>
    rw [hrun] at hran
    cases hran
  | ok state =>
    rw [hrun] at hran
    obtain ⟨hledger, hreplayed⟩ := Prod.mk.inj (Option.some.inj hran)
    refine ⟨state, rfl, hledger, hreplayed, fun hreplay => ?_⟩
    have hst : (machine configs).Reachable state :=
      ReachableUnder.run .init (fun _ _ _ => trivial) hrun
    have htracks : Tracks .empty state.log ↔
        requestsOnce configs inputs (machine configs).init = true :=
      run_tracks (fun _ => rfl) agrees_initial trivial hrun
    rw [replayAgrees_iff_tracks hst, htracks, htwice] at hreplay
    cases hreplay

end Steps

end HomaSird.Scripts.Lab2
