import HomaSird.Data.ArrivalOrder
import HomaSird.Homa.InboundOrder

/-! # The order of SRR scheduling

`UseSrrScheduling` promises the order in which the pending messages arrived. A DATA packet moves
its message to the end of the list, so the promise is kept as long as such packets belong to the
last one.
-/

namespace HomaSird.Homa

open Transition Transition.Machine List

/-- A receiver, and the keys of its pending messages as their first packets arrived. -/
structure SrrReceiver where
  receiver : Receiver
  arrivals : List MsgKey

namespace SrrReceiver

open HomaRecvScheduler

def pendingKeys (sched : HomaRecvScheduler) : List MsgKey :=
  sched.inboundMsgs.map HomaInboundMsg.key

def step (cfg : Config) (state : SrrReceiver) (input : RecvInput) :
    Except Fault SrrReceiver := do
  let next ← state.receiver.step cfg input
  .ok ⟨next, arrivalOrder state.arrivals (pendingKeys next.sched)⟩

def machine (cfg : Config) : Machine SrrReceiver RecvInput Fault where
  init := ⟨(Receiver.machine cfg).init, []⟩
  step := step cfg

def InFifoOrder (state : SrrReceiver) : Prop :=
  pendingKeys state.receiver.sched = state.arrivals

/-- DATA of a pending message completes it or belongs to the last one of the list. -/
def KeepsPlace (cfg : Config) (sched : HomaRecvScheduler) : RecvInput → Prop
  | .packet packet => packet.hasFlag .data = true →
      ∀ inboundMsg msgIdx, sched.takeData cfg packet = .ok (inboundMsg, some msgIdx) →
        inboundMsg.isFullyReceived = true ∨ msgIdx + 1 = sched.inboundMsgs.length
  | .creditTick => True
  | .rtxExpire _ => True

variable {cfg : Config} {state next : SrrReceiver} {sched after : HomaRecvScheduler}
  {events : List Event} {input : RecvInput}

theorem step_eq_ok (hstep : (machine cfg).step state input = .ok next) :
    (Receiver.machine cfg).step state.receiver input = .ok next.receiver ∧
    next.arrivals = arrivalOrder state.arrivals (pendingKeys next.receiver.sched) := by
  obtain ⟨receiver, hnext, hok⟩ := bind_eq_ok.mp hstep
  cases hok
  exact ⟨hnext, rfl⟩

theorem reachable_receiver {allowed : SrrReceiver → RecvInput → Prop}
    (hreach : (machine cfg).ReachableUnder allowed state) :
    (Receiver.machine cfg).Reachable state.receiver :=
  hreach.observed SrrReceiver.receiver rfl fun _ _ _ hstep => (step_eq_ok hstep).1

/-- An event leaves the list of keys, or one leaves it, joins at the end, or moves to the end from
before it. -/
inductive KeysMove (cfg : Config) (sched : HomaRecvScheduler) (input : RecvInput)
    (keys : List MsgKey) : Prop where
  | inPlace (hkeeps : KeepsPlace cfg sched input)
      (horder : arrivalOrder (pendingKeys sched) keys = keys)
  | toEnd {index : Nat} {key : MsgKey} (hmoves : ¬ KeepsPlace cfg sched input)
      (hkey : (pendingKeys sched)[index]? = some key)
      (hplace : index + 1 ≠ (pendingKeys sched).length)
      (hkeys : keys = (pendingKeys sched).eraseIdx index ++ [key])

theorem pendingKeys_nodup (hwf : sched.WellFormed cfg) : (pendingKeys sched).Nodup := hwf.nodup

theorem KeysMove.stay (hwf : sched.WellFormed cfg) {keys : List MsgKey}
    (hkeeps : KeepsPlace cfg sched input) (hkeys : keys = pendingKeys sched) :
    KeysMove cfg sched input keys := by
  refine .inPlace hkeeps ?_
  rw [hkeys]
  exact arrivalOrder_of_sublist (List.Sublist.refl _) (pendingKeys_nodup hwf)

theorem keepsPlace_of_takeData {packet : Packet} {inboundMsg : HomaInboundMsg}
    {msgIdx : Option Nat} (htake : sched.takeData cfg packet = .ok (inboundMsg, msgIdx))
    (hplace : inboundMsg.isFullyReceived = true ∨ ∀ index, msgIdx = some index →
    index + 1 = sched.inboundMsgs.length) : KeepsPlace cfg sched (.packet packet) := by
  intro _ other index hother
  obtain ⟨rfl, rfl⟩ := Prod.mk.inj (Except.ok.inj (htake.symm.trans hother))
  exact hplace.imp_right fun hlast => hlast index rfl

theorem keysMove_data (hsrr : cfg.useSrrScheduling = true) (hwf : sched.WellFormed cfg)
    {packet : Packet} (hdata : packet.hasFlag .data = true)
    (hrecv : sched.receivePacket cfg packet = .ok (after, events)) :
    KeysMove cfg sched (.packet packet) (pendingKeys after) := by
  obtain ⟨inboundMsg, msgIdx, htake, hmsgs⟩ := inboundMsgs_of_data hdata hrecv
  by_cases hfull : inboundMsg.isFullyReceived = true
  · refine .inPlace (keepsPlace_of_takeData htake (Or.inl hfull)) ?_
    have hkeys : pendingKeys after =
        (eraseMsg sched.inboundMsgs msgIdx).map HomaInboundMsg.key := by
      rw [pendingKeys, hmsgs, if_pos hfull]
    rw [hkeys]
    exact arrivalOrder_of_sublist ((eraseMsg_sublist _ _).map _) hwf.nodup
  · rw [if_neg hfull, place, if_pos hsrr] at hmsgs
    have hkeys : pendingKeys after =
        (eraseMsg sched.inboundMsgs msgIdx).map HomaInboundMsg.key ++ [inboundMsg.key] := by
      rw [pendingKeys, hmsgs, map_append, map_singleton]
    cases msgIdx with
    | none =>
      have hnew : inboundMsg.key ∉ pendingKeys sched := fresh_of_takeData htake
      refine .inPlace (keepsPlace_of_takeData htake (Or.inr (by simp))) ?_
      rw [hkeys]
      exact arrivalOrder_concat hnew
    | some index =>
      obtain ⟨msg, hmsg, -, hsame⟩ := key_of_takeData htake
      have hkey : (pendingKeys sched)[index]? = some inboundMsg.key := by
        rw [pendingKeys, getElem?_map, hmsg, hsame, Option.map_some]
      have herase : pendingKeys after =
          (pendingKeys sched).eraseIdx index ++ [inboundMsg.key] := by
        rw [hkeys, eraseMsg, pendingKeys, eraseIdx_map]
      by_cases hlast : index + 1 = (pendingKeys sched).length
      · have hend : index + 1 = sched.inboundMsgs.length := by
          simpa [pendingKeys] using hlast
        have hstays : pendingKeys after = pendingKeys sched :=
          herase.trans ((eraseIdx_concat_eq_iff (pendingKeys_nodup hwf) hkey).mpr hlast)
        refine .stay hwf (keepsPlace_of_takeData htake (Or.inr ?_)) hstays
        intro other hother
        exact Option.some.inj hother ▸ hend
      · refine .toEnd ?_ hkey hlast herase
        intro hkeeps
        rcases hkeeps hdata inboundMsg index htake with hdone | hend
        · exact hfull hdone
        · exact hlast (by simpa [pendingKeys] using hend)

theorem keysMove_handle (hsrr : cfg.useSrrScheduling = true)
    (hwf : sched.WellFormed cfg) (hhandle : sched.handle cfg input = .ok (after, events)) :
    KeysMove cfg sched input (pendingKeys after) := by
  cases handled hwf hhandle with
  | @data packet _ _ _ hdata =>
    have hrecv := (handle_packet hhandle).2
    exact keysMove_data hsrr hwf hdata hrecv
  | control hdata hmsgs =>
    exact .stay hwf (fun hflag => absurd hflag (Bool.eq_false_iff.mp hdata))
      (congrArg (map _) hmsgs)
  | creditTick hnext =>
    subst hnext
    exact .stay hwf trivial (loop_map_eq visit_key _ _)
  | @rtxExpire timer _ hexpired =>
    cases hexpired with
    | dropped _ _ hnext =>
      subst hnext
      refine .inPlace trivial ?_
      have hkeys : pendingKeys { sched with inboundMsgs := sched.inboundMsgs.eraseIdx timer } =
          (pendingKeys sched).eraseIdx timer := (eraseIdx_map _ _ _).symm
      rw [hkeys]
      exact arrivalOrder_of_sublist (eraseIdx_sublist _ _) (pendingKeys_nodup hwf)
    | @rearmed msg _ hmsg _ _ hnext =>
      subst hnext
      have hkey : (rearmRtx msg).key = msg.key := rfl
      exact .stay hwf trivial (map_set_eq hmsg hkey)

theorem inFifoOrder_step (hsrr : cfg.useSrrScheduling = true)
    (hwf : state.receiver.sched.WellFormed cfg)
    (hfifo : state.InFifoOrder) (hstep : (machine cfg).step state input = .ok next) :
    next.InFifoOrder ↔ KeepsPlace cfg state.receiver.sched input := by
  obtain ⟨hrecv, harr⟩ := step_eq_ok hstep
  obtain ⟨events, hhandle, -⟩ := Receiver.step_eq_ok hrecv
  rw [InFifoOrder, harr, ← hfifo]
  cases keysMove_handle hsrr hwf hhandle with
  | inPlace hkeeps horder => exact ⟨fun _ => hkeeps, fun _ => horder.symm⟩
  | @toEnd index key hmoves hkey hplace hkeys =>
    have hperm : (pendingKeys next.receiver.sched).Perm (pendingKeys state.receiver.sched) := by
      obtain ⟨hlt, rfl⟩ := List.getElem?_eq_some_iff.mp hkey
      rw [hkeys]
      exact (List.perm_append_singleton _ _).trans (List.getElem_cons_eraseIdx_perm hlt)
    rw [arrivalOrder_of_perm hperm, hkeys, eraseIdx_concat_eq_iff (pendingKeys_nodup hwf) hkey]
    exact ⟨fun hlast => absurd hlast hplace, fun hkeeps => absurd hkeeps hmoves⟩

/-- As long as DATA of a message that stays pending belongs to the last one of the list, the list
is in the order of arrival; and a step from there keeps the order exactly when it is such a step.
-/
theorem fifo_iff_keepsPlace (hsrr : cfg.useSrrScheduling = true)
    (hreachable : (machine cfg).ReachableUnder
      (fun state input => KeepsPlace cfg state.receiver.sched input) state) :
    state.InFifoOrder ∧
      ∀ input next,
        (machine cfg).step state input = .ok next →
          (next.InFifoOrder ↔ KeepsPlace cfg state.receiver.sched input) := by
  have hfifo : state.InFifoOrder := by
    induction hreachable with
    | init => rfl
    | step hprior hkeeps hstep ih =>
      have hwf := Receiver.wellFormed_of_reachable (reachable_receiver hprior)
      exact (inFifoOrder_step hsrr hwf ih hstep).mpr hkeeps
  have hwf := Receiver.wellFormed_of_reachable (reachable_receiver hreachable)
  exact ⟨hfifo, fun _ _ hstep => inFifoOrder_step hsrr hwf hfifo hstep⟩

def twoArrivals : List RecvInput :=
  [.packet (samplePacket 3 0 [7]), .packet { samplePacket 3 0 [7] with
    ipv4Header := { source := 3, destination := 2, ecn := .ect0 } }]

def oneByteSrr : Config := { Config.oneByte with useSrrScheduling := true }

/-- The next packet of the first message puts it behind the second one. -/
theorem srr_overtaken :
    let state := (machine oneByteSrr).after (fun _ _ => true)
      (twoArrivals ++ [.packet (samplePacket 3 1 [7])]) (machine oneByteSrr).init
    (machine oneByteSrr).Reachable state ∧
      state.arrivals.map MsgKey.saddr = [1, 3] ∧
      (pendingKeys state.receiver.sched).map MsgKey.saddr = [3, 1] ∧
      ¬ state.InFifoOrder := by
  intro state
  refine ⟨ReachableUnder.after (fun _ _ _ => trivial) _ .init, ?_, ?_, ?_⟩
  · decide +kernel
  · decide +kernel
  · exact (by decide +kernel : ¬ pendingKeys state.receiver.sched = state.arrivals)

theorem fifo_iff_keepsPlace_fresh :
    let state := (machine oneByteSrr).after (fun _ _ => true) twoArrivals
      (machine oneByteSrr).init
    state.InFifoOrder ∧ state.arrivals.map MsgKey.saddr = [1, 3] := by
  intro state
  have hfresh : ∀ (prior : SrrReceiver) (packet : Packet),
      prior.receiver.sched.getInboundMsg packet.key = none →
      KeepsPlace oneByteSrr prior.receiver.sched (.packet packet) := by
    intro prior packet hnone _ inboundMsg msgIdx htake
    simp only [takeData, hnone] at htake
    obtain ⟨_, _, hok⟩ := bind_eq_ok.mp htake
    cases (Prod.mk.inj (Except.ok.inj hok)).2
  let check : SrrReceiver → RecvInput → Bool
    | prior, .packet packet => (prior.receiver.sched.getInboundMsg packet.key).isNone
    | _, .creditTick => true
    | _, .rtxExpire _ => true
  have hreachable : (machine oneByteSrr).ReachableUnder
      (fun prior input => KeepsPlace oneByteSrr prior.receiver.sched input)
      ((machine oneByteSrr).after check twoArrivals (machine oneByteSrr).init) := by
    refine ReachableUnder.after ?_ _ .init
    intro prior input hcheck
    cases input with
    | packet packet => exact hfresh prior packet (Option.isNone_iff_eq_none.mp hcheck)
    | creditTick => trivial
    | rtxExpire timer => trivial
  exact ⟨(fifo_iff_keepsPlace rfl hreachable).1, by decide +kernel⟩

end SrrReceiver

end HomaSird.Homa
