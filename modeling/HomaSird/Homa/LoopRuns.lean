import HomaSird.Homa.SirdLoops

/-! # What holds of the control loops along every run

The loops stay within their bounds, the loops of a sender depend on its own DATA
packets only, and an epoch without marks adds one packet to a budget whatever
step is configured.
-/

namespace HomaSird.Homa.Receiver

open Transition Transition.Machine Control HomaRecvScheduler SirdState

variable {cfg : Config} {receiver next : Receiver}

theorem sameLoops_step (hsird : cfg.sirdEnabled = true) {input : RecvInput}
    (hstep : (machine cfg).step receiver input = .ok next) :
    SameLoops cfg ((dataOf input).elim receiver.sched.sird (receiver.sched.sird.receiveData cfg))
      next.sched.sird := by
  obtain ⟨events, hhandle, -⟩ := step_eq_ok hstep
  exact sird_handle hsird hhandle

/-! ## Bounds -/

theorem loopsBounded_of_reachable (cfg : SirdConfig)
    (hsird : cfg.sirdEnabled = true) (hreach : (machine cfg.toConfig).Reachable receiver) :
    receiver.sched.sird.LoopsBounded cfg.toConfig := by
  apply hreach.invariant
  · exact loopsBounded_initial cfg
  · intro state input next hbd _ hstep
    apply (sameLoops_step hsird hstep).bounded
    cases dataOf input with
    | none => exact hbd
    | some packet => exact loopsBounded_receiveData cfg hbd packet

variable {packet : Packet}

theorem loopOf_data (hsird : cfg.sirdEnabled = true) (hdata : packet.hasFlag .data = true)
    (hstep : (machine cfg).step receiver (.packet packet) = .ok next) (signal : Signal)
    (sender : Ipv4Address) :
    next.sched.sird.loopOf cfg signal sender = if sender = packet.ipv4Header.source then
        Aimd.observe cfg.loopParams (receiver.sched.sird.loopOf cfg signal sender)
          (packet.marked signal)
      else receiver.sched.sird.loopOf cfg signal sender := by
  have hsame := (sameLoops_step hsird hstep).loops signal sender
  rw [dataOf, if_pos hdata] at hsame
  rw [hsame]
  exact loopOf_receiveData cfg _ packet signal sender

/-- The budgets of every sender lie between one and a BDP, its alphas and the global CE ratio
between zero and one, and its mark counters are at most its packet counter, which is below a BDP.
DATA moves its sender's budgets at the end of an epoch only: not down without marks, and with some
at most to the half, but not below one, and not up. -/
theorem loops_bounded (cfg : SirdConfig) (hsird : cfg.sirdEnabled = true)
    (hreachable : (machine cfg.toConfig).Reachable receiver) :
    receiver.sched.sird.LoopsBounded cfg.toConfig ∧
      ∀ packet next,
        packet.hasFlag .data = true →
          (machine cfg.toConfig).step receiver (.packet packet) = .ok next →
          ∀ signal, Aimd.Moves cfg.loopParams
              (receiver.sched.sird.loopOf cfg.toConfig signal packet.ipv4Header.source)
              (next.sched.sird.loopOf cfg.toConfig signal packet.ipv4Header.source)
              (packet.marked signal) := by
  have hbounded := loopsBounded_of_reachable cfg hsird hreachable
  refine ⟨hbounded, ?_⟩
  intro packet next hdata hstep signal
  rw [loopOf_data hsird hdata hstep, if_pos rfl]
  exact Aimd.moves_observe cfg.loopParams_valid zero_le_one
    (hbounded.loops signal packet.ipv4Header.source) _

def halfSteps : SirdConfig :=
  { Config.oneByteSird with
    rttPackets := 2
    rttPackets_lt := by decide
    sirdEcnAlphaGain := 1
    sirdEcnAiStep := 1 / 2
    sirdSenderAiStep := 1 / 2
    alphaGain_nonneg := by decide
    alphaGain_le_one := by decide
    ecnAiStep_nonneg := by norm_num
    senderAiStep_nonneg := by norm_num }

def oneOfFour (source : Ipv4Address) (pktOffset : Nat) (ecn : EcnType) : Packet :=
  { samplePacket 4 pktOffset [7] with ipv4Header := { source, destination := 2, ecn } }

def markedEpoch : List RecvInput :=
  [.packet (oneOfFour 1 0 .ce), .packet (oneOfFour 1 1 .ce), .packet (oneOfFour 1 2 .ect0)]

theorem loops_bounded_halfSteps :
    let receiver := (machine halfSteps.toConfig).after (fun _ _ => true) markedEpoch
      (machine halfSteps.toConfig).init
    receiver.sched.sird.LoopsBounded halfSteps.toConfig ∧
      (receiver.sched.sird.loopOf halfSteps.toConfig .ce 1).budget = 1 := by
  intro receiver
  have hreachable : (machine halfSteps.toConfig).Reachable receiver :=
    ReachableUnder.after (fun _ _ _ => trivial) _ .init
  exact ⟨(loops_bounded halfSteps rfl hreachable).1, by decide +kernel⟩

/-! ## Noninterference -/

def isDataOf (sender : Ipv4Address) (input : RecvInput) : Bool :=
  (dataOf input).any fun packet => decide (packet.ipv4Header.source = sender)

def ownData (sender : Ipv4Address) (inputs : List RecvInput) : List Packet :=
  (inputs.filter (isDataOf sender)).filterMap dataOf

/-- What an input shows a sender's loop: the mark of a packet of its own. -/
def shownTo (signal : Signal) (sender : Ipv4Address) (input : RecvInput) : Option Bool :=
  if isDataOf sender input then (dataOf input).map (·.marked signal) else none

theorem loopOf_step (hsird : cfg.sirdEnabled = true) (signal : Signal) (sender : Ipv4Address)
    {input : RecvInput} (hstep : (machine cfg).step receiver input = .ok next) :
    next.sched.sird.loopOf cfg signal sender =
      (shownTo signal sender input).elim (receiver.sched.sird.loopOf cfg signal sender)
        (Aimd.observe cfg.loopParams (receiver.sched.sird.loopOf cfg signal sender)) := by
  rw [(sameLoops_step hsird hstep).loops signal sender]
  cases hdata : dataOf input with
  | none => simp [shownTo, hdata]
  | some packet =>
    rw [Option.elim_some, loopOf_receiveData]
    by_cases hsender : sender = packet.ipv4Header.source
    · simp [shownTo, isDataOf, hdata, hsender]
    · simp [shownTo, isDataOf, hdata, hsender, Ne.symm hsender]

theorem filterMap_shownTo (signal : Signal) (sender : Ipv4Address) (inputs : List RecvInput) :
    inputs.filterMap (shownTo signal sender) = (ownData sender inputs).map (·.marked signal) := by
  induction inputs with
  | nil => rfl
  | cons input rest ih =>
    by_cases hown : isDataOf sender input = true
    · cases hdata : dataOf input with
      | none => simp [isDataOf, hdata] at hown
      | some packet => simpa [ownData, shownTo, hown, hdata] using ih
    · simpa [ownData, shownTo, hown] using ih

theorem loopOf_run (hsird : cfg.sirdEnabled = true) {inputs : List RecvInput}
    {first final : Receiver} (hrun : (machine cfg).run inputs first = .ok final) (signal : Signal)
    (sender : Ipv4Address) :
    final.sched.sird.loopOf cfg signal sender =
      ((ownData sender inputs).map (·.marked signal)).foldl (Aimd.observe cfg.loopParams)
        (first.sched.sird.loopOf cfg signal sender) := by
  rw [← filterMap_shownTo]
  exact run_project (fun receiver => receiver.sched.sird.loopOf cfg signal sender)
    (shownTo signal sender) (Aimd.observe cfg.loopParams)
    (fun _ _ _ hstep => loopOf_step hsird signal sender hstep) hrun

theorem source_of_mem_ownData {sender : Ipv4Address} {inputs : List RecvInput}
    (hmem : packet ∈ ownData sender inputs) : packet.ipv4Header.source = sender := by
  obtain ⟨input, hinp, hdata⟩ := List.mem_filterMap.mp hmem
  simpa [isDataOf, hdata] using (List.mem_filter.mp hinp).2

theorem loopOf_foldl_receiveData {sender : Ipv4Address} {packets : List Packet}
    (hsource : ∀ packet ∈ packets, packet.ipv4Header.source = sender) (sird : SirdState)
    (signal : Signal) :
    (packets.foldl (SirdState.receiveData cfg) sird).loopOf cfg signal sender = (packets.map
        (·.marked signal)).foldl (Aimd.observe cfg.loopParams) (sird.loopOf cfg signal sender) := by
  induction packets generalizing sird with
  | nil => rfl
  | cons packet rest ih =>
    have hhead := hsource packet List.mem_cons_self
    have hrest := ih (fun other hother => hsource other (.tail _ hother))
      (sird.receiveData cfg packet)
    rw [List.foldl_cons, hrest, loopOf_receiveData, if_pos hhead.symm]
    rfl

theorem ownData_filter (sender : Ipv4Address) (inputs : List RecvInput) :
    ownData sender (inputs.filter (isDataOf sender)) = ownData sender inputs := by
  rw [ownData, List.filter_filter, ownData]
  simp only [Bool.and_self]

/-- The loops of a sender are those of the loop code on its own DATA packets alone. -/
theorem loops_noninterference (hsird : cfg.sirdEnabled = true) {inputs : List RecvInput}
    {final : Receiver} (hrun : (machine cfg).run inputs (machine cfg).init = .ok final)
    (signal : Signal) (sender : Ipv4Address) :
    final.sched.sird.loopOf cfg signal sender = ((ownData sender inputs).foldl
        (SirdState.receiveData cfg) SirdState.initial).loopOf cfg signal sender ∧
      ∀ alone,
        (machine cfg).run (inputs.filter (isDataOf sender)) (machine cfg).init = .ok alone →
          final.sched.sird.loopOf cfg signal sender =
            alone.sched.sird.loopOf cfg signal sender := by
  have hfinal := loopOf_run hsird hrun signal sender
  refine ⟨?_, ?_⟩
  · rw [hfinal, loopOf_foldl_receiveData fun _ => source_of_mem_ownData]
    rfl
  · intro alone halone
    rw [hfinal, loopOf_run hsird halone signal sender, ownData_filter]

def interleaved : List RecvInput :=
  [.packet (oneOfFour 1 0 .ce), .packet (oneOfFour 3 0 .ect0), .creditTick,
    .packet (oneOfFour 3 1 .ect0), .packet (oneOfFour 1 1 .ce)]

theorem loops_noninterference_interleaved :
    ∃ final alone,
      (machine halfSteps.toConfig).run interleaved (machine halfSteps.toConfig).init = .ok final ∧
        (machine halfSteps.toConfig).run [.packet (oneOfFour 1 0 .ce), .packet (oneOfFour 1 1 .ce)]
          (machine halfSteps.toConfig).init = .ok alone ∧
        (final.sched.sird.loopOf halfSteps.toConfig .ce 1).budget = 1 ∧
        final.sched.sird.loopOf halfSteps.toConfig .ce 1 =
          alone.sched.sird.loopOf halfSteps.toConfig .ce 1 := by
  have hrun : (machine halfSteps.toConfig).run interleaved
    (machine halfSteps.toConfig).init = .ok _ := rfl
  have halone : (machine halfSteps.toConfig).run
    [.packet (oneOfFour 1 0 .ce), .packet (oneOfFour 1 1 .ce)]
    (machine halfSteps.toConfig).init = .ok _ := rfl
  refine ⟨_, _, hrun, halone, by decide +kernel, ?_⟩
  exact (loops_noninterference rfl hrun .ce 1).2 _ halone

/-! ## The configured steps -/

structure EndsUnmarked (cfg : Config) (sird : SirdState) (signal : Signal) (packet : Packet) :
    Prop where
  ends : Aimd.Ends cfg.loopParams (sird.loopOf cfg signal packet.ipv4Header.source)
  unmarked : (sird.loopOf cfg signal packet.ipv4Header.source).marks = 0
  notMarked : packet.marked signal = false

theorem budget_of_endsUnmarked (hsird : cfg.sirdEnabled = true) {signal : Signal}
    (hdata : packet.hasFlag .data = true)
    (hends : EndsUnmarked cfg receiver.sched.sird signal packet)
    (hstep : (machine cfg).step receiver (.packet packet) = .ok next) :
    (next.sched.sird.loopOf cfg signal packet.ipv4Header.source).budget = Aimd.clamp cfg.loopParams
        ((receiver.sched.sird.loopOf cfg signal packet.ipv4Header.source).budget + 1) := by
  rw [loopOf_data hsird hdata hstep, if_pos rfl, Aimd.observe_of_ends hends.ends]
  apply Aimd.budget_endEpoch_unmarked
  simp [Aimd.count, hends.unmarked, hends.notMarked]

/-- An epoch without marks adds the configured step exactly when that is one packet or both one
packet and the step reach the ceiling. -/
theorem aiStep_honoured_iff (cfg : SirdConfig) (hsird : cfg.sirdEnabled = true)
    (hreachable : (machine cfg.toConfig).Reachable receiver) {packet : Packet}
    {signal : Signal} (hdata : packet.hasFlag .data = true)
    (hends : EndsUnmarked cfg.toConfig receiver.sched.sird signal packet)
    (hstep : (machine cfg.toConfig).step receiver (.packet packet) = .ok next) :
    let before := receiver.sched.sird.loopOf cfg.toConfig signal packet.ipv4Header.source
    let after := next.sched.sird.loopOf cfg.toConfig signal packet.ipv4Header.source
    after.budget = Aimd.clamp cfg.loopParams (before.budget + cfg.aiStep signal) ↔
      cfg.aiStep signal = 1 ∨
        cfg.baseBudgetPkts ≤ before.budget + min 1 (cfg.aiStep signal) := by
  intro before after
  have hwithin := (loopsBounded_of_reachable cfg hsird hreachable).loops signal
    packet.ipv4Header.source
  have hafter : after.budget = Aimd.clamp cfg.loopParams (before.budget + 1) :=
    budget_of_endsUnmarked hsird hdata hends hstep
  rw [hafter, Aimd.clamp_add_eq_iff hwithin.one_le_budget hwithin.budget_le zero_le_one
    (cfg.aiStep_nonneg signal), eq_comm (a := (1 : ℚ))]
  rfl

/-- With a budget cut to one and steps of half a packet, a whole packet is added. -/
theorem aiStep_ignored :
    let receiver := (machine halfSteps.toConfig).after (fun _ _ => true) markedEpoch
      (machine halfSteps.toConfig).init
    ∃ next, (machine halfSteps.toConfig).Reachable receiver ∧
      EndsUnmarked halfSteps.toConfig receiver.sched.sird .ce (oneOfFour 1 3 .ect0) ∧
      (machine halfSteps.toConfig).step receiver (.packet (oneOfFour 1 3 .ect0)) = .ok next ∧
      (receiver.sched.sird.loopOf halfSteps.toConfig .ce 1).budget = 1 ∧
      (next.sched.sird.loopOf halfSteps.toConfig .ce 1).budget = 2 ∧
      Aimd.clamp halfSteps.loopParams (1 + halfSteps.sirdEcnAiStep) = 3 / 2 := by
  intro receiver
  have hreachable : (machine halfSteps.toConfig).Reachable receiver :=
    ReachableUnder.after (fun _ _ _ => trivial) _ .init
  refine ⟨_, hreachable, ⟨?_, ?_, ?_⟩, rfl, ?_, ?_, ?_⟩
  · have hitems : (receiver.sched.sird.loopOf halfSteps.toConfig .ce 1).items = 1 := by
      decide +kernel
    exact (congrArg (2 ≤ · + 1) hitems).mpr le_rfl
  · decide +kernel
  · rfl
  · decide +kernel
  · decide +kernel
  · decide +kernel

theorem aiStep_honoured_iff_first :
    let receiver := (machine halfSteps.toConfig).after (fun _ _ => true)
      [.packet (oneOfFour 1 0 .ect0)] (machine halfSteps.toConfig).init
    ∃ next,
      (machine halfSteps.toConfig).step receiver (.packet (oneOfFour 1 1 .ect0)) = .ok next ∧
      (next.sched.sird.loopOf halfSteps.toConfig .ce 1).budget =
        Aimd.clamp halfSteps.loopParams
          ((receiver.sched.sird.loopOf halfSteps.toConfig .ce 1).budget + 1 / 2) := by
  intro receiver
  have hreachable : (machine halfSteps.toConfig).Reachable receiver :=
    ReachableUnder.after (fun _ _ _ => trivial) _ .init
  have hends : EndsUnmarked halfSteps.toConfig receiver.sched.sird .ce (oneOfFour 1 1 .ect0) :=
    ⟨(by decide +kernel : 2 ≤ (receiver.sched.sird.loopOf halfSteps.toConfig .ce 1).items + 1),
      by decide +kernel, rfl⟩
  refine ⟨_, rfl, ?_⟩
  refine (aiStep_honoured_iff halfSteps rfl hreachable rfl hends rfl).mpr (Or.inr ?_)
  decide +kernel

end HomaSird.Homa.Receiver
