import HomaSird.Homa.ReceiverStep

/-! # The order of the pending messages

The receiver keeps its pending messages by remaining bytes, or with `UseSrrScheduling` in the
order of an erase and a re-insertion at the end. A DATA packet moves its message and no other.
-/

namespace HomaSird.Homa

open Transition Transition.Machine HomaInboundMsg List

namespace HomaRecvScheduler

variable {cfg : Config} {sched next : HomaRecvScheduler} {events : List Event}

/-! ## Moving one message -/

/-- Where `ScheduleMsgAtIdx` puts a message among the others. -/
def place (cfg : Config) (inboundMsg : HomaInboundMsg) (others : List HomaInboundMsg) :
    List HomaInboundMsg :=
  if cfg.useSrrScheduling then others ++ [inboundMsg] else insertByRemaining inboundMsg others

theorem sublist_insertByRemaining (inboundMsg : HomaInboundMsg)
    (msgs : List HomaInboundMsg) : msgs.Sublist (insertByRemaining inboundMsg msgs) := by
  induction msgs with
  | nil => exact nil_sublist _
  | cons msg rest ih =>
    rw [insertByRemaining]
    split
    · exact sublist_cons_self _ _
    · exact ih.cons_cons msg

theorem scheduleMsgAtIdx_moves (cfg : Config) (sched : HomaRecvScheduler)
    (inboundMsg : HomaInboundMsg) (msgIdx : Option Nat) :
    (eraseMsg sched.inboundMsgs msgIdx).Sublist
      (sched.scheduleMsgAtIdx cfg inboundMsg msgIdx).inboundMsgs ∧
      (sched.scheduleMsgAtIdx cfg inboundMsg msgIdx).inboundMsgs.Perm
        (inboundMsg :: eraseMsg sched.inboundMsgs msgIdx) := by
  refine ⟨?_, scheduleMsgAtIdx_perm inboundMsg msgIdx⟩
  simp only [scheduleMsgAtIdx]
  split
  · exact sublist_append_left _ _
  · exact sublist_insertByRemaining _ _

variable {inboundMsg : HomaInboundMsg} {packet : Packet}

theorem key_of_takeData {msgIdx : Nat}
    (htake : sched.takeData cfg packet = .ok (inboundMsg, some msgIdx)) :
    ∃ msg,
      sched.inboundMsgs[msgIdx]? = some msg ∧ msg.key = packet.key ∧ inboundMsg.key = msg.key := by
  have hkey := (takeData_eq_ok htake).key_eq
  unfold takeData at htake
  split at htake
  next found hfound =>
    split at htake
    · cases htake
    next msg hmsg =>
      obtain ⟨received, hrecv, hok⟩ := bind_eq_ok.mp htake
      obtain ⟨rfl, hidx⟩ := Prod.mk.inj (Except.ok.inj hok)
      cases hidx
      have hsame := (receiveDataPacket_frame hrecv).1
      exact ⟨msg, hmsg, hsame.symm.trans hkey, hsame⟩
  · obtain ⟨_, _, hok⟩ := bind_eq_ok.mp htake
    cases (Prod.mk.inj (Except.ok.inj hok)).2

theorem fresh_of_takeData (htake : sched.takeData cfg packet = .ok (inboundMsg, none)) :
    inboundMsg.key ∉ sched.inboundMsgs.map key := by
  rw [(takeData_eq_ok htake).key_eq]
  unfold takeData at htake
  split at htake
  · split at htake
    · cases htake
    · obtain ⟨_, _, hok⟩ := bind_eq_ok.mp htake
      cases (Prod.mk.inj (Except.ok.inj hok)).2
  next hnone =>
    intro hmem
    obtain ⟨msg, hmsg, hkey⟩ := mem_map.mp hmem
    have hnew := findIdx?_eq_none_iff.mp hnone msg hmsg
    simp [hkey] at hnew

theorem inboundMsgs_of_data (hdata : packet.hasFlag .data = true)
    (hrecv : sched.receivePacket cfg packet = .ok (next, events)) :
    ∃ inboundMsg msgIdx,
      sched.takeData cfg packet = .ok (inboundMsg, msgIdx) ∧
        next.inboundMsgs =
          if inboundMsg.isFullyReceived then eraseMsg sched.inboundMsgs msgIdx
          else place cfg inboundMsg (eraseMsg sched.inboundMsgs msgIdx) := by
  simp only [receivePacket, hdata, if_true] at hrecv
  obtain ⟨⟨received, before⟩, hdataPacket, hok⟩ := bind_eq_ok.mp hrecv
  cases hok
  -- the SIRD part of the state is no concern of the list
  rw [with_fedSird] at hdataPacket
  obtain ⟨⟨inboundMsg, msgIdx⟩, htake, hput⟩ := bind_eq_ok.mp hdataPacket
  refine ⟨inboundMsg, msgIdx, htake, ?_⟩
  have hput := Except.ok.inj hput
  by_cases hfull : inboundMsg.isFullyReceived = true
  · rw [if_pos hfull] at hput ⊢
    obtain ⟨rfl, -⟩ := Prod.mk.inj hput
    rfl
  · rw [if_neg hfull] at hput ⊢
    obtain ⟨rfl, -⟩ := Prod.mk.inj hput
    rfl

/-! ## Shortest remaining first -/

def SortedByRemaining (msgs : List HomaInboundMsg) : Prop :=
  (msgs.map HomaInboundMsg.remainingBytes).Pairwise (· ≤ ·)

theorem sortedByRemaining_insert {msgs : List HomaInboundMsg}
    (hsort : SortedByRemaining msgs) : SortedByRemaining (insertByRemaining inboundMsg msgs) := by
  induction msgs with
  | nil => exact pairwise_singleton _ _
  | cons msg rest ih =>
    obtain ⟨hhead, hrest⟩ := pairwise_cons.mp hsort
    rw [insertByRemaining]
    split
    next hlt =>
      refine pairwise_cons.mpr ⟨?_, hsort⟩
      intro remaining hmem
      rcases mem_cons.mp hmem with rfl | hbehind
      · exact hlt.le
      · exact hlt.le.trans (hhead remaining hbehind)
    next hge =>
      refine pairwise_cons.mpr ⟨?_, ih hrest⟩
      intro remaining hmem
      have hperm := (insertByRemaining_perm inboundMsg rest).map remainingBytes
      rcases mem_cons.mp (hperm.mem_iff.mp hmem) with rfl | hbehind
      · exact Nat.le_of_not_lt hge
      · exact hhead remaining hbehind

theorem SortedByRemaining.sublist {msgs fewer : List HomaInboundMsg}
    (hsort : SortedByRemaining msgs) (hsub : fewer.Sublist msgs) : SortedByRemaining fewer :=
  List.Pairwise.sublist (hsub.map _) hsort

theorem eraseMsg_sublist (msgs : List HomaInboundMsg)
    (msgIdx : Option Nat) : (eraseMsg msgs msgIdx).Sublist msgs := by
  cases msgIdx with
  | none => exact List.Sublist.refl msgs
  | some index => exact eraseIdx_sublist _ _

theorem remainingBytes_creditTick (cfg : Config) (sched : HomaRecvScheduler) :
    (sched.creditTick cfg).1.inboundMsgs.map remainingBytes =
      sched.inboundMsgs.map remainingBytes := by
  rw [creditTick_inboundMsgs]
  apply loop_map_eq
  intro before prior after msg hvisit
  obtain ⟨_, _, _, _, _, rfl⟩ := visit_frame hvisit
  rfl

theorem sortedByRemaining_handle (hsrpt : cfg.useSrrScheduling = false) (hwf : sched.WellFormed cfg)
    (hsort : SortedByRemaining sched.inboundMsgs) {input : RecvInput}
    (hhandle : sched.handle cfg input = .ok (next, events)) :
    SortedByRemaining next.inboundMsgs := by
  cases handled hwf hhandle with
  | @data packet _ _ _ hdata =>
    have hrecv := (handle_packet hhandle).2
    obtain ⟨inboundMsg, msgIdx, -, hmsgs⟩ := inboundMsgs_of_data hdata hrecv
    have hothers := hsort.sublist (eraseMsg_sublist sched.inboundMsgs msgIdx)
    rw [hmsgs]
    split
    · exact hothers
    · simp only [place, hsrpt, Bool.false_eq_true, if_false]
      exact sortedByRemaining_insert hothers
  | control _ hmsgs =>
    rw [hmsgs]
    exact hsort
  | creditTick hnext =>
    subst hnext
    rw [SortedByRemaining, remainingBytes_creditTick]
    exact hsort
  | rtxExpire hexpired =>
    cases hexpired with
    | dropped _ _ hnext =>
      subst hnext
      exact hsort.sublist (eraseIdx_sublist _ _)
    | @rearmed msg _ hmsg _ _ hnext =>
      subst hnext
      have hleft : (rearmRtx msg).remainingBytes = msg.remainingBytes := rfl
      rw [SortedByRemaining, map_set_eq hmsg hleft]
      exact hsort

/-- The pending messages between events: sorted, one for a key, moved one at a time; an index
denotes its message until it is used. -/
structure Inbox (cfg : Config) (sched : HomaRecvScheduler) : Prop where
  sorted : SortedByRemaining sched.inboundMsgs
  unique : (sched.inboundMsgs.map HomaInboundMsg.key).Nodup
  moves : ∀ inboundMsg msgIdx,
    (eraseMsg sched.inboundMsgs msgIdx).Sublist
        (sched.scheduleMsgAtIdx cfg inboundMsg msgIdx).inboundMsgs ∧
      (sched.scheduleMsgAtIdx cfg inboundMsg msgIdx).inboundMsgs.Perm
        (inboundMsg :: eraseMsg sched.inboundMsgs msgIdx)
  packetIndex : ∀ packet inboundMsg msgIdx,
    sched.takeData cfg packet = .ok (inboundMsg, some msgIdx) →
    ∃ msg, sched.inboundMsgs[msgIdx]? = some msg ∧ msg.key = packet.key ∧
      inboundMsg.key = msg.key
  timerIndex : ∀ timer msg, sched.inboundMsgs[timer]? = some msg →
    sched.getInboundMsg msg.key = some timer

end HomaRecvScheduler

namespace Receiver

open HomaRecvScheduler

variable {cfg : Config} {receiver : Receiver}

theorem sortedByRemaining_of_reachable (hsrpt : cfg.useSrrScheduling = false) (hreach :
    (machine cfg).Reachable receiver) : SortedByRemaining receiver.sched.inboundMsgs := by
  apply hreach.invariant_of (fun _ => wellFormed_of_reachable)
  · exact List.Pairwise.nil
  · intro state input next hwf hsort _ hstep
    obtain ⟨events, hhandle, -⟩ := step_eq_ok hstep
    exact sortedByRemaining_handle hsrpt hwf hsort hhandle

/-- Without SRR the pending messages stand by their remaining bytes, no two have the same key, and
the indices of `GetInboundMsg` denote the message they are used for. -/
theorem inbox_of_reachable (hsrpt : cfg.useSrrScheduling = false)
    (hreachable : (machine cfg).Reachable receiver) : receiver.sched.Inbox cfg := by
  have hwf := wellFormed_of_reachable hreachable
  exact {
    sorted := sortedByRemaining_of_reachable hsrpt hreachable
    unique := hwf.nodup
    moves := scheduleMsgAtIdx_moves cfg receiver.sched
    packetIndex := fun _ _ _ htake => key_of_takeData htake
    timerIndex := fun _ _ hmsg => hwf.getInboundMsg_eq hmsg }

theorem inbox_of_reachable_overtaking :
    let receiver := (machine Config.oneByte).after (fun _ _ => true)
      [.packet (samplePacket 3 0 [7]), .packet { samplePacket 2 0 [7] with
        ipv4Header := { source := 3, destination := 2, ecn := .ect0 } }]
      (machine Config.oneByte).init
    receiver.sched.inboundMsgs.map HomaInboundMsg.remainingBytes = [1, 2] ∧
      receiver.sched.Inbox Config.oneByte := by
  intro receiver
  have hreachable : (machine Config.oneByte).Reachable receiver :=
    ReachableUnder.after (fun _ _ _ => trivial) _ .init
  exact ⟨by decide +kernel, inbox_of_reachable rfl hreachable⟩

end Receiver

end HomaSird.Homa
