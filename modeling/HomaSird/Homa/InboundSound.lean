import HomaSird.Homa.InboundMsg

/-! # What stays true of an inbound message

Its buffer has one place for each packet, the granted offset is one of the message and never ahead
of the window, and a message that was granted nothing has a closed window.
-/

namespace HomaSird.Homa.HomaInboundMsg

structure Sound (cfg : Config) (msg : HomaInboundMsg) : Prop where
  size_eq : msg.msgSizePkts = packetCount msg.msgSizeBytes cfg.maxPayloadSize
  length_eq : msg.receivedPackets.length = msg.msgSizePkts
  granted_lt : msg.maxGrantedIdx < msg.msgSizePkts
  granted_le : msg.maxGrantedIdx ≤ msg.maxGrantableIdx
  grantable_le : msg.maxGrantableIdx ≤ msg.msgSizePkts
  closed : msg.hasGrantedData = false →
    msg.maxGrantableIdx = 0 ∧ msg.creditDrivenGrantWindow = true

variable {cfg : Config} {msg : HomaInboundMsg}

namespace Sound

theorem size_lt (hsound : msg.Sound cfg) : msg.msgSizePkts < 2 ^ 16 :=
  hsound.size_eq ▸ packetCount_lt _ _

theorem size_pos (hsound : msg.Sound cfg) : 0 < msg.msgSizePkts :=
  Nat.zero_lt_of_lt hsound.granted_lt

theorem grantOffset_eq (hsound : msg.Sound cfg) :
    msg.grantOffset = min msg.maxGrantableIdx (msg.msgSizePkts - 1) :=
  if_neg hsound.size_pos.ne'

end Sound

/-! ## Creation -/

theorem sound_blank {packet : Packet}
    (hsz : 0 < packetCount packet.homaHeader.msgSizeBytes cfg.maxPayloadSize) :
    (blank cfg packet).Sound cfg := by
  have hlt := packetCount_lt packet.homaHeader.msgSizeBytes cfg.maxPayloadSize
  refine ⟨rfl, List.length_replicate, ?_, ?_, ?_, ?_⟩
  all_goals
    simp only [blank, unscheduledIdx, uint16]
    split
    · simp_all
    · simp_all
      try omega

variable {payload : Payload} {pktOffset : Nat}

theorem sound_store (hsound : msg.Sound cfg) :
    (msg.store cfg pktOffset payload).Sound cfg := by
  refine ⟨hsound.size_eq, ?_, hsound.granted_lt, hsound.granted_le, hsound.grantable_le,
    hsound.closed⟩
  rw [store, List.length_set]
  exact hsound.length_eq

section

variable {packet : Packet} {created : HomaInboundMsg} (hcreate : create cfg packet = .ok created)
include hcreate

theorem create_eq_ok :
    (packet.payload = [] ∧ created = blank cfg packet) ∨
      (packet.payload ≠ [] ∧
        packet.homaHeader.pktOffset < (blank cfg packet).receivedPackets.length ∧
        created = (blank cfg packet).store cfg packet.homaHeader.pktOffset packet.payload) := by
  simp only [create, List.isEmpty_iff] at hcreate
  split at hcreate
  next hempty => exact Or.inl ⟨hempty, (Except.ok.inj hcreate).symm⟩
  next hload =>
    split at hcreate
    next hrng => exact Or.inr ⟨hload, hrng, (Except.ok.inj hcreate).symm⟩
    · cases hcreate

theorem size_pos_of_incomplete (hpart : created.isFullyReceived = false) :
    0 < packetCount packet.homaHeader.msgSizeBytes cfg.maxPayloadSize := by
  rw [Nat.pos_iff_ne_zero]
  intro hzero
  have hblank : (blank cfg packet).receivedPackets = [] := by simp [blank, hzero]
  rcases create_eq_ok hcreate with ⟨_, rfl⟩ | ⟨_, hrng, _⟩
  · rw [isFullyReceived, hblank] at hpart
    cases hpart
  · rw [hblank] at hrng
    cases hrng

theorem sound_create (hpart : created.isFullyReceived = false) : created.Sound cfg := by
  have hblank := sound_blank (size_pos_of_incomplete hcreate hpart)
  rcases create_eq_ok hcreate with ⟨_, rfl⟩ | ⟨_, _, rfl⟩
  · exact hblank
  · exact sound_store hblank

end

/-! ## Arriving payloads -/

theorem receiveDataPacket_eq_ok {received : HomaInboundMsg}
    (hrecv : msg.receiveDataPacket cfg payload pktOffset = .ok received) :
    (received = msg ∧ (payload = [] ∨ msg.receivedPackets[pktOffset]? = some true)) ∨
      (received = (msg.store cfg pktOffset payload).openWindow ∧ payload ≠ [] ∧
        msg.receivedPackets[pktOffset]? = some false) := by
  simp only [receiveDataPacket, List.isEmpty_iff] at hrecv
  split at hrecv
  next hempty => exact Or.inl ⟨(Except.ok.inj hrecv).symm, Or.inl hempty⟩
  next hload =>
    split at hrecv
    · cases hrecv
    next hold => exact Or.inl ⟨(Except.ok.inj hrecv).symm, Or.inr hold⟩
    next hnew => exact Or.inr ⟨(Except.ok.inj hrecv).symm, hload, hnew⟩

theorem openWindow_eq (hsound : msg.Sound cfg) :
    msg.openWindow = { msg with
      maxGrantableIdx :=
        if msg.creditDrivenGrantWindow ∨ msg.msgSizePkts ≤ msg.maxGrantableIdx + 1 then
          msg.maxGrantableIdx
        else msg.maxGrantableIdx + 1 } := by
  have hlt := hsound.size_lt
  unfold openWindow
  split
  · rfl
  · rw [uint16_of_lt (by omega)]

theorem sound_openWindow (hsound : msg.Sound cfg) : msg.openWindow.Sound cfg := by
  have hgrant := hsound.granted_le
  have hgrantable := hsound.grantable_le
  rw [openWindow_eq hsound]
  refine ⟨hsound.size_eq, hsound.length_eq, hsound.granted_lt, ?_, ?_, ?_⟩
  · dsimp only
    split <;> omega
  · dsimp only
    split <;> omega
  · -- only credits open the window of a message that was granted nothing
    intro hnone
    obtain ⟨hzero, hdriven⟩ := hsound.closed hnone
    dsimp only
    rw [if_pos (Or.inl hdriven)]
    exact ⟨hzero, hdriven⟩

theorem sound_receiveDataPacket {received : HomaInboundMsg} (hsound : msg.Sound cfg) (hrecv :
    msg.receiveDataPacket cfg payload pktOffset = .ok received) : received.Sound cfg := by
  rcases receiveDataPacket_eq_ok hrecv with ⟨rfl, _⟩ | ⟨rfl, _, _⟩
  · exact hsound
  · exact sound_openWindow (sound_store hsound)

/-! ## GRANTs and timers -/

theorem isFullyGranted_eq_false_iff :
    msg.isFullyGranted = false ↔
      msg.hasGrantedData = false ∨ msg.maxGrantedIdx + 1 < msg.msgSizePkts := by
  cases hdata : msg.hasGrantedData <;> simp [isFullyGranted, hdata]

theorem advanceGrantableWindow_eq (hsound : msg.Sound cfg) (hleft : msg.isFullyGranted = false) :
    (msg.advanceGrantableWindow 1).1 = { msg with
      maxGrantableIdx :=
        if msg.hasGrantedData then max msg.maxGrantableIdx (msg.maxGrantedIdx + 1)
        else msg.maxGrantableIdx } := by
  have hlt := hsound.size_lt
  have hpos := hsound.size_pos
  rw [advanceGrantableWindow, if_neg (by simp [hleft, hpos.ne'])]
  by_cases hdata : msg.hasGrantedData = true
  · have hnext : msg.maxGrantedIdx + 1 < msg.msgSizePkts := by
      simpa [isFullyGranted_eq_false_iff, hdata] using hleft
    have hwin : msg.creditWindow 1 = msg.maxGrantedIdx + 1 := by
      simp only [creditWindow, hdata, if_true]
      omega
    rw [hwin, uint16_of_lt (by omega), if_pos hdata]
    split
    next hle => rw [max_eq_left hle]
    next hgt => rw [max_eq_right (Nat.le_of_not_le hgt)]
  · have hwin : msg.creditWindow 1 = 0 := by simp [creditWindow, hdata]
    rw [hwin, if_pos (Nat.zero_le _), if_neg hdata]

theorem advanceGrantableWindow_setCurrentlyScheduled (msg : HomaInboundMsg) (scheduled : Bool)
    (grantPkts : Nat) :
    ((msg.setCurrentlyScheduled scheduled).advanceGrantableWindow grantPkts).1 =
      (msg.advanceGrantableWindow grantPkts).1.setCurrentlyScheduled scheduled := by
  generalize hidle : msg.setCurrentlyScheduled scheduled = idle
  have hsz : idle.msgSizePkts = msg.msgSizePkts := by rw [← hidle]; rfl
  have hfully : idle.isFullyGranted = msg.isFullyGranted := by rw [← hidle]; rfl
  have hwin : idle.creditWindow grantPkts = msg.creditWindow grantPkts := by rw [← hidle]; rfl
  have hgrant : idle.maxGrantableIdx = msg.maxGrantableIdx := by rw [← hidle]; rfl
  unfold advanceGrantableWindow
  rw [hsz, hfully, hwin, hgrant]
  split
  · exact hidle.symm
  · split
    · exact hidle.symm
    · rw [← hidle]
      rfl

section

variable (hsound : msg.Sound cfg)
include hsound

theorem sound_advanceGrantableWindow (hleft : msg.isFullyGranted = false) :
    (msg.advanceGrantableWindow 1).1.Sound cfg := by
  have hgrant := hsound.granted_le
  have hgrantable := hsound.grantable_le
  have hbelow := hsound.granted_lt
  rw [advanceGrantableWindow_eq hsound hleft]
  refine ⟨hsound.size_eq, hsound.length_eq, hbelow, ?_, ?_, ?_⟩
  · dsimp only
    split <;> omega
  · dsimp only
    split <;> omega
  · intro hnone
    dsimp only at hnone ⊢
    rw [hnone]
    exact hsound.closed hnone

theorem isGrantable_advanceGrantableWindow (hleft : msg.isFullyGranted = false) :
    (msg.advanceGrantableWindow 1).1.isGrantable = true := by
  have hpos := hsound.size_pos
  rw [advanceGrantableWindow_eq hsound hleft, isGrantable]
  split
  next hdata =>
    simp only [decide_eq_true_eq]
    exact lt_of_lt_of_le (Nat.lt_succ_self _) (Nat.le_max_right _ _)
  next hdata =>
    have hnone : msg.hasGrantedData = false := by simpa using hdata
    simp [(hsound.closed hnone).1, hpos]

theorem sound_generateGrant (prio : Nat) : (msg.generateGrant prio).2.Sound cfg := by
  have hpos := hsound.size_pos
  refine ⟨hsound.size_eq, hsound.length_eq, ?_, ?_, hsound.grantable_le, ?_⟩
  · simp only [generateGrant, hsound.grantOffset_eq]
    omega
  · simp only [generateGrant, hsound.grantOffset_eq]
    omega
  · intro hnone
    cases hnone

theorem sound_setCurrentlyScheduled (scheduled : Bool) :
    (msg.setCurrentlyScheduled scheduled).Sound cfg :=
  ⟨hsound.size_eq, hsound.length_eq, hsound.granted_lt, hsound.granted_le, hsound.grantable_le,
    hsound.closed⟩

theorem sound_rtx (rtxEvent : Option Nat) (lastRtxGrntIdx numRtxWithoutProgress : Nat) :
    { msg with rtxEvent, lastRtxGrntIdx, numRtxWithoutProgress }.Sound cfg :=
  ⟨hsound.size_eq, hsound.length_eq, hsound.granted_lt, hsound.granted_le, hsound.grantable_le,
    hsound.closed⟩

end

end HomaSird.Homa.HomaInboundMsg
