import HomaSird.Homa.OutboundMsg

/-! # Packetization

The fragments of a message are nonempty, fit into a packet, are as many as the
constructor counts, and are the message when put together again.
-/

namespace HomaSird.Homa.HomaOutboundMsg

open List

variable {cfg : Config} {maxPayloadSize fuel : Nat} {message : Payload}

theorem packetize_nil (maxPayloadSize fuel : Nat) : packetize maxPayloadSize fuel [] = [] := by
  cases fuel with
  | zero => rfl
  | succ fuel => rfl

theorem packetize_of_ne_nil (hmsg : message ≠ []) :
    packetize maxPayloadSize (fuel + 1) message =
      message.take maxPayloadSize :: packetize maxPayloadSize fuel (message.drop maxPayloadSize) :=
  if_neg (by simpa using hmsg)

theorem flatten_packetize (hmax : 0 < maxPayloadSize) (hfuel : message.length ≤ fuel) :
    (packetize maxPayloadSize fuel message).flatten = message := by
  induction fuel generalizing message with
  | zero =>
    obtain rfl := length_eq_zero_iff.mp (Nat.le_zero.mp hfuel)
    rfl
  | succ fuel ih =>
    by_cases hmsg : message = []
    · rw [hmsg, packetize_nil]
      rfl
    · have hpos := length_pos_iff.mpr hmsg
      have hrest : (message.drop maxPayloadSize).length ≤ fuel := by
        rw [length_drop]
        omega
      rw [packetize_of_ne_nil hmsg, flatten_cons, ih hrest, take_append_drop]

theorem mem_packetize (hmax : 0 < maxPayloadSize) {fragment : Payload} (hmem : fragment ∈
    packetize maxPayloadSize fuel message) : fragment ≠ [] ∧ fragment.length ≤ maxPayloadSize := by
  induction fuel generalizing message with
  | zero => cases hmem
  | succ fuel ih =>
    by_cases hmsg : message = []
    · rw [hmsg, packetize_nil] at hmem
      cases hmem
    · rw [packetize_of_ne_nil hmsg] at hmem
      rcases mem_cons.mp hmem with rfl | hlater
      · refine ⟨?_, length_take_le _ _⟩
        simp [hmsg, Nat.pos_iff_ne_zero.mp hmax]
      · exact ih hlater

theorem length_packetize (hmax : 0 < maxPayloadSize) (hfuel : message.length ≤ fuel) :
    (packetize maxPayloadSize fuel message).length =
      message.length / maxPayloadSize + if message.length % maxPayloadSize ≠ 0 then 1 else 0 := by
  induction fuel generalizing message with
  | zero =>
    obtain rfl := length_eq_zero_iff.mp (Nat.le_zero.mp hfuel)
    simp [packetize]
  | succ fuel ih =>
    by_cases hmsg : message = []
    · rw [hmsg, packetize_nil]
      simp
    · have hpos := length_pos_iff.mpr hmsg
      have hrest : (message.drop maxPayloadSize).length ≤ fuel := by
        rw [length_drop]
        omega
      rw [packetize_of_ne_nil hmsg, length_cons, ih hrest, length_drop]
      by_cases hlong : maxPayloadSize ≤ message.length
      · rw [Nat.div_eq_sub_div hmax hlong, Nat.mod_eq_sub_mod hlong]
        omega
      · have hlt : message.length < maxPayloadSize := Nat.lt_of_not_le hlong
        rw [Nat.sub_eq_zero_of_le hlt.le, Nat.div_eq_of_lt hlt, Nat.mod_eq_of_lt hlt]
        simp [Nat.pos_iff_ne_zero.mp hpos]

def fragments (cfg : Config) (message : Payload) : List Payload :=
  packetize cfg.maxPayloadSize message.length message

theorem flatten_fragments (cfg : Config)
    (message : Payload) : (fragments cfg message).flatten = message :=
  flatten_packetize cfg.maxPayloadSize_pos le_rfl

theorem mem_fragments {fragment : Payload} (hmem : fragment ∈ fragments cfg message) :
    fragment ≠ [] ∧ fragment.length ≤ cfg.maxPayloadSize :=
  mem_packetize cfg.maxPayloadSize_pos hmem

theorem uint16_length_fragments (cfg : Config) (message : Payload) :
    uint16 (fragments cfg message).length = packetCount message.length cfg.maxPayloadSize := by
  rw [fragments, length_packetize cfg.maxPayloadSize_pos le_rfl, packetCount]

theorem numPkts_accepted_iff (cfg : Config) (message : Payload) :
    uint16 (fragments cfg message).length = message.length / cfg.maxPayloadSize +
        (if message.length % cfg.maxPayloadSize ≠ 0 then 1 else 0) ↔
      (fragments cfg message).length < 2 ^ 16 := by
  have hlen : (fragments cfg message).length = _ :=
    length_packetize cfg.maxPayloadSize_pos le_rfl
  rw [← hlen]
  constructor
  · intro heq
    exact heq ▸ uint16_lt _
  · exact uint16_of_lt

variable {saddr daddr : Ipv4Address} {sport dport origin : Nat}

theorem create_of_length_lt (hlt : (fragments cfg message).length < 2 ^ 16) :
    ∃ msg, create cfg message saddr daddr sport dport origin = .ok msg := by
  have hcnt := (numPkts_accepted_iff cfg message).mpr hlt
  unfold fragments at hcnt
  rw [create, if_pos hcnt]
  exact ⟨_, rfl⟩

structure Fresh (cfg : Config) (message : Payload) (msg : HomaOutboundMsg) : Prop where
  length_lt : (fragments cfg message).length < 2 ^ 16
  getMsgSizePkts_eq : msg.getMsgSizePkts = (fragments cfg message).length
  packets_eq : msg.packets = if cfg.memIsOptimized then [] else fragments cfg message
  pktSizes_eq : msg.pktSizes =
    if cfg.memIsOptimized then (fragments cfg message).map List.length else []
  pktTxQ_eq : msg.pktTxQ = MinQueue.range msg.getMsgSizePkts
  maxGrantedIdx_eq : msg.maxGrantedIdx = (initialWindow cfg msg.getMsgSizePkts).1
  waitForFirstGrant_eq : msg.waitForFirstGrant = (initialWindow cfg msg.getMsgSizePkts).2
  initialCreditRequestSent_eq : msg.initialCreditRequestSent = false

theorem fresh_of_create {msg : HomaOutboundMsg} (hcreate :
    create cfg message saddr daddr sport dport origin = .ok msg) : Fresh cfg message msg := by
  by_cases hlt : (fragments cfg message).length < 2 ^ 16
  · have hcnt := (numPkts_accepted_iff cfg message).mpr hlt
    have hsz := uint16_length_fragments cfg message
    unfold fragments at hcnt hsz
    rw [create, if_pos hcnt] at hcreate
    cases hcreate
    refine ⟨hlt, hsz.symm.trans (uint16_of_lt hlt), rfl, rfl, ?_, ?_, ?_, rfl⟩
    · exact congrArg MinQueue.range hsz
    · exact congrArg (fun numPkts => (initialWindow cfg numPkts).1) hsz
    · exact congrArg (fun numPkts => (initialWindow cfg numPkts).2) hsz
  · have hcnt := mt (numPkts_accepted_iff cfg message).mp hlt
    unfold fragments at hcnt
    rw [create, if_neg hcnt] at hcreate
    cases hcreate

/-! ## The constructor cuts a message into a partition -/

/-- `ceil (size / payload)`. -/
def numPackets (cfg : Config) (msgSizeBytes : Nat) : Nat :=
  (msgSizeBytes + cfg.maxPayloadSize - 1) / cfg.maxPayloadSize

theorem length_fragments (cfg : Config)
    (message : Payload) : (fragments cfg message).length = numPackets cfg message.length := by
  have hmax := cfg.maxPayloadSize_pos
  have hdiv := Nat.div_add_mod message.length cfg.maxPayloadSize
  rw [fragments, length_packetize hmax le_rfl, numPackets]
  generalize message.length / cfg.maxPayloadSize = whole at *
  generalize hrest : message.length % cfg.maxPayloadSize = rest at *
  have hlt : rest < cfg.maxPayloadSize := hrest ▸ Nat.mod_lt _ hmax
  symm
  rw [← hdiv]
  split
  next hpos =>
    rw [Nat.div_eq_iff hmax, Nat.add_mul, Nat.mul_comm whole]
    omega
  next hzero =>
    rw [Nat.div_eq_iff hmax, Nat.add_mul, Nat.mul_comm whole]
    omega

theorem length_packetize_of_lt {maxPayloadSize fuel pktOffset : Nat} {message fragment : Payload}
    (hfrag : (packetize maxPayloadSize fuel message)[pktOffset]? = some fragment)
    (hlater : pktOffset + 1 < (packetize maxPayloadSize fuel message).length) :
    fragment.length = maxPayloadSize := by
  induction fuel generalizing message pktOffset with
  | zero => cases hfrag
  | succ fuel ih =>
    by_cases hmsg : message = []
    · rw [hmsg, packetize_nil] at hfrag
      cases hfrag
    · rw [packetize_of_ne_nil hmsg] at hfrag hlater
      rw [length_cons] at hlater
      cases pktOffset with
      | zero =>
        cases hfrag
        -- something is left behind the first packet
        rw [length_take]
        by_contra hshort
        have hnil : message.drop maxPayloadSize = [] := drop_eq_nil_of_le (by omega)
        rw [hnil, packetize_nil] at hlater
        simp at hlater
      | succ pktOffset => exact ih hfrag (by omega)

def storedSizes (cfg : Config) (msg : HomaOutboundMsg) : List Nat :=
  if cfg.memIsOptimized then msg.pktSizes else msg.packets.map List.length

/-- Every offset is queued once, every packet but the last is full, no byte is lost or added, and
the packets are counted. -/
structure Partitioned (cfg : Config) (message : Payload) (msg : HomaOutboundMsg) : Prop where
  queued : ∀ pktOffset, msg.pktTxQ.count pktOffset =
    if pktOffset < numPackets cfg message.length then 1 else 0
  length_eq : (storedSizes cfg msg).length = numPackets cfg message.length
  full : ∀ pktOffset, pktOffset + 1 < numPackets cfg message.length →
    (storedSizes cfg msg)[pktOffset]? = some cfg.maxPayloadSize
  fits : ∀ size ∈ storedSizes cfg msg, 0 < size ∧ size ≤ cfg.maxPayloadSize
  sum_eq : (storedSizes cfg msg).sum = message.length
  getMsgSizePkts_eq : msg.getMsgSizePkts = numPackets cfg message.length

theorem partitioned_of_fresh {msg : HomaOutboundMsg}
    (hfresh : Fresh cfg message msg) : Partitioned cfg message msg := by
  have hlen := length_fragments cfg message
  have hcnt := hfresh.getMsgSizePkts_eq.trans hlen
  have hsizes : storedSizes cfg msg = (fragments cfg message).map length := by
    unfold storedSizes
    split
    next hmode => rw [hfresh.pktSizes_eq, if_pos hmode]
    next hmode => rw [hfresh.packets_eq, if_neg hmode]
  refine ⟨fun pktOffset => ?_, ?_, fun pktOffset hlater => ?_, fun size hsz => ?_, ?_, hcnt⟩
  · rw [hfresh.pktTxQ_eq, MinQueue.count_range, hcnt]
  · rw [hsizes, length_map, hlen]
  · rw [← hlen] at hlater
    have hget :=
      getElem?_eq_getElem (l := fragments cfg message) (i := pktOffset) (by omega)
    rw [hsizes, getElem?_map, hget, Option.map_some, Option.some.injEq]
    exact length_packetize_of_lt hget hlater
  · rw [hsizes] at hsz
    obtain ⟨fragment, hmem, rfl⟩ := mem_map.mp hsz
    obtain ⟨hne, hle⟩ := mem_fragments hmem
    exact ⟨length_pos_iff.mpr hne, hle⟩
  · rw [hsizes, ← length_flatten, flatten_fragments]

theorem create_of_length_ge (hlong : 2 ^ 16 ≤ numPackets cfg message.length) :
    create cfg message saddr daddr sport dport origin = .error .packetCount := by
  have hcnt := mt (numPkts_accepted_iff cfg message).mp (by
    rw [length_fragments]
    omega)
  unfold fragments at hcnt
  rw [create, if_neg hcnt]

/-- Packetization is a partition exactly up to the largest number of packets of a 16-bit count. -/
theorem partitioned_iff (cfg : Config) (message : Payload) (saddr daddr : Ipv4Address)
    (sport dport origin : Nat) :
    (∃ msg,
      create cfg message saddr daddr sport dport origin = .ok msg ∧ Partitioned cfg message msg) ↔
      numPackets cfg message.length < 2 ^ 16 := by
  constructor
  · rintro ⟨msg, hcreate, hpartitioned⟩
    by_contra hlong
    rw [create_of_length_ge (Nat.le_of_not_lt hlong)] at hcreate
    cases hcreate
  · intro hshort
    obtain ⟨msg, hcreate⟩ := @create_of_length_lt cfg message saddr daddr sport dport origin
      (by rwa [length_fragments])
    exact ⟨msg, hcreate, partitioned_of_fresh (fresh_of_create hcreate)⟩

/-- `HomaSocket::GetTxAvailable`, the largest message that `DoSendTo` accepts. -/
def getTxAvailable : Nat := 2 ^ 32 - 1

theorem not_partitioned_of_65536 :
    (List.replicate 65536 (0 : UInt8)).length ≤ getTxAvailable ∧
      ¬ ∃ msg,
        create Config.oneByte (List.replicate 65536 0) 1 2 5 6 0 = .ok msg ∧
          Partitioned Config.oneByte (List.replicate 65536 0) msg := by
  refine ⟨?_, ?_⟩
  · rw [List.length_replicate]
    decide
  · rintro ⟨msg, hcreate, -⟩
    rw [create_of_length_ge] at hcreate
    · cases hcreate
    · rw [List.length_replicate]
      decide

end HomaSird.Homa.HomaOutboundMsg
