import HomaSird.Data.StablePriority
import HomaSird.Internet.Ipv4EndPointDemux

/-! # The lookup for ICMP errors

`SimpleLookup` stops at an endpoint that the four values name exactly. Without one it returns an
endpoint with the fewest wildcard addresses on the port, whether or not it matches.
-/

namespace HomaSird.Internet

open Transition List

namespace Ipv4EndPointDemux

/-! ## What the lookup is for -/

def Matches (tuple : FourTuple) (endP : Ipv4EndPoint) : Prop :=
  endP.localPort = tuple.dport ∧
    (endP.localAddr = Ipv4Address.getAny ∨ endP.localAddr = tuple.daddr) ∧
    (endP.peerAddr = Ipv4Address.getAny ∨ endP.peerAddr = tuple.saddr) ∧
    (endP.peerPort = 0 ∨ endP.peerPort = tuple.sport)

instance (tuple : FourTuple) (endP : Ipv4EndPoint) : Decidable (Matches tuple endP) :=
  inferInstanceAs (Decidable (_ ∧ _))

def openAddresses (endP : Ipv4EndPoint) : Nat :=
  (decide (endP.localAddr = Ipv4Address.getAny)).toNat +
    (decide (endP.peerAddr = Ipv4Address.getAny)).toNat

def wildcards (endP : Ipv4EndPoint) : Nat :=
  openAddresses endP + (decide (endP.peerPort = 0)).toNat

def Answers (demux : Ipv4EndPointDemux) (tuple : FourTuple) : Option Ipv4EndPoint → Prop
  | none => ∀ endP ∈ demux.endPoints, ¬ Matches tuple endP
  | some endP => endP ∈ demux.endPoints ∧ Matches tuple endP ∧
      ∀ other ∈ demux.endPoints, Matches tuple other → wildcards endP ≤ wildcards other

/-! ## What the loop finds -/

def named (tuple : FourTuple) (endP : Ipv4EndPoint) : Bool :=
  decide (endP.localPort = tuple.dport ∧ endP.localAddr = tuple.daddr ∧
    endP.peerPort = tuple.sport ∧ endP.peerAddr = tuple.saddr)

def onPort (demux : Ipv4EndPointDemux) (tuple : FourTuple) : List Ipv4EndPoint :=
  demux.endPoints.filter fun endP => endP.localPort == tuple.dport

/-- The endpoint matches, and is the first on the port with the fewest open addresses. If its peer
port is open, so is that of each match with as few. -/
structure Leads (demux : Ipv4EndPointDemux) (tuple : FourTuple) (endP : Ipv4EndPoint)
    (before after : List Ipv4EndPoint) : Prop where
  split : demux.onPort tuple = before ++ endP :: after
  fits : Matches tuple endP
  before : ∀ other ∈ before, openAddresses endP < openAddresses other
  after : ∀ other ∈ after, openAddresses endP ≤ openAddresses other
  port : endP.peerPort = 0 → ∀ other ∈ demux.endPoints, Matches tuple other →
    openAddresses other = openAddresses endP → other.peerPort = 0

def MatchLeads (demux : Ipv4EndPointDemux) (tuple : FourTuple) : Prop :=
  demux.onPort tuple = [] ∨ (∃ endP ∈ demux.endPoints, named tuple endP = true) ∨
    ∃ endP before after, Leads demux tuple endP before after

variable {demux : Ipv4EndPointDemux} {tuple : FourTuple} {endP other : Ipv4EndPoint}

theorem openAddresses_le (endP : Ipv4EndPoint) : openAddresses endP ≤ 2 :=
  Nat.add_le_add (Bool.toNat_le _) (Bool.toNat_le _)

theorem simpleLookupLoop_cons (tuple : FourTuple) (i : Ipv4EndPoint) (rest : List Ipv4EndPoint)
    (genericity : Nat) (generic : Option Ipv4EndPoint) :
    simpleLookupLoop tuple (i :: rest) genericity generic =
      if i.localPort ≠ tuple.dport then simpleLookupLoop tuple rest genericity generic
      else if i.localAddr = tuple.daddr ∧ i.peerPort = tuple.sport ∧ i.peerAddr = tuple.saddr then
          some i
        else if openAddresses i < genericity then
            simpleLookupLoop tuple rest (openAddresses i) (some i)
          else simpleLookupLoop tuple rest genericity generic := by
  have htmp : openAddresses i =
      if i.peerAddr = Ipv4Address.getAny then
        (if i.localAddr = Ipv4Address.getAny then 0 + 1 else 0) + 1
      else if i.localAddr = Ipv4Address.getAny then 0 + 1 else 0 := by
    rw [openAddresses]
    split_ifs <;> simp [*]
  rw [htmp]
  rfl

theorem simpleLookupLoop_eq (tuple : FourTuple) (seen rest : List Ipv4EndPoint) (genericity : Nat)
    (hgen : ((seen.argmin openAddresses).map openAddresses).getD 3 = genericity) :
    simpleLookupLoop tuple rest genericity (seen.argmin openAddresses) =
      (rest.find? (named tuple)).or
        ((seen ++ rest.filter fun endP => endP.localPort == tuple.dport).argmin openAddresses) := by
  induction rest generalizing seen genericity with
  | nil => simp [simpleLookupLoop]
  | cons i rest ih =>
    rw [simpleLookupLoop_cons, find?_cons, filter_cons]
    by_cases hport : i.localPort = tuple.dport
    case neg => simp [hport, named, ih seen genericity hgen]
    by_cases hnamed : named tuple i = true
    · have hexact := of_decide_eq_true hnamed
      simp [hnamed, hexact.1, hexact.2.1, hexact.2.2.1, hexact.2.2.2]
    have hexact : ¬ (i.localAddr = tuple.daddr ∧ i.peerPort = tuple.sport ∧
        i.peerAddr = tuple.saddr) := fun hexact =>
      hnamed (decide_eq_true ⟨hport, hexact⟩)
    have hnext := ih (seen ++ [i])
    rw [argmin_concat, append_assoc, singleton_append] at hnext
    rw [if_neg (not_not.mpr hport), if_neg hexact, eq_false_of_ne_true hnamed]
    simp only [hport, beq_self_eq_true, if_true]
    cases hseen : seen.argmin openAddresses with
    | none =>
      simp only [hseen] at hgen hnext
      have hlt : openAddresses i < genericity := by
        rw [← hgen]
        exact Nat.lt_succ_of_le (openAddresses_le i)
      rw [if_pos hlt]
      exact hnext _ rfl
    | some generic =>
      simp only [hseen] at hgen hnext
      rw [← hgen]
      by_cases hlt : openAddresses i < openAddresses generic
      · simp only [Option.map_some, Option.getD_some, hlt, if_true] at hnext ⊢
        exact hnext _ rfl
      · simp only [Option.map_some, Option.getD_some, hlt, if_false] at hnext ⊢
        exact hnext _ rfl

theorem simpleLookup_eq (demux : Ipv4EndPointDemux) (tuple : FourTuple) :
    demux.simpleLookup tuple =
      (demux.endPoints.find? (named tuple)).or ((demux.onPort tuple).argmin openAddresses) :=
  simpleLookupLoop_eq tuple [] demux.endPoints 3 rfl

theorem mem_onPort :
    endP ∈ demux.onPort tuple ↔ endP ∈ demux.endPoints ∧ endP.localPort = tuple.dport := by
  simp [onPort]

/-! ## When it answers -/

theorem answers_named (hmem : endP ∈ demux.endPoints)
    (hnamed : named tuple endP = true) : Answers demux tuple (some endP) := by
  obtain ⟨hport, haddr, hpeerPort, hpeerAddr⟩ := of_decide_eq_true hnamed
  refine ⟨hmem, ⟨hport, .inr haddr, .inr hpeerAddr, .inr hpeerPort⟩, ?_⟩
  rintro other - ⟨-, hlocal, hpeer, hotherPort⟩
  rw [wildcards, wildcards, openAddresses, openAddresses, haddr, hpeerPort, hpeerAddr]
  have hle : ∀ {first second : Prop} [Decidable first] [Decidable second],
      (first → second) → (decide first).toNat ≤ (decide second).toNat := by
    intro first second _ _ himp
    by_cases hfst : first
    · rw [decide_eq_true hfst, decide_eq_true (himp hfst)]
    · rw [decide_eq_false hfst]
      exact Nat.zero_le _
  refine Nat.add_le_add (Nat.add_le_add (hle ?_) (hle ?_)) (hle ?_)
  · exact fun hany => hlocal.elim id fun heq => heq.trans hany
  · exact fun hany => hpeer.elim id fun heq => heq.trans hany
  · exact fun hzero => hotherPort.elim id fun heq => heq.trans hzero

theorem answers_iff_leads {before after : List Ipv4EndPoint} (hsplit : demux.onPort tuple =
    before ++ endP :: after) (hpre : ∀ other ∈ before, openAddresses endP < openAddresses other)
    (hafter : ∀ other ∈ after, openAddresses endP ≤ openAddresses other) :
    Answers demux tuple (some endP) ↔ Leads demux tuple endP before after := by
  have hon : endP ∈ demux.onPort tuple := by
    rw [hsplit]
    exact mem_append_right _ mem_cons_self
  have hmem := (mem_onPort.mp hon).1
  have hleast : ∀ other ∈ demux.endPoints, Matches tuple other →
      openAddresses endP ≤ openAddresses other := by
    intro other hother hfits
    have hon := mem_onPort.mpr ⟨hother, hfits.1⟩
    rw [hsplit] at hon
    rcases mem_append.mp hon with hfront | hback
    · exact (hpre other hfront).le
    · rcases mem_cons.mp hback with rfl | hback
      · exact le_rfl
      · exact hafter other hback
  constructor
  · rintro ⟨-, hfits, hfewest⟩
    refine ⟨hsplit, hfits, hpre, hafter, fun hopen other hother hmatch heq => ?_⟩
    by_contra hclosed
    have hle := hfewest other hother hmatch
    rw [wildcards, wildcards, heq, decide_eq_true hopen, decide_eq_false hclosed] at hle
    exact absurd (Nat.le_of_add_le_add_left hle) (by decide)
  · intro hleads
    refine ⟨hmem, hleads.fits, fun other hother hmatch => ?_⟩
    rw [wildcards, wildcards]
    rcases (hleast other hother hmatch).lt_or_eq with hlt | heq
    · have hone := Bool.toNat_le (decide (endP.peerPort = 0))
      omega
    · rw [heq]
      refine Nat.add_le_add_left ?_ _
      by_cases hopen : endP.peerPort = 0
      · rw [decide_eq_true (hleads.port hopen other hother hmatch heq.symm)]
        exact Bool.toNat_le _
      · rw [decide_eq_false hopen]
        exact Nat.zero_le _

/-- The lookup answers when no endpoint is on the port, one is named exactly, or a matching one
leads; else what it returns does not match, or leaves more open than another match. -/
theorem simpleLookup_answers_iff (demux : Ipv4EndPointDemux) (tuple : FourTuple) :
    Answers demux tuple (demux.simpleLookup tuple) ↔ MatchLeads demux tuple := by
  rw [simpleLookup_eq]
  cases hfind : demux.endPoints.find? (named tuple) with
  | some endP =>
    have hmem := List.mem_of_find?_eq_some hfind
    have hnamed := List.find?_some hfind
    exact iff_of_true (answers_named hmem hnamed) (.inr (.inl ⟨endP, hmem, hnamed⟩))
  | none =>
    rw [Option.none_or]
    have hunnamed := List.find?_eq_none.mp hfind
    cases hkept : (demux.onPort tuple).argmin openAddresses with
    | none =>
      have hnil := List.argmin_eq_none.mp hkept
      refine iff_of_true (fun endP hmem hfits => ?_) (.inl hnil)
      have hon := mem_onPort.mpr ⟨hmem, hfits.1⟩
      rw [hnil] at hon
      exact List.not_mem_nil hon
    | some endP =>
      obtain ⟨before, after, hsplit, hpre, hafter⟩ := argmin_eq_some_iff.mp hkept
      rw [answers_iff_leads hsplit hpre hafter]
      constructor
      · exact fun hleads => .inr (.inr ⟨endP, before, after, hleads⟩)
      · rintro (hnil | ⟨other, hother, hnamed⟩ | ⟨other, front, back, hleads⟩)
        · rw [hnil] at hkept
          cases hkept
        · exact absurd hnamed (hunnamed other hother)
        · have hother := argmin_eq_some_iff.mpr
            ⟨front, back, hleads.split, hleads.before, hleads.after⟩
          obtain rfl : endP = other := Option.some.inj (hkept.symm.trans hother)
          have hanswers := (answers_iff_leads hleads.split hleads.before hleads.after).mpr hleads
          exact (answers_iff_leads hsplit hpre hafter).mp hanswers

/-- A connected endpoint alone on its port is returned for an error about another peer. -/
theorem simpleLookup_mismatch :
    ¬ ∀ demux, machine.ReachableUnder (fun demux input => demux.offered input = true) demux →
      ∀ tuple, Answers demux tuple (demux.simpleLookup tuple) := by
  intro hall
  have hanswers := hall (machine.after (fun demux input => demux.offered input)
    [.allocatePeer none 0x0a010102 7 0x0a010101 80] machine.init)
    (.after (fun _ _ hoffered => hoffered) _ .init) ⟨0x0a010102, 7, 0x0a010103, 81⟩
  exact absurd hanswers.2.1 (by decide)

end Ipv4EndPointDemux

end HomaSird.Internet
