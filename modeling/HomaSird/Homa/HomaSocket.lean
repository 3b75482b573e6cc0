import Mathlib.Data.List.Induction
import HomaSird.Homa.Header
import HomaSird.Transition.Machine

/-! # The receive buffer of a socket

`ForwardUp` queues a message if the buffer has room, and `RecvFrom` hands out the first one if it
is not too large. A 32-bit counter holds the number of queued bytes. The tags of a message are
left out.
-/

namespace HomaSird.Homa

open List

structure Message where
  uid : Nat
  size : Nat
  size_lt : size < 2 ^ 32
deriving DecidableEq

structure InetSocketAddress where
  ipv4 : Ipv4Address
  port : Nat
deriving DecidableEq

abbrev HomaSocket.Delivery := Message × InetSocketAddress

structure HomaSocket where
  rcvBufSize : Nat
  rcvBufSize_lt : rcvBufSize < 2 ^ 32
  shutdownRecv : Bool := false
  deliveryQueue : List HomaSocket.Delivery := []
  rxAvailable : Nat := 0

namespace HomaSocket

inductive Call where
  | forwardUp (msg : Message) (source : Ipv4Address) (port : Nat)
  | recvFrom (maxSize : Nat)

/-- `ForwardUp` returns at once, notifies the reader or traces a drop; `RecvFrom` returns nothing,
with `ERROR_AGAIN` or the address of the message that is too large, or a message. -/
inductive Outcome where
  | shutdown
  | dataRecv
  | dropped
  | errorAgain
  | tooLarge (fromAddress : InetSocketAddress)
  | received (msg : Message) (fromAddress : InetSocketAddress)
deriving DecidableEq

def forwardUp (socket : HomaSocket) (msg : Message) (source : Ipv4Address) (port : Nat) :
    HomaSocket × Outcome :=
  if socket.shutdownRecv then (socket, .shutdown)
  else if uint32 (socket.rxAvailable + msg.size) ≤ socket.rcvBufSize then
    ({ socket with
        deliveryQueue := socket.deliveryQueue ++ [(msg, ⟨source, port⟩)]
        rxAvailable := uint32 (socket.rxAvailable + msg.size) }, .dataRecv)
  else (socket, .dropped)

def recvFrom (socket : HomaSocket) (maxSize : Nat) : HomaSocket × Outcome :=
  match socket.deliveryQueue with
  | [] => (socket, .errorAgain)
  | (msg, fromAddress) :: rest =>
    if msg.size ≤ maxSize then
      ({ socket with
          deliveryQueue := rest
          rxAvailable := uint32OfInt (socket.rxAvailable - msg.size) },
        .received msg fromAddress)
    else (socket, .tooLarge fromAddress)

def call (socket : HomaSocket) : Call → HomaSocket × Outcome
  | .forwardUp msg source port => socket.forwardUp msg source port
  | .recvFrom maxSize => socket.recvFrom maxSize

def run (socket : HomaSocket) : List Call → HomaSocket × List Outcome
  | [] => (socket, [])
  | first :: rest =>
    let result := socket.call first
    let later := result.1.run rest
    (later.1, result.2 :: later.2)

/-! ## Accounting -/

def total (queue : List Delivery) : Nat := (queue.map fun delivery => delivery.1.size).sum

/-- The counter is the number of queued bytes, and these fit in the buffer. -/
structure Exact (socket : HomaSocket) : Prop where
  rxAvailable_eq : socket.rxAvailable = total socket.deliveryQueue
  rxAvailable_le : socket.rxAvailable ≤ socket.rcvBufSize

/-- A message is dropped if it would exceed the buffer and else queued last; the first one is
handed out, or nothing is, and then nothing changes. -/
def Correct (socket : HomaSocket) : Call → Prop
  | .forwardUp msg source port =>
    let result := socket.forwardUp msg source port
    (result.2 = .dropped ↔ socket.rcvBufSize < total socket.deliveryQueue + msg.size) ∧
      result.1.deliveryQueue = if result.2 = .dropped then socket.deliveryQueue
        else socket.deliveryQueue ++ [(msg, ⟨source, port⟩)]
  | .recvFrom maxSize =>
    let result := socket.recvFrom maxSize
    match result.2 with
    | .received msg fromAddress =>
      socket.deliveryQueue = (msg, fromAddress) :: result.1.deliveryQueue
    | _ => result.1.deliveryQueue = socket.deliveryQueue ∧
        result.1.rxAvailable = socket.rxAvailable

def accepted : List Call → List Outcome → List Delivery
  | .forwardUp msg source port :: calls, outcome :: outcomes =>
    if outcome = .dataRecv then (msg, ⟨source, port⟩) :: accepted calls outcomes
    else accepted calls outcomes
  | .recvFrom _ :: calls, _ :: outcomes => accepted calls outcomes
  | _, _ => []

def returned (outcomes : List Outcome) : List Delivery :=
  outcomes.filterMap fun
    | .received msg fromAddress => some (msg, fromAddress)
    | _ => none

/-- Along a run the counter is exact, every call does what it should, and the messages are handed
out in order, each with its source. -/
structure Accounted (socket : HomaSocket) (calls : List Call) : Prop where
  exact_of : ∀ front back, calls = front ++ back → Exact (socket.run front).1
  correct_of : ∀ front next back, calls = front ++ next :: back →
    Correct (socket.run front).1 next
  inOrder_of : ∀ front back, calls = front ++ back →
    accepted front (socket.run front).2 =
      returned (socket.run front).2 ++ (socket.run front).1.deliveryQueue

def NoWrap (socket : HomaSocket) (calls : List Call) : Prop :=
  ∀ front msg source port back, calls = front ++ .forwardUp msg source port :: back →
    (socket.run front).1.rxAvailable + msg.size < 2 ^ 32

variable {socket : HomaSocket} {calls front : List Call} {next : Call}

/-! ## One call -/

theorem total_concat (queue : List Delivery)
    (delivery : Delivery) : total (queue ++ [delivery]) = total queue + delivery.1.size := by
  simp [total]

theorem total_cons (delivery : Delivery) (queue : List Delivery) :
    total (delivery :: queue) = delivery.1.size + total queue := rfl

theorem call_frame (socket : HomaSocket) (next : Call) :
    (socket.call next).1.rcvBufSize = socket.rcvBufSize ∧
      (socket.call next).1.shutdownRecv = socket.shutdownRecv := by
  cases next with
  | forwardUp msg source port =>
    rw [call, forwardUp]
    split
    · exact ⟨rfl, rfl⟩
    · split <;> exact ⟨rfl, rfl⟩
  | recvFrom maxSize =>
    rw [call, recvFrom]
    split
    · exact ⟨rfl, rfl⟩
    · split <;> exact ⟨rfl, rfl⟩

theorem forwardUp_eq (hopen : socket.shutdownRecv = false) (hexact : Exact socket)
    (msg : Message) (source : Ipv4Address) (port : Nat) :
    socket.forwardUp msg source port =
      if socket.rxAvailable + msg.size ≤ socket.rcvBufSize ∨
          2 ^ 32 ≤ socket.rxAvailable + msg.size then
        ({ socket with
            deliveryQueue := socket.deliveryQueue ++ [(msg, ⟨source, port⟩)]
            rxAvailable := uint32 (socket.rxAvailable + msg.size) }, .dataRecv)
      else (socket, .dropped) := by
  have hle := hexact.rxAvailable_le
  have hsz := msg.size_lt
  have hroom : uint32 (socket.rxAvailable + msg.size) ≤ socket.rcvBufSize ↔
      socket.rxAvailable + msg.size ≤ socket.rcvBufSize ∨
        2 ^ 32 ≤ socket.rxAvailable + msg.size := by
    rw [uint32]
    omega
  rw [forwardUp, hopen]
  simp only [Bool.false_eq_true, if_false, hroom]

theorem forwardUp_correct (hopen : socket.shutdownRecv = false) (hexact : Exact socket) {msg :
    Message} {source : Ipv4Address} {port : Nat} (hword : socket.rxAvailable + msg.size < 2 ^ 32) :
    Correct socket (.forwardUp msg source port) ∧ Exact (socket.forwardUp msg source port).1 := by
  have hcnt := hexact.rxAvailable_eq
  rw [Correct, forwardUp_eq hopen hexact]
  by_cases hfits : socket.rxAvailable + msg.size ≤ socket.rcvBufSize
  · simp only [hfits, true_or, if_true]
    have hkept : Outcome.dataRecv ≠ .dropped := by decide
    refine ⟨⟨iff_of_false hkept (by omega), (if_neg hkept).symm⟩, ?_, ?_⟩
    · rw [total_concat, uint32_of_lt hword, hcnt]
    · rw [uint32_of_lt hword]
      exact hfits
  · simp only [hfits, not_le.mpr hword, or_self, if_false]
    exact ⟨⟨iff_of_true trivial (by omega), (if_pos trivial).symm⟩, hexact⟩

theorem recvFrom_correct (hexact : Exact socket)
    (maxSize : Nat) : Correct socket (.recvFrom maxSize) ∧ Exact (socket.recvFrom maxSize).1 := by
  have hcnt := hexact.rxAvailable_eq
  have hle := hexact.rxAvailable_le
  have hbuf := socket.rcvBufSize_lt
  rw [Correct, recvFrom]
  cases hq : socket.deliveryQueue with
  | nil => exact ⟨⟨hq, rfl⟩, hexact⟩
  | cons delivery rest =>
    obtain ⟨msg, fromAddress⟩ := delivery
    rw [hq, total_cons] at hcnt
    by_cases hsmall : msg.size ≤ maxSize
    · have hrest : uint32OfInt (socket.rxAvailable - msg.size) = total rest := by
        rw [uint32OfInt, hcnt]
        simp only
        omega
      have hfewer : total rest ≤ socket.rcvBufSize := by
        simp only at hcnt
        omega
      simp only [if_pos hsmall, hrest]
      exact ⟨trivial, rfl, hfewer⟩
    · simp only [if_neg hsmall]
      exact ⟨⟨hq, trivial⟩, hexact⟩

/-! ## Runs -/

theorem run_append (socket : HomaSocket) (front back : List Call) :
    socket.run (front ++ back) = (((socket.run front).1.run back).1,
        (socket.run front).2 ++ ((socket.run front).1.run back).2) := by
  induction front generalizing socket with
  | nil => rfl
  | cons first rest ih => simp only [cons_append, run, ih]

theorem run_concat (socket : HomaSocket) (front : List Call) (next : Call) :
    socket.run (front ++ [next]) = (((socket.run front).1.call next).1,
        (socket.run front).2 ++ [((socket.run front).1.call next).2]) := by
  rw [run_append]
  rfl

theorem length_run (socket : HomaSocket)
    (calls : List Call) : (socket.run calls).2.length = calls.length := by
  induction calls generalizing socket with
  | nil => rfl
  | cons first rest ih => simp only [run, length_cons, ih]

theorem run_rcvBufSize (socket : HomaSocket)
    (calls : List Call) : (socket.run calls).1.rcvBufSize = socket.rcvBufSize := by
  induction calls using reverseRecOn with
  | nil => rfl
  | append_singleton front next ih => rw [run_concat, (call_frame _ next).1, ih]

theorem run_shutdownRecv (socket : HomaSocket)
    (calls : List Call) : (socket.run calls).1.shutdownRecv = socket.shutdownRecv := by
  induction calls using reverseRecOn with
  | nil => rfl
  | append_singleton front next ih => rw [run_concat, (call_frame _ next).2, ih]

theorem accepted_append {front back : List Call} {outcomes later : List Outcome}
    (hlen : outcomes.length = front.length) :
    accepted (front ++ back) (outcomes ++ later) =
      accepted front outcomes ++ accepted back later := by
  induction front generalizing outcomes with
  | nil =>
    obtain rfl := length_eq_zero_iff.mp hlen
    rfl
  | cons first rest ih =>
    obtain ⟨outcome, outcomes, rfl⟩ :=
      exists_cons_of_length_eq_add_one (hlen.trans (length_cons ..))
    have hrest := ih (Nat.succ.inj hlen)
    cases first with
    | forwardUp msg source port =>
      simp only [cons_append, accepted, hrest]
      split <;> rfl
    | recvFrom maxSize => simpa only [cons_append, accepted] using hrest

theorem returned_append (outcomes later : List Outcome) :
    returned (outcomes ++ later) = returned outcomes ++ returned later :=
  filterMap_append

theorem run_inOrder (hempty : socket.deliveryQueue = []) (calls : List Call) :
    accepted calls (socket.run calls).2 =
      returned (socket.run calls).2 ++ (socket.run calls).1.deliveryQueue := by
  induction calls using reverseRecOn with
  | nil => exact hempty.symm
  | append_singleton front next ih =>
    rw [run_concat, accepted_append (length_run socket front), ih, returned_append,
      append_assoc, append_assoc]
    refine congrArg _ ?_
    generalize (socket.run front).1 = before
    cases next with
    | forwardUp msg source port =>
      rw [call, forwardUp]
      split
      · simp [accepted, returned]
      · split <;> simp [accepted, returned]
    | recvFrom maxSize =>
      rw [call, recvFrom]
      cases hq : before.deliveryQueue with
      | nil => simp [accepted, returned, hq]
      | cons delivery rest =>
        simp only
        split
        · simp [accepted, returned]
        · simp [accepted, returned, hq]

theorem run_exact (hopen : socket.shutdownRecv = false)
    (hexact : Exact socket) (hnoWrap : NoWrap socket calls) : Exact (socket.run calls).1 := by
  induction calls using reverseRecOn with
  | nil => exact hexact
  | append_singleton front next ih =>
    have hpre := ih fun inner msg source port back hsplit =>
      hnoWrap inner msg source port (back ++ [next]) (by rw [hsplit]; simp)
    rw [run_concat]
    cases next with
    | forwardUp msg source port =>
      exact (forwardUp_correct ((run_shutdownRecv socket front).trans hopen) hpre
        (hnoWrap front msg source port [] rfl)).2
    | recvFrom maxSize => exact (recvFrom_correct hpre maxSize).2

theorem noWrap_of_room (hopen : socket.shutdownRecv = false)
    (hexact : Exact socket) (hroom : ∀ msg source port, .forwardUp msg source port ∈ calls →
    socket.rcvBufSize + msg.size < 2 ^ 32) : NoWrap socket calls := by
  have hall : ∀ front call back, calls = front ++ call :: back → ∀ msg source port,
      call = .forwardUp msg source port →
        (socket.run front).1.rxAvailable + msg.size < 2 ^ 32 := by
    refine Transition.forall_calls ?_
    rintro front call back hsplit hearly msg source port rfl
    have hpre : NoWrap socket front := fun inner msg source port rest hinner =>
      hearly inner _ rest hinner msg source port rfl
    have hle := (run_exact hopen hexact hpre).rxAvailable_le
    have hsmall := hroom msg source port (by
      rw [hsplit]
      exact mem_append_right _ mem_cons_self)
    rw [run_rcvBufSize] at hle
    omega
  exact fun front msg source port back hsplit =>
    hall front _ back hsplit msg source port rfl

def create (rcvBufSize : Nat) (hword : rcvBufSize < 2 ^ 32) : HomaSocket where
  rcvBufSize := rcvBufSize
  rcvBufSize_lt := hword

theorem create_exact (rcvBufSize : Nat) (hword : rcvBufSize < 2 ^ 32) :
    Exact (create rcvBufSize hword) := ⟨rfl, Nat.zero_le _⟩

/-- A run of a socket is accounted for exactly if no arriving message makes the counter wrap. -/
theorem accounted_iff (rcvBufSize : Nat) (hword : rcvBufSize < 2 ^ 32) (calls : List Call) :
    Accounted (create rcvBufSize hword) calls ↔ NoWrap (create rcvBufSize hword) calls := by
  constructor
  · intro haccounted front msg source port back hsplit
    have hexact := haccounted.exact_of front _ hsplit
    have hopen : ((create rcvBufSize hword).run front).1.shutdownRecv = false :=
      run_shutdownRecv _ _
    have hcorrect := (haccounted.correct_of front _ back hsplit).1
    rw [forwardUp_eq hopen hexact] at hcorrect
    by_contra hwrap
    have hbuf := ((create rcvBufSize hword).run front).1.rcvBufSize_lt
    have hcounted := hexact.rxAvailable_eq
    rw [if_pos (.inr (Nat.not_lt.mp hwrap))] at hcorrect
    cases hcorrect.mpr (by omega)
  · intro hnoWrap
    have hexact : ∀ front back, calls = front ++ back →
        Exact ((create rcvBufSize hword).run front).1 := fun front back hsplit =>
      run_exact rfl (create_exact rcvBufSize hword) fun inner msg source port rest hinner =>
        hnoWrap inner msg source port (rest ++ back) (by rw [hsplit, hinner]; simp)
    refine ⟨hexact, fun front next back hsplit => ?_, fun front _ _ => run_inOrder rfl front⟩
    have hpre := hexact front _ hsplit
    cases next with
    | forwardUp msg source port =>
      exact (forwardUp_correct (run_shutdownRecv _ _) hpre
        (hnoWrap front msg source port back hsplit)).1
    | recvFrom maxSize => exact (recvFrom_correct hpre maxSize).1

theorem accounted_iff_small : Accounted (create 5000 (by decide))
    [.forwardUp ⟨0, 3000, by decide⟩ 1 2, .forwardUp ⟨1, 3000, by decide⟩ 1 2, .recvFrom 4000] :=
  (accounted_iff 5000 (by decide) _).mpr
    (noWrap_of_room rfl (create_exact 5000 (by decide)) fun msg source port hmem => by
      have hsz : msg.size = 3000 := by
        rcases (by simpa using hmem : _ ∨ _) with ⟨rfl, -, -⟩ | ⟨rfl, -, -⟩ <;> rfl
      rw [hsz]
      decide)

def largestMessage : Message := ⟨0, 65535 * 1459, by decide⟩

def unread : List Call := List.replicate 45 (.forwardUp largestMessage 1 2)

/-- With the default buffer the forty-fifth message of `MAX_IPV4_HOMA_MESSAGE_SIZE` makes the
counter wrap: it is queued though there is no room for it. -/
theorem unread_not_accounted :
    ¬ ∀ (rcvBufSize : Nat) (hword : rcvBufSize < 2 ^ 32) (calls : List Call),
      Accounted (create rcvBufSize hword) calls := by
  intro hall
  have hexact := (hall 0xffffffff (by decide) unread).exact_of unread [] (List.append_nil _).symm
  have hqueued : (((create 0xffffffff (by decide)).run unread).1.rxAvailable,
      total ((create 0xffffffff (by decide)).run unread).1.deliveryQueue) =
      (7733129, 4302700425) := by decide +kernel
  obtain ⟨hcounter, htotal⟩ := Prod.mk.inj hqueued
  have hcounted := hcounter.symm.trans (hexact.rxAvailable_eq.trans htotal)
  cases hcounted

end HomaSocket

end HomaSird.Homa
