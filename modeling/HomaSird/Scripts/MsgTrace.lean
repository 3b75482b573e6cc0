import Mathlib.Data.List.Pairwise
import Std.Data.String.ToInt

/-! # The message trace of `sim1`

`parse_msg_trace` pairs every finish with the oldest start of its key that is left. A message that
is given up leaves its start there.
-/

namespace HomaSird.Scripts.Sim1Plot

open List

/-- Source, destination, `txMsgId` and size. -/
abbrev Key := String × String × String × Int

abbrev MsgRecord := Int × Int × Int × String × String

structure Parse where
  starts : Key → List Int
  records : List MsgRecord

/-- The parts of a line are those of `split`; `int` reads what `toInt?` reads. -/
def parseLine (parse : Parse) (parts : List String) : Parse :=
  match parts with
  | [event, timeNsS, sizeS, src, dst, txMsgId] =>
    match timeNsS.toInt?, sizeS.toInt? with
    | some timeNs, some size =>
      let key := (src, dst, txMsgId, size)
      if event = "+" then
        { parse with
          starts := Function.update parse.starts key (parse.starts key ++ [timeNs]) }
      else if event = "-" then
        match parse.starts key with
        | [] => parse
        | startNs :: rest =>
          ⟨Function.update parse.starts key rest,
            parse.records ++ [(startNs, timeNs, size, src, dst)]⟩
      else parse
    | _, _ => parse
  | _ => parse

def parseFrom (parse : Parse) (lines : List (List String)) : Parse := lines.foldl parseLine parse

def parseMsgTrace (lines : List (List String)) : List MsgRecord :=
  (parseFrom ⟨fun _ => [], []⟩ lines).records

/-! ## The trace -/

structure Message where
  startNs : Int
  size : Nat
  src : String
  dst : String
  txMsgId : Int
deriving DecidableEq

inductive Event
  | msgBegin (msg : Message)
  | msgFinish (msg : Message) (timeNs : Int)

namespace Message

def key (msg : Message) : Key := (msg.src, msg.dst, msg.txMsgId.repr, msg.size)

def record (msg : Message) (timeNs : Int) : MsgRecord :=
  (msg.startNs, timeNs, msg.size, msg.src, msg.dst)

end Message

/-- `TraceMsgBegin` and `TraceMsgFinish` -/
def Event.line : Event → List String
  | .msgBegin msg => ["+", msg.startNs.repr, msg.size.repr, msg.src, msg.dst, msg.txMsgId.repr]
  | .msgFinish msg timeNs =>
    ["-", timeNs.repr, msg.size.repr, msg.src, msg.dst, msg.txMsgId.repr]

def Event.record : Event → Option MsgRecord
  | .msgBegin _ => none
  | .msgFinish msg timeNs => some (msg.record timeNs)

/-- Source, destination and `txMsgId` of a key. -/
def channel (key : Key) : String × String × String := (key.1, key.2.1, key.2.2.1)

/-- The last message begun in each channel, while it has not finished, and the messages given up
when an id was begun again. -/
structure Senders where
  current : String × String × String → Option Message
  abandoned : Key → List Message
  nowNs : Int

namespace Senders

def start : Senders := ⟨fun _ => none, fun _ => [], 0⟩

def pending (senders : Senders) (key : Key) : List Message :=
  (senders.current (channel key)).toList.filter fun msg => msg.key = key

def next (senders : Senders) : Event → Senders
  | .msgBegin msg =>
    { current := Function.update senders.current (channel msg.key) (some msg)
      abandoned := fun key =>
        if channel key = channel msg.key then senders.abandoned key ++ senders.pending key
        else senders.abandoned key
      nowNs := msg.startNs }
  | .msgFinish msg timeNs =>
    { senders with
      current := Function.update senders.current (channel msg.key) none
      nowNs := timeNs }

def Admits (senders : Senders) : Event → Prop
  | .msgBegin msg => senders.nowNs ≤ msg.startNs
  | .msgFinish msg timeNs =>
    senders.current (channel msg.key) = some msg ∧ senders.nowNs ≤ timeNs

/-- No message with the same key that began at another time was given up before. -/
def Clean (senders : Senders) : Event → Prop
  | .msgBegin _ => True
  | .msgFinish msg _ => ∀ old ∈ senders.abandoned msg.key, old.startNs = msg.startNs

def Throughout (holds : Senders → Event → Prop) : Senders → List Event → Prop
  | _, [] => True
  | senders, event :: events => holds senders event ∧ Throughout holds (senders.next event) events

structure Follows (senders : Senders) (parse : Parse) : Prop where
  starts : ∀ key, parse.starts key =
    (senders.abandoned key ++ senders.pending key).map Message.startNs
  sorted : ∀ key, (parse.starts key).Pairwise (· ≤ ·)
  past : ∀ key, ∀ startNs ∈ parse.starts key, startNs ≤ senders.nowNs

variable {senders : Senders} {parse : Parse} {msg : Message} {timeNs : Int}

theorem follows_start (records : List MsgRecord) : Follows start ⟨fun _ => [], records⟩ where
  starts _ := rfl
  sorted _ := List.Pairwise.nil
  past _ _ hmem := nomatch hmem

theorem parseLine_begin (parse : Parse) (msg : Message) :
    parseLine parse (Event.msgBegin msg).line = ⟨Function.update parse.starts msg.key
        (parse.starts msg.key ++ [msg.startNs]), parse.records⟩ := by
  simp only [Event.line, parseLine, Int.toInt?_repr, Nat.toInt?_repr, if_true, Message.key]

theorem parseLine_finish {startNs : Int} {rest : List Int}
    (hstarts : parse.starts msg.key = startNs :: rest) :
    parseLine parse (Event.msgFinish msg timeNs).line = ⟨Function.update parse.starts msg.key rest,
        parse.records ++ [(startNs, timeNs, (msg.size : Int), msg.src, msg.dst)]⟩ := by
  rw [Message.key] at hstarts
  simp only [Event.line, parseLine, Int.toInt?_repr, Nat.toInt?_repr, Message.key, hstarts]
  rfl

theorem records_parseLine (parse : Parse)
    (parts : List String) : ∃ more, (parseLine parse parts).records = parse.records ++ more := by
  have hnone : ∃ more, parse.records = parse.records ++ more := ⟨[], (append_nil _).symm⟩
  unfold parseLine
  split
  · split
    · dsimp only
      split
      · exact hnone
      · split
        · split
          · exact hnone
          · exact ⟨_, rfl⟩
        · exact hnone
    · exact hnone
  · exact hnone

theorem records_parseFrom (parse : Parse) (lines : List (List String)) :
    ∃ more, (parseFrom parse lines).records = parse.records ++ more := by
  induction lines generalizing parse with
  | nil => exact ⟨[], (append_nil _).symm⟩
  | cons parts lines ih =>
    obtain ⟨more, hmore⟩ := ih (parseLine parse parts)
    obtain ⟨first, hfst⟩ := records_parseLine parse parts
    refine ⟨first ++ more, ?_⟩
    rw [parseFrom, foldl_cons, ← parseFrom, hmore, hfst, append_assoc]

theorem abandoned_begin (key : Key) :
    (senders.next (.msgBegin msg)).abandoned key =
      if channel key = channel msg.key then senders.abandoned key ++ senders.pending key
      else senders.abandoned key := rfl

theorem current_begin :
    (senders.next (.msgBegin msg)).current =
      Function.update senders.current (channel msg.key) (some msg) := rfl

theorem current_finish :
    (senders.next (.msgFinish msg timeNs)).current =
      Function.update senders.current (channel msg.key) none := rfl

theorem pending_of_some {key : Key} (hcur : senders.current (channel key) = some msg) :
    senders.pending key = if msg.key = key then [msg] else [] := by
  rw [pending, hcur, Option.toList_some, filter_cons, filter_nil]
  simp only [decide_eq_true_eq]

theorem Follows.begin (hfollows : Follows senders parse) (hnow : senders.nowNs ≤ msg.startNs) :
    Follows (senders.next (.msgBegin msg)) (parseLine parse (Event.msgBegin msg).line) := by
  obtain ⟨hstarts, hsort, hpast⟩ := hfollows
  have hqs : (parseLine parse (Event.msgBegin msg).line).starts =
      Function.update parse.starts msg.key (parse.starts msg.key ++ [msg.startNs]) := by
    rw [parseLine_begin]
  refine ⟨fun key => ?_, fun key => ?_, fun key => ?_⟩ <;> rw [hqs]
  · by_cases hchan : channel key = channel msg.key
    · have hpend : (senders.next (.msgBegin msg)).pending key =
          if msg.key = key then [msg] else [] :=
        pending_of_some (by rw [current_begin, hchan, Function.update_self])
      rw [hpend, abandoned_begin, if_pos hchan]
      by_cases hkey : key = msg.key
      · rw [hkey, if_pos rfl, Function.update_self, hstarts, @List.map_append _ _ _ _ [msg]]
        rfl
      · rw [if_neg (Ne.symm hkey), Function.update_of_ne hkey, append_nil, hstarts]
    · have hkey : key ≠ msg.key := fun hsame => hchan (congrArg channel hsame)
      have hpend : (senders.next (.msgBegin msg)).pending key = senders.pending key := by
        rw [pending, pending, current_begin, Function.update_of_ne hchan]
      rw [hpend, abandoned_begin, if_neg hchan, Function.update_of_ne hkey, hstarts]
  · rcases eq_or_ne key msg.key with rfl | hkey
    · rw [Function.update_self, pairwise_append]
      refine ⟨hsort _, pairwise_singleton _ _, fun startNs hmem other hother => ?_⟩
      rw [mem_singleton.mp hother]
      exact Int.le_trans (hpast _ startNs hmem) hnow
    · rw [Function.update_of_ne hkey]
      exact hsort key
  · rcases eq_or_ne key msg.key with rfl | hkey
    · rw [Function.update_self, forall_mem_append, forall_mem_singleton]
      exact ⟨fun startNs hmem => Int.le_trans (hpast _ startNs hmem) hnow, Int.le_refl _⟩
    · rw [Function.update_of_ne hkey]
      exact fun startNs hmem => Int.le_trans (hpast key startNs hmem) hnow

theorem Follows.starts_current (hfollows : Follows senders parse)
    (hcur : senders.current (channel msg.key) = some msg) :
    parse.starts msg.key = (senders.abandoned msg.key).map Message.startNs ++ [msg.startNs] := by
  rw [hfollows.starts, pending_of_some hcur, if_pos rfl, map_append]
  rfl

theorem map_append_of_forall {old : List Message}
    (hold : ∀ other ∈ old, other.startNs = msg.startNs) :
    old.map Message.startNs ++ [msg.startNs] = msg.startNs :: old.map Message.startNs := by
  induction old with
  | nil => rfl
  | cons other rest ih =>
    obtain ⟨hother, hrest⟩ := forall_mem_cons.mp hold
    rw [map_cons, cons_append, ih hrest, hother]

theorem Follows.finish (hfollows : Follows senders parse)
    (hadmits : senders.Admits (.msgFinish msg timeNs))
    (hclean : senders.Clean (.msgFinish msg timeNs)) :
    (parseLine parse (Event.msgFinish msg timeNs).line).records =
      parse.records ++ [msg.record timeNs] ∧
      Follows (senders.next (.msgFinish msg timeNs))
        (parseLine parse (Event.msgFinish msg timeNs).line) := by
  obtain ⟨hcur, hnow⟩ := hadmits
  have hq := hfollows.starts_current hcur
  rw [map_append_of_forall hclean] at hq
  obtain ⟨hstarts, hsort, hpast⟩ := hfollows
  have hline := @parseLine_finish _ _ timeNs _ _ hq
  have hqs := congrArg Parse.starts hline
  dsimp only at hqs
  refine ⟨congrArg Parse.records hline, ?_⟩
  refine ⟨fun key => ?_, fun key => ?_, fun key => ?_⟩ <;> rw [hqs]
  · rcases eq_or_ne key msg.key with rfl | hkey
    · rw [Function.update_self, pending, current_finish, Function.update_self]
      exact congrArg (map Message.startNs) (append_nil _).symm
    · have hpend : (senders.next (.msgFinish msg timeNs)).pending key = senders.pending key := by
        by_cases hchan : channel key = channel msg.key
        · have hpre : senders.pending key = [] := by
            rw [pending_of_some (hchan ▸ hcur), if_neg (Ne.symm hkey)]
          rw [hpre, pending, current_finish, hchan, Function.update_self]
          rfl
        · rw [pending, pending, current_finish, Function.update_of_ne hchan]
      rw [hpend, Function.update_of_ne hkey, hstarts]
      rfl
  · rcases eq_or_ne key msg.key with rfl | hkey
    · rw [Function.update_self]
      exact (pairwise_cons.mp (hq ▸ hsort msg.key)).2
    · rw [Function.update_of_ne hkey]
      exact hsort key
  · rcases eq_or_ne key msg.key with rfl | hkey
    · rw [Function.update_self]
      exact fun startNs hmem =>
        Int.le_trans (hpast msg.key startNs (hq ▸ mem_cons_of_mem _ hmem)) hnow
    · rw [Function.update_of_ne hkey]
      exact fun startNs hmem => Int.le_trans (hpast key startNs hmem) hnow

theorem Follows.taken (hfollows : Follows senders parse)
    (hadmits : senders.Admits (.msgFinish msg timeNs))
    (hunclean : ¬ senders.Clean (.msgFinish msg timeNs)) :
    ∃ record,
      record ≠ msg.record timeNs ∧
        (parseLine parse (Event.msgFinish msg timeNs).line).records =
          parse.records ++ [record] := by
  have hq := hfollows.starts_current hadmits.1
  have hsort := hfollows.sorted msg.key
  rw [hq] at hsort
  cases hold : senders.abandoned msg.key with
  | nil => exact absurd (fun old hmem => by rw [hold] at hmem; cases hmem) hunclean
  | cons first rest =>
    rw [hold, map_cons, cons_append] at hq hsort
    refine ⟨(first.startNs, timeNs, msg.size, msg.src, msg.dst), fun hsame => hunclean ?_, ?_⟩
    · -- the oldest start is the latest one, and so are all between them
      have hfst : first.startNs = msg.startNs := congrArg Prod.fst hsame
      intro old hmem
      rw [hold] at hmem
      rcases mem_cons.mp hmem with rfl | hrest
      · exact hfst
      · obtain ⟨hle, htail⟩ := pairwise_cons.mp hsort
        have hstart := mem_map_of_mem (f := Message.startNs) hrest
        have hlast := (pairwise_append.mp htail).2.2 _ hstart _ (mem_singleton_self _)
        have hearly := hle _ (mem_append_left _ hstart)
        omega
    · rw [parseLine_finish hq]

theorem Follows.records_iff {events : List Event} (hfollows : Follows senders parse)
    (htrace : Throughout Admits senders events) :
    (parseFrom parse (events.map Event.line)).records =
      parse.records ++ events.filterMap Event.record ↔
      Throughout Clean senders events := by
  induction events generalizing senders parse with
  | nil => exact iff_of_true (append_nil _).symm trivial
  | cons event events ih =>
    obtain ⟨hadmits, hrest⟩ := htrace
    rw [map_cons, parseFrom, foldl_cons, ← parseFrom, Throughout]
    cases event with
    | msgBegin msg =>
      have hnext := hfollows.begin hadmits
      rw [filterMap_cons_none rfl, ← ih hnext hrest, parseLine_begin]
      exact (and_iff_right trivial).symm
    | msgFinish msg timeNs =>
      have hown : Event.record (.msgFinish msg timeNs) = some (msg.record timeNs) := rfl
      rw [filterMap_cons_some hown]
      by_cases hclean : senders.Clean (.msgFinish msg timeNs)
      · obtain ⟨hrecords, hnext⟩ := hfollows.finish hadmits hclean
        rw [← ih hnext hrest, hrecords, append_assoc, and_iff_right hclean]
        rfl
      · obtain ⟨record, hother, hrecords⟩ := hfollows.taken hadmits hclean
        obtain ⟨more, hmore⟩ := records_parseFrom
          (parseLine parse (Event.msgFinish msg timeNs).line) (events.map Event.line)
        rw [hmore, hrecords, append_assoc]
        refine iff_of_false (fun hsame => ?_) (fun hboth => hclean hboth.1)
        exact hother (head_eq_of_cons_eq (append_cancel_left hsame))

/-- The records are those of the finished messages, each with its own start, exactly where none
finishes after one with its key that began at another time was given up. -/
theorem parseMsgTrace_eq_iff (events : List Event) (htrace : Throughout Admits start events) :
    parseMsgTrace (events.map Event.line) = events.filterMap Event.record ↔
      Throughout Clean start events := by
  have hrecords := (follows_start []).records_iff htrace
  rw [List.nil_append] at hrecords
  exact hrecords

def sized (startNs : Int) : Message :=
  ⟨startNs, 1000, "10.10.0.1:30000", "10.10.1.1:30000", 7⟩

theorem admits_sized (hnow : senders.nowNs ≤ 100) :
    Throughout Admits senders [.msgBegin (sized 100), .msgFinish (sized 100) 150] := by
  refine ⟨hnow, ⟨?_, (by decide : (100 : Int) ≤ 150)⟩, trivial⟩
  rw [current_begin, Function.update_self]

theorem parseMsgTrace_eq_once :
    parseMsgTrace ([.msgBegin (sized 100), .msgFinish (sized 100) 150].map Event.line) =
      [(sized 100).record 150] :=
  (parseMsgTrace_eq_iff _ (admits_sized (by decide))).mpr
    ⟨trivial, fun _ hmem => by simp [start, next, pending] at hmem, trivial⟩

/-- The message that began at 0 is given up; the one that takes 50 ns is reported with 150 ns. -/
theorem parseMsgTrace_ne_reused :
    let events := [.msgBegin (sized 0), .msgBegin (sized 100), .msgFinish (sized 100) 150]
    Throughout Admits start events ∧
      parseMsgTrace (events.map Event.line) ≠ events.filterMap Event.record := by
  have htrace : Throughout Admits start
      [.msgBegin (sized 0), .msgBegin (sized 100), .msgFinish (sized 100) 150] :=
    ⟨Int.le_refl 0, admits_sized (by decide)⟩
  refine ⟨htrace, fun hsame => ?_⟩
  obtain ⟨-, -, hclean, -⟩ := ((follows_start []).records_iff htrace).mp hsame
  have hold := hclean (sized 0) (by
    simp [start, next, pending, sized, Message.key, channel])
  exact absurd hold (by decide)

end Senders

end HomaSird.Scripts.Sim1Plot
