import HomaSird.Data.SharedEdits
import HomaSird.Data.UnorderedMap
import HomaSird.Data.Word
import HomaSird.Transition.Machine

/-! # Packet tag lists

The lists of all packets live in one store of reference-counted nodes. A function that
follows a pointer to memory that is not allocated, or fails an assertion, has no result.
-/

namespace HomaSird.Network

open HomaSird.Transition

/-- What subclasses of `Tag` provide: a tag reads back what it has written and does not look behind
it. -/
structure TagFormat (TypeId Tag : Type) where
  typeId : Tag → TypeId
  serialize : Tag → List UInt8
  deserialize : TypeId → List UInt8 → Tag
  deserialize_serialize : ∀ tag behind, deserialize (typeId tag) (serialize tag ++ behind) = tag
  size_lt : ∀ tag, (serialize tag).length < 2 ^ 32 - 1

/-- The type and the `size` bytes of data of a node. -/
structure TagContent (TypeId : Type) where
  tid : TypeId
  data : List UInt8
deriving DecidableEq

abbrev ListId := Nat

abbrev TagData (TypeId : Type) := Cell (TagContent TypeId)

abbrev TagStore (TypeId : Type) := SharedCells ListId (TagContent TypeId)

inductive TagFault where
  | danglingPointer
  | assertion
  | outOfFuel
deriving DecidableEq

namespace PacketTagList

variable {TypeId Tag : Type} [DecidableEq TypeId]

/-! ## Memory -/

def deref (store : TagStore TypeId) (address : Nat) : Except TagFault (TagData TypeId) :=
  match store.cells.lookup address with
  | some data => .ok data
  | none => .error .danglingPointer

/-- The pointer `m_next` of a list. -/
def mNext (store : TagStore TypeId) (list : ListId) : Except TagFault (Option Nat) :=
  match store.heads.lookup list with
  | some target => .ok target
  | none => .error .danglingPointer

/-- `*prevNext = target` -/
def setPointer (store : TagStore TypeId) (prevNext : Slot ListId) (target : Option Nat) :
    Except TagFault (TagStore TypeId) :=
  match store.get prevNext with
  | some _ => .ok (store.set prevNext target)
  | none => .error .danglingPointer

def increment (store : TagStore TypeId) (address : Nat) : Except TagFault (TagStore TypeId) := do
  let _ ← deref store address
  return store.adjust address fun count => uint32 (count + 1)

def decrement (store : TagStore TypeId) (address : Nat) : Except TagFault (TagStore TypeId) := do
  let _ ← deref store address
  return store.adjust address fun count => uint32 (count + (2 ^ 32 - 1))

def incrementNonNull (store : TagStore TypeId) (target : Option Nat) :
    Except TagFault (TagStore TypeId) :=
  match target with
  | some address => increment store address
  | none => .ok store

/-- `CreateTagData`, and the fields that its callers then set. -/
def createTagData (store : TagStore TypeId) (data : TagData TypeId) :
    Except TagFault (Nat × TagStore TypeId) :=
  if data.payload.data.length < 2 ^ 32 - 1 then .ok (store.fresh, store.alloc data)
  else .error .assertion

def loopFuel (store : TagStore TypeId) : Nat := store.cells.keys.card + 1

def findLoop (store : TagStore TypeId) (tid : TypeId) :
    Nat → Option Nat → Except TagFault (Option (TagContent TypeId))
  | 0, _ => .error .outOfFuel
  | _ + 1, none => .ok none
  | fuel + 1, some cur => do
    let data ← deref store cur
    if data.payload.tid = tid then return some data.payload
    else findLoop store tid fuel data.next

/-! ## The traversal -/

/-- The first loop of `COWTraverse`: up to the type or to a merge. -/
def searchLoop (store : TagStore TypeId) (tid : TypeId) :
    Nat → Slot ListId → Option Nat → Except TagFault (Slot ListId × Option Nat × Bool)
  | 0, _, _ => .error .outOfFuel
  | _ + 1, prevNext, none => .ok (prevNext, none, false)
  | fuel + 1, prevNext, some cur => do
    let data ← deref store cur
    if data.count > 1 then return (prevNext, some cur, false)
    else if data.payload.tid = tid then return (prevNext, some cur, true)
    else searchLoop store tid fuel (.next cur) data.next

/-- What the traversal would call its writer on before any merge. -/
def inPlace (store : TagStore TypeId) (list : ListId) (tid : TypeId) :
    Option (TagContent TypeId) :=
  match mNext store list with
  | .error _ => none
  | .ok first =>
    match searchLoop store tid (loopFuel store) (.head list) first with
    | .ok (_, some cur, true) => (store.cells.lookup cur).map Cell.payload
    | _ => none

/-- The copying loop of `COWTraverse`. -/
def copyLoop (tid : TypeId) : Nat → TagStore TypeId → Slot ListId → Nat →
    Except TagFault (TagStore TypeId × Slot ListId × Nat)
  | 0, _, _, _ => .error .outOfFuel
  | fuel + 1, store, prevNext, cur => do
    let data ← deref store cur
    if data.payload.tid = tid then return (store, prevNext, cur)
    else if data.count ≤ 1 then throw .assertion
    else
      let store ← decrement store cur
      let (copy, store) ← createTagData store ⟨data.next, 1, data.payload⟩
      match data.next with
      | none => throw .danglingPointer
      | some next =>
        let store ← increment store next
        let store ← setPointer store prevNext (some copy)
        copyLoop tid fuel store (.next copy) next

/-- `COWTraverse`; nothing where the type is not found. -/
def cowTraverse {Result : Type} (tid : TypeId)
    (writer : TagStore TypeId → Bool → Nat → Slot ListId →
      Except TagFault (Result × TagStore TypeId))
    (store : TagStore TypeId) (list : ListId) :
    Except TagFault (Option Result × TagStore TypeId) := do
  let first ← mNext store list
  match ← searchLoop store tid (loopFuel store) (.head list) first with
  | (_, none, _) => return (none, store)
  | (prevNext, some cur, true) =>
    let (result, store) ← writer store true cur prevNext
    return (some result, store)
  | (prevNext, some cur, false) =>
    match ← findLoop store tid (loopFuel store) (some cur) with
    | none => return (none, store)
    | some _ =>
      let (store, prevNext, cur) ← copyLoop tid (loopFuel store) store prevNext cur
      let (result, store) ← writer store false cur prevNext
      return (some result, store)

def removeWriter (format : TagFormat TypeId Tag) (store : TagStore TypeId) (preMerge : Bool)
    (cur : Nat) (prevNext : Slot ListId) : Except TagFault (Tag × TagStore TypeId) := do
  let data ← deref store cur
  let tag := format.deserialize data.payload.tid data.payload.data
  let store ← setPointer store prevNext data.next
  if preMerge then return (tag, store.free cur)
  else
    let store ← decrement store cur
    let store ← incrementNonNull store data.next
    return (tag, store)

/-- `Serialize` into the buffer of a node. -/
def serializeInto (format : TagFormat TypeId Tag) (tag : Tag) (data : List UInt8) :
    Except TagFault (List UInt8) :=
  let bytes := format.serialize tag
  -- a byte written at the end of the buffer fails the assertion of `TagBuffer`
  if bytes.length ≤ data.length then .ok (bytes ++ data.drop bytes.length)
  else .error .assertion

def replaceWriter (format : TagFormat TypeId Tag) (tag : Tag) (store : TagStore TypeId)
    (preMerge : Bool) (cur : Nat) (prevNext : Slot ListId) :
    Except TagFault (Unit × TagStore TypeId) := do
  let data ← deref store cur
  if preMerge then
    let bytes ← serializeInto format tag data.payload.data
    return ((), store.overwrite cur ⟨data.payload.tid, bytes⟩)
  else
    let store ← decrement store cur
    let (copy, store) ← createTagData store
      ⟨data.next, 1, format.typeId tag, format.serialize tag⟩
    let store ← incrementNonNull store data.next
    let store ← setPointer store prevNext (some copy)
    return ((), store)

/-! ## The operations -/

/-- `Remove`, with the tag it finds. -/
def remove (format : TagFormat TypeId Tag) (tid : TypeId) (store : TagStore TypeId)
    (list : ListId) : Except TagFault (Option Tag × TagStore TypeId) :=
  cowTraverse tid (removeWriter format) store list

def add (format : TagFormat TypeId Tag) (tag : Tag) (store : TagStore TypeId) (list : ListId) :
    Except TagFault (TagStore TypeId) := do
  let first ← mNext store list
  match ← findLoop store (format.typeId tag) (loopFuel store) first with
  | some _ => throw .assertion
  | none =>
    let (head, store) ← createTagData store
      ⟨first, 1, format.typeId tag, format.serialize tag⟩
    setPointer store (.head list) (some head)

def replace (format : TagFormat TypeId Tag) (tag : Tag) (store : TagStore TypeId)
    (list : ListId) : Except TagFault (Bool × TagStore TypeId) := do
  match ← cowTraverse (format.typeId tag) (replaceWriter format tag) store list with
  | (some _, store) => return (true, store)
  | (none, store) =>
    let store ← add format tag store list
    return (false, store)

def peek (format : TagFormat TypeId Tag) (tid : TypeId) (store : TagStore TypeId)
    (list : ListId) : Except TagFault (Option Tag) := do
  let first ← mNext store list
  let found ← findLoop store tid (loopFuel store) first
  return found.map fun content => format.deserialize content.tid content.data

def freeNonNull (store : TagStore TypeId) : Option Nat → TagStore TypeId
  | some address => store.free address
  | none => store

/-- The loop of `RemoveAll`: what is kept of the nodes, and the last one passed. -/
def removeLoop : Nat → TagStore TypeId → Option Nat → Option Nat →
    Except TagFault (TagStore TypeId × Option Nat)
  | 0, _, _, _ => .error .outOfFuel
  | _ + 1, store, prev, none => .ok (store, prev)
  | fuel + 1, store, prev, some cur => do
    let store ← decrement store cur
    let data ← deref store cur
    if data.count > 0 then return (store, prev)
    else removeLoop fuel (freeNonNull store prev) (some cur) data.next

def removeAll (store : TagStore TypeId) (list : ListId) : Except TagFault (TagStore TypeId) := do
  let first ← mNext store list
  let (store, prev) ← removeLoop (loopFuel store) store none first
  setPointer (freeNonNull store prev) (.head list) none

def copyConstruct (store : TagStore TypeId) (list o : ListId) :
    Except TagFault (TagStore TypeId) := do
  let first ← mNext store o
  incrementNonNull (store.set (.head list) first) first

def assign (store : TagStore TypeId) (list o : ListId) : Except TagFault (TagStore TypeId) := do
  let own ← mNext store list
  let other ← mNext store o
  if own = other then return store
  else
    let store ← removeAll store list
    let first ← mNext store o
    let store ← setPointer store (.head list) first
    incrementNonNull store first

def destroy (store : TagStore TypeId) (list : ListId) : Except TagFault (TagStore TypeId) := do
  let store ← removeAll store list
  return store.forget list

end PacketTagList

/-! ## Families of lists under any sequence of calls -/

inductive TagCall (TypeId Tag : Type) where
  | create (list : ListId)
  | copy (list o : ListId)
  | assign (list o : ListId)
  | destroy (list : ListId)
  | add (list : ListId) (tag : Tag)
  | remove (list : ListId) (tid : TypeId)
  | replace (list : ListId) (tag : Tag)
  | peek (list : ListId) (tid : TypeId)
deriving DecidableEq

inductive TagResult (Tag : Type) where
  | done
  | found (tag : Option Tag)
  | replaced (found : Bool)
deriving DecidableEq

abbrev TagMap (TypeId Tag : Type) := UnorderedMap TypeId Tag

abbrev TagMaps (TypeId Tag : Type) := UnorderedMap ListId (TagMap TypeId Tag)

namespace TagCall

variable {TypeId Tag : Type} [DecidableEq TypeId]

def perform (format : TagFormat TypeId Tag) (store : TagStore TypeId) :
    TagCall TypeId Tag → Except TagFault (TagResult Tag × TagStore TypeId)
  | create list => .ok (.done, store.set (.head list) none)
  | copy list o => do
    let store ← PacketTagList.copyConstruct store list o
    return (.done, store)
  | assign list o => do
    let store ← PacketTagList.assign store list o
    return (.done, store)
  | destroy list => do
    let store ← PacketTagList.destroy store list
    return (.done, store)
  | add list tag => do
    let store ← PacketTagList.add format tag store list
    return (.done, store)
  | remove list tid => do
    let (tag, store) ← PacketTagList.remove format tid store list
    return (.found tag, store)
  | replace list tag => do
    let (found, store) ← PacketTagList.replace format tag store list
    return (.replaced found, store)
  | peek list tid => do
    let tag ← PacketTagList.peek format tid store list
    return (.found tag, store)

def mapOf (maps : TagMaps TypeId Tag) (list : ListId) : TagMap TypeId Tag :=
  UnorderedMap.getD maps list ∅

def expect (format : TagFormat TypeId Tag) (maps : TagMaps TypeId Tag) :
    TagCall TypeId Tag → TagResult Tag × TagMaps TypeId Tag
  | create list => (.done, maps.insert list ∅)
  | copy list o => (.done, maps.insert list (mapOf maps o))
  | assign list o => (.done, maps.insert list (mapOf maps o))
  | destroy list => (.done, maps.erase list)
  | add list tag => (.done, maps.insert list ((mapOf maps list).insert (format.typeId tag) tag))
  | remove list tid =>
    (.found ((mapOf maps list).lookup tid), maps.insert list ((mapOf maps list).erase tid))
  | replace list tag =>
    let map := mapOf maps list
    if (map.lookup (format.typeId tag)).isSome then
      (.replaced true, maps.insert list (map.replace (format.typeId tag) tag))
    else (.replaced false, maps.insert list (map.insert (format.typeId tag) tag))
  | peek list tid => (.found ((mapOf maps list).lookup tid), maps)

/-- Calls on lists that exist, with new lists made under new names. -/
def Offered (format : TagFormat TypeId Tag) (maps : TagMaps TypeId Tag) :
    TagCall TypeId Tag → Prop
  | create list => list ∉ maps
  | copy list o => list ∉ maps ∧ o ∈ maps
  | assign list o => list ∈ maps ∧ o ∈ maps
  | destroy list => list ∈ maps
  | add list tag => list ∈ maps ∧ (mapOf maps list).lookup (format.typeId tag) = none
  | remove list _ => list ∈ maps
  | replace list _ => list ∈ maps
  | peek list _ => list ∈ maps

/-- No node has more references than its count can tell, and a tag written in place is no longer
than the one before. -/
def Fits (format : TagFormat TypeId Tag) (store : TagStore TypeId) (call : TagCall TypeId Tag) :
    Prop :=
  (∀ address < store.fresh, store.countOf address < 2 ^ 32 - 1) ∧
    match call with
    | replace list tag => ∀ content ∈ PacketTagList.inPlace store list (format.typeId tag),
        (format.serialize tag).length ≤ content.data.length
    | _ => True

instance (format : TagFormat TypeId Tag) (maps : TagMaps TypeId Tag) :
    DecidablePred (Offered format maps)
  | create list => inferInstanceAs (Decidable (list ∉ maps))
  | copy list o => inferInstanceAs (Decidable (list ∉ maps ∧ o ∈ maps))
  | assign list o => inferInstanceAs (Decidable (list ∈ maps ∧ o ∈ maps))
  | destroy list => inferInstanceAs (Decidable (list ∈ maps))
  | add list tag => inferInstanceAs
      (Decidable (list ∈ maps ∧ (mapOf maps list).lookup (format.typeId tag) = none))
  | remove list _ => inferInstanceAs (Decidable (list ∈ maps))
  | replace list _ => inferInstanceAs (Decidable (list ∈ maps))
  | peek list _ => inferInstanceAs (Decidable (list ∈ maps))

instance (format : TagFormat TypeId Tag) (store : TagStore TypeId) :
    DecidablePred (Fits format store)
  | replace list tag => inferInstanceAs (Decidable (_ ∧ ∀ content ∈ PacketTagList.inPlace store
      list (format.typeId tag), (format.serialize tag).length ≤ content.data.length))
  | create _ | copy _ _ | assign _ _ | destroy _ | add _ _ | remove _ _ | peek _ _ =>
    inferInstanceAs (Decidable (_ ∧ True))

end TagCall

/-- The lists as the code keeps them, and the maps kept beside them. -/
structure TagLists (TypeId Tag : Type) where
  store : TagStore TypeId := ⟨∅, ∅, 0⟩
  maps : TagMaps TypeId Tag := ∅

namespace TagLists

variable {TypeId Tag : Type} [DecidableEq TypeId]

def step (format : TagFormat TypeId Tag) (lists : TagLists TypeId Tag)
    (call : TagCall TypeId Tag) : Except TagFault (TagLists TypeId Tag) := do
  let (_, store) ← call.perform format lists.store
  return ⟨store, (call.expect format lists.maps).2⟩

def machine (format : TagFormat TypeId Tag) :
    Machine (TagLists TypeId Tag) (TagCall TypeId Tag) TagFault where
  init := {}
  step := step format

end TagLists

end HomaSird.Network
