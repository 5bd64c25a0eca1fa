import Mathlib.Logic.Function.Basic

/-
  The persistent-memory data model of kvdk's sorted-collection rebuilder
  (`engine/sorted_collection/rebuilder.cpp`).

  A `DLRecord` lives at a persistent-memory offset.  The rebuilder reads its type and status,
  its key (the collection name for a header, the internal key for an element), the collection
  ID that `Skiplist::FetchID` extracts, its timestamp, the `prev`/`next` offsets of the circular
  doubly-linked list through the collection's header, the `old_version` offset of its version
  chain, the checksum test `Validate()` and `HasExpired()`; of a header it also decodes the
  value into `(collection_id, configs)`.

  Pointers and offsets coincide (`offset2addr` is the identity off the null offset), so the
  whole of persistent memory is one map `PMem` from offsets to records, and every persistent
  write of the rebuilder (`PersistPrevNT`, `PersistOldVersion`, `Destroy`, ...) is a
  `PMem.modify` of one record.  Each write comes with its read-back lemmas: the field it writes
  reads back at the written record, and every other field reads through unchanged, so that no
  later proof unfolds a write.

  Failures: `kvdk_assert` throws, and the model returns `Fault.assertion` with the source's
  message.  Every `while` loop of the rebuilder runs under a fuel bound and ends in
  `Fault.outOfFuel` when the bound is used up, so that "the loop terminates" is a statement
  about the model and not an assumption of it.
-/

namespace Kvdk

/-! ## Statuses, faults and assertions -/

/-- The `Status` values the rebuilder produces or tests. -/
inductive Status where
  | Ok
  | NotFound
  | Abort
  deriving DecidableEq, Repr

/-- How a run of the model can fail other than by returning a non-`Ok` status: a
`kvdk_assert` (or `assert`) that does not hold, a loop that did not finish within the fuel it
was given, a write to a DRAM node's pointer at a level outside its tower, or a checked
dereference of the null offset. -/
inductive Fault where
  | assertion (msg : String)
  | outOfFuel
  | badLevel
  | invalidOffset
  deriving DecidableEq, Repr

/-- `kvdk_assert(cond, msg)`: throws `msg` when `cond` fails. -/
def kvdkAssert (cond : Prop) [Decidable cond] (msg : String) : Except Fault Unit :=
  if cond then pure () else throw (.assertion msg)

/-- A bind in `Except` returns `ok` exactly when both of its parts do: the one inversion lemma
that every run of the model is taken apart with. -/
@[simp] theorem except_bind_eq_ok {ε α β : Type} {x : Except ε α} {f : α → Except ε β} {b : β} :
    x >>= f = .ok b ↔ ∃ a, x = .ok a ∧ f a = .ok b := by
  cases x <;> simp [bind, Except.bind]

@[simp] theorem except_pure_eq_ok {ε α : Type} {a b : α} :
    (pure a : Except ε α) = .ok b ↔ a = b := by
  simp [pure, Except.pure]

@[simp] theorem except_map_eq_ok {ε α β : Type} {x : Except ε α} {f : α → β} {b : β} :
    f <$> x = .ok b ↔ ∃ a, x = .ok a ∧ f a = b := by
  cases x <;> simp [Functor.map, Except.map]

@[simp] theorem kvdkAssert_eq_ok {cond : Prop} [Decidable cond] {msg : String} {u : Unit} :
    kvdkAssert cond msg = .ok u ↔ cond := by
  by_cases h : cond <;> simp [kvdkAssert, h, throw, throwThe, MonadExceptOf.throw, pure,
    Except.pure]

@[simp] theorem kvdkAssert_of_true {cond : Prop} [Decidable cond] (h : cond) (msg : String) :
    kvdkAssert cond msg = pure () := by
  simp [kvdkAssert, h]

/-! ## Records -/

/-- `PMemOffsetType`: an offset into persistent memory; it is also the record's address. -/
abbrev PMemOffsetType := Nat

/-- `CollectionIDType`. -/
abbrev CollectionIDType := Nat

/-- Modelled from the spec: `kNullPMemOffset`, the null offset (declared outside src/).  Its
value only has to differ from the offset of every record the rebuilder is given; it is the
largest 64-bit offset, 2^64 - 1. -/
def kNullPMemOffset : PMemOffsetType := 18446744073709551615

/-- `offset2addr`: the null offset is `nullptr`, every other offset is the record at it. -/
def offset2addr (off : PMemOffsetType) : Option PMemOffsetType :=
  if off = kNullPMemOffset then none else some off

@[simp] theorem offset2addr_null : offset2addr kNullPMemOffset = none := by
  simp [offset2addr]

theorem offset2addr_of_ne {off : PMemOffsetType} (h : off ≠ kNullPMemOffset) :
    offset2addr off = some off := by
  simp [offset2addr, h]

/-- Modelled from the spec: `offset2addr_checked`, used where the offset must not be null; the
null offset there is a fault. -/
def offset2addrChecked (off : PMemOffsetType) : Except Fault PMemOffsetType :=
  if off = kNullPMemOffset then .error .invalidOffset else .ok off

@[simp] theorem offset2addrChecked_of_ne {off : PMemOffsetType} (h : off ≠ kNullPMemOffset) :
    offset2addrChecked off = .ok off := by
  simp [offset2addrChecked, h]

/-- The record types the rebuilder tells apart: collection headers (`SortedRecord`), elements
(`SortedElem`), and `Padding`, which `Destroy()` leaves behind. -/
inductive RecordType where
  | Empty
  | SortedRecord
  | SortedElem
  | Padding
  deriving DecidableEq, Repr, Inhabited

/-- `RecordStatus`: a record is `Outdated` when it marks a deleted key or collection. -/
inductive RecordStatus where
  | Normal
  | Outdated
  deriving DecidableEq, Repr, Inhabited

/-- The configs of a sorted collection that the rebuilder reads. -/
structure SortedCollectionConfigs where
  comparatorName : String
  indexWithHashtable : Bool
  deriving DecidableEq, Repr, Inhabited

/-- A header's value as `Skiplist::DecodeSortedCollectionValue` reads it: the encoded
`(collection_id, configs)` pair, or a payload it cannot decode. -/
inductive SortedValue where
  | encoded (id : CollectionIDType) (configs : SortedCollectionConfigs)
  | malformed
  deriving DecidableEq, Repr, Inhabited

/-- A persistent `DLRecord`, with the fields the rebuilder reads.  `id` is what
`Skiplist::FetchID` extracts (from the internal key of an element, from the value of a header);
`valid` is `Validate()` and `expired` is `HasExpired()`. -/
structure DLRecord where
  recordType : RecordType
  recordStatus : RecordStatus
  key : String
  value : SortedValue
  id : CollectionIDType
  timestamp : Nat
  prev : PMemOffsetType
  next : PMemOffsetType
  oldVersion : PMemOffsetType
  valid : Bool
  expired : Bool
  deriving DecidableEq, Repr, Inhabited

/-- Modelled from the spec: `Skiplist::DecodeSortedCollectionValue` (declared outside src/);
a malformed payload is a decode error, reported as `Abort`. -/
def decodeSortedCollectionValue (r : DLRecord) :
    Except Status (CollectionIDType × SortedCollectionConfigs) :=
  match r.value with
  | .encoded id configs => .ok (id, configs)
  | .malformed => .error .Abort

/-- Modelled from the spec: `Skiplist::MatchType`, true of the two sorted record types. -/
def matchType (r : DLRecord) : Bool :=
  r.recordType = .SortedRecord || r.recordType = .SortedElem

/-! ## Persistent memory and its writes -/

/-- Persistent memory: the record at every offset. -/
abbrev PMem := PMemOffsetType → DLRecord

/-- Rewrite the record at offset `r` by `f`. -/
def PMem.modify (pm : PMem) (r : PMemOffsetType) (f : DLRecord → DLRecord) : PMem :=
  Function.update pm r (f (pm r))

@[simp] theorem PMem.modify_same (pm : PMem) (r : PMemOffsetType) (f : DLRecord → DLRecord) :
    pm.modify r f r = f (pm r) := by
  simp [PMem.modify]

@[simp] theorem PMem.modify_ne (pm : PMem) {r s : PMemOffsetType} (f : DLRecord → DLRecord)
    (h : s ≠ r) : pm.modify r f s = pm s := by
  simp [PMem.modify, h]

theorem PMem.modify_apply (pm : PMem) (r s : PMemOffsetType) (f : DLRecord → DLRecord) :
    pm.modify r f s = if s = r then f (pm r) else pm s := by
  by_cases h : s = r
  · subst h; simp
  · simp [h]

/-- `DLRecord::PersistPrevNT`: persist a new `prev` offset. -/
def PMem.persistPrevNT (pm : PMem) (r off : PMemOffsetType) : PMem :=
  pm.modify r fun d => { d with prev := off }

/-- `DLRecord::PersistNextNT`: persist a new `next` offset. -/
def PMem.persistNextNT (pm : PMem) (r off : PMemOffsetType) : PMem :=
  pm.modify r fun d => { d with next := off }

/-- `DLRecord::PersistOldVersion`: persist a new `old_version` offset. -/
def PMem.persistOldVersion (pm : PMem) (r off : PMemOffsetType) : PMem :=
  pm.modify r fun d => { d with oldVersion := off }

/-- Modelled from the spec: `DLRecord::Destroy()` (declared outside src/) marks the record dead;
its type becomes `Padding`, which `MatchType` and the recovery scan skip. -/
def PMem.destroy (pm : PMem) (r : PMemOffsetType) : PMem :=
  pm.modify r fun d => { d with recordType := .Padding }

/-- A record without its links: every field but `prev` and `next`.  Two records are equal when
their bodies and links are (`DLRecord.ext_body`), which is how stores are compared after writes
that only relink records. -/
def DLRecord.body (d : DLRecord) : DLRecord := { d with prev := 0, next := 0 }

theorem DLRecord.ext_body {d e : DLRecord} (hb : d.body = e.body) (hp : d.prev = e.prev)
    (hn : d.next = e.next) : d = e := by
  cases d; cases e
  simp only [DLRecord.body, DLRecord.mk.injEq] at hb hp hn ⊢
  simp_all

/-- What no write of the rebuild changes: a record without its links, its `old_version` and its
type (which only `Destroy` writes).  Key, value, collection ID, timestamp, status, checksum and
expiry all live here. -/
def DLRecord.core (d : DLRecord) : DLRecord :=
  { d with recordType := .Empty, prev := 0, next := 0, oldVersion := 0 }

/-- What two records of one core share: every field but the links, `old_version` and the type. -/
structure DLRecord.SameCore (d e : DLRecord) : Prop where
  recordStatus : d.recordStatus = e.recordStatus
  key : d.key = e.key
  value : d.value = e.value
  id : d.id = e.id
  timestamp : d.timestamp = e.timestamp
  valid : d.valid = e.valid
  expired : d.expired = e.expired

theorem DLRecord.sameCore {d e : DLRecord} (h : d.core = e.core) : d.SameCore e := by
  cases d; cases e
  simp only [DLRecord.core, DLRecord.mk.injEq, true_and] at h
  obtain ⟨h1, h2, h3, h4, h5, h6, h7⟩ := h
  exact ⟨h1, h2, h3, h4, h5, h6, h7⟩

section Writes

variable (pm : PMem) (r off s : PMemOffsetType)

@[simp] theorem persistPrevNT_core : (pm.persistPrevNT r off s).core = (pm s).core := by
  by_cases h : s = r <;> simp [PMem.persistPrevNT, h, DLRecord.core]

@[simp] theorem persistNextNT_core : (pm.persistNextNT r off s).core = (pm s).core := by
  by_cases h : s = r <;> simp [PMem.persistNextNT, h, DLRecord.core]

@[simp] theorem persistOldVersion_core : (pm.persistOldVersion r off s).core = (pm s).core := by
  by_cases h : s = r <;> simp [PMem.persistOldVersion, h, DLRecord.core]

@[simp] theorem destroy_core : (pm.destroy r s).core = (pm s).core := by
  by_cases h : s = r <;> simp [PMem.destroy, h, DLRecord.core]

@[simp] theorem persistPrevNT_body : (pm.persistPrevNT r off s).body = (pm s).body := by
  by_cases h : s = r <;> simp [PMem.persistPrevNT, h, DLRecord.body]

@[simp] theorem persistNextNT_body : (pm.persistNextNT r off s).body = (pm s).body := by
  by_cases h : s = r <;> simp [PMem.persistNextNT, h, DLRecord.body]

@[simp] theorem persistPrevNT_id : (pm.persistPrevNT r off s).id = (pm s).id := by
  by_cases h : s = r <;> simp [PMem.persistPrevNT, h]

@[simp] theorem persistNextNT_id : (pm.persistNextNT r off s).id = (pm s).id := by
  by_cases h : s = r <;> simp [PMem.persistNextNT, h]

@[simp] theorem persistOldVersion_id : (pm.persistOldVersion r off s).id = (pm s).id := by
  by_cases h : s = r <;> simp [PMem.persistOldVersion, h]

@[simp] theorem destroy_id : (pm.destroy r s).id = (pm s).id := by
  by_cases h : s = r <;> simp [PMem.destroy, h]

@[simp] theorem destroy_of_ne {r s : PMemOffsetType} (h : s ≠ r) : pm.destroy r s = pm s := by
  simp [PMem.destroy, h]

@[simp] theorem destroy_valid : (pm.destroy r s).valid = (pm s).valid := by
  by_cases h : s = r <;> simp [PMem.destroy, h]

@[simp] theorem destroy_oldVersion : (pm.destroy r s).oldVersion = (pm s).oldVersion := by
  by_cases h : s = r <;> simp [PMem.destroy, h]

@[simp] theorem persistPrevNT_recordType :
    (pm.persistPrevNT r off s).recordType = (pm s).recordType := by
  by_cases h : s = r <;> simp [PMem.persistPrevNT, h]

@[simp] theorem persistNextNT_recordType :
    (pm.persistNextNT r off s).recordType = (pm s).recordType := by
  by_cases h : s = r <;> simp [PMem.persistNextNT, h]

@[simp] theorem persistPrevNT_valid : (pm.persistPrevNT r off s).valid = (pm s).valid := by
  by_cases h : s = r <;> simp [PMem.persistPrevNT, h]

@[simp] theorem persistNextNT_valid : (pm.persistNextNT r off s).valid = (pm s).valid := by
  by_cases h : s = r <;> simp [PMem.persistNextNT, h]

@[simp] theorem persistPrevNT_oldVersion :
    (pm.persistPrevNT r off s).oldVersion = (pm s).oldVersion := by
  by_cases h : s = r <;> simp [PMem.persistPrevNT, h]

@[simp] theorem persistNextNT_oldVersion :
    (pm.persistNextNT r off s).oldVersion = (pm s).oldVersion := by
  by_cases h : s = r <;> simp [PMem.persistNextNT, h]

@[simp] theorem persistPrevNT_prev :
    (pm.persistPrevNT r off s).prev = if s = r then off else (pm s).prev := by
  by_cases h : s = r <;> simp [PMem.persistPrevNT, h]

@[simp] theorem persistPrevNT_next : (pm.persistPrevNT r off s).next = (pm s).next := by
  by_cases h : s = r <;> simp [PMem.persistPrevNT, h]

@[simp] theorem persistNextNT_next :
    (pm.persistNextNT r off s).next = if s = r then off else (pm s).next := by
  by_cases h : s = r <;> simp [PMem.persistNextNT, h]

@[simp] theorem persistNextNT_prev : (pm.persistNextNT r off s).prev = (pm s).prev := by
  by_cases h : s = r <;> simp [PMem.persistNextNT, h]

@[simp] theorem persistOldVersion_oldVersion :
    (pm.persistOldVersion r off s).oldVersion = if s = r then off else (pm s).oldVersion := by
  by_cases h : s = r <;> simp [PMem.persistOldVersion, h]

@[simp] theorem persistOldVersion_recordType :
    (pm.persistOldVersion r off s).recordType = (pm s).recordType := by
  by_cases h : s = r <;> simp [PMem.persistOldVersion, h]

@[simp] theorem persistOldVersion_recordStatus :
    (pm.persistOldVersion r off s).recordStatus = (pm s).recordStatus := by
  by_cases h : s = r <;> simp [PMem.persistOldVersion, h]

@[simp] theorem persistOldVersion_prev : (pm.persistOldVersion r off s).prev = (pm s).prev := by
  by_cases h : s = r <;> simp [PMem.persistOldVersion, h]

@[simp] theorem persistOldVersion_next : (pm.persistOldVersion r off s).next = (pm s).next := by
  by_cases h : s = r <;> simp [PMem.persistOldVersion, h]

@[simp] theorem destroy_recordType :
    (pm.destroy r s).recordType = if s = r then .Padding else (pm s).recordType := by
  by_cases h : s = r <;> simp [PMem.destroy, h]

@[simp] theorem destroy_prev : (pm.destroy r s).prev = (pm s).prev := by
  by_cases h : s = r <;> simp [PMem.destroy, h]

@[simp] theorem destroy_next : (pm.destroy r s).next = (pm s).next := by
  by_cases h : s = r <;> simp [PMem.destroy, h]

end Writes

end Kvdk
