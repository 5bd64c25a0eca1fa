import SortedRebuild.Checkpoint
import SortedRebuild.Dram
import SortedRebuild.Linkage

/-
  The state of a `SortedCollectionRebuilder` (rebuilder.cpp, lines 12-25) and the small
  operations that every pass of the rebuild shares: queueing an unlinked record, registering a
  recovery segment, building a DRAM node, inserting into the hash index (lines 614-674), and
  adding to a skiplist's size.

  The rebuilder's collaborators are outside src/, and each is modelled from the spec by what
  the rebuilder relies on: the `Skiplist` handle and its constructor, the hash index
  (`HashTable::Insert` answers `NotFound` on an empty slot and `Ok` on an existing entry), the
  allocator (a free is recorded in `freed`), and `Skiplist::NewNodeBuild`, whose random tower
  heights are an oracle `randomHeight` of the configuration read at the number of draws made so
  far.  The rebuilder's thread caches are indexed by `tid % num_rebuild_threads_`, as
  `rebuilder_thread_cache_` is.

  A run of the rebuild is one sequential interleaving of its tasks: each task runs from its
  start to its end on the state the previous one left.  The tasks of one batch touch disjoint
  records, nodes and hash keys, which is what makes this interleaving stand for all of them.
-/

namespace Kvdk

/-! ## Skiplist handles -/

/-- Modelled from the spec: the in-memory `Skiplist` handle (skiplist.hpp is not in src/), with
the fields the rebuilder reads and writes: its header record and header node, name, ID,
comparator, the `index_with_hashtable` flag and the element count that `UpdateSize` adds to. -/
structure Skiplist where
  headerRecord : PMemOffsetType
  headerNode : Nat
  name : String
  id : CollectionIDType
  comparatorName : String
  indexWithHashtable : Bool
  size : Nat
  deriving DecidableEq, Repr

/-- Modelled from the spec: the `Skiplist` constructor builds the header node over the header
record, as tall as `kMaxHeight`, with every pointer null. -/
def Skiplist.create (kMaxHeight : Nat) (d : Dram) (header : PMemOffsetType) (name : String)
    (id : CollectionIDType) (comparatorName : String) (indexWithHashtable : Bool) :
    Skiplist × Dram :=
  let (node, d) := d.newNode header kMaxHeight
  ({ headerRecord := header, headerNode := node, name := name, id := id,
     comparatorName := comparatorName, indexWithHashtable := indexWithHashtable, size := 0 }, d)

/-! ## The hash index -/

/-- An index pointer with its `PointerType` tag: a `Skiplist` (named by its header record, the
one field of it that `insertHashIndex` reads), a DRAM `SkiplistNode`, or a `DLRecord`. -/
inductive IndexPtr where
  | skiplist (header : PMemOffsetType)
  | skiplistNode (node : Nat)
  | dlRecord (record : PMemOffsetType)
  deriving DecidableEq, Repr

/-- A hash entry: its key, the record type and status it was inserted with, and its pointer. -/
structure HashEntry where
  key : String
  recordType : RecordType
  recordStatus : RecordStatus
  index : IndexPtr
  deriving DecidableEq, Repr

/-- The hash index: its entries. -/
abbrev HashTable := List HashEntry

/-- Whether entry `x` occupies the slot of key `key` and record type `t`. -/
def HashEntry.matches (x : HashEntry) (key : String) (t : RecordType) : Bool :=
  x.key = key && x.recordType = t

/-- Modelled from the spec: `HashTable::Insert`.  An entry with the same key and record type
is overwritten and the answer is `Ok`; otherwise the entry is added and the answer is
`NotFound`. -/
def HashTable.insert (t : HashTable) (e : HashEntry) : Status × HashTable :=
  if t.any (·.matches e.key e.recordType) then
    (.Ok, t.map fun x => if x.matches e.key e.recordType then e else x)
  else (.NotFound, t ++ [e])

theorem HashTable.insert_fresh {t : HashTable} {e : HashEntry}
    (h : ∀ x ∈ t, x.matches e.key e.recordType = false) : t.insert e = (.NotFound, t ++ [e]) := by
  simpa [HashTable.insert] using h

/-! ## The rebuilder -/

/-- What a rebuilder runs with: the constructor's arguments (the recovery checkpoint, the mode,
and `num_rebuild_threads_`, which the constructor caps by `max_access_threads` and which the
rebuilder divides by, so it is positive), the comparator names registered with the engine, the
skiplist constants, the tower height of the `k`-th `NewNodeBuild` draw (`0`: no node), and the
fuel that bounds every loop. -/
structure RebuilderConfig where
  checkpoint : CheckPoint
  segmentBasedRebuild : Bool
  numRebuildThreads : Nat
  numRebuildThreads_pos : 0 < numRebuildThreads
  comparators : List String
  kMaxHeight : Nat
  kRestoreSkiplistStride : Nat
  randomHeight : Nat → Nat
  randomHeight_le : ∀ k, randomHeight k ≤ kMaxHeight
  fuel : Nat

/-- A recovery segment: the `visited` flag the phase-A workers claim it by, and its start node. -/
structure RecoverySegment where
  visited : Bool
  startNode : Nat
  deriving DecidableEq, Repr

/-- The state a rebuilder works on: persistent memory, DRAM nodes, the hash index, the number of
`NewNodeBuild` draws so far, and the rebuilder's members.  `rebuild_skiplits_`,
`invalid_skiplists_` (keyed by ID) and `recovery_segments_` (keyed by start record) are lists in
their iteration order.  The thread caches' `visited_skiplists` counters and `unlinked_records`
queues are indexed by cache slot.  `freed` lists the records handed back to the allocator, in
order. -/
structure RebuilderState where
  pm : PMem
  dram : Dram
  hashTable : HashTable
  draws : Nat
  linkedHeaders : List PMemOffsetType
  rebuildSkiplists : List Skiplist
  invalidSkiplists : List Skiplist
  recoverySegments : List (PMemOffsetType × RecoverySegment)
  maxRecoveredId : CollectionIDType
  visitedSkiplists : Nat → CollectionIDType → Nat
  unlinkedRecords : Nat → List PMemOffsetType
  nextTid : Nat
  freed : List PMemOffsetType

/-- The rebuilder as its constructor leaves it (lines 12-25) over the store `pm`, the DRAM `dram`
and the engine's hash index `hashTable`: no header gathered, no skiplist, no recovery segment,
empty thread caches, and the greatest recovered ID at 0 (its initializer is in rebuilder.hpp,
outside src/). -/
def RebuilderState.init (pm : PMem) (dram : Dram) (hashTable : HashTable) : RebuilderState where
  pm := pm
  dram := dram
  hashTable := hashTable
  draws := 0
  linkedHeaders := []
  rebuildSkiplists := []
  invalidSkiplists := []
  recoverySegments := []
  maxRecoveredId := 0
  visitedSkiplists := fun _ _ => 0
  unlinkedRecords := fun _ => []
  nextTid := 0
  freed := []

variable (cfg : RebuilderConfig)

/-- `recoverToCheckpoint()`. -/
def RebuilderConfig.recoverToCheckpoint : Prop := cfg.checkpoint.recoverToCheckpoint

instance : Decidable cfg.recoverToCheckpoint :=
  inferInstanceAs (Decidable cfg.checkpoint.recoverToCheckpoint)

/-- `findCheckpointVersion` of the rebuilder, under its checkpoint and fuel. -/
def RebuilderConfig.findCheckpointVersion (pm : PMem) (r : PMemOffsetType) :
    Except Fault (Option PMemOffsetType) :=
  Kvdk.findCheckpointVersion cfg.checkpoint cfg.fuel pm r

/-- Modelled from the spec: `addUnlinkedRecord` queues the record on the calling thread's
cache, to be re-checked by `cleanInvalidRecords`. -/
def addUnlinkedRecord (tid : Nat) (r : PMemOffsetType) (st : RebuilderState) : RebuilderState :=
  let slot := tid % cfg.numRebuildThreads
  { st with unlinkedRecords :=
      Function.update st.unlinkedRecords slot (st.unlinkedRecords slot ++ [r]) }

/-- `SortedCollectionRebuilder::addRecoverySegment` (lines 614-619): in segment mode, register
`{false, node}` under the node's record, unless a segment starts there already. -/
def addRecoverySegment (node : Nat) (st : RebuilderState) : RebuilderState :=
  let r := (st.dram.nodes node).record
  if cfg.segmentBasedRebuild ∧ r ∉ st.recoverySegments.map Prod.fst then
    { st with recoverySegments := st.recoverySegments ++ [(r, ⟨false, node⟩)] }
  else st

/-- Modelled from the spec: `Skiplist::NewNodeBuild(record)` draws a random tower height; a
height of 0 builds no node (`nullptr`), any other height a fresh node over the record. -/
def newNodeBuild (r : PMemOffsetType) (st : RebuilderState) : Option Nat × RebuilderState :=
  let h := cfg.randomHeight st.draws
  if h = 0 then (none, { st with draws := st.draws + 1 })
  else
    let (n, d) := st.dram.newNode r h
    (some n, { st with dram := d, draws := st.draws + 1 })

/-- Lines 626-654 of `insertHashIndex`: the record type and status behind an index pointer, with
the assertion on the type of its record. -/
def readIndexPtr (ptr : IndexPtr) (st : RebuilderState) :
    Except Fault (RecordType × RecordStatus) :=
  match ptr with
  | .dlRecord r => do
    kvdkAssert ((st.pm r).recordType = .SortedElem) ""
    pure (.SortedElem, (st.pm r).recordStatus)
  | .skiplistNode n => do
    let r := (st.dram.nodes n).record
    kvdkAssert ((st.pm r).recordType = .SortedElem) ""
    pure (.SortedElem, (st.pm r).recordStatus)
  | .skiplist h => do
    kvdkAssert ((st.pm h).recordType = .SortedRecord) ""
    pure (.SortedRecord, (st.pm h).recordStatus)

/-- Lines 659-673 of `insertHashIndex`: an empty slot (`NotFound`) is success, an existing entry
is `Abort`, and any other status is passed on. -/
def hashInsertStatus : Status → Status
  | .NotFound => .Ok
  | .Ok => .Abort
  | s => s

/-- `SortedCollectionRebuilder::insertHashIndex` (lines 621-674). -/
def insertHashIndex (key : String) (ptr : IndexPtr) (st : RebuilderState) :
    Except Fault (Status × RebuilderState) := do
  let (recordType, recordStatus) ← readIndexPtr ptr st
  let (s, t) := st.hashTable.insert ⟨key, recordType, recordStatus, ptr⟩
  pure (hashInsertStatus s, { st with hashTable := t })

/-- `Skiplist::UpdateSize(n)` on the rebuild skiplist of ID `id`. -/
def updateSize (id : CollectionIDType) (n : Nat) (st : RebuilderState) : RebuilderState :=
  { st with rebuildSkiplists :=
      st.rebuildSkiplists.map fun s => if s.id = id then { s with size := s.size + n } else s }

/-- `skiplists[s.id] = s` on a map keyed by collection ID, listed in insertion order. -/
def assignSkiplist (l : List Skiplist) (s : Skiplist) : List Skiplist :=
  if l.any (·.id = s.id) then l.map fun x => if x.id = s.id then s else x else l ++ [s]

/-- `skiplists.find(id)`. -/
def findSkiplist (l : List Skiplist) (id : CollectionIDType) : Option Skiplist :=
  l.find? (·.id = id)

/-- Modelled from the spec: `PMEMAllocator::PurgeAndFree` destroys the record and frees it. -/
def purgeAndFree (r : PMemOffsetType) (st : RebuilderState) : RebuilderState :=
  { st with pm := st.pm.destroy r, freed := st.freed ++ [r] }

/-- `bool success = Skiplist::Remove(r, ...); kvdk_assert(success, msg); addUnlinkedRecord(r);`
(lines 366-370 and 513-517). -/
def removeRecord (msg : String) (tid : Nat) (r : PMemOffsetType) (st : RebuilderState) :
    Except Fault RebuilderState := do
  let (success, pm) := Skiplist.remove st.pm r
  kvdkAssert (success = true) msg
  pure (addUnlinkedRecord cfg tid r { st with pm := pm })

/-- `if (v != r) { bool success = Skiplist::Replace(r, v, ...); kvdk_assert(success, msg);
addUnlinkedRecord(r); }` (lines 198-204, 372-379 and 519-526): put the checkpoint version `v`
in the place of `r`. -/
def replaceByVersion (msg : String) (tid : Nat) (r v : PMemOffsetType) (st : RebuilderState) :
    Except Fault RebuilderState :=
  if v ≠ r then do
    let (success, pm) := Skiplist.replace st.pm r v
    kvdkAssert (success = true) msg
    pure (addUnlinkedRecord cfg tid r { st with pm := pm })
  else pure st

/-! ## Spec lemmas -/

/-- **A hash insertion succeeds exactly when the slot of its key and record type is empty**; the
entry is then appended. -/
theorem insertHashIndex_ok_iff {key : String} {ptr : IndexPtr} {st st' : RebuilderState} :
    insertHashIndex key ptr st = .ok (.Ok, st') ↔
      ∃ t s, readIndexPtr ptr st = .ok (t, s) ∧ (∀ x ∈ st.hashTable, x.matches key t = false) ∧
        st' = { st with hashTable := st.hashTable ++ [⟨key, t, s, ptr⟩] } := by
  simp only [insertHashIndex, except_bind_eq_ok, Prod.exists]
  refine exists_congr fun t => exists_congr fun s => and_congr_right fun _ => ?_
  by_cases hm : st.hashTable.any (·.matches key t)
  · obtain ⟨x, hx, hxm⟩ := List.any_eq_true.1 hm
    have hocc : ¬ ∀ y ∈ st.hashTable, y.matches key t = false := fun hall => by
      simp [hall x hx] at hxm
    rw [HashTable.insert, if_pos hm]
    simp only [hashInsertStatus, except_pure_eq_ok, Prod.mk.injEq, reduceCtorEq, false_and,
      false_iff]
    exact hocc ∘ And.left
  · rw [HashTable.insert, if_neg hm]
    simp only [Bool.not_eq_true, List.any_eq_false] at hm
    simp only [hashInsertStatus, except_pure_eq_ok, Prod.mk.injEq, true_and]
    exact ⟨fun h => ⟨hm, h.symm⟩, fun h => h.2.symm⟩

/-- `addRecoverySegment` writes the segment map and nothing else. -/
theorem addRecoverySegment_eq (node : Nat) (st : RebuilderState) :
    addRecoverySegment cfg node st =
      { st with recoverySegments :=
          if cfg.segmentBasedRebuild ∧ (st.dram.nodes node).record ∉ st.recoverySegments.map Prod.fst
          then st.recoverySegments ++ [((st.dram.nodes node).record, ⟨false, node⟩)]
          else st.recoverySegments } := by
  unfold addRecoverySegment; dsimp only; split_ifs <;> rfl

theorem assignSkiplist_of_fresh {l : List Skiplist} {s : Skiplist} (h : ∀ x ∈ l, x.id ≠ s.id) :
    assignSkiplist l s = l ++ [s] := by
  rw [assignSkiplist, if_neg (by simpa using h)]

/-- `skiplists[s.id] = s` holds `s` and entries of the old map, nothing else. -/
theorem mem_assignSkiplist {l : List Skiplist} {s x : Skiplist} (hx : x ∈ assignSkiplist l s) :
    x ∈ l ∨ x = s := by
  unfold assignSkiplist at hx
  split_ifs at hx
  · obtain ⟨y, hy, rfl⟩ := List.mem_map.1 hx
    split_ifs
    · exact .inr rfl
    · exact .inl hy
  · simpa using hx

/-- A skiplist of an ID that no skiplist of `rs ++ is` has keeps the IDs distinct, added to
either map. -/
theorem assignSkiplist_ids_nodup {rs is : List Skiplist} {s : Skiplist}
    (hnd : ((rs ++ is).map Skiplist.id).Nodup) (hs : ∀ x ∈ rs ++ is, x.id ≠ s.id) :
    ((rs ++ assignSkiplist is s).map Skiplist.id).Nodup ∧
      ((assignSkiplist rs s ++ is).map Skiplist.id).Nodup := by
  have hcons : (s.id :: (rs ++ is).map Skiplist.id).Nodup := List.nodup_cons.2 ⟨fun hm => by
    obtain ⟨x, hx, e⟩ := List.mem_map.1 hm
    exact hs x hx e, hnd⟩
  rw [assignSkiplist_of_fresh fun x hx => hs x (List.mem_append_right _ hx),
    assignSkiplist_of_fresh fun x hx => hs x (List.mem_append_left _ hx)]
  simp only [List.map_append, List.map_singleton] at hcons ⊢
  exact ⟨by rw [← List.append_assoc, List.nodup_append_comm]; exact hcons,
    by rw [List.append_assoc, List.singleton_append, List.nodup_middle]; exact hcons⟩

@[simp] theorem findSkiplist_append_singleton (l : List Skiplist) (s : Skiplist)
    (id : CollectionIDType) :
    findSkiplist (l ++ [s]) id = (findSkiplist l id).or (if s.id = id then some s else none) := by
  simp only [findSkiplist, List.find?_append, List.find?_singleton]
  by_cases h : s.id = id <;> simp [h]

/-- `skiplists[s.id] = s` is what `find` then sees: `s` under its own ID, the old map elsewhere. -/
theorem findSkiplist_assignSkiplist (l : List Skiplist) (s : Skiplist) (id : CollectionIDType) :
    findSkiplist (assignSkiplist l s) id = if s.id = id then some s else findSkiplist l id := by
  unfold assignSkiplist
  split_ifs with hany hid hid
  · subst hid
    obtain ⟨y, hy, hys⟩ := List.any_eq_true.1 hany
    simp only [findSkiplist, List.find?_map]
    induction l with
    | nil => cases hy
    | cons z l ih =>
      by_cases hz : z.id = s.id
      · simp [hz]
      · have hy' : y ∈ l := (List.mem_cons.1 hy).resolve_left fun e => hz (e ▸ by simpa using hys)
        simp [hz, ih (List.any_eq_true.2 ⟨y, hy', hys⟩) hy']
  · clear hany
    simp only [findSkiplist]
    induction l with
    | nil => rfl
    | cons z l ih =>
      by_cases hz : z.id = s.id
      · simp [hz, hid, ih]
      · simp only [List.map_cons, hz, if_false, List.find?_cons, ih]
  · subst hid
    have : findSkiplist l s.id = none := List.find?_eq_none.2 fun z hz => by
      simpa using fun h => hany (List.any_eq_true.2 ⟨z, hz, by simpa using h⟩)
    simp [this]
  · simp [hid]

/-- In a list of skiplists of distinct IDs, a skiplist is the one found under its ID. -/
theorem findSkiplist_of_mem {s : Skiplist} :
    ∀ {l : List Skiplist}, (l.map Skiplist.id).Nodup → s ∈ l → findSkiplist l s.id = some s
  | x :: l, hnd, hs => by
    rw [List.map_cons, List.nodup_cons] at hnd
    rcases List.mem_cons.1 hs with rfl | hs
    · simp [findSkiplist]
    · have hne : x.id ≠ s.id := fun h => hnd.1 (h ▸ List.mem_map_of_mem _ hs)
      simpa [findSkiplist, hne] using findSkiplist_of_mem hnd.2 hs

/-- `UpdateSize` grows the size of the skiplist of its ID, wherever it is found. -/
theorem findSkiplist_updateSize (id id' : CollectionIDType) (n : Nat) (st : RebuilderState) :
    findSkiplist (updateSize id n st).rebuildSkiplists id' =
      (findSkiplist st.rebuildSkiplists id').map fun s =>
        if s.id = id then { s with size := s.size + n } else s := by
  simp only [findSkiplist, updateSize, List.find?_map]
  congr 2
  funext s
  by_cases h : s.id = id <;> simp [h]

/-- A fresh hash entry leaves the entries of every occupied slot as they were. -/
theorem filter_matches_append_of_fresh {t : HashTable} {e : HashEntry} {key : String}
    {rt : RecordType} (hfresh : ∀ x ∈ t, x.matches e.key e.recordType = false)
    (hocc : t.filter (·.matches key rt) ≠ []) :
    (t ++ [e]).filter (·.matches key rt) = t.filter (·.matches key rt) := by
  obtain ⟨x, hx⟩ := List.exists_mem_of_ne_nil _ hocc
  obtain ⟨hxt, hxm⟩ := List.mem_filter.1 hx
  have he : e.matches key rt = false := by
    have := hfresh x hxt
    simp only [HashEntry.matches, Bool.and_eq_true, decide_eq_true_eq] at hxm
    simp only [HashEntry.matches, Bool.and_eq_false_iff, decide_eq_false_iff_not] at this ⊢
    rcases hxm with ⟨rfl, rfl⟩
    exact this.imp (Ne.symm) (Ne.symm)
  simp [List.filter_append, he]

/-- What `replaceByVersion` does when it returns: nothing when the version is the record itself,
and otherwise a `Replace` whose linkage check passed, the record queued. -/
theorem replaceByVersion_ok {msg : String} {tid : Nat} {r v : PMemOffsetType}
    {st st' : RebuilderState} (h : replaceByVersion cfg msg tid r v st = .ok st') :
    v = r ∧ st' = st ∨ v ≠ r ∧ checkPrevLinkage st.pm r = true ∧
      st' = addUnlinkedRecord cfg tid r { st with pm := (Skiplist.replace st.pm r v).2 } := by
  unfold replaceByVersion at h
  split_ifs at h with hv
  · have hfst := replace_fst st.pm r v
    rcases hrep : Skiplist.replace st.pm r v with ⟨ok, pm⟩
    rw [hrep] at h hfst
    simp only [except_bind_eq_ok, except_pure_eq_ok, kvdkAssert_eq_ok] at h
    obtain ⟨_, hok, rfl⟩ := h
    exact .inr ⟨hv, hfst ▸ hok, rfl⟩
  · cases h; exact .inl ⟨not_not.1 hv, rfl⟩

/-- What `removeRecord` does when it returns: a `Remove` whose linkage check passed, the record
queued. -/
theorem removeRecord_ok {msg : String} {tid : Nat} {r : PMemOffsetType} {st st' : RebuilderState}
    (h : removeRecord cfg msg tid r st = .ok st') :
    checkPrevLinkage st.pm r = true ∧
      st' = addUnlinkedRecord cfg tid r { st with pm := (Skiplist.remove st.pm r).2 } := by
  unfold removeRecord at h
  have hfst := remove_fst st.pm r
  rcases hrem : Skiplist.remove st.pm r with ⟨ok, pm⟩
  rw [hrem] at h hfst
  simp only [except_bind_eq_ok, except_pure_eq_ok, kvdkAssert_eq_ok] at h
  obtain ⟨_, hok, rfl⟩ := h
  exact ⟨hfst ▸ hok, rfl⟩

/-- A `Remove` whose linkage check passes returns, and queues the record. -/
theorem removeRecord_of_check {msg : String} {tid : Nat} {r : PMemOffsetType} {st : RebuilderState}
    (h : checkPrevLinkage st.pm r = true) :
    removeRecord cfg msg tid r st =
      .ok (addUnlinkedRecord cfg tid r { st with pm := (Skiplist.remove st.pm r).2 }) := by
  unfold removeRecord
  have hfst := remove_fst st.pm r
  rcases hrem : Skiplist.remove st.pm r with ⟨ok, pm⟩
  rw [hrem] at hfst
  simp only at hfst
  simp [hfst, h]

/-- A `Replace` by another version whose linkage check passes returns, and queues the record. -/
theorem replaceByVersion_of_check {msg : String} {tid : Nat} {r v : PMemOffsetType}
    {st : RebuilderState} (hv : v ≠ r) (h : checkPrevLinkage st.pm r = true) :
    replaceByVersion cfg msg tid r v st =
      .ok (addUnlinkedRecord cfg tid r { st with pm := (Skiplist.replace st.pm r v).2 }) := by
  unfold replaceByVersion
  have hfst := replace_fst st.pm r v
  rcases hrep : Skiplist.replace st.pm r v with ⟨ok, pm⟩
  rw [hrep] at hfst
  simp only at hfst
  simp [hv, hfst, h]

@[simp] theorem replaceByVersion_self (msg : String) (tid : Nat) (r : PMemOffsetType)
    (st : RebuilderState) : replaceByVersion cfg msg tid r r st = .ok st := by
  simp [replaceByVersion]

end Kvdk
