import SortedRebuild.State
import SortedRebuild.Futures

/-
  The list-based rebuild: `SortedCollectionRebuilder::rebuildSkiplistIndex` (rebuilder.cpp,
  lines 489-565) and `listBasedIndexRebuild` (lines 567-586).

  One task per rebuild skiplist walks its on-media list from the header record.  At each
  element it resolves the checkpoint version: none, or an `Outdated` one, removes the element
  from the list; any other version takes the element's place, is counted, gets a DRAM node when
  `NewNodeBuild` draws one (spliced in at every level of its tower after the level's cursor), a
  hash entry when the collection is hash-indexed, and a cleared `old_version`.  Back at the
  header the count is added to the skiplist's size.  `listBasedIndexRebuild` runs the tasks in
  batches of `num_rebuild_threads_` (`launchInBatches`).
-/

namespace Kvdk

/-- The `Splice` of the walk: the cursor node of every level, and the last record kept. -/
structure Splice where
  prevs : Nat → Nat
  prevPmemRecord : PMemOffsetType

/-- The `for` loop of lines 531-536: at each level of `levels`, link `node` after the level's
cursor, null its own pointer there, and make it the cursor. -/
def spliceTower (node : Nat) : List Nat → Dram → (Nat → Nat) → Except Fault (Dram × (Nat → Nat))
  | [], d, prevs => .ok (d, prevs)
  | i :: is, d, prevs => do
    let d ← d.setNext (prevs i) i (some node)
    let d ← d.setNext node i none
    spliceTower node is d (Function.update prevs i node)

variable (cfg : RebuilderConfig)

/-- Lines 528-537: build a DRAM node for the kept version `v` and splice it into every level of
its tower. -/
def buildNode (v : PMemOffsetType) (prevs : Nat → Nat) (st : RebuilderState) :
    Except Fault (Option Nat × (Nat → Nat) × RebuilderState) :=
  match newNodeBuild cfg v st with
  | (none, st) => pure (none, prevs, st)
  | (some n, st) => do
    let (d, prevs) ← spliceTower n (List.range' 1 (st.dram.nodes n).height) st.dram prevs
    pure (some n, prevs, { st with dram := d })

/-- Lines 539-553: with `index_with_hashtable`, the hash entry of the kept version `v` under
`key`, pointing to its node when it has one and to the record otherwise. -/
def indexElement (indexWithHashtable : Bool) (key : String) (node : Option Nat)
    (v : PMemOffsetType) (st : RebuilderState) : Except Fault (Status × RebuilderState) :=
  if indexWithHashtable then
    insertHashIndex key (match node with | some n => .skiplistNode n | none => .dlRecord v) st
  else pure (.Ok, st)

/-- The `while` loop of `rebuildSkiplistIndex` (lines 499-562), run by thread `tid` on
`skiplist`, with `numElems` elements kept so far.  Reaching the header adds the count to the
skiplist's size (line 563); a failed hash insertion returns at once, without it. -/
def rebuildSkiplistIndexLoop (tid : Nat) (skiplist : Skiplist) :
    Nat → Splice → Nat → RebuilderState → Except Fault (Status × RebuilderState)
  | 0, _, _, _ => .error .outOfFuel
  | fuel + 1, splice, numElems, st => do
    let nextRecord ← offset2addrChecked (st.pm splice.prevPmemRecord).next
    if nextRecord = skiplist.headerRecord then pure (.Ok, updateSize skiplist.id numElems st)
    else
      let internalKey := (st.pm nextRecord).key
      let valid ← cfg.findCheckpointVersion st.pm nextRecord
      match valid.filter fun v => (st.pm v).recordStatus ≠ .Outdated with
      | none => do
        let st ← removeRecord cfg "elems in rebuild should passed linkage check" tid nextRecord st
        rebuildSkiplistIndexLoop tid skiplist fuel splice numElems st
      | some v => do
        let st ← replaceByVersion cfg "elems in rebuild should passed linkage check" tid
          nextRecord v st
        let (node, prevs, st) ← buildNode cfg v splice.prevs st
        let (s, st) ← indexElement skiplist.indexWithHashtable internalKey node v st
        if s ≠ .Ok then pure (s, st)
        else
          rebuildSkiplistIndexLoop tid skiplist fuel ⟨prevs, v⟩ (numElems + 1)
            { st with pm := st.pm.persistOldVersion v kNullPMemOffset }

/-- `SortedCollectionRebuilder::rebuildSkiplistIndex`: the task takes the next thread ID and
starts every cursor at the header node and the record cursor at the header record. -/
def rebuildSkiplistIndex (skiplist : Skiplist) (st : RebuilderState) :
    Except Fault (Status × RebuilderState) :=
  rebuildSkiplistIndexLoop cfg st.nextTid skiplist cfg.fuel
    ⟨fun _ => skiplist.headerNode, skiplist.headerRecord⟩ 0 { st with nextTid := st.nextTid + 1 }

/-- `SortedCollectionRebuilder::listBasedIndexRebuild`: one `rebuildSkiplistIndex` task per
rebuild skiplist, in batches of `num_rebuild_threads_`, with the events of the launching
thread. -/
def listBasedIndexRebuild (st : RebuilderState) :
    Except Fault (Status × List (TaskEvent Skiplist) × RebuilderState) :=
  launchInBatches (rebuildSkiplistIndex cfg) cfg.numRebuildThreads st.rebuildSkiplists.length 0 []
    st.rebuildSkiplists st

end Kvdk
