import SortedRebuild.ListRebuild
import SortedRebuild.Dram

/-
  The segment-based rebuild: `SortedCollectionRebuilder::segmentBasedIndexRebuild` (rebuilder.cpp,
  lines 248-320) and `rebuildSegmentIndex` (lines 322-418).

  The recovery segments start at the header node of every rebuild skiplist and at the element
  nodes `AddElement` sampled.  In phase A, `num_rebuild_threads_` workers claim segments by
  their `visited` flag and walk each claimed segment from its start to the next start or the
  header, resolving versions as the list-based walk does, but building level 1 only; the walk
  hands its last node over to the next segment's start node.  In phase B one
  `linkHighDramNodes` task per rebuild skiplist builds the higher levels, in batches as in the
  list-based rebuild.

  The workers of phase A run in the model one after the other, each to its end, which is one of
  the interleavings the source allows.
-/

namespace Kvdk

variable (cfg : RebuilderConfig)

/-- Lines 351-354 and 402-412: a segment's walk ends at node `curNode` by setting its level-1
pointer to `next`. -/
def endSegment (owner : Skiplist) (curNode : Nat) (next : Option Nat) (numElems : Nat)
    (st : RebuilderState) : Except Fault (Status × RebuilderState) := do
  let d ← st.dram.setNext curNode 1 next
  pure (.Ok, updateSize owner.id numElems { st with dram := d })

/-- The `while` loop of `rebuildSegmentIndex` (lines 346-415), run by thread `tid` on a segment
of `owner`: `curNode` is the last node linked at level 1, `curRecord` the last record kept.  At
the header the walk ends in null; at the start of another segment it ends at that segment's
start node, or in null when that start is a header. -/
def rebuildSegmentIndexLoop (tid : Nat) (owner : Skiplist) :
    Nat → Nat → PMemOffsetType → Nat → RebuilderState → Except Fault (Status × RebuilderState)
  | 0, _, _, _, _ => .error .outOfFuel
  | fuel + 1, curNode, curRecord, numElems, st => do
    let nextRecord ← offset2addrChecked (st.pm curRecord).next
    if nextRecord = owner.headerRecord then endSegment owner curNode none numElems st
    else
      match st.recoverySegments.lookup nextRecord with
      | some seg =>
        endSegment owner curNode
          (if (st.pm (st.dram.nodes seg.startNode).record).recordType = .SortedElem then
            some seg.startNode else none) numElems st
      | none =>
        let internalKey := (st.pm nextRecord).key
        let valid ← cfg.findCheckpointVersion st.pm nextRecord
        match valid.filter fun v => (st.pm v).recordStatus ≠ .Outdated with
        | none => do
          let st ← removeRecord cfg "elems in rebuild should passed linkage check" tid
            nextRecord st
          rebuildSegmentIndexLoop tid owner fuel curNode curRecord numElems st
        | some v => do
          let st ← replaceByVersion cfg "elems in rebuild should passed linkage check" tid
            nextRecord v st
          let (node, st) := newNodeBuild cfg v st
          let (curNode, st) ← match node with
            | some n => do
              let d ← st.dram.setNext curNode 1 (some n)
              let d ← d.setNext n 1 none
              pure (n, { st with dram := d })
            | none => pure (curNode, st)
          let (s, st) ← indexElement owner.indexWithHashtable internalKey node v st
          if s ≠ .Ok then pure (s, st)
          else
            rebuildSegmentIndexLoop tid owner fuel curNode v (numElems + 1)
              { st with pm := st.pm.persistOldVersion v kNullPMemOffset }

/-- Lines 329-339: a start that is not the owner's header is an element; it is hash-indexed on
its node. -/
def indexSegmentStart (owner : Skiplist) (startNode : Nat) (st : RebuilderState) :
    Except Fault (Status × RebuilderState) :=
  let start := (st.dram.nodes startNode).record
  if start ≠ owner.headerRecord then do
    kvdkAssert ((st.pm start).recordType = .SortedElem) "Wrong start node of skiplist segment"
    indexElement owner.indexWithHashtable (st.pm start).key (some startNode) start st
  else pure (.Ok, st)

/-- `SortedCollectionRebuilder::rebuildSegmentIndex(start_node, segment_owner)`: an element start
is checked, counted and hash-indexed; the start must be its own checkpoint version, has its
`old_version` cleared, and the walk goes on from it. -/
def rebuildSegmentIndex (tid : Nat) (startNode : Nat) (owner : Skiplist) (st : RebuilderState) :
    Except Fault (Status × RebuilderState) := do
  let start := (st.dram.nodes startNode).record
  let (s, st) ← indexSegmentStart owner startNode st
  if s ≠ .Ok then pure (s, st)
  else do
    let valid ← cfg.findCheckpointVersion st.pm start
    kvdkAssert (valid = some start) "start node of a recovery segment must be valid verion"
    rebuildSegmentIndexLoop cfg tid owner cfg.fuel startNode start
      (if start ≠ owner.headerRecord then 1 else 0)
      { st with pm := st.pm.persistOldVersion start kNullPMemOffset }

/-- `iter->second.visited = true` for the segment that starts at `r`. -/
def claimSegment (r : PMemOffsetType) (st : RebuilderState) : RebuilderState :=
  { st with recoverySegments := st.recoverySegments.map fun p =>
      if p.1 = r then (p.1, { p.2 with visited := true }) else p }

/-- The `for` loop of the phase-A worker (lines 254-283) over the segments' start records: claim
each segment not yet visited and rebuild it when it belongs to a rebuild skiplist; a segment of
no rebuild skiplist must belong to an invalid one. -/
def rebuildSegmentsIndexLoop (tid : Nat) :
    List PMemOffsetType → RebuilderState → Except Fault (Status × RebuilderState)
  | [], st => pure (.Ok, st)
  | r :: rs, st =>
    match st.recoverySegments.lookup r with
    | none => rebuildSegmentsIndexLoop tid rs st
    | some seg =>
      if seg.visited then rebuildSegmentsIndexLoop tid rs st
      else do
        let st := claimSegment r st
        let id := (st.pm (st.dram.nodes seg.startNode).record).id
        match findSkiplist st.rebuildSkiplists id with
        | none => do
          kvdkAssert (findSkiplist st.invalidSkiplists id).isSome
            "Start record of a recovery segment should belong to a skiplist"
          rebuildSegmentsIndexLoop tid rs st
        | some owner => do
          let (s, st) ← rebuildSegmentIndex cfg tid seg.startNode owner st
          if s ≠ .Ok then pure (s, st) else rebuildSegmentsIndexLoop tid rs st

/-- The phase-A worker `rebuild_segments_index` (lines 252-284): it takes the next thread ID and
runs over the recovery segments. -/
def rebuildSegmentsIndex (st : RebuilderState) : Except Fault (Status × RebuilderState) :=
  rebuildSegmentsIndexLoop cfg st.nextTid (st.recoverySegments.map Prod.fst)
    { st with nextTid := st.nextTid + 1 }

/-- `linkHighDramNodes` as a task of phase B (lines 462-487): it takes the next thread ID and
links the towers of the skiplist's nodes. -/
def linkHighDramNodesTask (s : Skiplist) (st : RebuilderState) :
    Except Fault (Status × RebuilderState) := do
  let (r, d) ← linkHighDramNodes cfg.kMaxHeight cfg.fuel st.dram s.headerNode
  pure (r, { st with dram := d, nextTid := st.nextTid + 1 })

/-- `SortedCollectionRebuilder::segmentBasedIndexRebuild`, with the events of the launching
thread in each phase.  Phase A launches `num_rebuild_threads_` workers and reads their futures
in order; the destructors of the futures it did not read wait for the rest.  Phase B runs the
`linkHighDramNodes` tasks in batches.  Both return the first failing status. -/
def segmentBasedIndexRebuild (st : RebuilderState) :
    Except Fault (Status × List (TaskEvent Nat) × List (TaskEvent Skiplist) × RebuilderState) := do
  let workers := List.range cfg.numRebuildThreads
  let (rs, st) ← runTasks (fun _ => rebuildSegmentsIndex cfg) workers st
  let phaseA := launches workers ++ waits rs
  if firstFailure rs ≠ .Ok then pure (firstFailure rs, phaseA, [], st)
  else do
    let (s, es, st) ← launchInBatches (linkHighDramNodesTask cfg) cfg.numRebuildThreads
      st.rebuildSkiplists.length 0 [] st.rebuildSkiplists st
    if s ≠ .Ok then pure (s, phaseA, es, st)
    else pure (.Ok, phaseA, es, { st with recoverySegments := [] })

/-- **The two phases of the segment-based rebuild**: phase A runs every worker and waits for
each; a failing worker's status ends the rebuild with no phase B; otherwise phase B runs the
`linkHighDramNodes` tasks in batches as `launchInBatches_all` says, and its status is the
rebuild's. -/
theorem segmentBasedIndexRebuild_spec {st st' : RebuilderState} {r : Status}
    {esA : List (TaskEvent Nat)} {esB : List (TaskEvent Skiplist)}
    (h : segmentBasedIndexRebuild cfg st = .ok (r, esA, esB, st')) :
    ∃ rs stA, runTasks (fun _ => rebuildSegmentsIndex cfg) (List.range cfg.numRebuildThreads) st =
        .ok (rs, stA) ∧ esA = launches (List.range cfg.numRebuildThreads) ++ waits rs ∧
      (r = .Ok → ∀ p ∈ rs, p.2 = .Ok) ∧
      (firstFailure rs ≠ .Ok → r = firstFailure rs ∧ esB = []) ∧
      (firstFailure rs = .Ok → ∃ bs stB,
        Batches cfg.numRebuildThreads stA.rebuildSkiplists bs ∧ esB = batchEvents bs ∧
        runTasks (linkHighDramNodesTask cfg) (bs.flatten.map Prod.fst) stA =
          .ok (bs.flatten, stB) ∧
        (r = .Ok ↔ bs.flatten.map Prod.fst = stA.rebuildSkiplists ∧ ∀ p ∈ bs.flatten, p.2 = .Ok) ∧
        (r ≠ .Ok → ∃ x, (x, r) ∈ bs.flatten)) := by
  simp only [segmentBasedIndexRebuild, except_bind_eq_ok] at h
  obtain ⟨⟨rs, stA⟩, hA, h⟩ := h
  refine ⟨rs, stA, hA, ?_⟩
  dsimp only at h
  by_cases hf : firstFailure rs = .Ok
  · -- every worker returned `Ok`: phase B
    simp only [hf, ne_eq, not_true_eq_false, if_false, except_bind_eq_ok] at h
    obtain ⟨⟨s, es, stB⟩, hB, h⟩ := h
    obtain ⟨bs, hbs, hes, hrun, hiff, hmem⟩ := launchInBatches_all cfg.numRebuildThreads_pos hB
    have hr : r = s ∧ esA = launches (List.range cfg.numRebuildThreads) ++ waits rs ∧
        esB = es := by
      dsimp only at h
      split_ifs at h with hs <;> simp only [except_pure_eq_ok, Prod.mk.injEq] at h
      · exact ⟨h.1.symm.trans hs.symm, h.2.1.symm, h.2.2.1.symm⟩
      · exact ⟨h.1.symm, h.2.1.symm, h.2.2.1.symm⟩
    obtain ⟨rfl, rfl, rfl⟩ := hr
    exact ⟨rfl, fun _ => firstFailure_eq_ok_iff.1 hf, fun h' => absurd hf h',
      fun _ => ⟨bs, stB, hbs, hes, hrun, hiff, hmem⟩⟩
  · -- a worker failed: its status, and no phase B
    simp only [hf, ne_eq, not_false_eq_true, if_true, except_pure_eq_ok, Prod.mk.injEq] at h
    obtain ⟨rfl, rfl, rfl, rfl⟩ := h
    exact ⟨rfl, fun h' => absurd h' hf, fun _ => ⟨rfl, rfl⟩, fun h' => absurd h' hf⟩

end Kvdk
