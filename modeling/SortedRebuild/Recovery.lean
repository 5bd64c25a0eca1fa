import SortedRebuild.Headers
import SortedRebuild.Segment

/-
  A whole recovery of the sorted collections: the intake of the records the engine's scan finds
  (`AddHeader` and `AddElement`, rebuilder.cpp lines 42-93), then
  `SortedCollectionRebuilder::Rebuild` (lines 27-40): header resolution, the index rebuild in
  the configured mode when there is a rebuild skiplist, and, when every stage returned `Ok`, the
  result and the reclamation of `cleanInvalidRecords` (lines 588-612).

  `rebuild_waits_for_every_task` is the error-handling contract of the pipeline: every batched
  loop waits for every task it launched, a status that is not `Ok` comes from a task, and the
  reclamation and the result only follow a run in which every stage returned `Ok`.

  Reclamation writes no link: `Destroy` only retypes a record.  So the cache cleaning destroys
  and frees records none of which is a sorted record linked on both sides, and the `Destroy` of
  an invalid skiplist whose list is a cycle through its header destroys and frees exactly that
  list, the header last (`cleanInvalidRecords_spec`).
-/

namespace Kvdk

variable (cfg : RebuilderConfig)

/-! ## Intake -/

/-- A record found unlinked at intake (lines 47-54 and 67-74): freed at once, unless the
recovery targets a checkpoint, which may still need it as a version. -/
def unlinkedAtIntake (tid : Nat) (r : PMemOffsetType) (st : RebuilderState) : RebuilderState :=
  if cfg.recoverToCheckpoint then addUnlinkedRecord cfg tid r st else purgeAndFree r st

/-- `SortedCollectionRebuilder::AddHeader`, on thread `tid`. -/
def addHeader (tid : Nat) (r : PMemOffsetType) (st : RebuilderState) :
    Except Fault RebuilderState := do
  kvdkAssert ((st.pm r).recordType = .SortedRecord)
    "header_record->GetRecordType() == RecordType::SortedRecord"
  let (linked, pm) := checkAndRepairLinkage st.pm r
  let st := { st with pm := pm }
  if linked then pure { st with linkedHeaders := st.linkedHeaders ++ [r] }
  else pure (unlinkedAtIntake cfg tid r st)

/-- `while (start_node == nullptr) start_node = Skiplist::NewNodeBuild(record);` (lines
84-88); `fuel` bounds the draws. -/
def newNodeBuildRetry (r : PMemOffsetType) : Nat → RebuilderState → Except Fault (Nat × RebuilderState)
  | 0, _ => .error .outOfFuel
  | fuel + 1, st =>
    match newNodeBuild cfg r st with
    | (some n, st) => .ok (n, st)
    | (none, st) => newNodeBuildRetry r fuel st

/-- Lines 76-91: in segment mode, count a linked element on its thread's cache under its
collection ID; every `kRestoreSkiplistStride`-th one that is its own checkpoint version starts a
recovery segment, on a node built for it. -/
def sampleSegmentStart (tid : Nat) (r : PMemOffsetType) (st : RebuilderState) :
    Except Fault RebuilderState := do
  let slot := tid % cfg.numRebuildThreads
  let id := (st.pm r).id
  let count := st.visitedSkiplists slot id + 1
  let st := { st with
    visitedSkiplists := Function.update st.visitedSkiplists slot
      (Function.update (st.visitedSkiplists slot) id count) }
  if count % cfg.kRestoreSkiplistStride = 0 then do
    let valid ← cfg.findCheckpointVersion st.pm r
    if valid = some r ∧ (st.pm r).recordType = .SortedElem then do
      let (node, st) ← newNodeBuildRetry cfg r cfg.fuel st
      pure (addRecoverySegment cfg node st)
    else pure st
  else pure st

/-- `SortedCollectionRebuilder::AddElement`, on thread `tid`. -/
def addElement (tid : Nat) (r : PMemOffsetType) (st : RebuilderState) :
    Except Fault RebuilderState := do
  kvdkAssert ((st.pm r).recordType = .SortedElem) "wrong record type in RestoreSkiplistRecord"
  let (linked, pm) := checkAndRepairLinkage st.pm r
  let st := { st with pm := pm }
  if !linked then pure (unlinkedAtIntake cfg tid r st)
  else if cfg.segmentBasedRebuild then sampleSegmentStart cfg tid r st
  else pure st

/-- Modelled from the spec: the engine's recovery scan hands every sorted record it finds to
`AddHeader` or `AddElement` by its type, on the thread that found it. -/
def intake : List (Nat × PMemOffsetType) → RebuilderState → Except Fault RebuilderState
  | [], st => pure st
  | (tid, r) :: rs, st => do
    let st ← match (st.pm r).recordType with
      | .SortedRecord => addHeader cfg tid r st
      | .SortedElem => addElement cfg tid r st
      | _ => pure st
    intake rs st

/-- The headers among the records offered, in order: what `AddHeader` gathers when each of them is
linked. -/
def offeredHeaders (pm : PMem) (records : List (Nat × PMemOffsetType)) : List PMemOffsetType :=
  (records.map Prod.snd).filter fun r => (pm r).recordType = .SortedRecord

/-- A record linked on both sides passes `CheckAndRepairLinkage` without a repair. -/
theorem checkAndRepairLinkage_of_linked {pm : PMem} {r : PMemOffsetType}
    (h : checkLinkage pm r = true) : checkAndRepairLinkage pm r = (true, pm) := by
  simp only [checkLinkage, Bool.and_eq_true] at h
  simp [checkAndRepairLinkage, h.1, h.2]

/-- **The intake of linked records in list mode** gathers the headers offered, in order, and
changes nothing else: every record passes `CheckAndRepairLinkage` without a repair. -/
theorem intake_linked (hmode : cfg.segmentBasedRebuild = false) :
    ∀ (records : List (Nat × PMemOffsetType)) (st : RebuilderState),
      (∀ p ∈ records, checkLinkage st.pm p.2 = true) →
      intake cfg records st = .ok { st with
        linkedHeaders := st.linkedHeaders ++ offeredHeaders st.pm records }
  | [], st, _ => by simp [intake, offeredHeaders]
  | (tid, r) :: rs, st, hl => by
    have hr := checkAndRepairLinkage_of_linked (hl (tid, r) (List.mem_cons_self _ _))
    have ih : ∀ hs, intake cfg rs { st with linkedHeaders := hs } = .ok { st with
        linkedHeaders := hs ++ offeredHeaders st.pm rs } :=
      fun hs => intake_linked hmode rs _ fun p hp => hl p (List.mem_cons_of_mem _ hp)
    rw [intake]
    cases ht : (st.pm r).recordType with
    | SortedRecord =>
      simp only [addHeader, kvdkAssert, ht, hr, if_pos, bind, Except.bind, pure, Except.pure]
      exact (ih _).trans (by simp [offeredHeaders, ht])
    | SortedElem =>
      simp only [addElement, kvdkAssert, ht, hr, hmode, if_pos, bind, Except.bind, pure, Except.pure]
      exact (ih _).trans (by simp [offeredHeaders, ht])
    | _ =>
      simp only [bind, Except.bind, pure, Except.pure]
      exact (ih _).trans (by simp [offeredHeaders, ht])

/-! ## Reclamation -/

/-- Modelled from the spec: `Skiplist::Destroy()` walks the skiplist's on-media list from the
record `r` on, destroying and freeing every record up to the header, the header last. -/
def destroyRecords (header : PMemOffsetType) :
    Nat → PMemOffsetType → RebuilderState → Except Fault RebuilderState
  | 0, _, _ => .error .outOfFuel
  | fuel + 1, r, st =>
    if r = header then pure (purgeAndFree header st)
    else destroyRecords header fuel (st.pm r).next (purgeAndFree r st)

/-- `Skiplist::Destroy()` of a skiplist. -/
def Skiplist.destroy (s : Skiplist) (st : RebuilderState) : Except Fault RebuilderState :=
  destroyRecords s.headerRecord cfg.fuel (st.pm s.headerRecord).next st

/-- Lines 593-601: the unlinked records of one thread's cache that are no longer sorted records
or not linked on both sides are destroyed and gathered to be freed. -/
def cleanUnlinked (pm : PMem) : List PMemOffsetType → PMem × List PMemOffsetType
  | [] => (pm, [])
  | r :: rs =>
    if !matchType (pm r) || !checkLinkage pm r then
      let (pm, toFree) := cleanUnlinked (pm.destroy r) rs
      (pm, r :: toFree)
    else cleanUnlinked pm rs

/-- Lines 592-604: the thread caches `slots` in order, each cleaned, batch-freed and emptied. -/
def cleanThreadCaches : List Nat → RebuilderState → RebuilderState
  | [], st => st
  | t :: ts, st =>
    let (pm, toFree) := cleanUnlinked st.pm (st.unlinkedRecords t)
    cleanThreadCaches ts
      { st with
        pm := pm, freed := st.freed ++ toFree,
        unlinkedRecords := Function.update st.unlinkedRecords t [] }

/-- Lines 607-609: `Destroy()` every invalid skiplist. -/
def destroyInvalidSkiplists : List Skiplist → RebuilderState → Except Fault RebuilderState
  | [], st => pure st
  | s :: ss, st => do destroyInvalidSkiplists ss (← Skiplist.destroy cfg s st)

/-- `SortedCollectionRebuilder::cleanInvalidRecords`. -/
def cleanInvalidRecords (st : RebuilderState) : Except Fault RebuilderState := do
  let st := cleanThreadCaches (List.range cfg.numRebuildThreads) st
  let st ← destroyInvalidSkiplists cfg st.invalidSkiplists st
  pure { st with invalidSkiplists := [] }

/-! ## What reclamation destroys -/

/-- `Destroy` writes no link: a list of links stays one. -/
theorem links_destroy {pm : PMem} {p q : PMemOffsetType} {xs : List PMemOffsetType}
    (r : PMemOffsetType) (h : Links pm p xs q) : Links (pm.destroy r) p xs q :=
  links_congr (fun _ _ => destroy_next ..) (fun _ _ => destroy_prev ..) h

theorem links_foldl_destroy {p q : PMemOffsetType} {xs : List PMemOffsetType} :
    ∀ (rs : List PMemOffsetType) {pm : PMem}, Links pm p xs q → Links (rs.foldl PMem.destroy pm) p xs q
  | [], _, h => h
  | r :: rs, _, h => links_foldl_destroy rs (links_destroy r h)

theorem foldl_destroy_of_not_mem {u : PMemOffsetType} :
    ∀ {rs : List PMemOffsetType} {pm : PMem}, u ∉ rs → rs.foldl PMem.destroy pm u = pm u
  | [], _, _ => rfl
  | r :: rs, pm, hu => by
    rw [List.foldl_cons, foldl_destroy_of_not_mem (List.not_mem_of_not_mem_cons hu),
      destroy_of_ne _ (List.ne_of_not_mem_cons hu)]

@[simp] theorem foldl_destroy_core (u : PMemOffsetType) :
    ∀ (rs : List PMemOffsetType) (pm : PMem), (rs.foldl PMem.destroy pm u).core = (pm u).core
  | [], _ => rfl
  | r :: rs, pm => by rw [List.foldl_cons, foldl_destroy_core u rs, destroy_core]

@[simp] theorem checkLinkage_foldl_destroy (u : PMemOffsetType) :
    ∀ (rs : List PMemOffsetType) (pm : PMem), checkLinkage (rs.foldl PMem.destroy pm) u = checkLinkage pm u
  | [], _ => rfl
  | r :: rs, pm => by rw [List.foldl_cons, checkLinkage_foldl_destroy u rs, checkLinkage_destroy]

/-- The cleaning of a cache destroys exactly the records it gathers to be freed, in order. -/
theorem cleanUnlinked_fst : ∀ (pm : PMem) (rs : List PMemOffsetType),
    (cleanUnlinked pm rs).1 = (cleanUnlinked pm rs).2.foldl PMem.destroy pm
  | _, [] => rfl
  | pm, r :: rs => by
    unfold cleanUnlinked
    split
    · exact cleanUnlinked_fst _ rs
    · exact cleanUnlinked_fst pm rs

/-- A sorted record linked on both sides is not gathered to be freed. -/
theorem cleanUnlinked_keeps {u : PMemOffsetType} : ∀ {pm : PMem} (rs : List PMemOffsetType),
    matchType (pm u) = true → checkLinkage pm u = true → u ∉ (cleanUnlinked pm rs).2
  | _, [], _, _ => List.not_mem_nil _
  | pm, r :: rs, hm, hc => by
    unfold cleanUnlinked
    split
    · rename_i hbad
      have hne : u ≠ r := by rintro rfl; simp [hm, hc] at hbad
      refine List.not_mem_cons_of_ne_of_not_mem hne (cleanUnlinked_keeps rs ?_ ?_)
      · rw [destroy_of_ne _ hne]; exact hm
      · rw [checkLinkage_destroy]; exact hc
    · exact cleanUnlinked_keeps rs hm hc

/-- **The cleaning of the thread caches** destroys and frees a list of records, none of them a
sorted record linked on both sides, and changes nothing else but the caches. -/
theorem cleanThreadCaches_spec : ∀ (ts : List Nat) (st : RebuilderState), ∃ fr uc,
    cleanThreadCaches ts st = { st with
      pm := fr.foldl PMem.destroy st.pm, freed := st.freed ++ fr, unlinkedRecords := uc } ∧
    ∀ u, matchType (st.pm u) = true → checkLinkage st.pm u = true → u ∉ fr
  | [], st => ⟨[], st.unlinkedRecords, by simp [cleanThreadCaches], fun _ _ _ => List.not_mem_nil _⟩
  | t :: ts, st => by
    rcases hcu : cleanUnlinked st.pm (st.unlinkedRecords t) with ⟨pm1, tf⟩
    have hpm1 : pm1 = tf.foldl PMem.destroy st.pm := by
      have := cleanUnlinked_fst st.pm (st.unlinkedRecords t); rw [hcu] at this; exact this
    have htf : ∀ u, matchType (st.pm u) = true → checkLinkage st.pm u = true → u ∉ tf :=
      fun u hm hc => by have := cleanUnlinked_keeps (st.unlinkedRecords t) hm hc; rwa [hcu] at this
    obtain ⟨fr, uc, heq, hkeep⟩ := cleanThreadCaches_spec ts { st with
      pm := pm1, freed := st.freed ++ tf, unlinkedRecords := Function.update st.unlinkedRecords t [] }
    refine ⟨tf ++ fr, uc, ?_, fun u hm hc => List.not_mem_append (htf u hm hc) (hkeep u ?_ ?_)⟩
    · rw [cleanThreadCaches, hcu]
      dsimp only
      rw [heq, hpm1, List.foldl_append, List.append_assoc]
    · show matchType (pm1 u) = true
      rw [hpm1, foldl_destroy_of_not_mem (htf u hm hc)]; exact hm
    · show checkLinkage pm1 u = true
      rw [hpm1, checkLinkage_foldl_destroy]; exact hc

/-- **`Destroy` of a list** from the record `x` on: each record up to the header `h` is destroyed
and freed, the header last. -/
theorem destroyRecords_links {h : PMemOffsetType} :
    ∀ (xs : List PMemOffsetType) (x : PMemOffsetType) (st : RebuilderState) (fuel : Nat),
      Links st.pm x xs h → h ∉ x :: xs → xs.length + 1 < fuel →
      destroyRecords h fuel x st = .ok { st with
        pm := (x :: xs ++ [h]).foldl PMem.destroy st.pm, freed := st.freed ++ (x :: xs ++ [h]) }
  | [], x, st, fuel, hl, hh, hf => by
    obtain ⟨f, rfl⟩ : ∃ f, fuel = f + 2 := ⟨fuel - 2, by simp at hf; omega⟩
    have hxh : x ≠ h := fun e => hh (e ▸ List.mem_singleton_self _)
    simp only [destroyRecords, if_neg hxh, (links_nil.1 hl).1, if_pos, purgeAndFree]
    simp
  | y :: ys, x, st, fuel, hl, hh, hf => by
    obtain ⟨f, rfl⟩ : ∃ f, fuel = f + 1 := ⟨fuel - 1, by omega⟩
    have hxh : x ≠ h := fun e => hh (e ▸ List.mem_cons_self _ _)
    have hlink := links_cons.1 hl
    rw [destroyRecords, if_neg hxh, hlink.1.1, destroyRecords_links ys y (purgeAndFree x st) f
      (links_destroy x hlink.2) (List.not_mem_of_not_mem_cons hh) (by simp at hf ⊢; omega)]
    simp [purgeAndFree]

/-- `Destroy` of a skiplist whose list is a cycle through its header: every record of the list,
then the header, destroyed and freed. -/
theorem Skiplist.destroy_links {s : Skiplist} {st : RebuilderState} {xs : List PMemOffsetType}
    (hl : Links st.pm s.headerRecord xs s.headerRecord) (hh : s.headerRecord ∉ xs)
    (hf : xs.length < cfg.fuel) :
    s.destroy cfg st = .ok { st with
      pm := (xs ++ [s.headerRecord]).foldl PMem.destroy st.pm,
      freed := st.freed ++ (xs ++ [s.headerRecord]) } := by
  cases xs with
  | nil =>
    obtain ⟨f, hfuel⟩ : ∃ f, cfg.fuel = f + 1 := ⟨cfg.fuel - 1, by simp at hf; omega⟩
    simp [Skiplist.destroy, hfuel, destroyRecords, (links_nil.1 hl).1, purgeAndFree]
  | cons x xs =>
    have hlink := links_cons.1 hl
    rw [Skiplist.destroy, hlink.1.1, destroyRecords_links xs x st cfg.fuel hlink.2 hh
      (by simpa using hf)]

/-- **`Destroy` of the invalid skiplists**, each a cycle through its header: the records of their
lists, each list followed by its header, destroyed and freed in order. -/
theorem destroyInvalidSkiplists_links (lists : Skiplist → List PMemOffsetType) :
    ∀ (ss : List Skiplist) (st : RebuilderState),
      (∀ s ∈ ss, Links st.pm s.headerRecord (lists s) s.headerRecord ∧
        s.headerRecord ∉ lists s ∧ (lists s).length < cfg.fuel) →
      destroyInvalidSkiplists cfg ss st = .ok { st with
        pm := (ss.flatMap fun s => lists s ++ [s.headerRecord]).foldl PMem.destroy st.pm,
        freed := st.freed ++ ss.flatMap fun s => lists s ++ [s.headerRecord] }
  | [], st, _ => by simp [destroyInvalidSkiplists]
  | s :: ss, st, hss => by
    obtain ⟨hl, hh, hf⟩ := hss s (List.mem_cons_self _ _)
    rw [destroyInvalidSkiplists, Skiplist.destroy_links cfg hl hh hf]
    simp only [bind, Except.bind]
    rw [destroyInvalidSkiplists_links lists ss _ fun t ht => ⟨links_foldl_destroy _
      (hss t (List.mem_cons_of_mem _ ht)).1, (hss t (List.mem_cons_of_mem _ ht)).2⟩]
    simp [List.foldl_append]

/-- **What `cleanInvalidRecords` destroys**: with every invalid skiplist a cycle through its
header, it returns, having destroyed and freed the records of those lists and records that are
not sorted records linked on both sides, and changes neither the DRAM side, nor the hash
index, nor the rebuild skiplists. -/
theorem cleanInvalidRecords_spec (lists : Skiplist → List PMemOffsetType) (st : RebuilderState)
    (hinv : ∀ s ∈ st.invalidSkiplists, Links st.pm s.headerRecord (lists s) s.headerRecord ∧
      s.headerRecord ∉ lists s ∧ (lists s).length < cfg.fuel) :
    ∃ st' fr, cleanInvalidRecords cfg st = .ok st' ∧ st'.pm = fr.foldl PMem.destroy st.pm ∧
      st'.freed = st.freed ++ fr ∧
      (∀ u, matchType (st.pm u) = true → checkLinkage st.pm u = true →
        (∀ s ∈ st.invalidSkiplists, u ∉ lists s ++ [s.headerRecord]) → u ∉ fr) ∧
      st'.dram = st.dram ∧ st'.hashTable = st.hashTable ∧
      st'.rebuildSkiplists = st.rebuildSkiplists := by
  obtain ⟨fr, uc, heq, hkeep⟩ := cleanThreadCaches_spec (List.range cfg.numRebuildThreads) st
  have hinv1 : ∀ s ∈ st.invalidSkiplists, Links (fr.foldl PMem.destroy st.pm) s.headerRecord
      (lists s) s.headerRecord ∧ s.headerRecord ∉ lists s ∧ (lists s).length < cfg.fuel :=
    fun s hs => ⟨links_foldl_destroy fr (hinv s hs).1, (hinv s hs).2⟩
  refine ⟨{ st with
      pm := (st.invalidSkiplists.flatMap fun s => lists s ++ [s.headerRecord]).foldl PMem.destroy
        (fr.foldl PMem.destroy st.pm),
      freed := st.freed ++ fr ++ st.invalidSkiplists.flatMap fun s => lists s ++ [s.headerRecord],
      unlinkedRecords := uc, invalidSkiplists := [] },
    fr ++ st.invalidSkiplists.flatMap fun s => lists s ++ [s.headerRecord],
    by rw [cleanInvalidRecords, heq, destroyInvalidSkiplists_links cfg lists _ _ hinv1]; rfl,
    by simp only [List.foldl_append], by simp only [List.append_assoc],
    fun u hm hc hu => List.not_mem_append (hkeep u hm hc) fun hmem => ?_, rfl, rfl, rfl⟩
  obtain ⟨s, hs, hus⟩ := List.mem_flatMap.1 hmem
  exact hu s hs hus

/-! ## `Rebuild` -/

/-- Modelled from the spec: `RebuildResult`, the status, the greatest recovered collection ID
and the rebuild skiplists; a failed rebuild leaves the last two at their defaults. -/
structure RebuildResult where
  s : Status
  maxId : CollectionIDType
  rebuildSkiplists : List Skiplist
  deriving DecidableEq, Repr

/-- Lines 31-32: the index rebuild in the configured mode. -/
def indexRebuild (st : RebuilderState) : Except Fault (Status × RebuilderState) :=
  if cfg.segmentBasedRebuild then do
    let (s, _, _, st) ← segmentBasedIndexRebuild cfg st
    pure (s, st)
  else do
    let (s, _, st) ← listBasedIndexRebuild cfg st
    pure (s, st)

/-- Lines 30-33: the index rebuild runs when header resolution returned `Ok` and there is a
rebuild skiplist. -/
def indexRebuildStage (s : Status) (st : RebuilderState) : Except Fault (Status × RebuilderState) :=
  if s = .Ok ∧ st.rebuildSkiplists ≠ [] then indexRebuild cfg st else pure (s, st)

/-- `SortedCollectionRebuilder::Rebuild`, run by thread `tid`.  The result takes the rebuild
skiplists (`swap` leaves the member empty). -/
def rebuild (tid : Nat) (st : RebuilderState) : Except Fault (RebuildResult × RebuilderState) := do
  let (s, st) ← initRebuildLists cfg tid st
  let (s, st) ← indexRebuildStage cfg s st
  if s = .Ok then do
    let st' ← cleanInvalidRecords cfg { st with rebuildSkiplists := [] }
    pure (⟨.Ok, st.maxRecoveredId, st.rebuildSkiplists⟩, st')
  else pure (⟨s, 0, []⟩, st)

/-- A recovery: the intake of the records the scan found, each with the thread that found it,
then `Rebuild` on thread `tid`. -/
def recover (records : List (Nat × PMemOffsetType)) (tid : Nat) (st : RebuilderState) :
    Except Fault (RebuildResult × RebuilderState) := do
  rebuild cfg tid (← intake cfg records st)

/-! ## Every task is waited for -/

/-- What `indexRebuild` returned is what the index rebuild of the configured mode returned:
`segmentBasedIndexRebuild` in segment mode, `listBasedIndexRebuild` otherwise. -/
theorem indexRebuild_eq_ok {st st' : RebuilderState} {s : Status}
    (h : indexRebuild cfg st = .ok (s, st')) :
    (cfg.segmentBasedRebuild = false → ∃ es, listBasedIndexRebuild cfg st = .ok (s, es, st')) ∧
    (cfg.segmentBasedRebuild = true →
      ∃ esA esB, segmentBasedIndexRebuild cfg st = .ok (s, esA, esB, st')) := by
  unfold indexRebuild at h
  split_ifs at h with hm <;> simp only [except_bind_eq_ok, except_pure_eq_ok] at h
  · obtain ⟨⟨s', esA, esB, st''⟩, h1, h2⟩ := h
    cases h2
    exact ⟨fun h' => absurd hm (by simp [h']), fun _ => ⟨esA, esB, h1⟩⟩
  · obtain ⟨⟨s', es, st''⟩, h1, h2⟩ := h
    cases h2
    exact ⟨fun _ => ⟨es, h1⟩, fun h' => absurd h' hm⟩

/-- **The stages of `Rebuild`**: header resolution returns `s1`; the index rebuild of the
configured mode runs when `s1` is `Ok` and there is a rebuild skiplist, and otherwise the stage
passes `s1` and the state on.  When the stage's status `s2` is `Ok`, the result is `Ok` with the
skiplists and `cleanInvalidRecords` runs; otherwise the result is `s2` with no skiplist, and the
state is the one the failing stage left. -/
theorem rebuild_spec {tid : Nat} {st st' : RebuilderState} {res : RebuildResult}
    (h : rebuild cfg tid st = .ok (res, st')) :
    ∃ s1 st1, initRebuildLists cfg tid st = .ok (s1, st1) ∧ ∃ s2 st2,
      (s1 = .Ok ∧ st1.rebuildSkiplists ≠ [] →
        (cfg.segmentBasedRebuild = false → ∃ es, listBasedIndexRebuild cfg st1 = .ok (s2, es, st2)) ∧
        (cfg.segmentBasedRebuild = true →
          ∃ esA esB, segmentBasedIndexRebuild cfg st1 = .ok (s2, esA, esB, st2))) ∧
      (¬ (s1 = .Ok ∧ st1.rebuildSkiplists ≠ []) → s2 = s1 ∧ st2 = st1) ∧
      (s2 = .Ok → res.s = .Ok ∧ res.rebuildSkiplists = st2.rebuildSkiplists ∧
        cleanInvalidRecords cfg { st2 with rebuildSkiplists := [] } = .ok st') ∧
      (s2 ≠ .Ok → res.s = s2 ∧ res.rebuildSkiplists = [] ∧ st' = st2) := by
  simp only [rebuild, except_bind_eq_ok] at h
  obtain ⟨⟨s1, st1⟩, h1, ⟨s2, st2⟩, h2, h⟩ := h
  refine ⟨s1, st1, h1, s2, st2, fun hc => ?_, fun hc => ?_, ?_⟩
  · rw [indexRebuildStage, if_pos hc] at h2
    exact indexRebuild_eq_ok cfg h2
  · rw [indexRebuildStage, if_neg hc] at h2
    cases h2
    exact ⟨rfl, rfl⟩
  · dsimp only at h
    split_ifs at h with hs2 <;> simp only [except_bind_eq_ok, except_pure_eq_ok] at h
    · obtain ⟨st3, hclean, rfl, rfl⟩ := h
      exact ⟨fun _ => ⟨rfl, rfl, hclean⟩, fun h' => absurd hs2 h'⟩
    · obtain ⟨rfl, rfl⟩ := h
      exact ⟨fun h' => absurd h' hs2, fun _ => ⟨rfl, rfl, rfl⟩⟩

/-- An empty collection whose header `h` (offset 1, timestamp 200) was written over its previous
header `V` (offset 0, timestamp 50); both point to themselves. -/
def updatedEmptyCollection : PMem := fun o =>
  if o = 0 then
    { (default : DLRecord) with
      recordType := .SortedRecord, key := "c", value := .encoded 1 ⟨"cmp", false⟩, id := 1,
      timestamp := 50, prev := 0, next := 0, oldVersion := kNullPMemOffset, valid := true }
  else if o = 1 then
    { (default : DLRecord) with
      recordType := .SortedRecord, key := "c", value := .encoded 1 ⟨"cmp", false⟩, id := 1,
      timestamp := 200, prev := 1, next := 1, oldVersion := 0, valid := true }
  else default

/-- A list-based rebuilder with one thread that recovers to a checkpoint at timestamp 100. -/
def checkpointAt100 : RebuilderConfig where
  checkpoint := ⟨100⟩
  segmentBasedRebuild := false
  numRebuildThreads := 1
  numRebuildThreads_pos := Nat.one_pos
  comparators := ["cmp"]
  kMaxHeight := 2
  kRestoreSkiplistStride := 1
  randomHeight := fun _ => 1
  randomHeight_le := fun _ => Nat.le_succ 1
  fuel := 4

/-- The intake of `updatedEmptyCollection` gathers both headers: each points to itself. -/
theorem intake_updatedEmptyCollection (cfg : RebuilderConfig) :
    intake cfg [(0, 0), (0, 1)] (.init updatedEmptyCollection .empty []) =
      .ok { RebuilderState.init updatedEmptyCollection .empty [] with linkedHeaders := [0, 1] } :=
  rfl

/-- **The header a checkpoint version replaces is neither freed nor unlinked.**  Recovering
`updatedEmptyCollection` to the checkpoint at 100 makes `V` the collection's header and queues
`h`; but `Replace` of a self-linked header leaves `h` pointing to itself, so `CheckLinkage` passes
on it in `cleanInvalidRecords`: nothing is freed, and both records are left as they were, `h` a
linked header off the only list, `V`'s.  A recovery of that store without a checkpoint then
rebuilds the collection on `h`. -/
theorem recover_leaks_replaced_header :
    (∃ r, recover checkpointAt100 [(0, 0), (0, 1)] 0 (.init updatedEmptyCollection .empty []) =
        .ok r ∧ r.1.s = .Ok ∧ r.1.rebuildSkiplists.map Skiplist.headerRecord = [0] ∧
        r.2.pm 0 = updatedEmptyCollection 0 ∧ r.2.pm 1 = updatedEmptyCollection 1 ∧
        r.2.freed = []) ∧
      ∃ r, recover { checkpointAt100 with checkpoint := ⟨0⟩ } [(0, 0), (0, 1)] 0
          (.init updatedEmptyCollection .empty []) = .ok r ∧
        r.1.s = .Ok ∧ r.1.rebuildSkiplists.map Skiplist.headerRecord = [1] := by
  simp only [recover, intake_updatedEmptyCollection]
  exact ⟨⟨_, rfl, rfl, rfl, rfl, rfl, rfl⟩, _, rfl, rfl, rfl⟩

/-! ## A deleted element that starts a segment -/

/-- A collection (ID 1, header at offset 0) whose two elements, at offsets 1 and 2, are delete
records (`Outdated`) with no older version. -/
def twoDeletedElements : PMem := fun o =>
  if o = 0 then
    { (default : DLRecord) with
      recordType := .SortedRecord, key := "t", value := .encoded 1 ⟨"cmp", false⟩, id := 1,
      timestamp := 10, prev := 2, next := 1, oldVersion := kNullPMemOffset, valid := true }
  else if o = 1 then
    { (default : DLRecord) with
      recordType := .SortedElem, recordStatus := .Outdated, key := "j", id := 1,
      timestamp := 20, prev := 0, next := 2, oldVersion := kNullPMemOffset, valid := true }
  else if o = 2 then
    { (default : DLRecord) with
      recordType := .SortedElem, recordStatus := .Outdated, key := "k", id := 1,
      timestamp := 30, prev := 1, next := 0, oldVersion := kNullPMemOffset, valid := true }
  else default

/-- A segment-based rebuilder with one thread and no checkpoint that samples every second
element of a collection as a segment start. -/
def everySecondElement : RebuilderConfig where
  checkpoint := ⟨0⟩
  segmentBasedRebuild := true
  numRebuildThreads := 1
  numRebuildThreads_pos := Nat.one_pos
  comparators := ["cmp"]
  kMaxHeight := 2
  kRestoreSkiplistStride := 2
  randomHeight := fun _ => 1
  randomHeight_le := fun _ => Nat.le_succ 1
  fuel := 6

/-- **A deleted element chosen as a segment start stays on the list.**  `AddElement` samples the
second element, a delete record, as a segment start, and `rebuildSegmentIndex` counts a start and
walks on from it without checking its status.  The segment-based rebuild of `twoDeletedElements`
leaves it on the list and in the size; the list-based rebuild removes both elements. -/
theorem segment_rebuild_keeps_outdated_start :
    (∃ r, recover everySecondElement [(0, 0), (0, 1), (0, 2)] 0
        (.init twoDeletedElements .empty []) = .ok r ∧
      r.1.s = .Ok ∧ r.1.rebuildSkiplists.map Skiplist.size = [1] ∧ (r.2.pm 0).next = 2 ∧
      (r.2.pm 2).prev = 0) ∧
    ∃ r, recover { everySecondElement with segmentBasedRebuild := false } [(0, 0), (0, 1), (0, 2)] 0
        (.init twoDeletedElements .empty []) = .ok r ∧
      r.1.s = .Ok ∧ r.1.rebuildSkiplists.map Skiplist.size = [0] ∧ (r.2.pm 0).next = 0 :=
  ⟨⟨_, rfl, rfl, rfl, rfl, rfl⟩, _, rfl, rfl, rfl, rfl⟩

/-- **A crash changes which deleted element starts a segment.**  Cut the segment-based rebuild of
`twoDeletedElements` after header resolution and the index rebuild, before
`cleanInvalidRecords`: its only write to the list is the `Remove` of the first element.  A fresh
recovery of that store no longer counts the removed element, samples no start, and removes the
second element, which the uninterrupted recovery keeps. -/
theorem crash_recovery_drops_outdated_start :
    (∃ r, recover everySecondElement [(0, 0), (0, 1), (0, 2)] 0
        (.init twoDeletedElements .empty []) = .ok r ∧ r.1.s = .Ok ∧ (r.2.pm 0).next = 2) ∧
    ∃ st0 st1 st2, intake everySecondElement [(0, 0), (0, 1), (0, 2)]
        (.init twoDeletedElements .empty []) = .ok st0 ∧
      initRebuildLists everySecondElement 0 st0 = .ok (.Ok, st1) ∧
      indexRebuildStage everySecondElement .Ok st1 = .ok (.Ok, st2) ∧
      ∃ r, recover everySecondElement [(0, 0), (0, 1), (0, 2)] 0 (.init st2.pm .empty []) = .ok r ∧
        r.1.s = .Ok ∧ (r.2.pm 0).next = 0 :=
  ⟨⟨_, rfl, rfl, rfl⟩, _, _, _, rfl, rfl, rfl, _, rfl, rfl, rfl⟩

end Kvdk
