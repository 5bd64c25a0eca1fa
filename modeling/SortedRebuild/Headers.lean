import SortedRebuild.State
import Mathlib.Data.List.Sort

/-
  Header resolution: `SortedCollectionRebuilder::initRebuildLists` (rebuilder.cpp, lines
  119-246).

  The linked headers gathered by `AddHeader` are sorted by collection ID and then by timestamp,
  so that the headers of one ID stand together, oldest first.  Every header followed by one of
  its own ID is a leftover of a crashed update of an empty collection: it must be self-linked,
  its `prev` is pointed at the newer header (which breaks its linkage on both sides), and it is
  queued unlinked.  The last header of each ID is resolved: its value is decoded, its comparator
  looked up, and its checkpoint version `V` decides the collection's fate.  No `V`, or one of
  another ID, gives an invalid skiplist on the header; otherwise `V` takes the header's place on
  the list, and the collection is invalid when `V` is `Outdated` or expired, and a rebuild
  skiplist with a hash entry under its name when not.

  `std::sort` leaves the order of headers of one ID and one timestamp unspecified, so the
  results below hold for every sorted permutation of the headers (`HeadersSorted`); the model
  sorts by insertion, which is one of them.
-/

namespace Kvdk

/-! ## The sort -/

/-- The comparator of lines 123-130: by `FetchID`, then by timestamp. -/
def headerCmp (pm : PMem) (a b : PMemOffsetType) : Bool :=
  if (pm a).id = (pm b).id then (pm a).timestamp < (pm b).timestamp else (pm a).id < (pm b).id

/-- `std::sort(linked_headers_.begin(), linked_headers_.end(), cmp)`. -/
def sortHeaders (pm : PMem) (hs : List PMemOffsetType) : List PMemOffsetType :=
  hs.insertionSort fun a b => headerCmp pm b a = false

/-- What `std::sort` guarantees of its result: no header is ordered before one that precedes
it. -/
def HeadersSorted (pm : PMem) (hs : List PMemOffsetType) : Prop :=
  hs.Pairwise fun a b => headerCmp pm b a = false

/-! ## The scan -/

variable (cfg : RebuilderConfig)

/-- Lines 137-154: the header `h` has a newer header `newer` of its ID.  It must point to
itself; its `prev` is redirected to `newer`, after which neither side of its linkage holds, and
it is queued unlinked. -/
def breakHeaderLinkage (tid : Nat) (h newer : PMemOffsetType) (st : RebuilderState) :
    Except Fault RebuilderState := do
  kvdkAssert ((st.pm h).prev = (st.pm h).next ∧ (st.pm h).prev = h)
    "outdated header record with valid linkage should always point to it self"
  let pm := st.pm.persistPrevNT h newer
  kvdkAssert (checkPrevLinkage pm h = false ∧ checkNextLinkage pm h = false) ""
  pure (addUnlinkedRecord cfg tid h { st with pm := pm })

/-- Lines 184-191 and 210-219: a skiplist that is invalid, on the header record `r`; the
constructor builds its header node. -/
def addInvalidSkiplist (r : PMemOffsetType) (name : String) (id : CollectionIDType)
    (configs : SortedCollectionConfigs) (st : RebuilderState) : RebuilderState :=
  let (s, d) := Skiplist.create cfg.kMaxHeight st.dram r name id configs.comparatorName false
  { st with dram := d, invalidSkiplists := assignSkiplist st.invalidSkiplists s }

/-- Lines 220-241: the rebuild skiplist on the checkpoint version `v`, registered as a recovery
segment in segment mode, with `v`'s `old_version` cleared and a hash entry under the
collection's name. -/
def addRebuildSkiplist (v : PMemOffsetType) (name : String) (id : CollectionIDType)
    (configs : SortedCollectionConfigs) (st : RebuilderState) :
    Except Fault (Status × RebuilderState) :=
  let (s, d) := Skiplist.create cfg.kMaxHeight st.dram v name id configs.comparatorName
    configs.indexWithHashtable
  let st := addRecoverySegment cfg s.headerNode
    { st with dram := d, rebuildSkiplists := assignSkiplist st.rebuildSkiplists s }
  insertHashIndex name (.skiplist v) { st with pm := st.pm.persistOldVersion v kNullPMemOffset }

/-- Lines 156-242: resolve `h`, the newest header of its ID.  The status is the one the loop
stops with; `Ok` lets it go on. -/
def resolveHeader (tid : Nat) (h : PMemOffsetType) (st : RebuilderState) :
    Except Fault (Status × RebuilderState) :=
  let name := (st.pm h).key
  match decodeSortedCollectionValue (st.pm h) with
  | .error s => pure (s, st)
  | .ok (id, configs) =>
    if configs.comparatorName ∉ cfg.comparators then pure (.Abort, st)
    else do
      let st := { st with maxRecoveredId := max st.maxRecoveredId id }
      let valid ← cfg.findCheckpointVersion st.pm h
      match valid.filter fun v => (st.pm v).id = id with
      | none => pure (.Ok, addInvalidSkiplist cfg h name id configs st)
      | some v => do
        let st ← replaceByVersion cfg "headers in rebuild should passed linkage check" tid h v st
        if (st.pm v).recordStatus = .Outdated ∨ (st.pm v).expired = true then
          pure (.Ok, addInvalidSkiplist cfg v name id configs st)
        else addRebuildSkiplist cfg v name id configs st

/-- The `for` loop of lines 133-243 over the sorted headers: a header followed by one of its ID
is broken, any other is resolved; a resolution that is not `Ok` ends the loop. -/
def initRebuildListsLoop (tid : Nat) :
    List PMemOffsetType → RebuilderState → Except Fault (Status × RebuilderState)
  | [], st => pure (.Ok, st)
  | h :: rest, st =>
    match rest.head?.filter fun newer => (st.pm newer).id = (st.pm h).id with
    | some newer => do initRebuildListsLoop tid rest (← breakHeaderLinkage cfg tid h newer st)
    | none => do
      let (s, st) ← resolveHeader cfg tid h st
      if s = .Ok then initRebuildListsLoop tid rest st else pure (s, st)

/-- `SortedCollectionRebuilder::initRebuildLists`, run by thread `tid`: sort the linked headers,
scan them, and clear them when the scan went through. -/
def initRebuildLists (tid : Nat) (st : RebuilderState) :
    Except Fault (Status × RebuilderState) := do
  let hs := sortHeaders st.pm st.linkedHeaders
  let (s, st) ← initRebuildListsLoop cfg tid hs { st with linkedHeaders := hs }
  if s = .Ok then pure (.Ok, { st with linkedHeaders := [] }) else pure (s, st)

/-! ## The steps of the scan -/

section Steps

variable {cfg} {r : PMemOffsetType} {name : String} {id : CollectionIDType}
  {configs : SortedCollectionConfigs} {st : RebuilderState}

/-- The skiplist handle the constructor builds on `r`, with its header node at the next
address. -/
def newSkiplist (d : Dram) (r : PMemOffsetType) (name : String) (id : CollectionIDType)
    (configs : SortedCollectionConfigs) (indexWithHashtable : Bool) : Skiplist :=
  ⟨r, d.nodeCount, name, id, configs.comparatorName, indexWithHashtable, 0⟩

theorem addInvalidSkiplist_eq : addInvalidSkiplist cfg r name id configs st =
    { st with dram := (st.dram.newNode r cfg.kMaxHeight).2,
              invalidSkiplists := assignSkiplist st.invalidSkiplists
                (newSkiplist st.dram r name id configs false) } := rfl

/-- A rebuild skiplist that is added with `Ok`: its version is a header record whose name had
no hash entry, and it gets its handle, its header node (a recovery segment in segment mode), a
cleared `old_version` and its hash entry. -/
theorem addRebuildSkiplist_ok {st' : RebuilderState}
    (h : addRebuildSkiplist cfg r name id configs st = .ok (.Ok, st')) :
    (st.pm r).recordType = .SortedRecord ∧
      (∀ x ∈ st.hashTable, x.matches name .SortedRecord = false) ∧
      st' = { st with
        pm := st.pm.persistOldVersion r kNullPMemOffset,
        dram := (st.dram.newNode r cfg.kMaxHeight).2,
        hashTable := st.hashTable ++ [⟨name, .SortedRecord, (st.pm r).recordStatus, .skiplist r⟩],
        rebuildSkiplists := assignSkiplist st.rebuildSkiplists
          (newSkiplist st.dram r name id configs configs.indexWithHashtable),
        recoverySegments :=
          if cfg.segmentBasedRebuild ∧ r ∉ st.recoverySegments.map Prod.fst
          then st.recoverySegments ++ [(r, ⟨false, st.dram.nodeCount⟩)]
          else st.recoverySegments } := by
  simp only [addRebuildSkiplist, addRecoverySegment_eq, insertHashIndex_ok_iff, readIndexPtr,
    except_bind_eq_ok, except_pure_eq_ok, kvdkAssert_eq_ok, Prod.mk.injEq] at h
  obtain ⟨t, s, ⟨_, ht, ⟨rfl, rfl⟩⟩, hfresh, rfl⟩ := h
  simp only [Skiplist.create, Dram.newNode, persistOldVersion_recordType] at ht hfresh ⊢
  refine ⟨ht, hfresh, ?_⟩
  simp only [Function.update_same]
  simp [newSkiplist, Dram.newNode]

end Steps

/-- A break that returns: the header pointed to itself, its `prev` now points to the newer
header, neither side of its linkage holds any more, and it is queued unlinked. -/
theorem breakHeaderLinkage_ok {tid : Nat} {h newer : PMemOffsetType} {st st' : RebuilderState}
    (hb : breakHeaderLinkage cfg tid h newer st = .ok st') :
    (st.pm h).prev = h ∧ (st.pm h).next = h ∧
      checkPrevLinkage (st.pm.persistPrevNT h newer) h = false ∧
      checkNextLinkage (st.pm.persistPrevNT h newer) h = false ∧
      st' = addUnlinkedRecord cfg tid h { st with pm := st.pm.persistPrevNT h newer } := by
  simp only [breakHeaderLinkage, except_bind_eq_ok, except_pure_eq_ok, kvdkAssert_eq_ok] at hb
  obtain ⟨_, ⟨h1, h2⟩, _, ⟨h3, h4⟩, rfl⟩ := hb
  exact ⟨h2, h1 ▸ h2, h3, h4, rfl⟩

/-- **How a resolution that returns `Ok` ends**: the header decodes, its comparator is registered,
and its checkpoint version decides between an invalid skiplist on the header (no version of its
ID), an invalid skiplist on the version put in its place (an `Outdated` or expired version), and
a rebuild skiplist on that version. -/
theorem resolveHeader_ok {tid : Nat} {h : PMemOffsetType} {st st' : RebuilderState}
    (hr : resolveHeader cfg tid h st = .ok (.Ok, st')) :
    ∃ id configs valid, decodeSortedCollectionValue (st.pm h) = .ok (id, configs) ∧
      configs.comparatorName ∈ cfg.comparators ∧ cfg.findCheckpointVersion st.pm h = .ok valid ∧
      ((valid.filter fun v => (st.pm v).id = id) = none ∧
          st' = addInvalidSkiplist cfg h (st.pm h).key id configs
            { st with maxRecoveredId := max st.maxRecoveredId id } ∨
        ∃ v st2, (valid.filter fun v => (st.pm v).id = id) = some v ∧
          replaceByVersion cfg "headers in rebuild should passed linkage check" tid h v
            { st with maxRecoveredId := max st.maxRecoveredId id } = .ok st2 ∧
          (((st2.pm v).recordStatus = .Outdated ∨ (st2.pm v).expired = true) ∧
              st' = addInvalidSkiplist cfg v (st.pm h).key id configs st2 ∨
            ¬((st2.pm v).recordStatus = .Outdated ∨ (st2.pm v).expired = true) ∧
              addRebuildSkiplist cfg v (st.pm h).key id configs st2 = .ok (.Ok, st'))) := by
  unfold resolveHeader at hr
  split at hr
  · rename_i s hdec
    simp only [decodeSortedCollectionValue] at hdec
    split at hdec <;> simp_all
  · rename_i id configs hdec
    by_cases hcmp : configs.comparatorName ∈ cfg.comparators
    swap
    · simp [hcmp] at hr
    rw [if_neg (not_not.2 hcmp)] at hr
    simp only [except_bind_eq_ok] at hr
    obtain ⟨valid, hvalid, hr⟩ := hr
    refine ⟨id, configs, valid, hdec, hcmp, hvalid, ?_⟩
    split at hr
    · rename_i hnone
      simp only [except_pure_eq_ok, Prod.mk.injEq, true_and] at hr
      exact .inl ⟨hnone, hr.symm⟩
    · rename_i v hsome
      simp only [except_bind_eq_ok] at hr
      obtain ⟨st2, hst2, hr⟩ := hr
      refine .inr ⟨v, st2, hsome, hst2, ?_⟩
      split_ifs at hr with hout
      · simp only [except_pure_eq_ok, Prod.mk.injEq, true_and] at hr
        exact .inl ⟨hout, hr.symm⟩
      · exact .inr ⟨hout, hr⟩

/-- The record that stands where `u` stood once `v` has taken the place of `h`. -/
def placeOf (h v u : PMemOffsetType) : PMemOffsetType := if u = h then v else u

@[simp] theorem placeOf_self (h u : PMemOffsetType) : placeOf h h u = u := by
  unfold placeOf; split_ifs with e <;> simp [e]

/-- The store after `v` takes the place of the header `h` (nothing when `v` is `h`). -/
def PMem.placeVersion (pm : PMem) (h v : PMemOffsetType) : PMem :=
  if v = h then pm else pm.splice (placeOf h v (pm h).prev) v (placeOf h v (pm h).next)

@[simp] theorem placeVersion_self (pm : PMem) (h : PMemOffsetType) : pm.placeVersion h h = pm :=
  if_pos rfl

@[simp] theorem placeVersion_core (pm : PMem) (h v u : PMemOffsetType) :
    (pm.placeVersion h v u).core = (pm u).core := by
  unfold PMem.placeVersion; split_ifs <;> simp

@[simp] theorem placeVersion_oldVersion (pm : PMem) (h v u : PMemOffsetType) :
    (pm.placeVersion h v u).oldVersion = (pm u).oldVersion := by
  unfold PMem.placeVersion; split_ifs <;> simp

@[simp] theorem placeVersion_recordType (pm : PMem) (h v u : PMemOffsetType) :
    (pm.placeVersion h v u).recordType = (pm u).recordType := by
  unfold PMem.placeVersion; split_ifs <;> simp

/-- Putting a fresh `v` in the place of the header `h` of a linked collection makes `v` the
header of the same elements. -/
theorem links_placeVersion {pm : PMem} {h v : PMemOffsetType} {xs : List PMemOffsetType}
    (hl : Links pm h xs h) (hn : (h :: xs).Nodup) (hv : v ∉ xs) :
    Links (pm.placeVersion h v) v xs v := by
  by_cases hvh : v = h
  · subst hvh; simpa using hl
  have hc : checkPrevLinkage pm h = true := by
    have := links_last hl
    simp [checkPrevLinkage, this.2, this.1]
  have hrep : (Skiplist.replace pm h v).2 = pm.placeVersion h v := by
    rw [replace_of_check hc]
    simp [PMem.placeVersion, hvh, placeOf]
  rw [← hrep]
  exact (links_replace_header hl hn (by simp [hvh, hv])).2

/-- Putting `v` in the place of `h` writes `v` and the records on either side of it. -/
theorem placeVersion_of_ne {pm : PMem} {h v u : PMemOffsetType}
    (hp : u ≠ placeOf h v (pm h).prev) (hv : u ≠ v) (hn : u ≠ placeOf h v (pm h).next) :
    pm.placeVersion h v u = pm u := by
  unfold PMem.placeVersion
  split_ifs
  · rfl
  · exact splice_of_ne pm hp hv hn

/-- The `next` of a record once `v` is in the place of `h`: its own, `v`, or the record after
`v`. -/
theorem placeVersion_next (pm : PMem) (h v u : PMemOffsetType) :
    (pm.placeVersion h v u).next = (pm u).next ∨ (pm.placeVersion h v u).next = v ∨
      (pm.placeVersion h v u).next = placeOf h v (pm h).next := by
  unfold PMem.placeVersion
  split_ifs
  · exact .inl rfl
  · simp only [splice_next]; split_ifs <;> simp

/-- A version `v` put in the place of `h` is linked to what stood on either side of `h`: to
itself when `h` pointed to itself, to the neighbours of `h` when neither of them is `v`. -/
theorem placeVersion_links {pm : PMem} {h v : PMemOffsetType} (hvh : v ≠ h)
    (hs : (pm h).prev = h ∧ (pm h).next = h ∨
      (pm h).prev ≠ h ∧ (pm h).next ≠ h ∧ (pm h).prev ≠ v ∧ (pm h).next ≠ v) :
    (pm.placeVersion h v).Link (placeOf h v (pm h).prev) v ∧
      (pm.placeVersion h v).Link v (placeOf h v (pm h).next) := by
  rcases hs with ⟨hp, hn⟩ | ⟨hp, hn, hpv, hnv⟩
  · simp [PMem.placeVersion, PMem.Link, placeOf, hvh, hp, hn]
  · simp [PMem.placeVersion, PMem.Link, placeOf, hvh, hp, hn, hpv, hnv, Ne.symm hpv, Ne.symm hnv]

/-- **What a resolution that returns `Ok` does**, field by field: it raises the greatest ID, and
then, by the checkpoint version it finds, adds an invalid skiplist on the header, or puts the
version in the header's place (queueing the header) and adds an invalid skiplist on it, or does
so and adds a rebuild skiplist on it, clears its `old_version` and inserts its hash entry into
an empty slot. -/
theorem resolveHeader_spec {tid : Nat} {h : PMemOffsetType} {st st' : RebuilderState}
    (hr : resolveHeader cfg tid h st = .ok (.Ok, st')) :
    ∃ id configs valid, decodeSortedCollectionValue (st.pm h) = .ok (id, configs) ∧
      configs.comparatorName ∈ cfg.comparators ∧ cfg.findCheckpointVersion st.pm h = .ok valid ∧
      st'.maxRecoveredId = max st.maxRecoveredId id ∧
      match valid.filter fun v => (st.pm v).id = id with
      | none => st' = { st with
          maxRecoveredId := max st.maxRecoveredId id,
          dram := (st.dram.newNode h cfg.kMaxHeight).2,
          invalidSkiplists := assignSkiplist st.invalidSkiplists
            (newSkiplist st.dram h (st.pm h).key id configs false) }
      | some v =>
        (v ≠ h → checkPrevLinkage st.pm h = true) ∧
        let uq := if v = h then st.unlinkedRecords else Function.update st.unlinkedRecords
          (tid % cfg.numRebuildThreads) (st.unlinkedRecords (tid % cfg.numRebuildThreads) ++ [h])
        if (st.pm v).recordStatus = .Outdated ∨ (st.pm v).expired = true then
          st' = { st with
            maxRecoveredId := max st.maxRecoveredId id,
            pm := st.pm.placeVersion h v, unlinkedRecords := uq,
            dram := (st.dram.newNode v cfg.kMaxHeight).2,
            invalidSkiplists := assignSkiplist st.invalidSkiplists
              (newSkiplist st.dram v (st.pm h).key id configs false) }
        else
          (∀ x ∈ st.hashTable, x.matches (st.pm h).key .SortedRecord = false) ∧
          st' = { st with
            maxRecoveredId := max st.maxRecoveredId id,
            pm := (st.pm.placeVersion h v).persistOldVersion v kNullPMemOffset,
            unlinkedRecords := uq,
            dram := (st.dram.newNode v cfg.kMaxHeight).2,
            hashTable := st.hashTable ++
              [⟨(st.pm h).key, .SortedRecord, (st.pm v).recordStatus, .skiplist v⟩],
            rebuildSkiplists := assignSkiplist st.rebuildSkiplists
              (newSkiplist st.dram v (st.pm h).key id configs configs.indexWithHashtable),
            recoverySegments :=
              if cfg.segmentBasedRebuild ∧ v ∉ st.recoverySegments.map Prod.fst
              then st.recoverySegments ++ [(v, ⟨false, st.dram.nodeCount⟩)]
              else st.recoverySegments } := by
  obtain ⟨id, configs, valid, hdec, hcmp, hvalid, hcase⟩ := resolveHeader_ok cfg hr
  refine ⟨id, configs, valid, hdec, hcmp, hvalid, ?_⟩
  rcases hcase with ⟨hnone, rfl⟩ | ⟨v, st2, hsome, hrep, hcase⟩
  · simp only [hnone]
    exact ⟨rfl, rfl⟩
  · have hst2 : (v ≠ h → checkPrevLinkage st.pm h = true) ∧
        st2 = { st with
          maxRecoveredId := max st.maxRecoveredId id, pm := st.pm.placeVersion h v,
          unlinkedRecords := if v = h then st.unlinkedRecords else Function.update
            st.unlinkedRecords (tid % cfg.numRebuildThreads)
            (st.unlinkedRecords (tid % cfg.numRebuildThreads) ++ [h]) } := by
      rcases replaceByVersion_ok cfg hrep with ⟨rfl, rfl⟩ | ⟨hne, hc, rfl⟩
      · simp [PMem.placeVersion]
      · refine ⟨fun _ => hc, ?_⟩
        simp only [addUnlinkedRecord, PMem.placeVersion, if_neg hne]
        rw [replace_of_check hc]
        rfl
    obtain ⟨hchk, rfl⟩ := hst2
    simp only [hsome]
    have hcore : ∀ u, ((st.pm.placeVersion h v) u).core = (st.pm u).core := fun u => by
      unfold PMem.placeVersion; split_ifs <;> simp
    have hst : ((st.pm.placeVersion h v) v).recordStatus = (st.pm v).recordStatus :=
      (DLRecord.sameCore (hcore v)).recordStatus
    have hex : ((st.pm.placeVersion h v) v).expired = (st.pm v).expired :=
      (DLRecord.sameCore (hcore v)).expired
    rcases hcase with ⟨hout, rfl⟩ | ⟨hout, hadd⟩
    · simp only [hst, hex] at hout
      refine ⟨rfl, hchk, ?_⟩
      rw [if_pos hout]
      rfl
    · simp only [hst, hex] at hout
      obtain ⟨-, hfresh, rfl⟩ := addRebuildSkiplist_ok hadd
      refine ⟨rfl, hchk, ?_⟩
      rw [if_neg hout]
      exact ⟨hfresh, by simp [hst]⟩

/-- What the scan makes of the collection of ID `x` whose newest header `h` (in the store `pm`)
has the configs `configs` and the checkpoint version `valid`: an invalid skiplist on `h` when no
version of the ID is visible; an invalid skiplist on the version when it is `Outdated` or
expired; and otherwise a rebuild skiplist on the version, whose `old_version` is cleared and
which the hash index names, alone, under the collection's name. -/
def HeaderFate (pm : PMem) (st : RebuilderState) (h : PMemOffsetType) (x : CollectionIDType)
    (configs : SortedCollectionConfigs) (valid : Option PMemOffsetType) : Prop :=
  match valid.filter fun v => (pm v).id = x with
  | none =>
    (∃ node, findSkiplist st.invalidSkiplists x =
      some ⟨h, node, (pm h).key, x, configs.comparatorName, false, 0⟩) ∧
    findSkiplist st.rebuildSkiplists x = none
  | some v =>
    if (pm v).recordStatus = .Outdated ∨ (pm v).expired = true then
      (∃ node, findSkiplist st.invalidSkiplists x =
        some ⟨v, node, (pm h).key, x, configs.comparatorName, false, 0⟩) ∧
      findSkiplist st.rebuildSkiplists x = none
    else
      (∃ node, findSkiplist st.rebuildSkiplists x =
        some ⟨v, node, (pm h).key, x, configs.comparatorName, configs.indexWithHashtable, 0⟩) ∧
      findSkiplist st.invalidSkiplists x = none ∧ (st.pm v).oldVersion = kNullPMemOffset ∧
      st.hashTable.filter (·.matches (pm h).key .SortedRecord) =
        [⟨(pm h).key, .SortedRecord, (pm v).recordStatus, .skiplist v⟩]

/-- **A resolution that returns `Ok`, in one shape**: it puts a version `v` in the header's place
(the header itself when no version of its ID is visible) and may clear `v`'s `old_version`; it
raises the greatest ID and queues records; of the skiplist maps it touches only its own ID and
of the hash index only an empty slot.  When its ID had no skiplist yet, the collection's fate is
the one `HeaderFate` gives.  The store `pm` agrees with the resolution's on the cores of all
records. -/
theorem resolveHeader_uniform {pm : PMem} {tid : Nat} {h : PMemOffsetType} {st st' : RebuilderState}
    (hcore : ∀ u, (st.pm u).core = (pm u).core) (hr : resolveHeader cfg tid h st = .ok (.Ok, st')) :
    ∃ id configs valid v, decodeSortedCollectionValue (pm h) = .ok (id, configs) ∧
      configs.comparatorName ∈ cfg.comparators ∧ cfg.findCheckpointVersion st.pm h = .ok valid ∧
      ((valid.filter fun v => (pm v).id = id) = some v ∨
        (valid.filter fun v => (pm v).id = id) = none ∧ v = h) ∧
      (v ≠ h → checkPrevLinkage st.pm h = true) ∧
      (st'.pm = st.pm.placeVersion h v ∨
        st'.pm = (st.pm.placeVersion h v).persistOldVersion v kNullPMemOffset) ∧
      st'.maxRecoveredId = max st.maxRecoveredId id ∧
      (∀ t, st.unlinkedRecords t ⊆ st'.unlinkedRecords t) ∧
      (∀ x ≠ id, findSkiplist st'.rebuildSkiplists x = findSkiplist st.rebuildSkiplists x ∧
        findSkiplist st'.invalidSkiplists x = findSkiplist st.invalidSkiplists x) ∧
      (∀ name, st.hashTable.filter (·.matches name .SortedRecord) ≠ [] →
        st'.hashTable.filter (·.matches name .SortedRecord) =
          st.hashTable.filter (·.matches name .SortedRecord)) ∧
      (findSkiplist st.rebuildSkiplists id = none → findSkiplist st.invalidSkiplists id = none →
        HeaderFate pm st' h id configs valid) := by
  obtain ⟨id, configs, valid, hdec, hcmp, hvalid, -, hcase⟩ := resolveHeader_spec cfg hr
  have hid : ∀ u, (st.pm u).id = (pm u).id := fun u => (DLRecord.sameCore (hcore u)).id
  have hst : ∀ u, (st.pm u).recordStatus = (pm u).recordStatus :=
    fun u => (DLRecord.sameCore (hcore u)).recordStatus
  have hex : ∀ u, (st.pm u).expired = (pm u).expired := fun u => (DLRecord.sameCore (hcore u)).expired
  have hkey : (st.pm h).key = (pm h).key := (DLRecord.sameCore (hcore h)).key
  have hdec' : decodeSortedCollectionValue (pm h) = .ok (id, configs) := by
    rwa [decodeSortedCollectionValue, ← (DLRecord.sameCore (hcore h)).value]
  have hsub : ∀ (v : PMemOffsetType) t, st.unlinkedRecords t ⊆ (if v = h then st.unlinkedRecords
      else Function.update st.unlinkedRecords (tid % cfg.numRebuildThreads)
        (st.unlinkedRecords (tid % cfg.numRebuildThreads) ++ [h])) t := fun v t => by
    split_ifs
    · exact List.Subset.refl _
    · by_cases ht : t = tid % cfg.numRebuildThreads
      · subst ht; simp
      · simp [Function.update_noteq ht]
  have hnew : ∀ l r b, findSkiplist (assignSkiplist l
      (newSkiplist st.dram r (pm h).key id configs b)) id =
        some (newSkiplist st.dram r (pm h).key id configs b) := fun l r b => by
    rw [findSkiplist_assignSkiplist]; exact if_pos rfl
  simp only [hid, hst, hex, hkey] at hcase
  refine ⟨id, configs, valid, ?_⟩
  rcases hf : valid.filter (fun v => (pm v).id = id) with _ | v <;> rw [hf] at hcase <;>
    dsimp only at hcase
  · subst hcase
    refine ⟨h, hdec', hcmp, hvalid, .inr ⟨rfl, rfl⟩, fun e => absurd rfl e, .inl (by simp), rfl,
      fun _ => List.Subset.refl _, fun x hx => ⟨rfl, ?_⟩, fun _ _ => rfl, fun hreb _ => ?_⟩
    · rw [findSkiplist_assignSkiplist, if_neg (by simpa [newSkiplist] using Ne.symm hx)]
    · simp only [HeaderFate, hf]
      exact ⟨⟨_, hnew _ _ _⟩, hreb⟩
  · obtain ⟨hchk, hcase⟩ := hcase
    by_cases hout : (pm v).recordStatus = .Outdated ∨ (pm v).expired = true
    · rw [if_pos hout] at hcase
      subst hcase
      refine ⟨v, hdec', hcmp, hvalid, .inl rfl, hchk, .inl rfl, rfl, hsub v, fun x hx => ⟨rfl, ?_⟩,
        fun _ _ => rfl, fun hreb _ => ?_⟩
      · rw [findSkiplist_assignSkiplist, if_neg (by simpa [newSkiplist] using Ne.symm hx)]
      · simp only [HeaderFate, hf, if_pos hout]
        exact ⟨⟨_, hnew _ _ _⟩, hreb⟩
    · rw [if_neg hout] at hcase
      obtain ⟨hfresh, rfl⟩ := hcase
      refine ⟨v, hdec', hcmp, hvalid, .inl rfl, hchk, .inr rfl, rfl, hsub v, fun x hx => ⟨?_, rfl⟩,
        fun name hocc => filter_matches_append_of_fresh hfresh hocc, fun _ hinv => ?_⟩
      · rw [findSkiplist_assignSkiplist, if_neg (by simpa [newSkiplist] using Ne.symm hx)]
      · have hnil : st.hashTable.filter (·.matches (pm h).key .SortedRecord) = [] :=
          List.filter_eq_nil_iff.2 fun x hx => by simp [hfresh x hx]
        simp only [HeaderFate, hf, if_neg hout]
        refine ⟨⟨_, hnew _ _ _⟩, hinv, by simp, ?_⟩
        rw [List.filter_append, hnil]
        simp [HashEntry.matches]

/-! ## The scan, header by header -/

/-- One step of the scan at the header `h`, followed by `rest`: a break when the next header has
the same ID, a resolution that returns `Ok` when it does not. -/
def ScanStep (tid : Nat) (h : PMemOffsetType) (rest : List PMemOffsetType)
    (st st1 : RebuilderState) : Prop :=
  (∃ newer, rest.head? = some newer ∧ (st.pm newer).id = (st.pm h).id ∧
      breakHeaderLinkage cfg tid h newer st = .ok st1) ∨
    (∀ newer ∈ rest.head?, (st.pm newer).id ≠ (st.pm h).id) ∧
      resolveHeader cfg tid h st = .ok (.Ok, st1)

section Scan

variable {cfg} {tid : Nat}

/-- The records a resolution that returns `Ok` leaves: the cores of all of them are as they
were (it only relinks records and clears an `old_version`). -/
theorem resolveHeader_core {h : PMemOffsetType} {st st' : RebuilderState}
    (hr : resolveHeader cfg tid h st = .ok (.Ok, st')) (u : PMemOffsetType) :
    (st'.pm u).core = (st.pm u).core := by
  obtain ⟨id, configs, valid, -, -, -, ⟨-, rfl⟩ | ⟨v, st2, -, hrep, hcase⟩⟩ := resolveHeader_ok cfg hr
  · rfl
  have h2 : (st2.pm u).core = (st.pm u).core := by
    rcases replaceByVersion_ok cfg hrep with ⟨-, rfl⟩ | ⟨-, -, rfl⟩ <;> simp [addUnlinkedRecord]
  rcases hcase with ⟨-, rfl⟩ | ⟨-, hadd⟩
  · exact h2
  · obtain ⟨-, -, rfl⟩ := addRebuildSkiplist_ok hadd
    simpa using h2

/-- A resolution frees nothing. -/
theorem resolveHeader_freed {h : PMemOffsetType} {st st' : RebuilderState}
    (hr : resolveHeader cfg tid h st = .ok (.Ok, st')) : st'.freed = st.freed := by
  obtain ⟨id, configs, valid, -, -, -, ⟨-, rfl⟩ | ⟨v, st2, -, hrep, hcase⟩⟩ := resolveHeader_ok cfg hr
  · rfl
  have h2 : st2.freed = st.freed := by
    rcases replaceByVersion_ok cfg hrep with ⟨-, rfl⟩ | ⟨-, -, rfl⟩ <;> rfl
  rcases hcase with ⟨-, rfl⟩ | ⟨-, hadd⟩
  · exact h2
  · obtain ⟨-, -, rfl⟩ := addRebuildSkiplist_ok hadd
    exact h2

/-- A scan that ends in `Ok` takes a step and goes on. -/
theorem initRebuildListsLoop_cons_ok {h : PMemOffsetType} {rest : List PMemOffsetType}
    {st st' : RebuilderState} (hl : initRebuildListsLoop cfg tid (h :: rest) st = .ok (.Ok, st')) :
    ∃ st1, ScanStep cfg tid h rest st st1 ∧ initRebuildListsLoop cfg tid rest st1 = .ok (.Ok, st') := by
  rw [initRebuildListsLoop] at hl
  split at hl
  · rename_i newer hnewer
    simp only [Option.filter_eq_some, Option.mem_def, decide_eq_true_eq] at hnewer
    simp only [except_bind_eq_ok] at hl
    obtain ⟨st1, h1, h2⟩ := hl
    exact ⟨st1, .inl ⟨newer, hnewer.1, hnewer.2, h1⟩, h2⟩
  · rename_i hnone
    simp only [except_bind_eq_ok] at hl
    obtain ⟨⟨s, st1⟩, h1, h2⟩ := hl
    dsimp only at h2
    by_cases hs : s = .Ok
    · subst hs
      rw [if_pos rfl] at h2
      refine ⟨st1, .inr ⟨fun newer hn hid => ?_, h1⟩, h2⟩
      rw [Option.mem_def] at hn
      simp [hn, hid] at hnone
    · rw [if_neg hs] at h2
      simp only [except_pure_eq_ok, Prod.mk.injEq] at h2
      exact absurd h2.1 hs

/-- A step goes on as the loop does. -/
theorem ScanStep.loop_eq {h : PMemOffsetType} {rest : List PMemOffsetType} {st st1 : RebuilderState}
    (hs : ScanStep cfg tid h rest st st1) :
    initRebuildListsLoop cfg tid (h :: rest) st = initRebuildListsLoop cfg tid rest st1 := by
  rcases hs with ⟨newer, hn, hid, hb⟩ | ⟨hne, hr⟩
  · rw [initRebuildListsLoop, hn, Option.filter_some, if_pos (by simpa using hid)]
    simp only [hb]; rfl
  · have : (rest.head?.filter fun newer => (st.pm newer).id = (st.pm h).id) = none :=
      Option.filter_eq_none.2 (.inr fun newer hn => by simpa using hne newer hn)
    rw [initRebuildListsLoop, this]
    simp only [hr]; rfl

/-- A step keeps the cores of all records. -/
theorem ScanStep.core {h : PMemOffsetType} {rest : List PMemOffsetType} {st st1 : RebuilderState}
    (hs : ScanStep cfg tid h rest st st1) (u : PMemOffsetType) : (st1.pm u).core = (st.pm u).core := by
  rcases hs with ⟨newer, -, -, hb⟩ | ⟨-, hr⟩
  · obtain ⟨-, -, -, -, rfl⟩ := breakHeaderLinkage_ok cfg hb
    simp [addUnlinkedRecord]
  · exact resolveHeader_core hr u

theorem ScanStep.freed {h : PMemOffsetType} {rest : List PMemOffsetType} {st st1 : RebuilderState}
    (hs : ScanStep cfg tid h rest st st1) : st1.freed = st.freed := by
  rcases hs with ⟨newer, -, -, hb⟩ | ⟨-, hr⟩
  · obtain ⟨-, -, -, -, rfl⟩ := breakHeaderLinkage_ok cfg hb
    rfl
  · exact resolveHeader_freed hr

/-- Every step of a scan that ends in `Ok` keeps the cores of all records. -/
theorem initRebuildListsLoop_core : ∀ {hs : List PMemOffsetType} {st st' : RebuilderState},
    initRebuildListsLoop cfg tid hs st = .ok (.Ok, st') → ∀ u, (st'.pm u).core = (st.pm u).core
  | [], _, _, hl, _ => by cases hl; rfl
  | _ :: _, _, _, hl, u => by
    obtain ⟨st1, hstep, hl'⟩ := initRebuildListsLoop_cons_ok hl
    rw [initRebuildListsLoop_core hl' u, hstep.core u]

/-- A scan frees nothing. -/
theorem initRebuildListsLoop_freed : ∀ {hs : List PMemOffsetType} {st st' : RebuilderState},
    initRebuildListsLoop cfg tid hs st = .ok (.Ok, st') → st'.freed = st.freed
  | [], _, _, hl => by cases hl; rfl
  | _ :: _, _, _, hl => by
    obtain ⟨st1, hstep, hl'⟩ := initRebuildListsLoop_cons_ok hl
    rw [initRebuildListsLoop_freed hl', hstep.freed]

theorem initRebuildLists_freed {st st' : RebuilderState}
    (h : initRebuildLists cfg tid st = .ok (.Ok, st')) : st'.freed = st.freed := by
  simp only [initRebuildLists, except_bind_eq_ok] at h
  obtain ⟨⟨s, st1⟩, hl, h⟩ := h
  by_cases hs : s = .Ok
  · subst hs
    simp only [if_pos, except_pure_eq_ok, Prod.mk.injEq, true_and] at h
    subst h
    exact (initRebuildListsLoop_freed hl :)
  · simp only [if_neg hs, except_pure_eq_ok, Prod.mk.injEq] at h
    exact absurd h.1 hs

/-- **A scan cut between two IDs** is the scan of the first part followed by the scan of the
second. -/
theorem initRebuildListsLoop_append : ∀ {pre rest : List PMemOffsetType} {st st' : RebuilderState},
    (∀ a ∈ pre.getLast?, ∀ b ∈ rest.head?, (st.pm a).id ≠ (st.pm b).id) →
    initRebuildListsLoop cfg tid (pre ++ rest) st = .ok (.Ok, st') →
    ∃ st1, initRebuildListsLoop cfg tid pre st = .ok (.Ok, st1) ∧
      initRebuildListsLoop cfg tid rest st1 = .ok (.Ok, st')
  | [], _, st, _, _, hl => ⟨st, rfl, hl⟩
  | a :: pre, rest, st, st', hb, hl => by
    obtain ⟨st1, hstep, hl'⟩ := initRebuildListsLoop_cons_ok hl
    have hid : ∀ u, (st1.pm u).id = (st.pm u).id := fun u => (DLRecord.sameCore (hstep.core u)).id
    cases pre with
    | nil =>
      refine ⟨st1, ?_, hl'⟩
      rcases hstep with ⟨newer, hn, hid', -⟩ | ⟨-, hr⟩
      · exact absurd hid'.symm (hb a rfl newer (by simpa using hn))
      · simp [initRebuildListsLoop, hr]
    | cons b pre =>
      have hb' : ∀ x ∈ (b :: pre).getLast?, ∀ y ∈ rest.head?, (st1.pm x).id ≠ (st1.pm y).id :=
        fun x hx y hy => by rw [hid, hid]; exact hb x (by simpa using hx) y hy
      obtain ⟨st2, h1, h2⟩ := initRebuildListsLoop_append hb' hl'
      refine ⟨st2, ?_, h2⟩
      have hstep' : ScanStep cfg tid a (b :: pre) st st1 := by
        rcases hstep with ⟨newer, hn, hid', hbk⟩ | ⟨hne, hr⟩
        · exact .inl ⟨newer, by simpa using hn, hid', hbk⟩
        · exact .inr ⟨fun n hn => hne n (by simpa using hn), hr⟩
      rw [hstep'.loop_eq]; exact h1

/-- **The scan of the headers of one ID**, `as ++ [h]`: every header but the last pointed to
itself and is broken, its `prev` pointing to the next one, and queued, in order; then the last one
is resolved. -/
theorem initRebuildListsLoop_group {h : PMemOffsetType} :
    ∀ {as : List PMemOffsetType} {st st' : RebuilderState},
      (∀ a ∈ as, (st.pm a).id = (st.pm h).id) → (as ++ [h]).Nodup →
      initRebuildListsLoop cfg tid (as ++ [h]) st = .ok (.Ok, st') →
      ∃ pm1, resolveHeader cfg tid h
          { st with
            pm := pm1,
            unlinkedRecords := Function.update st.unlinkedRecords (tid % cfg.numRebuildThreads)
              (st.unlinkedRecords (tid % cfg.numRebuildThreads) ++ as) } = .ok (.Ok, st') ∧
        (∀ u, (pm1 u).core = (st.pm u).core ∧ (pm1 u).oldVersion = (st.pm u).oldVersion ∧
          (pm1 u).next = (st.pm u).next) ∧
        (∀ u ∉ as, pm1 u = st.pm u) ∧
        (as ++ [h]).Chain' fun a b => a ∈ as ∧ a ≠ b ∧
          (st.pm a).prev = a ∧ (st.pm a).next = a ∧ pm1 a = { st.pm a with prev := b }
  | [], st, st', _, _, hl => by
    obtain ⟨st1, hstep, hl'⟩ := initRebuildListsLoop_cons_ok hl
    cases hl'
    rcases hstep with ⟨_, hn, -⟩ | ⟨-, hr⟩
    · cases hn
    · exact ⟨st.pm, by simpa using hr, fun _ => ⟨rfl, rfl, rfl⟩, fun _ _ => rfl, by simp⟩
  | a :: as, st, st', hid, hnd, hl => by
    obtain ⟨st1, hstep, hl'⟩ := initRebuildListsLoop_cons_ok
      (show initRebuildListsLoop cfg tid (a :: (as ++ [h])) st = _ from hl)
    obtain ⟨b, hb⟩ : ∃ b, (as ++ [h]).head? = some b := by cases as <;> simp
    have hbmem : b ∈ as ++ [h] := List.mem_of_mem_head? hb
    have hidb : (st.pm b).id = (st.pm a).id := by
      rw [hid a (List.mem_cons_self _ _)]
      rcases List.mem_append.1 hbmem with hm | hm
      · exact hid b (List.mem_cons_of_mem _ hm)
      · rw [List.mem_singleton.1 hm]
    have hbrk : breakHeaderLinkage cfg tid a b st = .ok st1 := by
      rcases hstep with ⟨newer, hn, -, hbk⟩ | ⟨hne, -⟩
      · rw [hb] at hn; cases hn; exact hbk
      · exact absurd hidb (hne b hb)
    obtain ⟨hprev, hnext, -, -, rfl⟩ := breakHeaderLinkage_ok cfg hbrk
    have hna : a ∉ as ++ [h] := (List.nodup_cons.1 hnd).1
    have hst1 : ∀ c ≠ a,
        (addUnlinkedRecord cfg tid a { st with pm := st.pm.persistPrevNT a b }).pm c = st.pm c :=
      fun c hc => by simp [addUnlinkedRecord, PMem.persistPrevNT, hc]
    obtain ⟨pm1, hr, hpm1, hfr, hpairs⟩ := initRebuildListsLoop_group
      (fun c hc => by simpa [addUnlinkedRecord] using hid c (List.mem_cons_of_mem _ hc))
      (List.nodup_cons.1 hnd).2 hl'
    refine ⟨pm1, ?_, fun u => ?_, fun u hu => ?_, ?_⟩
    · convert hr using 2
      simp [addUnlinkedRecord, Function.update_idem]
    · simpa [addUnlinkedRecord] using hpm1 u
    · rw [hfr u (fun hm => hu (List.mem_cons_of_mem _ hm))]
      exact hst1 u fun e => hu (e ▸ List.mem_cons_self _ _)
    · rw [List.cons_append, List.chain'_cons', hb]
      refine ⟨fun d hd => ?_, (List.Chain'.iff_mem.1 hpairs).imp fun c d hcd => ?_⟩
      · cases hd
        refine ⟨List.mem_cons_self _ _, fun e => hna (e ▸ hbmem), hprev, hnext, ?_⟩
        rw [hfr a (fun hm => hna (List.mem_append_left _ hm))]
        simp [addUnlinkedRecord, PMem.persistPrevNT]
      · obtain ⟨-, -, hc, hcd, h1, h2, h3⟩ := hcd
        have hca : c ≠ a := fun e => hna (e ▸ List.mem_append_left _ hc)
        rw [hst1 c hca] at h1 h2 h3
        exact ⟨List.mem_cons_of_mem _ hc, hcd, h1, h2, h3⟩

end Scan

end Kvdk
