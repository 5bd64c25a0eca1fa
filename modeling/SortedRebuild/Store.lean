import SortedRebuild.Headers
import Mathlib.Data.List.Pairwise

/-
  Well-formed stores, and what the header scan of `initRebuildLists` (rebuilder.cpp, lines
  119-246) makes of them.

  A well-formed store (`WellFormed`) has one linked header per collection ID.  Each header's
  value decodes to its own ID and names a registered comparator, and its collection is a cycle
  of links through the header over elements of its ID.  Every `old_version` is older, validates,
  and has the key, ID and type of the record it was replaced by.  Element keys are distinct
  across all collections (an internal key embeds its collection's ID), the collections that are
  rebuilt have distinct names, and the fuel of the model exceeds every list and every timestamp.

  On such a store every checkpoint version can be found (`WellFormed.found`), and the scan
  resolves every header, one by one, and returns `Ok` (`initRebuildLists_wellFormed`).  What it
  leaves is `ScanWF`: every rebuild skiplist stands on the live version of one header, with that
  header's elements linked after it and a fresh header node; every invalid skiplist stands on a
  version of one header, its elements linked after it; the other records and the old versions
  of elements are as they were; and the hash index holds only its old entries and the names of
  the rebuilt collections.
-/

namespace Kvdk

variable (cfg : RebuilderConfig)

/-! ## Well-formed stores -/

/-- The version the collection of the header `h` is rebuilt on (lines 178-227): its checkpoint
version, when it is of the header's ID, not `Outdated` and not expired. -/
def liveVersion (pm : PMem) (h : PMemOffsetType) : Option PMemOffsetType :=
  match cfg.findCheckpointVersion pm h with
  | .ok valid => valid.filter fun v =>
      (pm v).id = (pm h).id ∧ ¬((pm v).recordStatus = .Outdated ∨ (pm v).expired = true)
  | .error _ => none

/-- The `old_version` of `u` is a record that validates, has `u`'s key, ID and type, and is
older than `u`. -/
def OlderVersion (pm : PMem) (u : PMemOffsetType) : Prop :=
  let o := (pm u).oldVersion
  (pm o).valid = true ∧ (pm o).key = (pm u).key ∧ (pm o).id = (pm u).id ∧
    (pm o).recordType = (pm u).recordType ∧ (pm o).timestamp < (pm u).timestamp

/-- **A well-formed store** `pm` with the linked headers `hs`, the collection of the header `h`
holding the elements `elems h`.  Each collection is a cycle of links from its header through its
elements, none of them at the null offset.  A header is a header record whose value decodes to
its own ID and names a registered comparator, and no two headers have one ID.  Elements are
element records of their header's ID, and their keys are distinct across all collections.  The
collections with a live version have distinct names.  Every record reached by `old_version`
steps from a header or an element has an older version, when it has one.  The fuel exceeds the
length of every list and every timestamp. -/
structure WellFormed (pm : PMem) (hs : List PMemOffsetType)
    (elems : PMemOffsetType → List PMemOffsetType) : Prop where
  links : ∀ h ∈ hs, Links pm h (elems h) h
  nonnull : ∀ h ∈ hs, ∀ r ∈ h :: elems h, r ≠ kNullPMemOffset
  header : ∀ h ∈ hs, (pm h).recordType = .SortedRecord ∧ ∃ configs,
    decodeSortedCollectionValue (pm h) = .ok ((pm h).id, configs) ∧
      configs.comparatorName ∈ cfg.comparators
  ids : (hs.map fun h => (pm h).id).Nodup
  elem : ∀ h ∈ hs, ∀ e ∈ elems h, (pm e).recordType = .SortedElem ∧ (pm e).id = (pm h).id
  keys : (hs.flatMap fun h => (elems h).map fun e => (pm e).key).Nodup
  names : ∀ h ∈ hs, ∀ h' ∈ hs, (liveVersion cfg pm h).isSome → (liveVersion cfg pm h').isSome →
    (pm h).key = (pm h').key → h = h'
  versions : ∀ h ∈ hs, ∀ r ∈ h :: elems h, ∀ u, OldVersionReach pm r u →
    (pm u).oldVersion ≠ kNullPMemOffset → OlderVersion pm u
  fuel : ∀ h ∈ hs, (elems h).length < cfg.fuel ∧ ∀ r ∈ h :: elems h, (pm r).timestamp < cfg.fuel

/-- A hash index with no entry for the name of a collection, as a header, nor for the key of an
element, as an element. -/
def FreshIndex (pm : PMem) (hs : List PMemOffsetType) (elems : PMemOffsetType → List PMemOffsetType)
    (ht : HashTable) : Prop :=
  ∀ x ∈ ht, ∀ h ∈ hs, x.matches (pm h).key .SortedRecord = false ∧
    ∀ e ∈ elems h, x.matches (pm e).key .SortedElem = false

variable {cfg}

/-- The live version of a header whose checkpoint version is found: that version, when it is of
the header's ID and neither `Outdated` nor expired. -/
theorem liveVersion_of_found {pm : PMem} {h : PMemOffsetType} {valid : Option PMemOffsetType}
    (hvalid : cfg.findCheckpointVersion pm h = .ok valid) :
    liveVersion cfg pm h = (valid.filter fun v => (pm v).id = (pm h).id).filter fun v =>
      ¬((pm v).recordStatus = .Outdated ∨ (pm v).expired = true) := by
  rw [liveVersion, hvalid]
  cases valid with
  | none => rfl
  | some v => by_cases h1 : (pm v).id = (pm h).id <;> simp [Option.filter_some, h1]

/-- A live version is a checkpoint version of the header's ID, neither `Outdated` nor expired. -/
theorem liveVersion_some {pm : PMem} {h v : PMemOffsetType} (hl : liveVersion cfg pm h = some v) :
    cfg.findCheckpointVersion pm h = .ok (some v) ∧ (pm v).id = (pm h).id ∧
      ¬((pm v).recordStatus = .Outdated ∨ (pm v).expired = true) := by
  unfold liveVersion at hl
  split at hl
  · rename_i valid hv
    obtain ⟨hv1, hv2⟩ := Option.filter_eq_some.1 hl
    simp only [decide_eq_true_eq] at hv2
    exact ⟨by rw [hv, Option.mem_def.1 hv1], hv2⟩
  · cases hl

/-! ## Version chains of a well-formed store -/

/-- A version chain whose timestamps fall at every step is no longer than its first timestamp. -/
theorem versionChain_length_le {pm : PMem} {r0 : PMemOffsetType}
    (hdec : ∀ x, OldVersionReach pm r0 x → (pm x).oldVersion ≠ kNullPMemOffset →
      (pm (pm x).oldVersion).timestamp < (pm x).timestamp) :
    ∀ {r : PMemOffsetType} {ch : List PMemOffsetType}, OldVersionReach pm r0 r →
      VersionChain pm (r :: ch) → ch.length ≤ (pm r).timestamp
  | _, [], _, _ => Nat.zero_le _
  | r, y :: rest, hr, ⟨hry, hy, hch⟩ => by
    have hn : (pm r).oldVersion ≠ kNullPMemOffset := hry ▸ hy
    have hlt := hdec r hr hn
    have ih := versionChain_length_le hdec (hry ▸ hr.step hn) hch
    rw [hry] at hlt
    simp only [List.length_cons]
    omega

theorem OldVersionReach.ne_null {pm : PMem} {r u : PMemOffsetType} (hr : r ≠ kNullPMemOffset)
    (hu : OldVersionReach pm r u) : u ≠ kNullPMemOffset := by
  cases hu with
  | refl => exact hr
  | step _ hn => exact hn

section WellFormed

variable {pm : PMem} {hs : List PMemOffsetType} {elems : PMemOffsetType → List PMemOffsetType}
  {h r u : PMemOffsetType}

/-- The old versions of a header or an element have its key, ID and type, and are not null. -/
theorem WellFormed.reach (hwf : WellFormed cfg pm hs elems) (hh : h ∈ hs) (hr : r ∈ h :: elems h)
    (hu : OldVersionReach pm r u) :
    (pm u).key = (pm r).key ∧ (pm u).id = (pm r).id ∧ (pm u).recordType = (pm r).recordType ∧
      u ≠ kNullPMemOffset := by
  induction hu with
  | refl => exact ⟨rfl, rfl, rfl, hwf.nonnull h hh r hr⟩
  | step hx hn ih =>
    obtain ⟨-, hk, hid, ht, -⟩ := hwf.versions h hh r hr _ hx hn
    exact ⟨hk.trans ih.1, hid.trans ih.2.1, ht.trans ih.2.2.1, hn⟩

/-- **Every checkpoint version of a header or an element can be found**: without a checkpoint it
is the record itself; with one, the walk runs down a finite chain of valid versions of one key,
within the fuel. -/
theorem WellFormed.found (hwf : WellFormed cfg pm hs elems) (hh : h ∈ hs) (hr : r ∈ h :: elems h) :
    ∃ valid, cfg.findCheckpointVersion pm r = .ok valid := by
  by_cases hcp : cfg.checkpoint.recoverToCheckpoint
  · have hdec : ∀ x, OldVersionReach pm r x → (pm x).oldVersion ≠ kNullPMemOffset →
        (pm (pm x).oldVersion).timestamp < (pm x).timestamp :=
      fun x hx hn => (hwf.versions h hh r hr x hx hn).2.2.2.2
    obtain ⟨ch, hch⟩ := exists_versionChain hdec
    have hrec : ∀ x ∈ ch, (pm x).valid ∧ (pm x).key = (pm r).key := fun x hx => by
      obtain ⟨y, hy, hyn, rfl⟩ := versionChain_mem hch x hx
      exact ⟨(hwf.versions h hh r hr y hy hyn).1,
        (hwf.versions h hh r hr y hy hyn).2.1.trans (hwf.reach hh hr hy).1⟩
    have hlen : ch.length < cfg.fuel :=
      lt_of_le_of_lt (versionChain_length_le hdec .refl hch) ((hwf.fuel h hh).2 r hr)
    exact ⟨_, by
      rw [RebuilderConfig.findCheckpointVersion, findCheckpointVersion, if_pos hcp]
      exact checkpointWalk_chain hch rfl (fun _ y _ he _ => hrec y (by simp [he])) hlen⟩
  · exact ⟨_, findCheckpointVersion_of_not_recover hcp _ _ _⟩

theorem WellFormed.nodup (hwf : WellFormed cfg pm hs elems) : hs.Nodup :=
  List.Nodup.of_map _ hwf.ids

/-- Two headers of one ID are one header. -/
theorem WellFormed.eq_of_id (hwf : WellFormed cfg pm hs elems) {h' : PMemOffsetType} (hh : h ∈ hs)
    (hh' : h' ∈ hs) (hid : (pm h).id = (pm h').id) : h = h' :=
  List.inj_on_of_nodup_map hwf.ids hh hh' hid

/-- The element keys of one collection are distinct. -/
theorem WellFormed.keys_nodup (hwf : WellFormed cfg pm hs elems) (hh : h ∈ hs) :
    ((elems h).map fun e => (pm e).key).Nodup :=
  (List.nodup_flatMap.1 hwf.keys).1 h hh

/-- Two collections share no element key. -/
theorem WellFormed.keys_disjoint (hwf : WellFormed cfg pm hs elems) {h' : PMemOffsetType}
    (hh : h ∈ hs) (hh' : h' ∈ hs) (hne : h ≠ h') :
    List.Disjoint ((elems h).map fun e => (pm e).key) ((elems h').map fun e => (pm e).key) :=
  (List.nodup_flatMap.1 hwf.keys).2.forall (fun _ _ => List.disjoint_symm) hh hh' hne

/-- A collection's list holds no record twice. -/
theorem WellFormed.list_nodup (hwf : WellFormed cfg pm hs elems) (hh : h ∈ hs) :
    (h :: elems h).Nodup := by
  refine List.nodup_cons.2 ⟨fun hm => ?_, (hwf.keys_nodup hh).of_map _⟩
  have := (hwf.elem h hh h hm).1
  rw [(hwf.header h hh).1] at this
  cases this

/-- The versions of a collection's header and elements are records of its ID. -/
theorem WellFormed.reach_id (hwf : WellFormed cfg pm hs elems) (hh : h ∈ hs) (hr : r ∈ h :: elems h)
    (hu : OldVersionReach pm r u) : (pm u).id = (pm h).id := by
  rw [(hwf.reach hh hr hu).2.1]
  rcases List.mem_cons.1 hr with rfl | hr
  · rfl
  · exact (hwf.elem h hh r hr).2

end WellFormed

/-! ## Records a resolution writes -/

/-- A cycle stays linked in a store that keeps its records. -/
theorem links_of_eq_on {pm pm' : PMem} {p : PMemOffsetType} {xs : List PMemOffsetType}
    (heq : ∀ u ∈ p :: xs, pm' u = pm u) (hl : Links pm p xs p) : Links pm' p xs p :=
  links_congr (fun u hu => by rw [heq u hu])
    (fun u hu => by rw [heq u (by simp only [List.mem_append, List.mem_singleton] at hu; simp [hu.symm])]) hl

/-- The header of a cycle has its `prev` pointing back to it. -/
theorem checkPrevLinkage_of_links {pm : PMem} {h : PMemOffsetType} {xs : List PMemOffsetType}
    (hl : Links pm h xs h) : checkPrevLinkage pm h = true := by
  have := links_last hl
  simp [checkPrevLinkage, this.2, this.1]

/-- The neighbours of the header of a cycle stand on the cycle. -/
theorem links_neighbours {pm : PMem} {h : PMemOffsetType} {xs : List PMemOffsetType}
    (hl : Links pm h xs h) : (pm h).prev ∈ h :: xs ∧ (pm h).next ∈ h :: xs := by
  refine ⟨?_, ?_⟩
  · rw [(links_last hl).2]
    cases hx : xs.getLast? with
    | none => simp
    | some x => exact List.mem_cons_of_mem _ (List.mem_of_getLast?_eq_some hx)
  · have := links_next_mem hl
    simp only [List.mem_append, List.mem_singleton] at this
    exact this.elim (List.mem_cons_of_mem _) fun e => by rw [e]; exact List.mem_cons_self _ _

/-- Putting `v` in the place of the header of a cycle writes only `v` and the cycle. -/
theorem placeVersion_frame {pm : PMem} {h v u : PMemOffsetType} {xs : List PMemOffsetType}
    (hl : Links pm h xs h) (hu : u ∉ h :: xs) (huv : u ≠ v) : pm.placeVersion h v u = pm u := by
  have hside : ∀ w ∈ h :: xs, u ≠ placeOf h v w := fun w hw e => by
    unfold placeOf at e
    split_ifs at e
    · exact huv e
    · exact hu (e ▸ hw)
  exact placeVersion_of_ne (hside _ (links_neighbours hl).1) huv (hside _ (links_neighbours hl).2)

/-- **A resolution that returns**: the header decodes, its comparator is registered and its
checkpoint version is found; a version of its ID that takes its place is a header record, the
header's `prev` points back to it, and, when the version is live, the collection's name has an
empty slot. -/
theorem resolveHeader_returns (tid : Nat) {h : PMemOffsetType} {st : RebuilderState}
    {x : CollectionIDType} {configs : SortedCollectionConfigs} {valid : Option PMemOffsetType}
    (hdec : decodeSortedCollectionValue (st.pm h) = .ok (x, configs))
    (hcmp : configs.comparatorName ∈ cfg.comparators)
    (hvalid : cfg.findCheckpointVersion st.pm h = .ok valid)
    (hver : ∀ v, (valid.filter fun v => (st.pm v).id = x) = some v →
      (v ≠ h → checkPrevLinkage st.pm h = true) ∧ (st.pm v).recordType = .SortedRecord ∧
      (¬((st.pm v).recordStatus = .Outdated ∨ (st.pm v).expired = true) →
        ∀ y ∈ st.hashTable, y.matches (st.pm h).key .SortedRecord = false)) :
    ∃ st', resolveHeader cfg tid h st = .ok (.Ok, st') := by
  unfold resolveHeader
  simp only [hdec, hcmp, not_true_eq_false, if_false, bind, Except.bind, hvalid]
  rcases hf : valid.filter (fun v => (st.pm v).id = x) with _ | v
  · exact ⟨_, rfl⟩
  obtain ⟨hchk, hrec, hfr⟩ := hver v hf
  obtain ⟨st2, hrep, hpm2, hht2⟩ : ∃ st2, replaceByVersion cfg
      "headers in rebuild should passed linkage check" tid h v
      { st with maxRecoveredId := max st.maxRecoveredId x } = .ok st2 ∧
      (∀ u, (st2.pm u).core = (st.pm u).core ∧ (st2.pm u).recordType = (st.pm u).recordType) ∧
      st2.hashTable = st.hashTable := by
    by_cases hvh : v = h
    · subst hvh
      exact ⟨_, replaceByVersion_self cfg _ _ _ _, fun _ => ⟨rfl, rfl⟩, rfl⟩
    · exact ⟨_, replaceByVersion_of_check cfg hvh (hchk hvh), fun u => by simp [addUnlinkedRecord],
        rfl⟩
  simp only [hrep]
  split_ifs with hout
  · exact ⟨_, rfl⟩
  · have hst : (st2.pm v).recordStatus = (st.pm v).recordStatus :=
      (DLRecord.sameCore (hpm2 v).1).recordStatus
    have hex : (st2.pm v).expired = (st.pm v).expired := (DLRecord.sameCore (hpm2 v).1).expired
    rw [hst, hex] at hout
    refine ⟨_, insertHashIndex_ok_iff.2 ⟨.SortedRecord, (st2.pm v).recordStatus, ?_, ?_, rfl⟩⟩
    · simp [readIndexPtr, addRecoverySegment_eq, Skiplist.create, Dram.newNode, (hpm2 v).2, hrec]
    · simpa [Skiplist.create, Dram.newNode, addRecoverySegment_eq, hht2] using hfr hout

/-! ## The scan of a well-formed store -/

/-- A header node as the `Skiplist` constructor leaves it: built, as tall as `kMaxHeight`, with
every pointer null. -/
def HeaderNodeReady (kMaxHeight : Nat) (d : Dram) (n : Nat) : Prop :=
  n < d.nodeCount ∧ (d.nodes n).height = kMaxHeight ∧ ∀ l, (d.nodes n).next l = none

theorem HeaderNodeReady.newNode {k : Nat} {d : Dram} {n : Nat} (hn : HeaderNodeReady k d n)
    (r k' : Nat) : HeaderNodeReady k (d.newNode r k').2 n := by
  have hne : n ≠ d.nodeCount := hn.1.ne
  simp only [HeaderNodeReady, Dram.newNode, Function.update_noteq hne]
  exact ⟨Nat.lt_succ_of_lt hn.1, hn.2⟩

theorem headerNodeReady_newNode (d : Dram) (r k : Nat) :
    HeaderNodeReady k (d.newNode r k).2 d.nodeCount := by
  simp [HeaderNodeReady, Dram.newNode]

variable (cfg) in
/-- **What the scan of the well-formed store `pm` leaves once the headers `pre` are resolved**,
the hash index having been `ht`.  The cores and types of all records are as in `pm`, so are the
`old_version` of every record but headers, and every record of an ID not yet resolved.  Every
rebuild skiplist stands on the live version of a resolved header, empty, with that header's
elements linked after it and its header node ready; every invalid skiplist stands on a version of
a resolved header, with its elements linked after it.  No two skiplists have one ID, no two
rebuild skiplists one header node, and the hash index holds its old entries and the names of
collections with a live version. -/
structure ScanWF (pm : PMem) (elems : PMemOffsetType → List PMemOffsetType) (ht : HashTable)
    (pre : List PMemOffsetType) (st : RebuilderState) : Prop where
  core : ∀ u, (st.pm u).core = (pm u).core ∧ (st.pm u).recordType = (pm u).recordType
  oldVersion : ∀ u, (pm u).recordType ≠ .SortedRecord → (st.pm u).oldVersion = (pm u).oldVersion
  rest : ∀ u, (pm u).id ∉ pre.map (fun h => (pm h).id) → st.pm u = pm u
  rebuild : ∀ s ∈ st.rebuildSkiplists, ∃ h ∈ pre, liveVersion cfg pm h = some s.headerRecord ∧
    s.id = (pm h).id ∧ s.size = 0 ∧ Links st.pm s.headerRecord (elems h) s.headerRecord ∧
    HeaderNodeReady cfg.kMaxHeight st.dram s.headerNode
  invalid : ∀ s ∈ st.invalidSkiplists, ∃ h ∈ pre, OldVersionReach pm h s.headerRecord ∧
    s.id = (pm h).id ∧ Links st.pm s.headerRecord (elems h) s.headerRecord
  ids : ((st.rebuildSkiplists ++ st.invalidSkiplists).map Skiplist.id).Nodup
  nodes : (st.rebuildSkiplists.map Skiplist.headerNode).Nodup
  hash : ∀ x ∈ st.hashTable, x ∈ ht ∨ x.recordType = .SortedRecord ∧
    ∃ h ∈ pre, (liveVersion cfg pm h).isSome ∧ x.key = (pm h).key
  live : ∀ h ∈ pre, ∀ v, liveVersion cfg pm h = some v → ∃ s ∈ st.rebuildSkiplists, s.headerRecord = v

section Scan

variable {pm : PMem} {hs : List PMemOffsetType} {elems : PMemOffsetType → List PMemOffsetType}
  {ht : HashTable}

/-- The scan starts from the store and the hash index, with no skiplist. -/
theorem ScanWF.start (st : RebuilderState)
    (hempty : st.rebuildSkiplists = [] ∧ st.invalidSkiplists = []) :
    ScanWF cfg st.pm elems st.hashTable [] st :=
  ⟨fun _ => ⟨rfl, rfl⟩, fun _ _ => rfl, fun _ _ => rfl, by simp [hempty], by simp [hempty],
    by simp [hempty], by simp [hempty], fun x hx => .inl hx, by simp⟩

/-- The IDs of the skiplists the scan has left are IDs of resolved headers. -/
theorem ScanWF.id_mem {pre : List PMemOffsetType} {st : RebuilderState}
    (hinv : ScanWF cfg pm elems ht pre st) {s : Skiplist}
    (hs : s ∈ st.rebuildSkiplists ++ st.invalidSkiplists) : s.id ∈ pre.map fun h => (pm h).id := by
  rcases List.mem_append.1 hs with hs | hs
  · obtain ⟨h, hh, -, hid, -⟩ := hinv.rebuild s hs
    exact hid ▸ List.mem_map_of_mem _ hh
  · obtain ⟨h, hh, -, hid, -⟩ := hinv.invalid s hs
    exact hid ▸ List.mem_map_of_mem _ hh

/-- **The skiplists already resolved are framed by their IDs**: a store that agrees with the
scan's store off the records of `h`'s ID, an ID not yet resolved, keeps their lists, and one
more DRAM node keeps their header nodes ready. -/
theorem ScanWF.frame (hwf : WellFormed cfg pm hs elems) {pre : List PMemOffsetType}
    {st : RebuilderState} (hinv : ScanWF cfg pm elems ht pre st) (hpre : ∀ p ∈ pre, p ∈ hs)
    {h : PMemOffsetType} (hx : (pm h).id ∉ pre.map fun h => (pm h).id) (pm' : PMem)
    (hfr : ∀ u, (pm u).id ≠ (pm h).id → pm' u = st.pm u) (r k : Nat) :
    (∀ s ∈ st.rebuildSkiplists, ∃ h' ∈ pre ++ [h], liveVersion cfg pm h' = some s.headerRecord ∧
      s.id = (pm h').id ∧ s.size = 0 ∧ Links pm' s.headerRecord (elems h') s.headerRecord ∧
      HeaderNodeReady cfg.kMaxHeight (st.dram.newNode r k).2 s.headerNode) ∧
    ∀ s ∈ st.invalidSkiplists, ∃ h' ∈ pre ++ [h], OldVersionReach pm h' s.headerRecord ∧
      s.id = (pm h').id ∧ Links pm' s.headerRecord (elems h') s.headerRecord := by
  have hkeep : ∀ h' ∈ pre, ∀ w, OldVersionReach pm h' w → Links st.pm w (elems h') w →
      Links pm' w (elems h') w := fun h' hh' w hw hlw => links_of_eq_on (fun u hu => hfr u fun e =>
    hx (by
      have hu' : (pm u).id = (pm h').id := by
        rcases List.mem_cons.1 hu with rfl | hu
        · exact hwf.reach_id (hpre h' hh') (List.mem_cons_self _ _) hw
        · exact (hwf.elem h' (hpre h' hh') u hu).2
      exact e ▸ hu' ▸ List.mem_map_of_mem _ hh')) hlw
  refine ⟨fun s hs => ?_, fun s hs => ?_⟩
  · obtain ⟨h', hh', h1, h2, h3, h4, h5⟩ := hinv.rebuild s hs
    exact ⟨h', List.mem_append_left _ hh', h1, h2, h3,
      hkeep h' hh' _ (findCheckpointVersion_reach (liveVersion_some h1).1) h4, h5.newNode _ _⟩
  · obtain ⟨h', hh', h1, h2, h3⟩ := hinv.invalid s hs
    exact ⟨h', List.mem_append_left _ hh', h1, h2, hkeep h' hh' _ h1 h3⟩

/-- A resolution that keeps the rebuild skiplists and gives the new header's live version one
keeps every live version of a resolved header on a rebuild skiplist. -/
theorem ScanWF.live_snoc {pre : List PMemOffsetType} {st : RebuilderState}
    (hinv : ScanWF cfg pm elems ht pre st) {h : PMemOffsetType} {l : List Skiplist}
    (hl : ∀ s ∈ st.rebuildSkiplists, s ∈ l)
    (hh : ∀ v, liveVersion cfg pm h = some v → ∃ s ∈ l, s.headerRecord = v) :
    ∀ h' ∈ pre ++ [h], ∀ v, liveVersion cfg pm h' = some v → ∃ s ∈ l, s.headerRecord = v :=
  fun h' hh' v hv => by
    rcases List.mem_append.1 hh' with hh' | hh'
    · obtain ⟨s, hs, rfl⟩ := hinv.live h' hh' v hv
      exact ⟨s, hl s hs, rfl⟩
    · exact hh v (List.mem_singleton.1 hh' ▸ hv)

/-- **One header of a well-formed store**: resolving a header of an ID not yet resolved returns
`Ok` and extends what the scan leaves to that header. -/
theorem ScanWF.step (hwf : WellFormed cfg pm hs elems) (hfresh : FreshIndex pm hs elems ht)
    {pre : List PMemOffsetType} {st : RebuilderState} (hinv : ScanWF cfg pm elems ht pre st)
    (hpre : ∀ p ∈ pre, p ∈ hs) {h : PMemOffsetType} (hh : h ∈ hs) (hnew : h ∉ pre) (tid : Nat) :
    ∃ st', resolveHeader cfg tid h st = .ok (.Ok, st') ∧ ScanWF cfg pm elems ht (pre ++ [h]) st' := by
  have hx : (pm h).id ∉ pre.map fun h => (pm h).id := fun hm => by
    obtain ⟨p, hp, hpid⟩ := List.mem_map.1 hm
    exact hnew (hwf.eq_of_id (hpre p hp) hh hpid ▸ hp)
  have hcore : ∀ u, (st.pm u).core = (pm u).core := fun u => (hinv.core u).1
  have hid : ∀ u, (st.pm u).id = (pm u).id := fun u => (DLRecord.sameCore (hcore u)).id
  have hown : ∀ u, (pm u).id = (pm h).id → st.pm u = pm u := fun u hu => hinv.rest u (hu ▸ hx)
  have hlist : ∀ u ∈ h :: elems h, (pm u).id = (pm h).id := fun u hu => hwf.reach_id hh hu .refl
  have hl : Links st.pm h (elems h) h :=
    links_of_eq_on (fun u hu => hown u (hlist u hu)) (hwf.links h hh)
  have hfreshid : ∀ s ∈ st.rebuildSkiplists ++ st.invalidSkiplists, s.id ≠ (pm h).id :=
    fun s hs e => hx (e ▸ hinv.id_mem hs)
  have hids : ∀ s : Skiplist, s.id = (pm h).id →
      ((st.rebuildSkiplists ++ assignSkiplist st.invalidSkiplists s).map Skiplist.id).Nodup ∧
        ((assignSkiplist st.rebuildSkiplists s ++ st.invalidSkiplists).map Skiplist.id).Nodup :=
    fun s hs => assignSkiplist_ids_nodup hinv.ids fun x hx => hs ▸ hfreshid x hx
  have hhash : ∀ y ∈ st.hashTable, y ∈ ht ∨ y.recordType = .SortedRecord ∧ ∃ h' ∈ pre ++ [h],
      (liveVersion cfg pm h').isSome ∧ y.key = (pm h').key := fun y hy =>
    (hinv.hash y hy).imp_right fun ⟨ht', h', hh', hl', hk⟩ => ⟨ht', h', by simp [hh'], hl', hk⟩
  obtain ⟨htype, configs, hdec, hcmp⟩ := hwf.header h hh
  obtain ⟨valid, hvalid⟩ := hwf.found hh (List.mem_cons_self _ _)
  have hvalid' : cfg.findCheckpointVersion st.pm h = .ok valid := by
    rw [RebuilderConfig.findCheckpointVersion, findCheckpointVersion_congr_reach hcore
      (fun u hu => by rw [hown u (hwf.reach_id hh (List.mem_cons_self _ _) hu)])]
    exact hvalid
  have hfilt : (valid.filter fun v => (st.pm v).id = (pm h).id) =
      valid.filter fun v => (pm v).id = (pm h).id := by simp only [hid]
  have hver : ∀ v, (valid.filter fun v => (pm v).id = (pm h).id) = some v →
      OldVersionReach pm h v ∧ (pm v).recordType = .SortedRecord ∧ (pm v).id = (pm h).id ∧
      (¬((pm v).recordStatus = .Outdated ∨ (pm v).expired = true) → liveVersion cfg pm h = some v) :=
    fun v hv => by
      obtain ⟨hv1, hv2⟩ := Option.filter_eq_some.1 hv
      have hr := findCheckpointVersion_reach (show cfg.findCheckpointVersion pm h = .ok (some v) by
        rw [hvalid, Option.mem_def.1 hv1])
      refine ⟨hr, (hwf.reach hh (List.mem_cons_self _ _) hr).2.2.1.trans htype, by simpa using hv2,
        fun hout => ?_⟩
      rw [liveVersion_of_found hvalid, hv, Option.filter_some, if_pos (by simpa using hout)]
  have hst : ∀ u, (st.pm u).recordStatus = (pm u).recordStatus ∧ (st.pm u).expired = (pm u).expired :=
    fun u => ⟨(DLRecord.sameCore (hcore u)).recordStatus, (DLRecord.sameCore (hcore u)).expired⟩
  -- the resolution returns
  obtain ⟨st', hres⟩ := resolveHeader_returns tid (by rw [hown h rfl]; exact hdec) hcmp
    hvalid' fun v hv => by
      obtain ⟨-, hvt, -, hlive⟩ := hver v (hfilt ▸ hv)
      refine ⟨fun _ => checkPrevLinkage_of_links hl, (hinv.core v).2.trans hvt, fun hout y hy => ?_⟩
      rw [hown h rfl]
      rcases hinv.hash y hy with hy | ⟨-, h', hh', hl', hk⟩
      · exact (hfresh y hy h hh).1
      · have hne : y.key ≠ (pm h).key := fun e => hnew (hwf.names h' (hpre h' hh') h hh hl'
          (by rw [hlive (by simpa only [(hst v).1, (hst v).2] using hout)]; rfl) (hk ▸ e) ▸ hh')
        simp [HashEntry.matches, hne]
  refine ⟨st', hres, ?_⟩
  obtain ⟨id, configs', valid', hdec', -, hvalid'', -, hcase⟩ := resolveHeader_spec cfg hres
  rw [hown h rfl, hdec] at hdec'
  obtain ⟨rfl, rfl⟩ : (pm h).id = id ∧ configs = configs' := by simpa using hdec'
  obtain rfl : valid = valid' := Except.ok.inj (hvalid'.symm.trans hvalid'')
  rw [hfilt] at hcase
  rcases hf : valid.filter (fun v => (pm v).id = (pm h).id) with _ | v <;> rw [hf] at hcase <;>
    dsimp only at hcase
  · -- no version of the header's ID: an invalid skiplist on the header
    subst hcase
    have hfr := hinv.frame hwf hpre hx st.pm (fun _ _ => rfl) h cfg.kMaxHeight
    refine ⟨hinv.core, hinv.oldVersion, fun u hu => hinv.rest u fun hm => hu (by simp [hm]),
      hfr.1, fun s hs => ?_, (hids _ rfl).1, hinv.nodes, hhash, hinv.live_snoc (fun _ hx => hx)
        fun v hv => absurd hv (by rw [liveVersion_of_found hvalid, hf]; simp)⟩
    rcases mem_assignSkiplist hs with hs | rfl
    · exact hfr.2 s hs
    · exact ⟨h, by simp, .refl, rfl, hl⟩
  · obtain ⟨-, hcase⟩ := hcase
    obtain ⟨hreach, hvtype, hvid, hlive⟩ := hver v hf
    have hframe : ∀ u, (pm u).id ≠ (pm h).id → st.pm.placeVersion h v u = st.pm u := fun u hu =>
      placeVersion_frame hl (fun hm => hu (hlist u hm)) fun e => hu (e ▸ hvid)
    have hl1 : Links (st.pm.placeVersion h v) v (elems h) v :=
      links_placeVersion hl (hwf.list_nodup hh) fun hm => by
        have := (hwf.elem h hh v hm).1
        rw [hvtype] at this
        cases this
    simp only [(hst v).1, (hst v).2] at hcase
    by_cases hout : (pm v).recordStatus = .Outdated ∨ (pm v).expired = true
    · -- an `Outdated` or expired version: an invalid skiplist on it
      rw [if_pos hout] at hcase
      subst hcase
      have hfr := hinv.frame hwf hpre hx _ hframe v cfg.kMaxHeight
      refine ⟨fun u => ⟨by rw [placeVersion_core]; exact hcore u,
          by rw [placeVersion_recordType]; exact (hinv.core u).2⟩,
        fun u hu => by rw [placeVersion_oldVersion]; exact hinv.oldVersion u hu,
        fun u hu => (hframe u fun e => hu (by simp [e])).trans (hinv.rest u fun hm => hu (by simp [hm])),
        hfr.1, fun s hs => ?_, (hids _ rfl).1, hinv.nodes, hhash, hinv.live_snoc (fun _ hx => hx)
          fun v' hv' => absurd hv' (by
            rw [liveVersion_of_found hvalid, hf, Option.filter_some,
              if_neg (by simpa only [decide_eq_true_eq, not_not] using hout)]
            exact nofun)⟩
      rcases mem_assignSkiplist hs with hs | rfl
      · exact hfr.2 s hs
      · exact ⟨h, by simp, hreach, rfl, hl1⟩
    · -- a live version: a rebuild skiplist on it
      rw [if_neg hout] at hcase
      obtain ⟨-, rfl⟩ := hcase
      have hframe2 : ∀ u, (pm u).id ≠ (pm h).id →
          (st.pm.placeVersion h v).persistOldVersion v kNullPMemOffset u = st.pm u := fun u hu => by
        rw [PMem.persistOldVersion, PMem.modify_ne _ _ fun e => hu (by rw [e]; exact hvid)]
        exact hframe u hu
      have hfr := hinv.frame hwf hpre hx _ hframe2 v cfg.kMaxHeight
      refine ⟨fun u => ⟨by simp only [persistOldVersion_core, placeVersion_core]; exact hcore u,
          by simp only [persistOldVersion_recordType, placeVersion_recordType]; exact (hinv.core u).2⟩,
        fun u hu => ?_,
        fun u hu => (hframe2 u fun e => hu (by simp [e])).trans
          (hinv.rest u fun hm => hu (by simp [hm])),
        fun s hs => ?_, hfr.2, (hids _ rfl).2, ?_, fun y hy => ?_, ?_⟩
      · have huv : u ≠ v := fun e => hu (e ▸ hvtype)
        rw [persistOldVersion_oldVersion, if_neg huv, placeVersion_oldVersion]
        exact hinv.oldVersion u hu
      · rcases mem_assignSkiplist hs with hs | rfl
        · exact hfr.1 s hs
        · exact ⟨h, by simp, hlive hout, rfl, rfl,
            links_congr (fun _ _ => persistOldVersion_next _ _ _ _)
              (fun _ _ => persistOldVersion_prev _ _ _ _) hl1,
            headerNodeReady_newNode _ _ _⟩
      · rw [assignSkiplist_of_fresh fun s hs => hfreshid s (List.mem_append_left _ hs),
          List.map_append, List.nodup_append]
        refine ⟨hinv.nodes, List.nodup_singleton _, fun a ha hb => ?_⟩
        obtain rfl := List.mem_singleton.1 hb
        obtain ⟨s, hs, e⟩ := List.mem_map.1 ha
        obtain ⟨-, -, -, -, -, -, hready⟩ := hinv.rebuild s hs
        exact absurd hready.1 (by simp [e, newSkiplist])
      · rcases List.mem_append.1 hy with hy | hy
        · exact hhash y hy
        · obtain rfl := List.mem_singleton.1 hy
          exact .inr ⟨rfl, h, by simp, by rw [hlive hout]; rfl, by rw [hown h rfl]⟩
      · rw [assignSkiplist_of_fresh fun s hs => hfreshid s (List.mem_append_left _ hs)]
        refine hinv.live_snoc (fun x hx => List.mem_append_left _ hx) fun v' hv' =>
          ⟨_, List.mem_append_right _ (List.mem_singleton_self _), ?_⟩
        rw [hlive hout] at hv'
        exact Option.some.inj hv'

/-- In the scan of distinct headers of a well-formed store no header is followed by one of its
ID: every step of the loop is a resolution. -/
theorem ScanWF.scanStep (hwf : WellFormed cfg pm hs elems) {pre : List PMemOffsetType}
    {st st1 : RebuilderState} (hinv : ScanWF cfg pm elems ht pre st) {h : PMemOffsetType}
    {rest : List PMemOffsetType} (hsub : ∀ p ∈ pre ++ h :: rest, p ∈ hs)
    (hnd : (pre ++ h :: rest).Nodup) {tid : Nat} (hres : resolveHeader cfg tid h st = .ok (.Ok, st1)) :
    ScanStep cfg tid h rest st st1 := .inr ⟨fun n hn e => by
  have hnr : n ∈ rest := List.mem_of_mem_head? hn
  rw [(DLRecord.sameCore (hinv.core n).1).id, (DLRecord.sameCore (hinv.core h).1).id] at e
  obtain rfl := hwf.eq_of_id (hsub n (by simp [hnr])) (hsub h (by simp)) e
  exact (List.nodup_cons.1 (List.nodup_append.1 hnd).2.1).1 hnr, hres⟩

/-- **The scan of well-formed headers**: over distinct headers of the store, each of its own ID,
the loop resolves every one and returns `Ok`. -/
theorem ScanWF.run (hwf : WellFormed cfg pm hs elems) (hfresh : FreshIndex pm hs elems ht)
    (tid : Nat) : ∀ (rest pre : List PMemOffsetType) (st : RebuilderState),
      ScanWF cfg pm elems ht pre st → (∀ p ∈ pre ++ rest, p ∈ hs) → (pre ++ rest).Nodup →
      ∃ st', initRebuildListsLoop cfg tid rest st = .ok (.Ok, st') ∧
        ScanWF cfg pm elems ht (pre ++ rest) st'
  | [], pre, st, hinv, _, _ => ⟨st, rfl, by simpa using hinv⟩
  | h :: rest, pre, st, hinv, hsub, hnd => by
    have hnd' : (pre ++ [h] ++ rest).Nodup := by simpa using hnd
    obtain ⟨st1, hres, hinv1⟩ := hinv.step hwf hfresh (fun p hp => hsub p (by simp [hp]))
      (hsub h (by simp)) (fun hp => by simp [List.nodup_append] at hnd; exact hnd.2.2.1 hp) tid
    obtain ⟨st', hl, hinv'⟩ := ScanWF.run hwf hfresh tid rest (pre ++ [h]) st1 hinv1
      (by simpa using hsub) hnd'
    exact ⟨st', (hinv.scanStep hwf hsub hnd hres).loop_eq.trans hl, by simpa using hinv'⟩

end Scan

/-- **The header scan of a well-formed store** (`initRebuildLists`): from a rebuilder with no
skiplist yet, over the headers of a well-formed store and a hash index with no entry for its
names and keys, it returns `Ok` and leaves what `ScanWF` says of all the headers, in the order
the sort gives them. -/
theorem initRebuildLists_wellFormed {elems : PMemOffsetType → List PMemOffsetType}
    {st : RebuilderState} (hwf : WellFormed cfg st.pm st.linkedHeaders elems)
    (hfresh : FreshIndex st.pm st.linkedHeaders elems st.hashTable)
    (hempty : st.rebuildSkiplists = [] ∧ st.invalidSkiplists = []) (tid : Nat) :
    ∃ st', initRebuildLists cfg tid st = .ok (.Ok, st') ∧
      ScanWF cfg st.pm elems st.hashTable (sortHeaders st.pm st.linkedHeaders) st' := by
  have hperm := List.perm_insertionSort (fun a b => headerCmp st.pm b a = false) st.linkedHeaders
  obtain ⟨st1, hl, hinv⟩ := ScanWF.run hwf hfresh tid (sortHeaders st.pm st.linkedHeaders) []
    { st with linkedHeaders := sortHeaders st.pm st.linkedHeaders }
    (ScanWF.start { st with linkedHeaders := sortHeaders st.pm st.linkedHeaders } hempty)
    (fun p hp => hperm.mem_iff.1 (by simpa [sortHeaders] using hp)) (by simpa using hperm.nodup_iff.2 hwf.nodup)
  refine ⟨{ st1 with linkedHeaders := [] }, ?_,
    ⟨hinv.1, hinv.2, hinv.3, hinv.4, hinv.5, hinv.6, hinv.7, hinv.8, hinv.9⟩⟩
  simp only [initRebuildLists, except_bind_eq_ok]
  exact ⟨(.Ok, st1), hl, rfl⟩

end Kvdk
