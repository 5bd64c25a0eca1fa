import SortedRebuild.ListWalk
import SortedRebuild.Segment

/-
  The walk of one recovery segment in phase A of the segment-based rebuild:
  `SortedCollectionRebuilder::rebuildSegmentIndex` (rebuilder.cpp, lines 322-418).

  A segment of a rebuild skiplist starts at its header record or at an element `AddElement`
  sampled, on the segment's start node, and runs over the elements after it up to the start of
  the next segment or the header.  The list as the walk finds it is `front ++ body ++ post`:
  `front` ends at the start record, `body` is the segment's elements, `post` is empty or begins
  at the next start (`SegReady`).  The walk resolves each element of the body as the list-based
  walk does, and links the nodes it builds at level 1 only, after the start node; at the end it
  points the last node at the next start's node, or at null.

  The loop invariant `SegInv` is `WalkInv` with the list standing between `front` and `post` and
  the DRAM side replaced by `SegLevel`: the level-1 path from the start node through the nodes
  built so far ends at the node cursor, and no other node that was there has changed.
  `SegInv.step` is one turn, `SegInv.run` the loop, and `rebuildSegmentIndex_spec` the task:
  started on a segment whose start is its own checkpoint version, it returns `Ok` and leaves what
  `SegDone` says: the body replaced by `rebuiltList`, the start's `old_version` cleared, the hash
  entries of the start and of the kept versions appended, and the level-1 path from the start
  node to the next segment's.
-/

namespace Kvdk

/-! ## Level 1 of a segment -/

/-- **The DRAM side of a segment's walk**, from the DRAM `d0` it started with: `ns` are the nodes
built so far, in list order, and every node the walk built, each of a tower height in
`1..kMaxHeight`; the nodes that were there at the start are as they were, but for the pointers of
the start node `sn`; and the level-1 path from the start node through `ns` ends at the node
cursor `cur`. -/
structure SegLevel (kMaxHeight : Nat) (d0 : Dram) (sn : Nat) (ns : List Nat) (d : Dram)
    (cur : Nat) : Prop where
  count : d0.nodeCount ≤ d.nodeCount
  old : ∀ m < d0.nodeCount, m ≠ sn → d.nodes m = d0.nodes m
  start : (d.nodes sn).record = (d0.nodes sn).record ∧ (d.nodes sn).height = (d0.nodes sn).height
  built : ∀ n, n ∈ ns ↔ d0.nodeCount ≤ n ∧ n < d.nodeCount
  nodup : ns.Nodup
  height : ∀ n ∈ ns, 1 ≤ (d.nodes n).height ∧ (d.nodes n).height ≤ kMaxHeight
  path : NodePath d 1 sn ns cur

section Level

variable {k : Nat} {d0 : Dram} {sn : Nat} {ns : List Nat} {d : Dram} {cur : Nat}

/-- Before the first node: the cursor at the start node. -/
theorem SegLevel.init (k : Nat) (d0 : Dram) (sn : Nat) : SegLevel k d0 sn [] d0 sn :=
  ⟨le_rfl, fun _ _ _ => rfl, ⟨rfl, rfl⟩, fun n => by simp only [List.not_mem_nil, false_iff]; omega,
    List.nodup_nil, by simp, rfl⟩

theorem SegLevel.record (hinv : SegLevel k d0 sn ns d cur) {m : Nat} (hm : m < d0.nodeCount) :
    (d.nodes m).record = (d0.nodes m).record := by
  by_cases h : m = sn
  · subst h; exact hinv.start.1
  · rw [hinv.old m hm h]

theorem SegLevel.start_not_mem (hinv : SegLevel k d0 sn ns d cur) (hsn : sn < d0.nodeCount) :
    sn ∉ ns := fun h => by have := ((hinv.built sn).1 h).1; omega

theorem SegLevel.cursor_lt (hinv : SegLevel k d0 sn ns d cur) (hsn : sn < d0.nodeCount) :
    cur < d.nodeCount := by
  rcases nodePath_end hinv.path with rfl | h
  · exact lt_of_lt_of_le hsn hinv.count
  · exact ((hinv.built _).1 h).2

theorem SegLevel.cursor_height (hinv : SegLevel k d0 sn ns d cur)
    (hsh : 1 ≤ (d0.nodes sn).height) : 1 ≤ (d.nodes cur).height := by
  rcases nodePath_end hinv.path with rfl | h
  · rw [hinv.start.2]; exact hsh
  · exact (hinv.height _ h).1

/-- **A node for a kept version** (lines 382-389): a fresh node of a height in `1..kMaxHeight`
gets the cursor's level-1 pointer and a null one of its own, and becomes the cursor. -/
theorem SegLevel.link (hinv : SegLevel k d0 sn ns d cur) (hsn : sn < d0.nodeCount)
    (v : PMemOffsetType) {h : Nat} (h1 : 1 ≤ h) (hk : h ≤ k) :
    SegLevel k d0 sn (ns ++ [d.nodeCount])
      (((d.newNode v h).2.writeNext cur 1 (some d.nodeCount)).writeNext d.nodeCount 1 none)
      d.nodeCount := by
  set n := d.nodeCount
  set d1 := (d.newNode v h).2
  have hd1 : ∀ m, m ≠ n → d1.nodes m = d.nodes m := fun m hm => Function.update_noteq hm _ _
  have hd1n : d1.nodes n = ⟨v, h, fun _ => none⟩ := Function.update_same _ _ _
  have hns : ∀ m ∈ ns, m < n := fun m hm => ((hinv.built m).1 hm).2
  have hsn' : sn < n := lt_of_lt_of_le hsn hinv.count
  have hcur : cur < n := hinv.cursor_lt hsn
  have hsame : ∀ m, m ≠ cur → m ≠ n →
      ((d1.writeNext cur 1 (some n)).writeNext n 1 none).nodes m = d.nodes m := fun m hc hn => by
    simp only [Dram.writeNext, Function.update_noteq hc, Function.update_noteq hn, hd1 m hn]
  have hcount : ((d1.writeNext cur 1 (some n)).writeNext n 1 none).nodeCount = n + 1 := rfl
  refine ⟨by rw [hcount]; exact le_trans hinv.count (Nat.le_succ _), fun m hm hmsn => ?_, ?_,
    fun m => ?_, hinv.nodup.append (List.nodup_singleton n)
      (List.disjoint_singleton.2 fun hm => lt_irrefl _ (hns n hm)), fun m hm => ?_, ?_⟩
  · have hmc : m ≠ cur := by
      rcases nodePath_end hinv.path with rfl | hc
      · exact hmsn
      · exact fun e => by have := ((hinv.built _).1 (e ▸ hc)).1; omega
    rw [hsame m hmc (lt_of_lt_of_le hm hinv.count).ne, hinv.old m hm hmsn]
  · simp only [writeNext_record, writeNext_height, hd1 sn hsn'.ne]
    exact hinv.start
  · rw [List.mem_append, hinv.built, hcount, List.mem_singleton]
    have := hinv.count
    omega
  · simp only [writeNext_height]
    rcases List.mem_append.1 hm with hm | hm
    · rw [hd1 m (hns m hm).ne]; exact hinv.height m hm
    · rw [List.mem_singleton.1 hm, hd1n]; exact ⟨h1, hk⟩
  · have hnd : (sn :: ns).Nodup := List.nodup_cons.2 ⟨hinv.start_not_mem hsn, hinv.nodup⟩
    refine nodePath_snoc (nodePath_congr hnd (fun u hu huc => ?_) hinv.path) ?_
    · have hun : u ≠ n := by
        rcases List.mem_cons.1 hu with rfl | hu
        · exact hsn'.ne
        · exact (hns u hu).ne
      rw [hsame u huc hun]
    · simp [hcur.ne]

/-- **The end of a segment** (lines 351-354 and 402-412): setting the cursor's level-1 pointer
to `next` keeps the invariant, with that pointer after the path. -/
theorem SegLevel.close (hinv : SegLevel k d0 sn ns d cur) (hsn : sn < d0.nodeCount)
    (next : Option Nat) :
    SegLevel k d0 sn ns (d.writeNext cur 1 next) cur ∧
      ((d.writeNext cur 1 next).nodes cur).next 1 = next := by
  have hcur : ∀ m < d0.nodeCount, m ≠ sn → m ≠ cur := fun m hm hmsn => by
    rcases nodePath_end hinv.path with rfl | hc
    · exact hmsn
    · exact fun e => by have := ((hinv.built _).1 (e ▸ hc)).1; omega
  refine ⟨⟨hinv.count, fun m hm hmsn => ?_, by simpa using hinv.start, hinv.built, hinv.nodup,
    by simpa using hinv.height, nodePath_congr (List.nodup_cons.2 ⟨hinv.start_not_mem hsn,
      hinv.nodup⟩) (fun u _ hu => writeNext_next_of_ne hu _ _ _) hinv.path⟩,
    writeNext_next_self _ _ _ _⟩
  simp only [Dram.writeNext, Function.update_noteq (hcur m hm hmsn), hinv.old m hm hmsn]

end Level

/-! ## The walk of a segment -/

variable (cfg : RebuilderConfig)

/-- The start node of the segment whose start record the list `post` begins with, if any. -/
def nextStartNode (segs : List (PMemOffsetType × RecoverySegment)) (post : List PMemOffsetType) :
    Option Nat :=
  post.head?.bind fun b => (segs.lookup b).map RecoverySegment.startNode

/-- **What the walk of a segment of the skiplist `s` needs of the state `st0` it starts from.**
The list holds `front`, which ends at the segment's start record (the header itself when `front`
is empty), then the segment's elements `body`, then `post`, which is empty or begins at the start
record of another segment, on a node built over it.  Every record on the list is linked, not at
the null offset, and an element of `s`'s ID; their keys are distinct.  The elements of the body
start no segment, and what the list-based walk needs of its elements holds of them.  The start
node `sn` is built over the start record, with a tower. -/
structure SegReady (s : Skiplist) (st0 : RebuilderState) (front body post : List PMemOffsetType)
    (sn : Nat) : Prop where
  links : Links st0.pm s.headerRecord (front ++ body ++ post) s.headerRecord
  nonnull : s.headerRecord ≠ kNullPMemOffset ∧ ∀ e ∈ front ++ body ++ post, e ≠ kNullPMemOffset
  header : (st0.pm s.headerRecord).recordType = .SortedRecord ∧ (st0.pm s.headerRecord).id = s.id
  members : ∀ u ∈ front ++ body ++ post, (st0.pm u).recordType = .SortedElem ∧ (st0.pm u).id = s.id
  versions : ∀ e ∈ body, ∀ u, OldVersionReach st0.pm e u → (st0.pm u).recordType = .SortedElem ∧
    (st0.pm u).key = (st0.pm e).key ∧ (st0.pm u).id = s.id
  keys : ((front ++ body ++ post).map fun e => (st0.pm e).key).Nodup
  found : ∀ e ∈ body, ∃ valid, cfg.findCheckpointVersion st0.pm e = .ok valid
  hash : s.indexWithHashtable = true → ∀ e ∈ body, ∀ x ∈ st0.hashTable,
    x.matches (st0.pm e).key .SortedElem = false
  fuel : body.length < cfg.fuel
  starts : ∀ e ∈ body, st0.recoverySegments.lookup e = none
  boundary : ∀ b ∈ post.head?, ∃ seg, st0.recoverySegments.lookup b = some seg ∧
    seg.startNode < st0.dram.nodeCount ∧ (st0.dram.nodes seg.startNode).record = b
  start : (st0.dram.nodes sn).record = front.getLast?.getD s.headerRecord ∧
    sn < st0.dram.nodeCount ∧ 1 ≤ (st0.dram.nodes sn).height

/-- **The invariant of a segment's loop** from `st0`, after the elements `done` of the body and
with `todo` to come: as `WalkInv`, with the list standing between `front` and `post`, the count
starting from `n0`, and on the DRAM side the level-1 path of `SegLevel` from the start node. -/
structure SegInv (s : Skiplist) (st0 : RebuilderState) (front post : List PMemOffsetType)
    (sn n0 : Nat) (done todo : List PMemOffsetType) (kn : List (PMemOffsetType × Option Nat))
    (cur : Nat) (curRecord : PMemOffsetType) (numElems : Nat) (st : RebuilderState) : Prop where
  kept : kn.map Prod.fst = rebuiltList cfg st0.pm done
  links : Links st.pm s.headerRecord (front ++ kn.map Prod.fst ++ (todo ++ post)) s.headerRecord
  cursor : curRecord = ((front ++ kn.map Prod.fst).getLast?).getD s.headerRecord
  count : numElems = n0 + kn.length
  core : ∀ u, (st.pm u).core = (st0.pm u).core ∧ (st.pm u).recordType = (st0.pm u).recordType
  oldVersion : ∀ u ∉ kn.map Prod.fst, (st.pm u).oldVersion = (st0.pm u).oldVersion
  frame : ∀ u, (st0.pm u).id ≠ s.id → st.pm u = st0.pm u
  hash : st.hashTable =
    st0.hashTable ++ if s.indexWithHashtable then kn.map (elemEntry st0.pm) else []
  level : SegLevel cfg.kMaxHeight st0.dram sn (kn.filterMap Prod.snd) st.dram cur
  nodes : ∀ p ∈ kn, ∀ n ∈ p.2, (st.dram.nodes n).record = p.1
  rest : st0.WalkFrame st

variable {cfg}

theorem RebuilderState.WalkFrame.recoverySegments {st st' : RebuilderState}
    (h : st.WalkFrame st') : st'.recoverySegments = st.recoverySegments := by
  unfold RebuilderState.WalkFrame at h; rw [h]

section Ready

variable {s : Skiplist} {st0 : RebuilderState} {front body post : List PMemOffsetType} {sn : Nat}
  {done todo : List PMemOffsetType}

theorem SegReady.kept (hr : SegReady cfg s st0 front body post sn) {e v : PMemOffsetType}
    (he : e ∈ body) (hv : keptVersion cfg st0.pm e = some v) :
    (st0.pm v).recordType = .SortedElem ∧ (st0.pm v).key = (st0.pm e).key ∧ (st0.pm v).id = s.id :=
  hr.versions e he v (keptVersion_reach hv)

/-- The records on the list during the walk are elements of the skiplist's ID. -/
theorem SegReady.mem (hr : SegReady cfg s st0 front body post sn) (hes : done ++ todo = body)
    {u : PMemOffsetType} (hu : u ∈ front ++ rebuiltList cfg st0.pm done ++ (todo ++ post)) :
    (st0.pm u).recordType = .SortedElem ∧ (st0.pm u).id = s.id := by
  simp only [List.mem_append] at hu
  rcases hu with (hu | hu) | hu | hu
  · exact hr.members u (by simp [hu])
  · obtain ⟨e, he, hv⟩ := mem_rebuiltList.1 hu
    have := hr.kept (hes ▸ List.mem_append_left _ he) hv
    exact ⟨this.1, this.2.2⟩
  · exact hr.members u (by simp [← hes, hu])
  · exact hr.members u (by simp [hu])

/-- The keys of the records on the list during the walk are distinct. -/
theorem SegReady.keys_nodup (hr : SegReady cfg s st0 front body post sn) (hes : done ++ todo = body) :
    ((front ++ rebuiltList cfg st0.pm done ++ (todo ++ post)).map fun u => (st0.pm u).key).Nodup := by
  have hsub := rebuiltList_keys fun e he v hv =>
    (hr.kept (hes ▸ List.mem_append_left todo he) hv).2.1
  refine hr.keys.sublist ?_
  simp only [← hes, List.map_append, List.append_assoc]
  exact (List.Sublist.refl _).append (hsub.append (List.Sublist.refl _))

/-- The records on the list during the walk are distinct, and none is the header. -/
theorem SegReady.nodup (hr : SegReady cfg s st0 front body post sn) (hes : done ++ todo = body) :
    (s.headerRecord :: (front ++ rebuiltList cfg st0.pm done ++ (todo ++ post))).Nodup := by
  refine List.nodup_cons.2 ⟨fun hH => ?_, (hr.keys_nodup hes).of_map _⟩
  have := (hr.mem hes hH).1
  rw [hr.header.1] at this
  cases this

end Ready

section Step

variable {s : Skiplist} {st0 : RebuilderState} {front body post done todo : List PMemOffsetType}
  {sn n0 : Nat} {e : PMemOffsetType} {kn : List (PMemOffsetType × Option Nat)} {cur : Nat}
  {c : PMemOffsetType} {numElems : Nat} {st : RebuilderState}

/-- The element `e` after the cursor: it is linked after the cursor and before the next element,
the start of the next segment or the header; its checkpoint version is the one it had at the
start; and every record on the list is of the skiplist's ID. -/
theorem SegInv.at_next (hr : SegReady cfg s st0 front body post sn) (hes : done ++ e :: todo = body)
    (hinv : SegInv cfg s st0 front post sn n0 done (e :: todo) kn cur c numElems st) :
    st.pm.Link c e ∧ (st.pm e).next ∈ todo ++ post ++ [s.headerRecord] ∧
      cfg.findCheckpointVersion st.pm e = cfg.findCheckpointVersion st0.pm e ∧
      ∀ u ∈ s.headerRecord :: (front ++ kn.map Prod.fst ++ (e :: todo ++ post)),
        (st0.pm u).id = s.id := by
  have hl := links_append_cons.1 hinv.links
  have hkeys := hr.keys_nodup hes
  rw [← hinv.kept, List.map_append] at hkeys
  have he : e ∈ body := hes ▸ List.mem_append_right _ (List.mem_cons_self _ _)
  refine ⟨by rw [hinv.cursor]; exact links_last hl.1, by simpa using links_next_mem hl.2, ?_,
    fun u hu => ?_⟩
  · refine findCheckpointVersion_congr_reach (fun u => (hinv.core u).1) fun u hu =>
      hinv.oldVersion u fun huK => List.disjoint_of_nodup_append hkeys
        (List.mem_map_of_mem _ (List.mem_append_right _ huK)) ?_
    rw [(hr.versions e he u hu).2.1]
    exact List.mem_map_of_mem _ (List.mem_cons_self _ _)
  · rcases List.mem_cons.1 hu with rfl | hu
    · exact hr.header.2
    · exact (hr.mem hes (hinv.kept ▸ hu)).2

/-- The records `e` stands between, the cursor and `e`'s successor, are the header or records of
the list. -/
theorem SegInv.neighbours_mem (hr : SegReady cfg s st0 front body post sn)
    (hes : done ++ e :: todo = body)
    (hinv : SegInv cfg s st0 front post sn n0 done (e :: todo) kn cur c numElems st) :
    c ∈ s.headerRecord :: (front ++ kn.map Prod.fst ++ (e :: todo ++ post)) ∧
      (st.pm e).next ∈ s.headerRecord :: (front ++ kn.map Prod.fst ++ (e :: todo ++ post)) := by
  refine ⟨?_, ?_⟩
  · rw [hinv.cursor]
    cases h : (front ++ kn.map Prod.fst).getLast? with
    | none => exact List.mem_cons_self _ _
    | some x =>
      exact List.mem_cons_of_mem _ (List.mem_append_left _ (List.mem_of_getLast?_eq_some h))
  · have := (hinv.at_next hr hes).2.1
    simp only [List.mem_append, List.mem_singleton] at this
    rcases this with (h | h) | h
    · simp [h]
    · simp [h]
    · simp [h]

/-- **A turn that removes `e`**, which has no version to keep: `e` leaves the list, and nothing
else changes but the thread caches. -/
theorem SegInv.remove (hr : SegReady cfg s st0 front body post sn) (hes : done ++ e :: todo = body)
    (hinv : SegInv cfg s st0 front post sn n0 done (e :: todo) kn cur c numElems st)
    (hkv : keptVersion cfg st0.pm e = none) (tid : Nat) :
    ∃ st', removeRecord cfg "elems in rebuild should passed linkage check" tid e st = .ok st' ∧
      SegInv cfg s st0 front post sn n0 (done ++ [e]) todo kn cur c numElems st' := by
  obtain ⟨hlink, -, -, hid⟩ := hinv.at_next hr hes
  have hcheck : checkPrevLinkage st.pm e = true := by simp [checkPrevLinkage, hlink.2, hlink.1]
  have hnd := hr.nodup hes
  rw [← hinv.kept] at hnd
  obtain ⟨-, hl⟩ := links_remove hinv.links hnd ((List.perm_append_singleton _ _).nodup_iff.2 hnd)
  refine ⟨_, removeRecord_of_check cfg hcheck, ⟨?_, hl, hinv.cursor, hinv.count, fun u => ?_,
    fun u hu => ?_, fun u hu => ?_, hinv.hash, hinv.level, hinv.nodes, hinv.rest.trans rfl⟩⟩
  · rw [rebuiltList_append, ← hinv.kept]
    simp [rebuiltList, hkv]
  · simpa [addUnlinkedRecord] using hinv.core u
  · simpa [addUnlinkedRecord] using hinv.oldVersion u hu
  · have hne : ∀ w ∈ s.headerRecord :: (front ++ kn.map Prod.fst ++ (e :: todo ++ post)),
        u ≠ w := fun w hw h => hu (h ▸ hid w hw)
    have hmem := hinv.neighbours_mem hr hes
    have hp : u ≠ (st.pm e).prev := by rw [hlink.2]; exact hne _ hmem.1
    simp only [addUnlinkedRecord]
    rw [remove_snd_of_ne _ hp (hne _ hmem.2), hinv.frame u hu]

/-- **A turn that keeps the version `v` of `e`**: `v` takes the place of `e` on the list; with
whatever node the turn builds for it (one node further on the level-1 path, or none), its hash
entry goes into an empty slot, and the invariant goes on with `v` and its node appended, once
`v`'s `old_version` is cleared. -/
theorem SegInv.keep (hr : SegReady cfg s st0 front body post sn) (hes : done ++ e :: todo = body)
    (hinv : SegInv cfg s st0 front post sn n0 done (e :: todo) kn cur c numElems st)
    {v : PMemOffsetType} (hkv : keptVersion cfg st0.pm e = some v) (tid : Nat) :
    ∃ st1, replaceByVersion cfg "elems in rebuild should passed linkage check" tid e v st =
        .ok st1 ∧ st1.dram = st.dram ∧
      ∀ (node : Option Nat) (cur' : Nat) (d' : Dram),
        SegLevel cfg.kMaxHeight st0.dram sn (kn.filterMap Prod.snd ++ node.toList) d' cur' →
        (∀ n ∈ node, (d'.nodes n).record = v) →
        (∀ m < st.dram.nodeCount, (d'.nodes m).record = (st.dram.nodes m).record) →
        ∃ st3, indexElement s.indexWithHashtable (st.pm e).key node v
            { st1 with dram := d', draws := st1.draws + 1 } = .ok (.Ok, st3) ∧
          SegInv cfg s st0 front post sn n0 (done ++ [e]) todo (kn ++ [(v, node)]) cur' v
            (numElems + 1) { st3 with pm := st3.pm.persistOldVersion v kNullPMemOffset } := by
  obtain ⟨hlink, -, -, hid⟩ := hinv.at_next hr hes
  have he : e ∈ body := hes ▸ List.mem_append_right _ (List.mem_cons_self _ _)
  obtain ⟨hvt, hvk, hvi⟩ := hr.kept he hkv
  have hcheck : checkPrevLinkage st.pm e = true := by simp [checkPrevLinkage, hlink.2, hlink.1]
  have hnd := hr.nodup hes
  rw [← hinv.kept] at hnd
  have hkeys := hr.keys_nodup hes
  rw [← hinv.kept] at hkeys
  have hdisj := List.disjoint_of_nodup_append (List.map_append _ _ _ ▸ hkeys)
  have hne : ∀ u, (st0.pm u).id ≠ s.id →
      ∀ w ∈ s.headerRecord :: (front ++ kn.map Prod.fst ++ (e :: todo ++ post)), u ≠ w :=
    fun u hu w hw h => hu (h ▸ hid w hw)
  -- the replacement: `v` takes the place of `e`
  obtain ⟨pm1, U1, hrep, hl1, hcore1, hfr1⟩ : ∃ pm1 U1,
      replaceByVersion cfg "elems in rebuild should passed linkage check" tid e v st =
        .ok { st with pm := pm1, unlinkedRecords := U1 } ∧
      Links pm1 s.headerRecord (front ++ kn.map Prod.fst ++ v :: (todo ++ post)) s.headerRecord ∧
      (∀ u, (pm1 u).core = (st.pm u).core ∧ (pm1 u).recordType = (st.pm u).recordType ∧
        (pm1 u).oldVersion = (st.pm u).oldVersion) ∧
      ∀ u, (st0.pm u).id ≠ s.id → pm1 u = st.pm u := by
    by_cases hve : v = e
    · subst hve
      exact ⟨st.pm, st.unlinkedRecords, replaceByVersion_self cfg _ _ _ _, hinv.links,
        fun _ => ⟨rfl, rfl, rfl⟩, fun _ _ => rfl⟩
    have hvH : v ≠ s.headerRecord := fun h => by rw [h, hr.header.1] at hvt; cases hvt
    have hvL : v ∉ front ++ kn.map Prod.fst ++ (e :: todo ++ post) := fun h =>
      hve (List.inj_on_of_nodup_map hkeys h (by simp) hvk)
    refine ⟨_, _, replaceByVersion_of_check cfg hve hcheck, (links_replace hinv.links hnd
      ((List.perm_append_singleton _ _).nodup_iff.2 hnd) ?_).2, fun u => by simp,
      fun u hu => replace_snd_of_ne _ ?_ ?_ fun h => hu (h ▸ hvi)⟩
    · intro h
      rcases List.mem_cons.1 h with h | h
      · exact hvH h
      rcases List.mem_append.1 h with h | h
      · exact hvL h
      · exact hvH (List.mem_singleton.1 h)
    · rw [hlink.2]; exact hne u hu _ (hinv.neighbours_mem hr hes).1
    · exact hne u hu _ (hinv.neighbours_mem hr hes).2
  refine ⟨_, hrep, rfl, fun node cur' d' hlev hnrec hold => ?_⟩
  -- the hash entry
  set st2 : RebuilderState := { st with
    pm := pm1, unlinkedRecords := U1, dram := d', draws := st.draws + 1 }
  have hv2 : (st2.pm v).recordType = .SortedElem := (hcore1 v).2.1.trans ((hinv.core v).2.trans hvt)
  have hfresh : s.indexWithHashtable = true →
      ∀ x ∈ st2.hashTable, x.matches (st.pm e).key .SortedElem = false := by
    intro hiwh x hx
    rw [show st2.hashTable = st.hashTable from rfl, hinv.hash, if_pos hiwh] at hx
    rw [(DLRecord.sameCore (hinv.core e).1).key]
    rcases List.mem_append.1 hx with hx | hx
    · exact hr.hash hiwh e he x hx
    · obtain ⟨p, hp, rfl⟩ := List.mem_map.1 hx
      simp only [elemEntry, HashEntry.matches, Bool.and_eq_false_iff, decide_eq_false_iff_not]
      refine .inl fun hk => hdisj (List.mem_map_of_mem _ (List.mem_append_right _
        (List.mem_map_of_mem _ hp))) ?_
      rw [hk]
      exact List.mem_map_of_mem _ (List.mem_cons_self _ _)
  refine ⟨_, indexElement_fresh hv2 hnrec hfresh, ⟨?_, ?_, by simp, by simp [hinv.count, Nat.add_assoc],
    fun u => ?_, fun u hu => ?_, fun u hu => ?_, ?_, ?_, fun p hp n hn => ?_, hinv.rest.trans rfl⟩⟩
  · rw [List.map_append, hinv.kept, rebuiltList_append]
    simp [rebuiltList, hkv]
  · have hl1' : Links pm1 s.headerRecord (front ++ (kn ++ [(v, node)]).map Prod.fst ++ (todo ++ post))
        s.headerRecord := by simpa using hl1
    exact links_congr (fun u _ => by simp) (fun u _ => by simp) hl1'
  · exact ⟨by rw [persistOldVersion_core, (hcore1 u).1, (hinv.core u).1],
      by rw [persistOldVersion_recordType, (hcore1 u).2.1, (hinv.core u).2]⟩
  · simp only [List.map_append, List.map_cons, List.map_nil, List.mem_append, List.mem_singleton,
      not_or] at hu
    rw [persistOldVersion_oldVersion, if_neg hu.2, (hcore1 u).2.2, hinv.oldVersion u hu.1]
  · have huv : u ≠ v := fun h => hu (h ▸ hvi)
    simp only [PMem.persistOldVersion, PMem.modify_ne _ _ huv]
    rw [hfr1 u hu, hinv.frame u hu]
  · show st.hashTable ++ _ = _
    rw [hinv.hash]
    by_cases hiwh : s.indexWithHashtable = true
    · simp only [hiwh, if_true, List.map_append, List.map_cons, List.map_nil, List.append_assoc]
      congr 2
      rw [(DLRecord.sameCore (hinv.core e).1).key, ← hvk]
      cases node <;> simp [elemEntry, (DLRecord.sameCore (hcore1 v).1).recordStatus,
        (DLRecord.sameCore (hinv.core v).1).recordStatus, st2]
    · simp [hiwh]
  · rw [List.filterMap_append]
    cases node <;> simpa using hlev
  · rcases List.mem_append.1 hp with hp | hp
    · have hmem : n ∈ kn.filterMap Prod.snd := List.mem_filterMap.2 ⟨p, hp, hn⟩
      rw [hold n ((hinv.level.built n).1 hmem).2]
      exact hinv.nodes p hp n hn
    · obtain rfl : p = (v, node) := List.mem_singleton.1 hp
      exact hnrec n hn

/-- **One turn of the loop** at the element `e` after the cursor: it removes `e` or keeps its
version, and the loop goes on with the invariant one element further. -/
theorem SegInv.step (hr : SegReady cfg s st0 front body post sn) (hes : done ++ e :: todo = body)
    (hinv : SegInv cfg s st0 front post sn n0 done (e :: todo) kn cur c numElems st)
    (tid fuel : Nat) :
    ∃ kn' cur' c' st', rebuildSegmentIndexLoop cfg tid s (fuel + 1) cur c numElems st =
        rebuildSegmentIndexLoop cfg tid s fuel cur' c' (n0 + kn'.length) st' ∧
      SegInv cfg s st0 front post sn n0 (done ++ [e]) todo kn' cur' c' (n0 + kn'.length) st' := by
  obtain ⟨hlink, -, hfcv, -⟩ := hinv.at_next hr hes
  have he : e ∈ body := hes ▸ List.mem_append_right _ (List.mem_cons_self _ _)
  have heH : e ≠ s.headerRecord := fun h => by
    have := (hr.versions e he e .refl).1
    rw [h, hr.header.1] at this
    cases this
  have hlook : st.recoverySegments.lookup e = none := by
    rw [hinv.rest.recoverySegments]; exact hr.starts e he
  obtain ⟨valid, hvalid⟩ := hr.found e he
  have hst : ∀ u, (st.pm u).recordStatus = (st0.pm u).recordStatus := fun u =>
    (DLRecord.sameCore (hinv.core u).1).recordStatus
  have hkept : (valid.filter fun v => (st.pm v).recordStatus ≠ .Outdated) =
      keptVersion cfg st0.pm e := by
    simp only [keptVersion, hvalid, hst]
  rw [rebuildSegmentIndexLoop]
  simp only [hlink.1, offset2addrChecked_of_ne (hr.nonnull.2 e (by simp [← hes])), if_neg heH,
    hlook, bind, Except.bind, hfcv, hvalid, hkept]
  rcases hkv : keptVersion cfg st0.pm e with _ | v
  · obtain ⟨st', hrem, hinv'⟩ := hinv.remove hr hes hkv tid
    exact ⟨kn, cur, c, st', by simp only [hrem, hinv.count], hinv.count ▸ hinv'⟩
  obtain ⟨st1, hrep, hd1, hcont⟩ := hinv.keep hr hes hkv tid
  have hlev1 : SegLevel cfg.kMaxHeight st0.dram sn (kn.filterMap Prod.snd) st1.dram cur := by
    rw [hd1]; exact hinv.level
  by_cases h0 : cfg.randomHeight st1.draws = 0
  · -- a height of 0: no node, the cursor stays
    obtain ⟨st3, hidx, hinv'⟩ := hcont none cur st1.dram (by simpa using hlev1) (by simp)
      fun m _ => by rw [hd1]
    refine ⟨kn ++ [(v, none)], cur, v, _, ?_, by simpa [hinv.count, Nat.add_assoc] using hinv'⟩
    simp [hrep, newNodeBuild, h0, hidx, hinv.count, Nat.add_assoc, pure, Except.pure]
  · -- a fresh node, linked after the cursor at level 1
    set h := cfg.randomHeight st1.draws with hh
    set n := st1.dram.nodeCount
    set d1 := (st1.dram.newNode v h).2
    have hcur : cur < n := hlev1.cursor_lt hr.start.2.1
    have h1 : 1 ≤ (d1.nodes cur).height := by
      rw [show d1.nodes cur = st1.dram.nodes cur from Function.update_noteq hcur.ne _ _]
      exact hlev1.cursor_height hr.start.2.2
    have h2 : 1 ≤ ((d1.writeNext cur 1 (some n)).nodes n).height := by
      simp only [writeNext_height, d1, Dram.newNode, Function.update_same]; omega
    have hlink := hlev1.link hr.start.2.1 v (Nat.one_le_iff_ne_zero.2 h0) (cfg.randomHeight_le _)
    obtain ⟨st3, hidx, hinv'⟩ := hcont (some n) n ((d1.writeNext cur 1 (some n)).writeNext n 1 none)
      (by simpa using hlink) (by simp [d1, Dram.newNode])
      fun m hm => by simp [d1, Dram.newNode, hd1, Function.update_noteq hm.ne]
    refine ⟨kn ++ [(v, some n)], n, v, _, ?_, by simpa [hinv.count, Nat.add_assoc] using hinv'⟩
    simp only [hrep, newNodeBuild_of_ne h0, ← hh, setNext_eq _ le_rfl h1, setNext_eq _ le_rfl h2]
    simp [hidx, hinv.count, Nat.add_assoc, pure, Except.pure]

/-- **The loop at the end of its segment**: past the last element of the body stands the header
or the start of the next segment, on its node; the loop sets the cursor's level-1 pointer to null
or to that node, adds the count to the size and returns `Ok`. -/
theorem SegInv.finish (hr : SegReady cfg s st0 front body post sn)
    (hinv : SegInv cfg s st0 front post sn n0 body [] kn cur c numElems st) (tid fuel : Nat) :
    rebuildSegmentIndexLoop cfg tid s (fuel + 1) cur c numElems st =
      .ok (.Ok, updateSize s.id numElems
        { st with dram := st.dram.writeNext cur 1 (nextStartNode st0.recoverySegments post) }) := by
  have hcur1 := hinv.level.cursor_height hr.start.2.2
  rw [rebuildSegmentIndexLoop]
  cases post with
  | nil =>
    have hl : (st.pm c).next = s.headerRecord := by
      rw [hinv.cursor]
      simpa only [List.nil_append, List.append_nil] using (links_last hinv.links).1
    simp [hl, offset2addrChecked_of_ne hr.nonnull.1, endSegment, setNext_eq _ le_rfl hcur1,
      nextStartNode, bind, Except.bind, pure, Except.pure]
  | cons b post =>
    have hl : (st.pm c).next = b := by
      rw [hinv.cursor]; exact (links_last (links_append_cons.1 hinv.links).1).1
    have hb : b ∈ front ++ body ++ b :: post := by simp
    obtain ⟨seg, hseg, hsn, hrec⟩ := hr.boundary b (by simp)
    have hbH : b ≠ s.headerRecord := fun h => by
      have := (hr.members b hb).1
      rw [h, hr.header.1] at this
      cases this
    have hty : (st.pm (st.dram.nodes seg.startNode).record).recordType = .SortedElem := by
      rw [hinv.level.record hsn, hrec, (hinv.core b).2]; exact (hr.members b hb).1
    simp [hl, offset2addrChecked_of_ne (hr.nonnull.2 b hb), hbH, hinv.rest.recoverySegments, hseg,
      hty, endSegment, setNext_eq _ le_rfl hcur1, nextStartNode, bind, Except.bind, pure,
      Except.pure]

/-- **The loop over the rest of its segment**: from the invariant with `todo` to come, and more
fuel than that, the loop returns `Ok` with the invariant over the whole body, the cursor's
level-1 pointer set to the next start's node (or null) and the count added to the size. -/
theorem SegInv.run (hr : SegReady cfg s st0 front body post sn) (tid : Nat) :
    ∀ (todo done : List PMemOffsetType) (kn : List (PMemOffsetType × Option Nat)) (cur : Nat)
      (c : PMemOffsetType) (st : RebuilderState) (fuel : Nat), done ++ todo = body →
      SegInv cfg s st0 front post sn n0 done todo kn cur c (n0 + kn.length) st →
      todo.length < fuel →
      ∃ kn' cur' c' st', rebuildSegmentIndexLoop cfg tid s fuel cur c (n0 + kn.length) st =
          .ok (.Ok, updateSize s.id (n0 + kn'.length) { st' with
            dram := st'.dram.writeNext cur' 1 (nextStartNode st0.recoverySegments post) }) ∧
        SegInv cfg s st0 front post sn n0 body [] kn' cur' c' (n0 + kn'.length) st'
  | [], done, kn, cur, c, st, fuel, hes, hinv, hf => by
    obtain ⟨fuel, rfl⟩ : ∃ f, fuel = f + 1 := ⟨fuel - 1, by simp at hf; omega⟩
    rw [List.append_nil] at hes
    subst hes
    exact ⟨kn, cur, c, st, hinv.finish hr tid fuel, hinv⟩
  | e :: todo, done, kn, cur, c, st, fuel, hes, hinv, hf => by
    obtain ⟨fuel, rfl⟩ : ∃ f, fuel = f + 1 := ⟨fuel - 1, by simp at hf; omega⟩
    obtain ⟨kn', cur', c', st', hstep, hinv'⟩ := hinv.step hr hes tid fuel
    obtain ⟨kn'', cur'', c'', st'', hrun, hinv''⟩ := SegInv.run hr tid todo (done ++ [e]) kn'
      cur' c' st' fuel (by simpa using hes) hinv' (by simp at hf; omega)
    exact ⟨kn'', cur'', c'', st'', hstep.trans hrun, hinv''⟩

end Step

/-! ## The task of a segment -/

variable (cfg)

/-- The start of a segment among the records it indexes: an element start, with its node; the
header start is the skiplist's own and is not counted. -/
def segStart (s : Skiplist) (r : PMemOffsetType) (sn : Nat) : List (PMemOffsetType × Option Nat) :=
  if r ≠ s.headerRecord then [(r, some sn)] else []

/-- **What the task of a segment leaves**, from the state `stS` it was launched on, with `kn` the
versions kept for the body, each with its node, and `cur` the segment's last node: the body
replaced on the list by `rebuiltList`; the cores and types of all records as they were, every
`old_version` but those of the kept versions and of the start, and every record of another ID;
the hash entries of the start and of the kept versions appended; on level 1 the path from the
start node through the new nodes, the last node pointing at the next segment's start node (or
null); the start and the kept versions counted in the size; and nothing else changed but the
draws and the thread caches. -/
structure SegDone (s : Skiplist) (stS : RebuilderState) (front body post : List PMemOffsetType)
    (sn : Nat) (kn : List (PMemOffsetType × Option Nat)) (cur : Nat) (st : RebuilderState) :
    Prop where
  kept : kn.map Prod.fst = rebuiltList cfg stS.pm body
  links : Links st.pm s.headerRecord (front ++ kn.map Prod.fst ++ post) s.headerRecord
  core : ∀ u, (st.pm u).core = (stS.pm u).core ∧ (st.pm u).recordType = (stS.pm u).recordType
  oldVersion : ∀ u, u ∉ kn.map Prod.fst → u ≠ (stS.dram.nodes sn).record →
    (st.pm u).oldVersion = (stS.pm u).oldVersion
  frame : ∀ u, (stS.pm u).id ≠ s.id → st.pm u = stS.pm u
  hash : st.hashTable = stS.hashTable ++ if s.indexWithHashtable then
    (segStart s (stS.dram.nodes sn).record sn ++ kn).map (elemEntry stS.pm) else []
  level : SegLevel cfg.kMaxHeight stS.dram sn (kn.filterMap Prod.snd) st.dram cur
  next : (st.dram.nodes cur).next 1 = nextStartNode stS.recoverySegments post
  nodes : ∀ p ∈ kn, ∀ n ∈ p.2, (st.dram.nodes n).record = p.1
  rest : (updateSize s.id (segStart s (stS.dram.nodes sn).record sn ++ kn).length stS).WalkFrame st

variable {cfg}

/-- The start of a segment, indexed (lines 329-339): an element start gets its hash entry, on its
node, in an empty slot; the header gets none. -/
theorem indexSegmentStart_eq {s : Skiplist} {sn : Nat} {st : RebuilderState}
    (hty : (st.dram.nodes sn).record ≠ s.headerRecord →
      (st.pm (st.dram.nodes sn).record).recordType = .SortedElem)
    (hfresh : (st.dram.nodes sn).record ≠ s.headerRecord → s.indexWithHashtable = true →
      ∀ x ∈ st.hashTable, x.matches (st.pm (st.dram.nodes sn).record).key .SortedElem = false) :
    indexSegmentStart s sn st = .ok (.Ok, { st with hashTable := st.hashTable ++
      if s.indexWithHashtable then (segStart s (st.dram.nodes sn).record sn).map (elemEntry st.pm)
      else [] }) := by
  unfold indexSegmentStart
  by_cases hH : (st.dram.nodes sn).record = s.headerRecord
  · simp only [hH, segStart, ne_eq, not_true_eq_false, if_false, List.map_nil, ite_self,
      List.append_nil]
    rfl
  · rw [if_pos hH, indexElement_fresh (hty hH) (by simp) (hfresh hH)]
    simp only [kvdkAssert_of_true (hty hH), segStart, if_pos hH]
    cases s.indexWithHashtable <;> rfl

section Task

variable {s : Skiplist} {stS : RebuilderState} {front body post : List PMemOffsetType} {sn : Nat}

/-- An element start has another key than every element of the body. -/
theorem SegReady.start_key_ne (hr : SegReady cfg s stS front body post sn) {e : PMemOffsetType}
    (he : e ∈ body) (hH : (stS.dram.nodes sn).record ≠ s.headerRecord) :
    (stS.pm (stS.dram.nodes sn).record).key ≠ (stS.pm e).key := by
  rw [hr.start.1] at hH ⊢
  cases hf : front.getLast? with
  | none => rw [hf] at hH; exact absurd rfl hH
  | some x =>
    have hkeys := hr.keys
    simp only [List.map_append, List.append_assoc] at hkeys
    intro hk
    rw [Option.getD_some] at hk
    exact List.disjoint_of_nodup_append hkeys
      (List.mem_map_of_mem _ (List.mem_of_getLast?_eq_some hf))
      (hk ▸ List.mem_append_left _ (List.mem_map_of_mem _ he))

/-- No old version of an element of the body is the segment's start record: the start is the
header, or an element with another key. -/
theorem SegReady.reach_ne_start (hr : SegReady cfg s stS front body post sn) {e u : PMemOffsetType}
    (he : e ∈ body) (hu : OldVersionReach stS.pm e u) : u ≠ (stS.dram.nodes sn).record := by
  rintro rfl
  obtain ⟨hut, huk, -⟩ := hr.versions e he _ hu
  by_cases hH : (stS.dram.nodes sn).record = s.headerRecord
  · rw [hH, hr.header.1] at hut; cases hut
  · exact hr.start_key_ne he hH huk

/-- **The task of one segment** (`rebuildSegmentIndex`), launched on a state its walk is ready
for, whose start is its own checkpoint version and, when an element, has no hash entry: it returns
`Ok` and leaves what `SegDone` says. -/
theorem rebuildSegmentIndex_spec (hr : SegReady cfg s stS front body post sn)
    (hcp : cfg.findCheckpointVersion stS.pm (stS.dram.nodes sn).record =
      .ok (some (stS.dram.nodes sn).record))
    (hfresh : (stS.dram.nodes sn).record ≠ s.headerRecord → s.indexWithHashtable = true →
      ∀ x ∈ stS.hashTable, x.matches (stS.pm (stS.dram.nodes sn).record).key .SortedElem = false)
    (tid : Nat) :
    ∃ kn cur st', rebuildSegmentIndex cfg tid sn s stS = .ok (.Ok, st') ∧
      SegDone cfg s stS front body post sn kn cur st' := by
  set r := (stS.dram.nodes sn).record with hr_def
  have hrf : r = s.headerRecord ∨ r ∈ front := by
    rw [hr_def, hr.start.1]
    cases hf : front.getLast? with
    | none => exact .inl rfl
    | some x => exact .inr (List.mem_of_getLast?_eq_some hf)
  have hty : r ≠ s.headerRecord → (stS.pm r).recordType = .SortedElem := fun h =>
    (hr.members r (List.mem_append_left _ (List.mem_append_left _ (hrf.resolve_left h)))).1
  set X := if s.indexWithHashtable then (segStart s r sn).map (elemEntry stS.pm) else [] with hX
  set st0 : RebuilderState := { stS with
    hashTable := stS.hashTable ++ X, pm := stS.pm.persistOldVersion r kNullPMemOffset }
  have hov : ∀ e ∈ body, ∀ u, OldVersionReach stS.pm e u →
      (st0.pm u).oldVersion = (stS.pm u).oldVersion := fun e he u hu => by
    simp [st0, hr.reach_ne_start he hu]
  have hcore : ∀ u, (st0.pm u).core = (stS.pm u).core := fun u => persistOldVersion_core _ _ _ _
  have hkey : ∀ u, (stS.pm.persistOldVersion r kNullPMemOffset u).key = (stS.pm u).key := fun u =>
    (DLRecord.sameCore (hcore u)).key
  -- the walk starts ready, from the start with its `old_version` cleared
  have hr0 : SegReady cfg s st0 front body post sn := by
    refine ⟨links_congr (fun u _ => by simp [st0]) (fun u _ => by simp [st0]) hr.links, hr.nonnull,
      by simpa [st0] using hr.header, fun u hu => by simpa [st0] using hr.members u hu,
      fun e he u hu => ?_, by simpa only [hkey] using hr.keys, fun e he => ?_,
      fun hi e he x hx => ?_, hr.fuel, hr.starts, hr.boundary, hr.start⟩
    · simpa [st0, hkey] using hr.versions e he u (OldVersionReach.of_congr (hov e he) hu)
    · rw [show cfg.findCheckpointVersion st0.pm e = cfg.findCheckpointVersion stS.pm e from
        findCheckpointVersion_congr_reach hcore (hov e he)]
      exact hr.found e he
    · rw [hkey]
      rcases List.mem_append.1 hx with hx | hx
      · exact hr.hash hi e he x hx
      · simp only [hX, hi, if_true, segStart] at hx
        split_ifs at hx with hH
        · obtain rfl : x = elemEntry stS.pm (r, some sn) := by simpa using hx
          simp only [elemEntry, HashEntry.matches, Bool.and_eq_false_iff, decide_eq_false_iff_not]
          exact .inl (hr.start_key_ne he hH)
        · simp at hx
  have hinv0 : SegInv cfg s st0 front post sn (segStart s r sn).length [] body [] sn r
      ((segStart s r sn).length + ([] : List (PMemOffsetType × Option Nat)).length) st0 :=
    ⟨rfl, by simpa using hr0.links, by simpa using hr.start.1, rfl, fun _ => ⟨rfl, rfl⟩,
      fun _ _ => rfl, fun _ _ => rfl, by simp, SegLevel.init _ _ _, by simp, rfl⟩
  obtain ⟨kn, cur, c, st', hrun, hinv⟩ := SegInv.run hr0 tid body [] [] sn r st0 cfg.fuel rfl hinv0
    hr.fuel
  have hclose := hinv.level.close hr.start.2.1 (nextStartNode stS.recoverySegments post)
  have hrid : (stS.pm r).id = s.id := by
    rcases hrf with h | h
    · rw [h]; exact hr.header.2
    · exact (hr.members r (List.mem_append_left _ (List.mem_append_left _ h))).2
  refine ⟨kn, cur, updateSize s.id ((segStart s r sn).length + kn.length) { st' with
    dram := st'.dram.writeNext cur 1 (nextStartNode st0.recoverySegments post) }, ?_,
    ⟨hinv.kept.trans (rebuiltList_congr hcore hov), by simpa using hinv.links, fun u => ?_,
      fun u hu hur => ?_, fun u hu => ?_, ?_, hclose.1, hclose.2, fun p hp n hn => ?_, ?_⟩⟩
  · have hn0 : (if r ≠ s.headerRecord then 1 else 0) =
        (segStart s r sn).length + ([] : List (PMemOffsetType × Option Nat)).length := by
      unfold segStart; split_ifs <;> rfl
    simp only [rebuildSegmentIndex, indexSegmentStart_eq hty hfresh, bind, Except.bind, ne_eq,
      not_true_eq_false, if_false, hcp, kvdkAssert_of_true, hn0]
    exact hrun
  · exact ⟨(hinv.core u).1.trans (hcore u), (hinv.core u).2.trans (by simp [st0])⟩
  · exact (hinv.oldVersion u hu).trans (by simp [st0, hur])
  · have hur : u ≠ r := fun h => hu (h ▸ hrid)
    exact (hinv.frame u (by simpa [st0] using hu)).trans (by simp [st0, PMem.persistOldVersion, hur])
  · show st'.hashTable = _
    rw [hinv.hash, elemEntry_congr hcore]
    by_cases hi : s.indexWithHashtable = true <;> simp [st0, hX, hi]
  · show ((st'.dram.writeNext cur 1 (nextStartNode stS.recoverySegments post)).nodes n).record = p.1
    rw [writeNext_record]; exact hinv.nodes p hp n hn
  · have hrest := hinv.rest
    unfold RebuilderState.WalkFrame at hrest ⊢
    rw [hrest]
    simp [updateSize, st0]

end Task

end Kvdk
