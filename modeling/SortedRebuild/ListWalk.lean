import SortedRebuild.ListRebuild

/-
  The walk of one task of the list-based rebuild, `rebuildSkiplistIndex` (rebuilder.cpp, lines
  489-565), against what it is for.

  The walk visits the elements `es` of a rebuild skiplist's on-media list in order.  What it
  should leave is `rebuiltList`: each element replaced by the version `keptVersion` finds for
  it (its checkpoint version, when there is one and it is not `Outdated`), the elements without
  one removed.  Each kept version may get a DRAM node, spliced in at every level of its tower,
  and, in a hash-indexed collection, the hash entry `elemEntry`.

  The loop invariant `WalkInv` holds after the elements `done`, with `todo` to come: the kept
  versions `kn` (each with the node it got) are `rebuiltList` of `done` and stand on the list
  before `todo`; the record cursor is the last of them; the count is their number; the store
  differs from the start only in links of records of the skiplist's ID and in the cleared
  `old_version` of the kept versions; the hash index has their entries appended; and the DRAM
  side is `TowerInv`: at every level, the path from the header node through the nodes whose
  tower reaches that level ends at the level's cursor, whose pointer is null.

  `WalkInv.step` is one turn of the loop, `rebuildSkiplistIndexLoop_spec` the whole loop, and
  `rebuildSkiplistIndex_spec` the task: with as much fuel as the list is long, it returns `Ok`,
  leaves the list `rebuiltList`, adds its length to the size, and leaves at every level
  `i ≤ kMaxHeight` the null-terminated chain of the nodes whose tower reaches `i`.
-/

namespace Kvdk

variable (cfg : RebuilderConfig)

/-! ## What the walk is for -/

/-- The version the walk keeps in the place of the element `e` (lines 505-511): its checkpoint
version, unless there is none or it is `Outdated`.  A walk that faults keeps nothing. -/
def keptVersion (pm : PMem) (e : PMemOffsetType) : Option PMemOffsetType :=
  match cfg.findCheckpointVersion pm e with
  | .ok valid => valid.filter fun v => (pm v).recordStatus ≠ .Outdated
  | .error _ => none

/-- What the walk leaves of the elements `es`: each replaced by the version kept for it, in
their order, the elements without one removed. -/
def rebuiltList (pm : PMem) (es : List PMemOffsetType) : List PMemOffsetType :=
  es.filterMap (keptVersion cfg pm)

/-- The entries of a hash index in the slots of the keys of the records `es`, as `pm` holds
them: where lookups of those records' keys land. -/
def HashTable.slotsOf (ht : HashTable) (pm : PMem) (es : List PMemOffsetType) : HashTable :=
  ht.filter fun x => es.any fun e => x.matches (pm e).key .SortedElem

/-- The hash entry of the kept version `p.1` with its node `p.2` (lines 539-553): under the
version's key, of an element, pointing to its node when it has one and to the record
otherwise. -/
def elemEntry (pm : PMem) (p : PMemOffsetType × Option Nat) : HashEntry :=
  ⟨(pm p.1).key, .SortedElem, (pm p.1).recordStatus,
    match p.2 with
    | some n => .skiplistNode n
    | none => .dlRecord p.1⟩

@[simp] theorem rebuiltList_append (pm : PMem) (xs ys : List PMemOffsetType) :
    rebuiltList cfg pm (xs ++ ys) = rebuiltList cfg pm xs ++ rebuiltList cfg pm ys :=
  List.filterMap_append _ _ _

variable {cfg}

/-- A kept version is an old version of its element. -/
theorem keptVersion_reach {pm : PMem} {e v : PMemOffsetType} (h : keptVersion cfg pm e = some v) :
    OldVersionReach pm e v := by
  unfold keptVersion at h
  split at h
  · rename_i hv
    have : cfg.findCheckpointVersion pm e = .ok (some v) := by rw [hv, (Option.filter_eq_some.1 h).1]
    exact findCheckpointVersion_reach this
  · cases h

theorem mem_rebuiltList {pm : PMem} {es : List PMemOffsetType} {v : PMemOffsetType} :
    v ∈ rebuiltList cfg pm es ↔ ∃ e ∈ es, keptVersion cfg pm e = some v :=
  List.mem_filterMap

/-- Where every kept version has its element's key, the keys of the list the walk leaves are
those of a subsequence of the elements: any order of the keys is kept. -/
theorem rebuiltList_keys {pm : PMem} :
    ∀ {es : List PMemOffsetType}, (∀ e ∈ es, ∀ v, keptVersion cfg pm e = some v →
      (pm v).key = (pm e).key) →
      List.Sublist ((rebuiltList cfg pm es).map fun v => (pm v).key) (es.map fun e => (pm e).key)
  | [], _ => List.Sublist.slnil
  | e :: es, hk => by
    have ih := rebuiltList_keys fun x hx => hk x (List.mem_cons_of_mem _ hx)
    simp only [rebuiltList, List.filterMap_cons] at ih ⊢
    rcases hv : keptVersion cfg pm e with _ | v
    · exact ih.cons _
    · rw [List.map_cons, hk e (List.mem_cons_self _ _) v hv]
      exact ih.cons₂ _

/-- Two stores whose walks from every element agree keep the same versions. -/
theorem rebuiltList_congr {pm pm' : PMem} {es : List PMemOffsetType}
    (hcore : ∀ u, (pm' u).core = (pm u).core)
    (hov : ∀ e ∈ es, ∀ u, OldVersionReach pm e u → (pm' u).oldVersion = (pm u).oldVersion) :
    rebuiltList cfg pm' es = rebuiltList cfg pm es := by
  refine List.filterMap_congr fun e he => ?_
  simp only [keptVersion, RebuilderConfig.findCheckpointVersion,
    findCheckpointVersion_congr_reach hcore (hov e he),
    fun u => (DLRecord.sameCore (hcore u)).recordStatus]

/-- Two stores that agree on the cores of all records give the same hash entries. -/
theorem elemEntry_congr {pm pm' : PMem} (hcore : ∀ u, (pm' u).core = (pm u).core) :
    elemEntry pm' = elemEntry pm := by
  funext p
  simp only [elemEntry, (DLRecord.sameCore (hcore p.1)).key,
    (DLRecord.sameCore (hcore p.1)).recordStatus]

/-! ## The hash slots of a collection's keys -/

section Slots

variable {ht E : HashTable} {pm : PMem} {es : List PMemOffsetType}

@[simp] theorem HashTable.slotsOf_append :
    HashTable.slotsOf (ht ++ E) pm es = ht.slotsOf pm es ++ E.slotsOf pm es :=
  List.filter_append _ _

/-- No entry in the slots of keys that none of the entries has. -/
theorem HashTable.slotsOf_eq_nil (h : ∀ e ∈ es, ∀ x ∈ ht, x.matches (pm e).key .SortedElem = false) :
    ht.slotsOf pm es = [] :=
  List.filter_eq_nil_iff.2 fun x hx hany => by
    obtain ⟨e, he, hm⟩ := List.any_eq_true.1 hany
    rw [h e he x hx] at hm
    cases hm

/-- The entries of kept versions of the records `es` all sit in their slots. -/
theorem HashTable.slotsOf_elemEntry {kn : List (PMemOffsetType × Option Nat)}
    (h : ∀ p ∈ kn, (elemEntry pm p).key ∈ es.map fun e => (pm e).key) :
    HashTable.slotsOf (kn.map (elemEntry pm)) pm es = kn.map (elemEntry pm) :=
  List.filter_eq_self.2 fun x hx => by
    obtain ⟨p, hp, rfl⟩ := List.mem_map.1 hx
    obtain ⟨e, he, hk⟩ := List.mem_map.1 (h p hp)
    exact List.any_eq_true.2 ⟨e, he, by rw [hk]; simp [HashEntry.matches, elemEntry]⟩

theorem HashTable.slotsOf_congr {pm' : PMem} (hkey : ∀ u, (pm' u).key = (pm u).key) :
    ht.slotsOf pm' es = ht.slotsOf pm es := by
  simp only [HashTable.slotsOf, hkey]

end Slots

/-! ## The writes of one turn -/

/-- The writes of `spliceTower` (lines 531-536): at each level of `levels`, the cursor's pointer
to the node and the node's own null pointer; the cursors of those levels move to the node.
Towers, records and every node not written are as they were. -/
theorem spliceTower_spec (node : Nat) :
    ∀ (is : List Nat) (d : Dram) (prevs : Nat → Nat), is.Nodup →
      (∀ i ∈ is, 1 ≤ i ∧ i ≤ (d.nodes (prevs i)).height ∧ i ≤ (d.nodes node).height) →
      ∃ d', spliceTower node is d prevs = .ok (d', fun k => if k ∈ is then node else prevs k) ∧
        d'.nodeCount = d.nodeCount ∧
        (∀ m, m ≠ node → (∀ i ∈ is, m ≠ prevs i) → d'.nodes m = d.nodes m) ∧
        (∀ m, (d'.nodes m).height = (d.nodes m).height ∧ (d'.nodes m).record = (d.nodes m).record) ∧
        ∀ m k, (d'.nodes m).next k =
          if k ∈ is ∧ m = node then none
          else if k ∈ is ∧ m = prevs k then some node else (d.nodes m).next k
  | [], d, prevs, _, _ => ⟨d, by simp [spliceTower], rfl, fun _ _ _ => rfl,
      fun _ => ⟨rfl, rfl⟩, fun _ _ => by simp⟩
  | i :: is, d, prevs, hnd, hlv => by
    obtain ⟨h1, h2, h3⟩ := hlv i (List.mem_cons_self _ _)
    have hi : i ∉ is := (List.nodup_cons.1 hnd).1
    set d1 := d.writeNext (prevs i) i (some node)
    set d2 := d1.writeNext node i none
    have hupd : ∀ j ∈ is, Function.update prevs i node j = prevs j := fun j hj =>
      Function.update_noteq (fun (e : j = i) => hi (e ▸ hj)) _ _
    obtain ⟨d', hd', hcount, hframe, hhr, hnx⟩ := spliceTower_spec node is d2
      (Function.update prevs i node) (List.nodup_cons.1 hnd).2 fun j hj => by
        obtain ⟨g1, g2, g3⟩ := hlv j (List.mem_cons_of_mem _ hj)
        simpa [d1, d2, hupd j hj] using ⟨g1, g2, g3⟩
    have h3' : i ≤ (d1.nodes node).height := by simpa [d1] using h3
    refine ⟨d', ?_, hcount, fun m hm hms => ?_, fun m => by simpa [d1, d2] using hhr m,
      fun m k => ?_⟩
    · simp only [spliceTower, setNext_eq _ h1 h2, setNext_eq _ h1 h3', bind, Except.bind]
      rw [hd']
      congr 2
      funext k
      by_cases hk : k = i
      · subst hk; simp [hi]
      · simp [hk]
    · rw [hframe m hm fun j hj => by rw [hupd j hj]; exact hms j (List.mem_cons_of_mem _ hj)]
      simp [d1, d2, Dram.writeNext, hm, hms i (List.mem_cons_self _ _)]
    · rw [hnx]
      by_cases hk : k = i
      · subst hk; simp [hi, d1, d2]
      · simp [hk, d1, d2, Function.update_noteq hk]

/-- A drawn height of 0 builds no node; any other a fresh node at the next address. -/
theorem newNodeBuild_of_ne {v : PMemOffsetType} {st : RebuilderState}
    (h0 : cfg.randomHeight st.draws ≠ 0) :
    newNodeBuild cfg v st = (some st.dram.nodeCount,
      { st with dram := (st.dram.newNode v (cfg.randomHeight st.draws)).2, draws := st.draws + 1 }) := by
  simp [newNodeBuild, h0, Dram.newNode]


/-- The hash entry of a kept version, into a slot of its key that is empty (lines 539-553):
`indexElement` returns `Ok` and appends it. -/
theorem indexElement_fresh {iwh : Bool} {key : String} {node : Option Nat} {v : PMemOffsetType}
    {st : RebuilderState} (hv : (st.pm v).recordType = .SortedElem)
    (hn : ∀ n ∈ node, (st.dram.nodes n).record = v)
    (hfresh : iwh = true → ∀ x ∈ st.hashTable, x.matches key .SortedElem = false) :
    indexElement iwh key node v st = .ok (.Ok, { st with hashTable := st.hashTable ++
      if iwh then [⟨key, .SortedElem, (st.pm v).recordStatus,
        node.elim (.dlRecord v) .skiplistNode⟩] else [] }) := by
  cases iwh with
  | false => simp [indexElement]
  | true =>
    cases node with
    | none => exact insertHashIndex_ok_iff.2 ⟨_, _, by simp [readIndexPtr, hv], hfresh rfl, rfl⟩
    | some n =>
      exact insertHashIndex_ok_iff.2 ⟨_, _, by simp [readIndexPtr, hn n rfl, hv], hfresh rfl, rfl⟩

/-! ## The DRAM side -/

/-- **The DRAM side of the walk**, from the DRAM `d0` it started with: `ns` are the nodes built so
far, in list order, and every node the walk built, each of a tower height in `1..kMaxHeight`; the
nodes that were there at the start are as they were, but for the pointers of the header node
`hn`; and at every level `i`, the path from the header node through the nodes of `ns` whose
tower reaches `i` ends at the level's cursor, whose level-`i` pointer is null. -/
structure TowerInv (kMaxHeight : Nat) (d0 : Dram) (hn : Nat) (ns : List Nat) (d : Dram)
    (prevs : Nat → Nat) : Prop where
  count : d0.nodeCount ≤ d.nodeCount
  old : ∀ m < d0.nodeCount, m ≠ hn → d.nodes m = d0.nodes m
  header : (d.nodes hn).height = (d0.nodes hn).height
  built : ∀ n, n ∈ ns ↔ d0.nodeCount ≤ n ∧ n < d.nodeCount
  nodup : ns.Nodup
  height : ∀ n ∈ ns, 1 ≤ (d.nodes n).height ∧ (d.nodes n).height ≤ kMaxHeight
  paths : ∀ i, 1 ≤ i → i ≤ kMaxHeight →
    NodePath d i hn (ns.filter fun n => i ≤ (d.nodes n).height) (prevs i) ∧
      (d.nodes (prevs i)).next i = none

section Tower

variable {kMaxHeight : Nat} {d0 : Dram} {hn : Nat} {ns : List Nat} {d : Dram} {prevs : Nat → Nat}

/-- Before the first node: every cursor at the header node, whose pointers are null. -/
theorem TowerInv.start (hnull : ∀ l, (d0.nodes hn).next l = none) :
    TowerInv kMaxHeight d0 hn [] d0 fun _ => hn :=
  ⟨le_rfl, fun _ _ _ => rfl, rfl, fun n => by simp only [List.not_mem_nil, false_iff]; omega,
    List.nodup_nil, by simp, fun i _ _ => ⟨rfl, hnull i⟩⟩

/-- Every cursor is the header node or a node built so far. -/
theorem TowerInv.cursor (hinv : TowerInv kMaxHeight d0 hn ns d prevs) {i : Nat} (h1 : 1 ≤ i)
    (hi : i ≤ kMaxHeight) : prevs i = hn ∨ (prevs i ∈ ns ∧ i ≤ (d.nodes (prevs i)).height) := by
  rcases nodePath_end (hinv.paths i h1 hi).1 with he | he
  · exact .inl he
  · obtain ⟨hm, hh⟩ := List.mem_filter.1 he
    exact .inr ⟨hm, of_decide_eq_true hh⟩

/-- **Building the node of a kept version** (lines 528-537): a drawn height of 0 changes nothing
but the draws; any other builds a fresh node, links it at every level of its tower after that
level's cursor and makes it the cursor, which keeps the invariant with the node appended. -/
theorem TowerInv.buildNode {st : RebuilderState} (v : PMemOffsetType)
    (hinv : TowerInv cfg.kMaxHeight d0 hn ns st.dram prevs) (hhn : hn < d0.nodeCount)
    (hkh : (d0.nodes hn).height = cfg.kMaxHeight) :
    ∃ node prevs' d', buildNode cfg v prevs st =
        .ok (node, prevs', { st with dram := d', draws := st.draws + 1 }) ∧
      TowerInv cfg.kMaxHeight d0 hn (ns ++ node.toList) d' prevs' ∧
      (∀ n ∈ node, (d'.nodes n).record = v) ∧
      ∀ m ∈ ns, (d'.nodes m).record = (st.dram.nodes m).record := by
  by_cases h0 : cfg.randomHeight st.draws = 0
  · exact ⟨none, prevs, st.dram, by simp [Kvdk.buildNode, newNodeBuild, h0], by simpa using hinv,
      by simp, fun _ _ => rfl⟩
  set h := cfg.randomHeight st.draws with hh
  set n := st.dram.nodeCount
  set d1 := (st.dram.newNode v h).2
  have hd1 : ∀ m, m ≠ n → d1.nodes m = st.dram.nodes m := fun m hm =>
    Function.update_noteq hm _ _
  have hd1n : d1.nodes n = ⟨v, h, fun _ => none⟩ := Function.update_same _ _ _
  have hns : ∀ m ∈ ns, m < n := fun m hm => ((hinv.built m).1 hm).2
  have hhn' : hn < n := lt_of_lt_of_le hhn hinv.count
  have hcur : ∀ i, 1 ≤ i → i ≤ cfg.kMaxHeight → prevs i < n := fun i h1 hi => by
    rcases hinv.cursor h1 hi with he | ⟨hm, -⟩
    · rw [he]; exact hhn'
    · exact hns _ hm
  have hle : h ≤ cfg.kMaxHeight := cfg.randomHeight_le _
  have hcurh : ∀ i, 1 ≤ i → i ≤ cfg.kMaxHeight → i ≤ (st.dram.nodes (prevs i)).height :=
    fun i h1 hi => by
      rcases hinv.cursor h1 hi with he | ⟨-, hc⟩
      · rw [he, hinv.header, hkh]; exact hi
      · exact hc
  obtain ⟨d', hd', hcount, hframe, hhr, hnx⟩ := spliceTower_spec n (List.range' 1 h) d1 prevs
    (List.nodup_range' _ _) fun i hi => by
      rw [List.mem_range'_1] at hi
      rw [hd1 _ (hcur i (by omega) (by omega)).ne, hd1n]
      exact ⟨by omega, hcurh i (by omega) (by omega), by dsimp only; omega⟩
  have hmem : ∀ i, i ∈ List.range' 1 h ↔ 1 ≤ i ∧ i ≤ h := fun i => by
    rw [List.mem_range'_1]; omega
  have hht : ∀ m ∈ ns, (d'.nodes m).height = (st.dram.nodes m).height := fun m hm => by
    rw [(hhr m).1, hd1 _ (hns m hm).ne]
  have hnh : (d'.nodes n).height = h := by rw [(hhr n).1, hd1n]
  have hnext : ∀ u i, u ≠ n → u ≠ prevs i →
      (d'.nodes u).next i = (st.dram.nodes u).next i := fun u i hu hp => by
    rw [hnx, if_neg fun c => hu c.2, if_neg fun c => hp c.2, hd1 _ hu]
  refine ⟨some n, fun k => if k ∈ List.range' 1 h then n else prevs k, d', ?_, ⟨?_, fun m hm hmh => ?_, ?_, fun m => ?_, ?_, fun m hm => ?_,
    fun i h1 hi => ?_⟩, by simp [(hhr n).2, hd1n], fun m hm => by rw [(hhr m).2, hd1 _ (hns m hm).ne]⟩
  · have hd'' : spliceTower st.dram.nodeCount
        (List.range' 1 ((st.dram.newNode v h).2.nodes st.dram.nodeCount).height)
        (st.dram.newNode v h).2 prevs = .ok (d', fun k => if k ∈ List.range' 1 h then n else prevs k) := by
      rw [show ((st.dram.newNode v h).2.nodes st.dram.nodeCount).height = h from
        congrArg SkiplistNode.height hd1n]
      exact hd'
    simp only [Kvdk.buildNode, newNodeBuild_of_ne h0, ← hh, hd'', bind, Except.bind, pure,
      Except.pure]
  · rw [hcount]; exact le_trans hinv.count (Nat.le_succ _)
  · have hmn : m < n := lt_of_lt_of_le hm hinv.count
    rw [hframe m hmn.ne fun i hi => ?_, hd1 _ hmn.ne, hinv.old m hm hmh]
    have := (hmem i).1 hi
    rcases hinv.cursor (i := i) this.1 (by omega) with he | ⟨hc, -⟩
    · rw [he]; exact hmh
    · exact fun e => by have := ((hinv.built _).1 hc).1; omega
  · rw [(hhr hn).1, hd1 _ hhn'.ne, hinv.header]
  · rw [List.mem_append, hinv.built, hcount]
    simp only [Option.mem_toList, Option.mem_def, Option.some.injEq]
    have : d1.nodeCount = n + 1 := rfl
    have := hinv.count
    omega
  · exact hinv.nodup.append (List.nodup_singleton n)
      (List.disjoint_singleton.2 fun hm => lt_irrefl _ (hns n hm))
  · rcases List.mem_append.1 hm with hm | hm
    · rw [hht m hm]; exact hinv.height m hm
    · obtain rfl : m = n := by simpa using hm
      rw [hnh]; omega
  · have hf : (ns ++ [n]).filter (fun m => i ≤ (d'.nodes m).height) =
        ns.filter (fun m => i ≤ (st.dram.nodes m).height) ++ if i ≤ h then [n] else [] := by
      rw [List.filter_append, List.filter_congr fun m hm => by rw [hht m hm]]
      by_cases hih : i ≤ h <;> simp [hih, hnh]
    have hnd : (hn :: ns.filter fun m => i ≤ (st.dram.nodes m).height).Nodup :=
      (List.nodup_cons.2 ⟨fun hm => by
        have := ((hinv.built hn).1 hm).1; omega, hinv.nodup⟩).sublist
        (List.Sublist.cons₂ _ (List.filter_sublist _))
    have hpath := (hinv.paths i h1 hi).1
    have hpath' : NodePath d' i hn (ns.filter fun m => i ≤ (st.dram.nodes m).height) (prevs i) :=
      nodePath_congr hnd (fun u hu hup => hnext u i (fun e => by
        rcases List.mem_cons.1 hu with rfl | hu
        · exact absurd e hhn'.ne
        · exact lt_irrefl _ (e ▸ hns u (List.mem_filter.1 hu).1)) hup) hpath
    simp only [Option.toList_some, hf]
    by_cases hih : i ≤ h
    · have hi' : i ∈ List.range' 1 h := (hmem i).2 ⟨h1, hih⟩
      simp only [hih, if_true, hi']
      refine ⟨nodePath_snoc hpath' ?_, by rw [hnx]; simp [hi']⟩
      rw [hnx, if_neg fun c => (hcur i h1 hi).ne c.2, if_pos ⟨hi', rfl⟩]
    · have hi' : i ∉ List.range' 1 h := fun c => hih ((hmem i).1 c).2
      simp only [hih, if_false, List.append_nil, hi']
      refine ⟨hpath', ?_⟩
      rw [hnx, if_neg fun c => hi' c.1, if_neg fun c => hi' c.1, hd1 _ (hcur i h1 hi).ne]
      exact (hinv.paths i h1 hi).2

end Tower

/-! ## The loop -/

/-- `st'` differs from `st` at most in what a walk writes: the store, the DRAM, the hash index,
the draws and the thread caches. -/
def RebuilderState.WalkFrame (st st' : RebuilderState) : Prop :=
  st' = { st with
    pm := st'.pm, dram := st'.dram, hashTable := st'.hashTable, draws := st'.draws,
    unlinkedRecords := st'.unlinkedRecords }

theorem RebuilderState.WalkFrame.trans {st1 st2 st3 : RebuilderState} (h1 : st1.WalkFrame st2)
    (h2 : st2.WalkFrame st3) : st1.WalkFrame st3 := by
  unfold RebuilderState.WalkFrame at *
  rw [h2, h1]

variable (cfg)

/-- **What the walk of the skiplist `s` needs of the state `st0` it starts from**, whose list
holds the elements `es`: the list is linked through the header record, and no record on it is
at the null offset; the header is a header record of `s`'s ID; every element, and every old
version of it, is an element of its key and of `s`'s ID; the elements' keys are distinct and,
in a hash-indexed collection, have no hash entry; every element's checkpoint version can be
found; there is more fuel than elements; and the header node is as tall as `kMaxHeight`, with
null pointers. -/
structure WalkReady (s : Skiplist) (st0 : RebuilderState) (es : List PMemOffsetType) : Prop where
  links : Links st0.pm s.headerRecord es s.headerRecord
  nonnull : s.headerRecord ≠ kNullPMemOffset ∧ ∀ e ∈ es, e ≠ kNullPMemOffset
  header : (st0.pm s.headerRecord).recordType = .SortedRecord ∧ (st0.pm s.headerRecord).id = s.id
  versions : ∀ e ∈ es, ∀ u, OldVersionReach st0.pm e u → (st0.pm u).recordType = .SortedElem ∧
    (st0.pm u).key = (st0.pm e).key ∧ (st0.pm u).id = s.id
  keys : (es.map fun e => (st0.pm e).key).Nodup
  found : ∀ e ∈ es, ∃ valid, cfg.findCheckpointVersion st0.pm e = .ok valid
  hash : s.indexWithHashtable = true → ∀ e ∈ es, ∀ x ∈ st0.hashTable,
    x.matches (st0.pm e).key .SortedElem = false
  fuel : es.length < cfg.fuel
  headerNode : s.headerNode < st0.dram.nodeCount ∧
    (st0.dram.nodes s.headerNode).height = cfg.kMaxHeight ∧
    ∀ l, (st0.dram.nodes s.headerNode).next l = none

/-- **The invariant of the walk's loop** from `st0`, after the elements `done` and with `todo` to
come: `kn` are the versions kept for `done`, in order, each with the node it got; they stand on
the list before `todo`, and the record cursor is the last of them; the count is their number;
the cores and types of all records are as at the start, every `old_version` but theirs too,
and every record of another ID; the hash index has their entries appended; the DRAM side is
`TowerInv` over their nodes; and nothing else of the state has changed. -/
structure WalkInv (s : Skiplist) (st0 : RebuilderState) (done todo : List PMemOffsetType)
    (kn : List (PMemOffsetType × Option Nat)) (splice : Splice) (numElems : Nat)
    (st : RebuilderState) : Prop where
  kept : kn.map Prod.fst = rebuiltList cfg st0.pm done
  links : Links st.pm s.headerRecord (kn.map Prod.fst ++ todo) s.headerRecord
  cursor : splice.prevPmemRecord = ((kn.map Prod.fst).getLast?).getD s.headerRecord
  count : numElems = kn.length
  core : ∀ u, (st.pm u).core = (st0.pm u).core ∧ (st.pm u).recordType = (st0.pm u).recordType
  oldVersion : ∀ u ∉ kn.map Prod.fst, (st.pm u).oldVersion = (st0.pm u).oldVersion
  frame : ∀ u, (st0.pm u).id ≠ s.id → st.pm u = st0.pm u
  hash : st.hashTable =
    st0.hashTable ++ if s.indexWithHashtable then kn.map (elemEntry st0.pm) else []
  tower : TowerInv cfg.kMaxHeight st0.dram s.headerNode (kn.filterMap Prod.snd) st.dram splice.prevs
  nodes : ∀ p ∈ kn, ∀ n ∈ p.2, (st.dram.nodes n).record = p.1
  rest : st0.WalkFrame st

variable {cfg}

section Walk

variable {s : Skiplist} {st0 : RebuilderState} {es : List PMemOffsetType}

/-- A kept version is an element of its element's key and of the skiplist's ID. -/
theorem WalkReady.kept (hr : WalkReady cfg s st0 es) {e v : PMemOffsetType} (he : e ∈ es)
    (hv : keptVersion cfg st0.pm e = some v) :
    (st0.pm v).recordType = .SortedElem ∧ (st0.pm v).key = (st0.pm e).key ∧ (st0.pm v).id = s.id :=
  hr.versions e he v (keptVersion_reach hv)

/-- The kept versions of `done` and the elements `todo` after them are elements of the skiplist's
ID. -/
theorem WalkReady.mem (hr : WalkReady cfg s st0 es) {done todo : List PMemOffsetType}
    (hes : done ++ todo = es) {u : PMemOffsetType} (hu : u ∈ rebuiltList cfg st0.pm done ++ todo) :
    (st0.pm u).recordType = .SortedElem ∧ (st0.pm u).id = s.id := by
  rcases List.mem_append.1 hu with hu | hu
  · obtain ⟨e, he, hv⟩ := mem_rebuiltList.1 hu
    have := hr.kept (hes ▸ List.mem_append_left _ he) hv
    exact ⟨this.1, this.2.2⟩
  · have := hr.versions u (hes ▸ List.mem_append_right _ hu) u .refl
    exact ⟨this.1, this.2.2⟩

/-- The keys of the kept versions of `done` and of the elements `todo` after them are distinct. -/
theorem WalkReady.keys_nodup (hr : WalkReady cfg s st0 es) {done todo : List PMemOffsetType}
    (hes : done ++ todo = es) :
    ((rebuiltList cfg st0.pm done ++ todo).map fun u => (st0.pm u).key).Nodup := by
  have hsub := rebuiltList_keys fun e he v hv =>
    (hr.kept (hes ▸ List.mem_append_left todo he) hv).2.1
  refine hr.keys.sublist ?_
  rw [← hes, List.map_append, List.map_append]
  exact hsub.append (List.Sublist.refl _)

/-- The records on the list during the walk are distinct. -/
theorem WalkReady.nodup (hr : WalkReady cfg s st0 es) {done todo : List PMemOffsetType}
    (hes : done ++ todo = es) :
    (s.headerRecord :: (rebuiltList cfg st0.pm done ++ todo)).Nodup := by
  refine List.nodup_cons.2 ⟨fun hH => ?_, (hr.keys_nodup hes).of_map _⟩
  have := (hr.mem hes hH).1
  rw [hr.header.1] at this
  cases this

end Walk

section Step

variable {s : Skiplist} {st0 : RebuilderState} {es done todo : List PMemOffsetType}
  {e : PMemOffsetType} {kn : List (PMemOffsetType × Option Nat)} {splice : Splice}
  {numElems : Nat} {st : RebuilderState}

theorem WalkInv.cursor_mem (hinv : WalkInv cfg s st0 done todo kn splice numElems st) :
    splice.prevPmemRecord ∈ s.headerRecord :: kn.map Prod.fst := by
  rw [hinv.cursor]
  cases h : (kn.map Prod.fst).getLast? with
  | none => simp
  | some c => exact List.mem_cons_of_mem _ (List.mem_of_getLast?_eq_some h)

/-- The element `e` after the cursor: it is linked after the cursor and before the next element
or the header; its checkpoint version is the one it had at the start; and every record on the
list is of the skiplist's ID. -/
theorem WalkInv.at_next (hr : WalkReady cfg s st0 es) (hes : done ++ e :: todo = es)
    (hinv : WalkInv cfg s st0 done (e :: todo) kn splice numElems st) :
    st.pm.Link splice.prevPmemRecord e ∧ (st.pm e).next ∈ todo ++ [s.headerRecord] ∧
      cfg.findCheckpointVersion st.pm e = cfg.findCheckpointVersion st0.pm e ∧
      ∀ u ∈ s.headerRecord :: (kn.map Prod.fst ++ e :: todo), (st0.pm u).id = s.id := by
  have hl := links_append_cons.1 hinv.links
  have hkeys := hr.keys_nodup hes
  rw [← hinv.kept, List.map_append] at hkeys
  have he : e ∈ es := hes ▸ List.mem_append_right _ (List.mem_cons_self _ _)
  refine ⟨by rw [hinv.cursor]; exact links_last hl.1, links_next_mem hl.2, ?_, fun u hu => ?_⟩
  · refine findCheckpointVersion_congr_reach (fun u => (hinv.core u).1) fun u hu =>
      hinv.oldVersion u fun huK => List.disjoint_of_nodup_append hkeys
        (List.mem_map_of_mem _ huK) ?_
    rw [(hr.versions e he u hu).2.1]
    exact List.mem_map_of_mem _ (List.mem_cons_self _ _)
  · rcases List.mem_cons.1 hu with rfl | hu
    · exact hr.header.2
    · exact (hr.mem hes (hinv.kept ▸ hu)).2

/-- The records `e` stands between, the cursor and `e`'s successor, are the header or records of
the list. -/
theorem WalkInv.neighbours_mem (hr : WalkReady cfg s st0 es) (hes : done ++ e :: todo = es)
    (hinv : WalkInv cfg s st0 done (e :: todo) kn splice numElems st) :
    splice.prevPmemRecord ∈ s.headerRecord :: (kn.map Prod.fst ++ e :: todo) ∧
      (st.pm e).next ∈ s.headerRecord :: (kn.map Prod.fst ++ e :: todo) := by
  refine ⟨((List.sublist_append_left _ _).cons₂ _).subset hinv.cursor_mem, ?_⟩
  rcases List.mem_append.1 (hinv.at_next hr hes).2.1 with h | h
  · exact List.mem_cons_of_mem _ (List.mem_append_right _ (List.mem_cons_of_mem _ h))
  · rw [List.mem_singleton.1 h]
    exact List.mem_cons_self _ _

/-- **A turn that removes `e`**, which has no version to keep: `e` leaves the list, and nothing
else changes but the thread caches. -/
theorem WalkInv.remove (hr : WalkReady cfg s st0 es) (hes : done ++ e :: todo = es)
    (hinv : WalkInv cfg s st0 done (e :: todo) kn splice numElems st)
    (hkv : keptVersion cfg st0.pm e = none) (tid : Nat) :
    ∃ st', removeRecord cfg "elems in rebuild should passed linkage check" tid e st = .ok st' ∧
      WalkInv cfg s st0 (done ++ [e]) todo kn splice numElems st' := by
  obtain ⟨hlink, hnext, -, hid⟩ := hinv.at_next hr hes
  have hcheck : checkPrevLinkage st.pm e = true := by simp [checkPrevLinkage, hlink.2, hlink.1]
  have hnd := hr.nodup hes
  rw [← hinv.kept] at hnd
  obtain ⟨-, hl⟩ := links_remove hinv.links hnd ((List.perm_append_singleton _ _).nodup_iff.2 hnd)
  refine ⟨_, removeRecord_of_check cfg hcheck, ⟨?_, hl, hinv.cursor, hinv.count, fun u => ?_,
    fun u hu => ?_, fun u hu => ?_, hinv.hash, hinv.tower, hinv.nodes, hinv.rest.trans rfl⟩⟩
  · rw [rebuiltList_append, ← hinv.kept]
    simp [rebuiltList, hkv]
  · simpa [addUnlinkedRecord] using hinv.core u
  · simpa [addUnlinkedRecord] using hinv.oldVersion u hu
  · have hne : ∀ w ∈ s.headerRecord :: (kn.map Prod.fst ++ e :: todo), u ≠ w :=
      fun w hw h => hu (h ▸ hid w hw)
    have hmem := hinv.neighbours_mem hr hes
    have hp : u ≠ (st.pm e).prev := by rw [hlink.2]; exact hne _ hmem.1
    have hn : u ≠ (st.pm e).next := hne _ hmem.2
    simp only [addUnlinkedRecord]
    rw [remove_snd_of_ne _ hp hn, hinv.frame u hu]

/-- **A turn that keeps the version `v` of `e`**: `v` takes the place of `e` on the list, gets
its node from `buildNode` and its hash entry into an empty slot, and the invariant goes on with
`v` and its node appended, once `v`'s `old_version` is cleared. -/
theorem WalkInv.keep (hr : WalkReady cfg s st0 es) (hes : done ++ e :: todo = es)
    (hinv : WalkInv cfg s st0 done (e :: todo) kn splice numElems st) {v : PMemOffsetType}
    (hkv : keptVersion cfg st0.pm e = some v) (tid : Nat) :
    ∃ st1 node prevs st2 st3,
      replaceByVersion cfg "elems in rebuild should passed linkage check" tid e v st = .ok st1 ∧
      buildNode cfg v splice.prevs st1 = .ok (node, prevs, st2) ∧
      indexElement s.indexWithHashtable (st.pm e).key node v st2 = .ok (.Ok, st3) ∧
      WalkInv cfg s st0 (done ++ [e]) todo (kn ++ [(v, node)]) ⟨prevs, v⟩ (numElems + 1)
        { st3 with pm := st3.pm.persistOldVersion v kNullPMemOffset } := by
  obtain ⟨hlink, hnext, -, hid⟩ := hinv.at_next hr hes
  have he : e ∈ es := hes ▸ List.mem_append_right _ (List.mem_cons_self _ _)
  obtain ⟨hvt, hvk, hvi⟩ := hr.kept he hkv
  have hcheck : checkPrevLinkage st.pm e = true := by simp [checkPrevLinkage, hlink.2, hlink.1]
  have hnd := hr.nodup hes
  rw [← hinv.kept] at hnd
  have hkeys := hr.keys_nodup hes
  rw [← hinv.kept] at hkeys
  have hdisj := List.disjoint_of_nodup_append (List.map_append _ _ _ ▸ hkeys)
  have hne : ∀ u, (st0.pm u).id ≠ s.id → ∀ w ∈ s.headerRecord :: (kn.map Prod.fst ++ e :: todo),
      u ≠ w := fun u hu w hw h => hu (h ▸ hid w hw)
  have hcur := hinv.cursor_mem
  -- the replacement: `v` takes the place of `e`
  obtain ⟨pm1, U1, hrep, hl1, hcore1, hfr1⟩ : ∃ pm1 U1,
      replaceByVersion cfg "elems in rebuild should passed linkage check" tid e v st =
        .ok { st with pm := pm1, unlinkedRecords := U1 } ∧
      Links pm1 s.headerRecord (kn.map Prod.fst ++ v :: todo) s.headerRecord ∧
      (∀ u, (pm1 u).core = (st.pm u).core ∧ (pm1 u).recordType = (st.pm u).recordType ∧
        (pm1 u).oldVersion = (st.pm u).oldVersion) ∧
      ∀ u, (st0.pm u).id ≠ s.id → pm1 u = st.pm u := by
    by_cases hve : v = e
    · subst hve
      exact ⟨st.pm, st.unlinkedRecords, replaceByVersion_self cfg _ _ _ _, hinv.links,
        fun _ => ⟨rfl, rfl, rfl⟩, fun _ _ => rfl⟩
    have hvH : v ≠ s.headerRecord := fun h => by rw [h, hr.header.1] at hvt; cases hvt
    have hvL : v ∉ kn.map Prod.fst ++ e :: todo := fun h =>
      hve (List.inj_on_of_nodup_map hkeys h (by simp) hvk)
    refine ⟨_, _, replaceByVersion_of_check cfg hve hcheck, (links_replace hinv.links hnd
      ((List.perm_append_singleton _ _).nodup_iff.2 hnd) ?_).2, fun u => by simp,
      fun u hu => replace_snd_of_ne _ ?_ ?_ fun h => hu (h ▸ hvi)⟩
    · intro h
      rcases List.mem_cons.1 h with h | h
      · exact hvH h
      rcases List.mem_append.1 h with h | h
      · exact hvL h
      · exact hvH (List.mem_singleton.1 h)
    · rw [hlink.2]; exact hne u hu _ (hinv.neighbours_mem hr hes).1
    · exact hne u hu _ (hinv.neighbours_mem hr hes).2
  -- the node
  set st1 : RebuilderState := { st with pm := pm1, unlinkedRecords := U1 }
  have htw : TowerInv cfg.kMaxHeight st0.dram s.headerNode (kn.filterMap Prod.snd) st1.dram
    splice.prevs := hinv.tower
  obtain ⟨node, prevs', d', hbuild, htower, hnrec, hold⟩ :=
    htw.buildNode v hr.headerNode.1 hr.headerNode.2.1
  -- the hash entry
  set st2 : RebuilderState := { st1 with dram := d', draws := st1.draws + 1 }
  have hv2 : (st2.pm v).recordType = .SortedElem := (hcore1 v).2.1.trans ((hinv.core v).2.trans hvt)
  have hfresh : s.indexWithHashtable = true →
      ∀ x ∈ st2.hashTable, x.matches (st.pm e).key .SortedElem = false := by
    intro hiwh x hx
    rw [show st2.hashTable = st.hashTable from rfl, hinv.hash, if_pos hiwh] at hx
    rw [(DLRecord.sameCore (hinv.core e).1).key]
    rcases List.mem_append.1 hx with hx | hx
    · exact hr.hash hiwh e he x hx
    · obtain ⟨p, hp, rfl⟩ := List.mem_map.1 hx
      simp only [elemEntry, HashEntry.matches, Bool.and_eq_false_iff, decide_eq_false_iff_not]
      refine .inl fun hk => hdisj (List.mem_map_of_mem _ (List.mem_map_of_mem _ hp)) ?_
      rw [hk]
      exact List.mem_map_of_mem _ (List.mem_cons_self _ _)
  refine ⟨st1, node, prevs', st2, _, hrep, hbuild, indexElement_fresh hv2 hnrec hfresh,
    ⟨?_, ?_, by simp, by simp [hinv.count], fun u => ?_, fun u hu => ?_, fun u hu => ?_, ?_, ?_,
      fun p hp n hn => ?_, hinv.rest.trans rfl⟩⟩
  · rw [List.map_append, hinv.kept, rebuiltList_append]
    simp [rebuiltList, hkv]
  · have hl1' : Links pm1 s.headerRecord ((kn ++ [(v, node)]).map Prod.fst ++ todo)
        s.headerRecord := by simpa using hl1
    exact links_congr (fun u _ => by simp) (fun u _ => by simp) hl1'
  · exact ⟨by rw [persistOldVersion_core, (hcore1 u).1, (hinv.core u).1],
      by rw [persistOldVersion_recordType, (hcore1 u).2.1, (hinv.core u).2]⟩
  · simp only [List.map_append, List.map_cons, List.map_nil, List.mem_append, List.mem_singleton,
      not_or] at hu
    rw [persistOldVersion_oldVersion, if_neg hu.2, (hcore1 u).2.2, hinv.oldVersion u hu.1]
  · have huv : u ≠ v := fun h => hu (h ▸ hvi)
    simp only [PMem.persistOldVersion, PMem.modify_ne _ _ huv]
    rw [hfr1 u hu, hinv.frame u hu]
  · show st.hashTable ++ _ = _
    rw [hinv.hash]
    by_cases hiwh : s.indexWithHashtable = true
    · simp only [hiwh, if_true, List.map_append, List.map_cons, List.map_nil, List.append_assoc]
      congr 2
      rw [(DLRecord.sameCore (hinv.core e).1).key, ← hvk]
      cases node <;> simp [elemEntry, (DLRecord.sameCore (hcore1 v).1).recordStatus,
        (DLRecord.sameCore (hinv.core v).1).recordStatus, st2, st1]
    · simp [hiwh]
  · rw [List.filterMap_append]
    cases node <;> simpa using htower
  · rcases List.mem_append.1 hp with hp | hp
    · rw [hold n (List.mem_filterMap.2 ⟨p, hp, hn⟩)]
      exact hinv.nodes p hp n hn
    · obtain rfl : p = (v, node) := List.mem_singleton.1 hp
      exact hnrec n hn

/-- **One turn of the loop** at the element `e` after the cursor: it removes `e` or keeps its
version, and the loop goes on with the invariant one element further. -/
theorem WalkInv.step (hr : WalkReady cfg s st0 es) (hes : done ++ e :: todo = es)
    (hinv : WalkInv cfg s st0 done (e :: todo) kn splice numElems st) (tid fuel : Nat) :
    ∃ kn' splice' st', rebuildSkiplistIndexLoop cfg tid s (fuel + 1) splice numElems st =
        rebuildSkiplistIndexLoop cfg tid s fuel splice' kn'.length st' ∧
      WalkInv cfg s st0 (done ++ [e]) todo kn' splice' kn'.length st' := by
  obtain ⟨hlink, -, hfcv, -⟩ := hinv.at_next hr hes
  have he : e ∈ es := hes ▸ List.mem_append_right _ (List.mem_cons_self _ _)
  have heH : e ≠ s.headerRecord := fun h => by
    have := (hr.versions e he e .refl).1
    rw [h, hr.header.1] at this
    cases this
  obtain ⟨valid, hvalid⟩ := hr.found e he
  have hst : ∀ u, (st.pm u).recordStatus = (st0.pm u).recordStatus := fun u =>
    (DLRecord.sameCore (hinv.core u).1).recordStatus
  have hkept : (valid.filter fun v => (st.pm v).recordStatus ≠ .Outdated) =
      keptVersion cfg st0.pm e := by
    simp only [keptVersion, hvalid, hst]
  rw [rebuildSkiplistIndexLoop]
  simp only [hlink.1, offset2addrChecked_of_ne (hr.nonnull.2 e he), if_neg heH, bind, Except.bind,
    hfcv, hvalid, hkept]
  rcases hkv : keptVersion cfg st0.pm e with _ | v
  · obtain ⟨st', hrem, hinv'⟩ := hinv.remove hr hes hkv tid
    exact ⟨kn, splice, st', by simp only [hrem, hinv.count], hinv.count ▸ hinv'⟩
  · obtain ⟨st1, node, prevs, st2, st3, h1, h2, h3, hinv'⟩ := hinv.keep hr hes hkv tid
    refine ⟨kn ++ [(v, node)], _, _, ?_, by simpa [hinv.count] using hinv'⟩
    simp [h1, h2, h3, hinv.count]

/-- **The loop back at the header**: with every element walked, it adds the count to the size
and returns `Ok`. -/
theorem WalkInv.finish (hr : WalkReady cfg s st0 es)
    (hinv : WalkInv cfg s st0 es [] kn splice numElems st) (tid fuel : Nat) :
    rebuildSkiplistIndexLoop cfg tid s (fuel + 1) splice numElems st =
      .ok (.Ok, updateSize s.id numElems st) := by
  have hl := links_last hinv.links
  rw [List.append_nil, ← hinv.cursor] at hl
  rw [rebuildSkiplistIndexLoop]
  simp [hl.1, offset2addrChecked_of_ne hr.nonnull.1]

/-- **The loop over the rest of the list**: from the invariant with `todo` to come, and more
fuel than that, the loop returns `Ok` with the invariant over the whole list and the count added
to the size. -/
theorem WalkInv.run (hr : WalkReady cfg s st0 es) (tid : Nat) :
    ∀ (todo done : List PMemOffsetType) (kn : List (PMemOffsetType × Option Nat)) (splice : Splice)
      (st : RebuilderState) (fuel : Nat), done ++ todo = es →
      WalkInv cfg s st0 done todo kn splice kn.length st → todo.length < fuel →
      ∃ kn' splice' st', rebuildSkiplistIndexLoop cfg tid s fuel splice kn.length st =
          .ok (.Ok, updateSize s.id kn'.length st') ∧ WalkInv cfg s st0 es [] kn' splice' kn'.length st'
  | [], done, kn, splice, st, fuel, hes, hinv, hf => by
    obtain ⟨fuel, rfl⟩ : ∃ f, fuel = f + 1 := ⟨fuel - 1, by simp at hf; omega⟩
    rw [List.append_nil] at hes
    subst hes
    exact ⟨kn, splice, st, hinv.finish hr tid fuel, hinv⟩
  | e :: todo, done, kn, splice, st, fuel, hes, hinv, hf => by
    obtain ⟨fuel, rfl⟩ : ∃ f, fuel = f + 1 := ⟨fuel - 1, by simp at hf; omega⟩
    obtain ⟨kn', splice', st', hstep, hinv'⟩ := hinv.step hr hes tid fuel
    obtain ⟨kn'', splice'', st'', hrun, hinv''⟩ := WalkInv.run hr tid todo (done ++ [e]) kn'
      splice' st' fuel (by simpa using hes) hinv' (by simp at hf; omega)
    exact ⟨kn'', splice'', st'', hstep.trans hrun, hinv''⟩

end Step

/-! ## The task -/

/-- What the walk needs of a state it does not read the thread ID of. -/
theorem WalkReady.nextTid {s : Skiplist} {st : RebuilderState} {es : List PMemOffsetType}
    (hr : WalkReady cfg s st es) (tid : Nat) : WalkReady cfg s { st with nextTid := tid } es :=
  ⟨hr.1, hr.2, hr.3, hr.4, hr.5, hr.6, hr.7, hr.8, hr.9⟩

/-- **The task of one rebuild skiplist** (`rebuildSkiplistIndex`), launched on `st`, whose list
holds the elements `es`: it takes the next thread ID, walks the list from the header with every
cursor at the header node, returns `Ok`, and leaves what `WalkInv` says over the whole list,
with the number of kept versions added to the size. -/
theorem rebuildSkiplistIndex_spec {s : Skiplist} {st : RebuilderState} {es : List PMemOffsetType}
    (hr : WalkReady cfg s st es) :
    ∃ kn splice st', rebuildSkiplistIndex cfg s st = .ok (.Ok, updateSize s.id kn.length st') ∧
      WalkInv cfg s { st with nextTid := st.nextTid + 1 } es [] kn splice kn.length st' :=
  WalkInv.run (hr.nextTid (st.nextTid + 1)) st.nextTid es [] [] ⟨fun _ => s.headerNode, s.headerRecord⟩ _
    cfg.fuel rfl ⟨rfl, by simpa using hr.links, rfl, rfl, fun _ => ⟨rfl, rfl⟩, fun _ _ => rfl,
      fun _ _ => rfl, by split <;> simp, TowerInv.start hr.headerNode.2.2, by simp, rfl⟩ hr.fuel

end Kvdk
