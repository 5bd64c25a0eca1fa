import SortedRebuild.HeaderScan
import SortedRebuild.Recovery
import SortedRebuild.Store
import SortedRebuild.ListWalk

/-
  A list-based `Rebuild` as a whole (rebuilder.cpp, lines 27-40): the header scan of
  `initRebuildLists` (lines 119-246), the tasks `rebuildSkiplistIndex` (lines 489-565) of
  `listBasedIndexRebuild` (lines 567-586) run one after another in batches, and the reclamation of
  `cleanInvalidRecords` (lines 588-612).

  `ListWalk` proves one task.  What a task leaves of its own collection is `Rebuilt`: the rebuilt
  list after its header record, the nodes of its kept versions on every level from its header
  node, their hash entries, and its size.  `TaskFrame` is what a run of tasks keeps: the records
  of other IDs, the cores of all records, the nodes built before other than the tasks' header
  nodes, the older hash entries, the entries of other IDs, the invalid skiplists and the freed
  records.  A task writes only records of its own ID, its own header node, fresh nodes, and hash
  entries under its own keys; so a later walk is still ready (`WalkReady.frame`) and an earlier
  result stays (`Rebuilt.frame`).  `runTasks_rebuilt` is the induction over the launched tasks,
  and `ScanWF.listBased` runs them after the scan of a well-formed store.

  Reclamation only destroys records that are not sorted records linked on both sides, and the
  lists of the invalid skiplists, whose records are of other IDs; every record of a rebuilt list
  is a sorted record on a cycle, so `rebuild_listBased_wellFormed` hands back every rebuilt list
  as its task left it, none of its records destroyed or freed.
-/

namespace Kvdk

/-! ## What a task leaves, and what it keeps -/

/-- **What a run of the tasks of the skiplists `xs` keeps** from `st` to `st'`: the records of
other IDs, the cores and types of all records, the nodes built before other than `xs`'s header
nodes, the hash entries (new ones come after), and the entries of other IDs in the rebuild
list. -/
structure TaskFrame (xs : List Skiplist) (st st' : RebuilderState) : Prop where
  pm : ∀ u, (st.pm u).id ∉ xs.map Skiplist.id → st'.pm u = st.pm u
  core : ∀ u, (st'.pm u).core = (st.pm u).core ∧ (st'.pm u).recordType = (st.pm u).recordType
  count : st.dram.nodeCount ≤ st'.dram.nodeCount
  nodes : ∀ m < st.dram.nodeCount, m ∉ xs.map Skiplist.headerNode →
    st'.dram.nodes m = st.dram.nodes m
  hash : st.hashTable <+: st'.hashTable
  find : ∀ id ∉ xs.map Skiplist.id,
    findSkiplist st'.rebuildSkiplists id = findSkiplist st.rebuildSkiplists id
  invalid : st'.invalidSkiplists = st.invalidSkiplists
  freed : st'.freed = st.freed

theorem TaskFrame.refl (st : RebuilderState) : TaskFrame [] st st :=
  ⟨fun _ _ => rfl, fun _ => ⟨rfl, rfl⟩, le_rfl, fun _ _ _ => rfl, List.prefix_refl _,
    fun _ _ => rfl, rfl, rfl⟩

theorem TaskFrame.trans {xs ys : List Skiplist} {st1 st2 st3 : RebuilderState}
    (h1 : TaskFrame xs st1 st2) (h2 : TaskFrame ys st2 st3) : TaskFrame (xs ++ ys) st1 st3 := by
  refine ⟨fun u hu => ?_, fun u => ?_, h1.count.trans h2.count, fun m hm hn => ?_,
    h1.hash.trans h2.hash, fun id hid => ?_, h2.invalid.trans h1.invalid, h2.freed.trans h1.freed⟩
  · rw [List.map_append, List.mem_append, not_or] at hu
    rw [h2.pm u (by rw [(DLRecord.sameCore (h1.core u).1).id]; exact hu.2), h1.pm u hu.1]
  · rw [(h2.core u).1, (h2.core u).2]; exact h1.core u
  · rw [List.map_append, List.mem_append, not_or] at hn
    rw [h2.nodes m (lt_of_lt_of_le hm h1.count) hn.2, h1.nodes m hm hn.1]
  · rw [List.map_append, List.mem_append, not_or] at hid
    rw [h2.find id hid.2, h1.find id hid.1]

variable (cfg : RebuilderConfig)

/-- **What the task of the skiplist `s` leaves in `st`**, its walk over the elements `es` having
read the store `pm0` and built its nodes from address `base` on: `kn` are the kept versions,
the rebuilt list, each with the node it got; they are linked after the header record, all of
`s`'s ID; their nodes index them; at every level the header node starts the null-terminated
chain of their nodes that reach it; in a hash-indexed collection the slots of the elements' keys
hold one entry per kept version and nothing else; and `s`'s size counts them. -/
structure Rebuilt (s : Skiplist) (pm0 : PMem) (base : Nat) (es : List PMemOffsetType)
    (kn : List (PMemOffsetType × Option Nat)) (st : RebuilderState) : Prop where
  kept : kn.map Prod.fst = rebuiltList cfg pm0 es
  links : Links st.pm s.headerRecord (kn.map Prod.fst) s.headerRecord
  ids : ∀ u ∈ s.headerRecord :: kn.map Prod.fst, (st.pm u).id = s.id
  nodes : ∀ p ∈ kn, ∀ n ∈ p.2, base ≤ n ∧ n < st.dram.nodeCount ∧ (st.dram.nodes n).record = p.1
  levels : ∀ i, 1 ≤ i → i ≤ cfg.kMaxHeight → NodeChain st.dram i s.headerNode
    ((kn.filterMap Prod.snd).filter fun n => i ≤ (st.dram.nodes n).height)
  hash : s.indexWithHashtable = true → (st.hashTable.slotsOf pm0 es).Perm (kn.map (elemEntry pm0))
  size : (findSkiplist st.rebuildSkiplists s.id).map Skiplist.size = some (s.size + kn.length)

variable {cfg}

section Frames

variable {s : Skiplist} {pm0 : PMem} {base : Nat} {es : List PMemOffsetType}
  {kn : List (PMemOffsetType × Option Nat)} {xs : List Skiplist} {st st' : RebuilderState}

/-- What a task left stays through a run of the tasks of other skiplists, whose header nodes
were built before its own nodes and whose hash entries miss its keys. -/
theorem Rebuilt.frame (h : Rebuilt cfg s pm0 base es kn st) (hf : TaskFrame xs st st')
    (hid : s.id ∉ xs.map Skiplist.id) (hhn : s.headerNode ∉ xs.map Skiplist.headerNode)
    (hlt : s.headerNode < st.dram.nodeCount) (hxs : ∀ t ∈ xs, t.headerNode < base)
    (hnew : ∃ E, st'.hashTable = st.hashTable ++ E ∧
      ∀ e ∈ es, ∀ x ∈ E, x.matches (pm0 e).key .SortedElem = false) :
    Rebuilt cfg s pm0 base es kn st' := by
  have hpm : ∀ u ∈ s.headerRecord :: kn.map Prod.fst, st'.pm u = st.pm u := fun u hu =>
    hf.pm u (by rw [h.ids u hu]; exact hid)
  have hown : ∀ n ∈ kn.filterMap Prod.snd, st'.dram.nodes n = st.dram.nodes n := fun n hn => by
    obtain ⟨p, hp, hpn⟩ := List.mem_filterMap.1 hn
    obtain ⟨hb, hn, -⟩ := h.nodes p hp n hpn
    exact hf.nodes n hn fun hm => by
      obtain ⟨t, ht, rfl⟩ := List.mem_map.1 hm
      exact absurd hb (Nat.not_le.2 (hxs t ht))
  refine ⟨h.kept, links_of_eq_on hpm h.links, fun u hu => by rw [hpm u hu]; exact h.ids u hu,
    fun p hp n hn => ?_, fun i h1 hi => ?_, fun hi => ?_,
    by rw [hf.find _ hid]; exact h.size⟩
  · obtain ⟨hb, hlt, hrec⟩ := h.nodes p hp n hn
    exact ⟨hb, lt_of_lt_of_le hlt hf.count,
      by rw [hown n (List.mem_filterMap.2 ⟨p, hp, hn⟩)]; exact hrec⟩
  · rw [List.filter_congr fun n hn => by rw [hown n hn]]
    refine nodeChain_congr (fun u hu => ?_) (h.levels i h1 hi)
    rcases List.mem_cons.1 hu with rfl | hu
    · exact hf.nodes _ hlt hhn
    · exact hown u (List.mem_filter.1 hu).1
  · obtain ⟨E, hE, hEk⟩ := hnew
    rw [hE, HashTable.slotsOf_append, HashTable.slotsOf_eq_nil hEk, List.append_nil]
    exact h.hash hi

/-- What a task left, read against a store that agrees with the one it read on the cores of all
records and on the `old_version` of every version of its elements, from an earlier address. -/
theorem Rebuilt.congr {pm1 : PMem} {base' : Nat} (h : Rebuilt cfg s pm1 base es kn st)
    (hcore : ∀ u, (pm1 u).core = (pm0 u).core)
    (hov : ∀ e ∈ es, ∀ u, OldVersionReach pm0 e u → (pm1 u).oldVersion = (pm0 u).oldVersion)
    (hb : base' ≤ base) : Rebuilt cfg s pm0 base' es kn st :=
  ⟨h.kept.trans (rebuiltList_congr hcore hov), h.links, h.ids,
    fun p hp n hn => (h.nodes p hp n hn).imp_left hb.trans, h.levels, fun hi => by
      rw [← elemEntry_congr hcore, ← HashTable.slotsOf_congr fun u => (DLRecord.sameCore (hcore u)).key]
      exact h.hash hi, h.size⟩

/-- What a task left stays in a state with the same DRAM side, hash index and rebuild skiplists
that keeps the records of the list. -/
theorem Rebuilt.of_eq_on (h : Rebuilt cfg s pm0 base es kn st)
    (hpm : ∀ u ∈ s.headerRecord :: kn.map Prod.fst, st'.pm u = st.pm u) (hd : st'.dram = st.dram)
    (hh : st'.hashTable = st.hashTable) (hr : st'.rebuildSkiplists = st.rebuildSkiplists) :
    Rebuilt cfg s pm0 base es kn st' :=
  ⟨h.kept, links_of_eq_on hpm h.links, fun u hu => (hpm u hu).symm ▸ h.ids u hu, hd ▸ h.nodes,
    hd ▸ h.levels, hh ▸ h.hash, hr ▸ h.size⟩

end Frames

/-! ## One task -/

section Task

variable {s : Skiplist} {st : RebuilderState} {es : List PMemOffsetType}

/-- The hash entries a task adds carry keys of its own elements. -/
theorem WalkReady.entry_key (hr : WalkReady cfg s st es)
    {kn : List (PMemOffsetType × Option Nat)} (hkept : kn.map Prod.fst = rebuiltList cfg st.pm es)
    {p : PMemOffsetType × Option Nat} (hp : p ∈ kn) :
    (elemEntry st.pm p).key ∈ es.map fun e => (st.pm e).key := by
  obtain ⟨e, he, hv⟩ := mem_rebuiltList.1 (hkept ▸ List.mem_map_of_mem Prod.fst hp)
  exact List.mem_map.2 ⟨e, he, (hr.kept he hv).2.1.symm⟩

/-- **The task of one rebuild skiplist, with what it keeps**: on a state its walk is ready for,
the skiplist found under its ID, `rebuildSkiplistIndex` returns `Ok` and leaves what `Rebuilt`
says of the elements `es`, from the first address it builds; it changes only records of `s`'s
ID, fresh nodes and `s`'s header node, and `s`'s entry; and it appends the hash entries of the
kept versions in a hash-indexed collection. -/
theorem rebuildSkiplistIndex_rebuilt (hr : WalkReady cfg s st es)
    (hfind : findSkiplist st.rebuildSkiplists s.id = some s) :
    ∃ kn st', rebuildSkiplistIndex cfg s st = .ok (.Ok, st') ∧
      Rebuilt cfg s st.pm st.dram.nodeCount es kn st' ∧ TaskFrame [s] st st' ∧
      st'.hashTable = st.hashTable ++ if s.indexWithHashtable then kn.map (elemEntry st.pm) else [] := by
  obtain ⟨kn, splice, st', hrun, hinv⟩ := rebuildSkiplistIndex_spec hr
  have hrest := hinv.rest
  rw [RebuilderState.WalkFrame] at hrest
  have hlists : st'.rebuildSkiplists = st.rebuildSkiplists := by rw [hrest]
  have hfind' : ∀ id, findSkiplist (updateSize s.id kn.length st').rebuildSkiplists id =
      (findSkiplist st.rebuildSkiplists id).map fun x =>
        if x.id = s.id then { x with size := x.size + kn.length } else x := fun id => by
    rw [findSkiplist_updateSize, hlists]
  have hid : ∀ u ∈ s.headerRecord :: kn.map Prod.fst, (st.pm u).id = s.id := fun u hu => by
    rcases List.mem_cons.1 hu with rfl | hu
    · exact hr.header.2
    · exact (hr.mem (List.append_nil es) (by rw [List.append_nil, ← hinv.kept]; exact hu)).2
  refine ⟨kn, _, hrun, ⟨hinv.kept, by simpa using hinv.links, fun u hu => ?_, fun p hp n hn => ?_,
    fun i h1 hi => ?_, fun hi => ?_, by simp [hfind', hfind]⟩, ⟨fun u hu => hinv.frame u ?_,
    hinv.core, hinv.tower.count, fun m hm hn => hinv.tower.old m hm ?_, ?_, fun id hid => ?_,
    by show st'.invalidSkiplists = _; rw [hrest], by show st'.freed = _; rw [hrest]⟩, hinv.hash⟩
  · show (st'.pm u).id = s.id
    rw [(DLRecord.sameCore (hinv.core u).1).id]; exact hid u hu
  · have hmem : n ∈ kn.filterMap Prod.snd := List.mem_filterMap.2 ⟨p, hp, hn⟩
    exact ⟨((hinv.tower.built n).1 hmem).1, ((hinv.tower.built n).1 hmem).2, hinv.nodes p hp n hn⟩
  · exact nodeChain_of_path (hinv.tower.paths i h1 hi).1 (hinv.tower.paths i h1 hi).2
  · show (st'.hashTable.slotsOf st.pm es).Perm _
    rw [hinv.hash, if_pos hi, HashTable.slotsOf_append, HashTable.slotsOf_eq_nil (hr.hash hi),
      HashTable.slotsOf_elemEntry fun p hp => hr.entry_key hinv.kept hp, List.nil_append]
  · simpa using hu
  · simpa using hn
  · show st.hashTable <+: st'.hashTable
    rw [hinv.hash]; exact List.prefix_append _ _
  · rw [hfind' id]
    rcases h : findSkiplist st.rebuildSkiplists id with _ | x
    · rfl
    · have hx : x.id = id := by
        have := List.find?_some h; simpa using this
      simp only [Option.map_some', Option.some.injEq]
      rw [if_neg (by rw [hx]; simpa using hid)]

/-- **A later walk is still ready** after a run of the tasks of other skiplists, with other
header nodes, where every hash entry the run added misses the walk's keys. -/
theorem WalkReady.frame {xs : List Skiplist} {st' : RebuilderState} (hr : WalkReady cfg s st es)
    (hf : TaskFrame xs st st') (hid : s.id ∉ xs.map Skiplist.id)
    (hhn : s.headerNode ∉ xs.map Skiplist.headerNode)
    (hhash : ∀ x ∈ st'.hashTable, x ∈ st.hashTable ∨ ∀ e ∈ es, x.matches (st.pm e).key .SortedElem = false) :
    WalkReady cfg s st' es := by
  have hown : ∀ u, (st.pm u).id = s.id → st'.pm u = st.pm u := fun u hu =>
    hf.pm u (by rw [hu]; exact hid)
  have hov : ∀ e ∈ es, ∀ u, OldVersionReach st.pm e u → (st'.pm u).oldVersion = (st.pm u).oldVersion :=
    fun e he u hu => by rw [hown u (hr.versions e he u hu).2.2]
  have hel : ∀ e ∈ es, st'.pm e = st.pm e := fun e he => hown e (hr.versions e he e .refl).2.2
  have hnode := hf.nodes _ hr.headerNode.1 hhn
  refine ⟨links_of_eq_on (fun u hu => ?_) hr.links, hr.nonnull,
    by rw [hown _ hr.header.2]; exact hr.header, fun e he u hu => ?_,
    by rw [List.map_congr_left fun e he => by rw [hel e he]]; exact hr.keys,
    fun e he => ?_, fun hi e he x hx => ?_, hr.fuel,
    ⟨lt_of_lt_of_le hr.headerNode.1 hf.count, by rw [hnode]; exact hr.headerNode.2⟩⟩
  · rcases List.mem_cons.1 hu with rfl | hu
    · exact hown _ hr.header.2
    · exact hel u hu
  · have hu' := OldVersionReach.of_congr (fun x hx => hov e he x hx) hu
    rw [hown u (hr.versions e he u hu').2.2, hel e he]
    exact hr.versions e he u hu'
  · obtain ⟨v, hv⟩ := hr.found e he
    exact ⟨v, by rw [RebuilderConfig.findCheckpointVersion,
      findCheckpointVersion_congr_reach (fun u => (hf.core u).1) (hov e he)]; exact hv⟩
  · rw [hel e he]
    rcases hhash x hx with hx | hx
    · exact hr.hash hi e he x hx
    · exact hx e he

end Task

/-! ## The tasks one after another -/

variable (cfg) in
/-- **The tasks of `xs` run one after another**, each walk ready on the state the run starts
from, over the elements `lists s`, the skiplists found under their IDs, which are distinct, as
are their header nodes and the keys of all their elements: every task returns `Ok` and leaves
what `Rebuilt` says, read against the starting store, and the run keeps what `TaskFrame`
says. -/
theorem runTasks_rebuilt (lists : Skiplist → List PMemOffsetType) :
    ∀ (xs : List Skiplist) (st : RebuilderState), (xs.map Skiplist.id).Nodup →
      (xs.map Skiplist.headerNode).Nodup →
      (xs.flatMap fun s => (lists s).map fun e => (st.pm e).key).Nodup →
      (∀ s ∈ xs, WalkReady cfg s st (lists s) ∧ findSkiplist st.rebuildSkiplists s.id = some s) →
      ∃ rs st', runTasks (rebuildSkiplistIndex cfg) xs st = .ok (rs, st') ∧ (∀ p ∈ rs, p.2 = .Ok) ∧
        TaskFrame xs st st' ∧ (∃ E, st'.hashTable = st.hashTable ++ E ∧
          ∀ x ∈ E, x.key ∈ xs.flatMap fun s => (lists s).map fun e => (st.pm e).key) ∧
        ∀ s ∈ xs, ∃ kn, Rebuilt cfg s st.pm st.dram.nodeCount (lists s) kn st'
  | [], st, _, _, _, _ => ⟨[], st, rfl, by simp, TaskFrame.refl st, ⟨[], by simp, by simp⟩, by simp⟩
  | s :: xs, st, hids, hhns, hkeys, hready => by
    obtain ⟨hr, hfind⟩ := hready s (List.mem_cons_self _ _)
    obtain ⟨kn, st1, hrun1, hreb, hf1, hhash1⟩ := rebuildSkiplistIndex_rebuilt hr hfind
    rw [List.map_cons, List.nodup_cons] at hids hhns
    rw [List.flatMap_cons, List.nodup_append] at hkeys
    have hne : ∀ t ∈ xs, t.id ∉ [s].map Skiplist.id ∧ t.headerNode ∉ [s].map Skiplist.headerNode :=
      fun t ht => by
        simp only [List.map_cons, List.map_nil, List.mem_singleton]
        exact ⟨fun h => hids.1 (h ▸ List.mem_map_of_mem _ ht),
          fun h => hhns.1 (h ▸ List.mem_map_of_mem _ ht)⟩
    have hkey1 : ∀ e, (st1.pm e).key = (st.pm e).key := fun e => (DLRecord.sameCore (hf1.core e).1).key
    have hready1 : ∀ t ∈ xs, WalkReady cfg t st1 (lists t) ∧
        findSkiplist st1.rebuildSkiplists t.id = some t := fun t ht => by
      obtain ⟨hrt, hft⟩ := hready t (List.mem_cons_of_mem _ ht)
      refine ⟨hrt.frame hf1 (hne t ht).1 (hne t ht).2 fun x hx => ?_, by rw [hf1.find _ (hne t ht).1, hft]⟩
      rw [hhash1] at hx
      rcases List.mem_append.1 hx with hx | hx
      · exact .inl hx
      · split at hx
        · obtain ⟨p, hp, rfl⟩ := List.mem_map.1 hx
          refine .inr fun e he => ?_
          have hk : (elemEntry st.pm p).key ≠ (st.pm e).key := fun h => hkeys.2.2
            (hr.entry_key hreb.kept hp) (h ▸ List.mem_flatMap.2 ⟨t, ht, List.mem_map_of_mem _ he⟩)
          simp only [HashEntry.matches, Bool.and_eq_false_iff, decide_eq_false_iff_not]
          exact .inl hk
        · cases hx
    have hkeys1 : (xs.flatMap fun s => (lists s).map fun e => (st1.pm e).key).Nodup := by
      simpa only [hkey1] using hkeys.2.1
    obtain ⟨rs, st', hrun, hok, hf, ⟨E, hE, hEk⟩, hreb'⟩ :=
      runTasks_rebuilt lists xs st1 hids.2 hhns.2 hkeys1 hready1
    -- the entries of the first task sit in its own keys' slots, the later ones in theirs
    have hE1 : ∀ x ∈ (if s.indexWithHashtable then kn.map (elemEntry st.pm) else []),
        x.key ∈ (lists s).map fun e => (st.pm e).key := fun x hx => by
      split at hx
      · obtain ⟨p, hp, rfl⟩ := List.mem_map.1 hx
        exact hr.entry_key hreb.kept hp
      · cases hx
    have hEk' : ∀ x ∈ E, x.key ∈ xs.flatMap fun s => (lists s).map fun e => (st.pm e).key := by
      simpa only [hkey1] using hEk
    refine ⟨(s, .Ok) :: rs, st', ?_, ?_, hf1.trans hf, ⟨(if s.indexWithHashtable then kn.map (elemEntry st.pm) else []) ++ E,
      by rw [hE, hhash1, List.append_assoc],
      fun x hx => ?_⟩, fun t ht => ?_⟩
    · simp only [runTasks, hrun1, hrun, bind, Except.bind, pure, Except.pure]
    · rintro p (_ | ⟨_, hp⟩)
      · rfl
      · exact hok p hp
    · rw [List.flatMap_cons, List.mem_append]
      exact (List.mem_append.1 hx).imp (hE1 x) (hEk' x)
    · rcases List.mem_cons.1 ht with rfl | ht
      · refine ⟨kn, hreb.frame hf hids.1 hhns.1 (lt_of_lt_of_le hr.headerNode.1 hf1.count)
          (fun u hu => (hready u (List.mem_cons_of_mem _ hu)).1.headerNode.1) ⟨E, hE, fun e he x hx => ?_⟩⟩
        have hk : x.key ≠ (st.pm e).key := fun h =>
          hkeys.2.2 (List.mem_map_of_mem (fun e => (st.pm e).key) he) (by simpa only [← h] using hEk' x hx)
        simp only [HashEntry.matches, Bool.and_eq_false_iff, decide_eq_false_iff_not]
        exact .inl hk
      · obtain ⟨kn', h'⟩ := hreb' t ht
        have hov : ∀ e ∈ lists t, ∀ u, OldVersionReach st.pm e u →
            (st1.pm u).oldVersion = (st.pm u).oldVersion := fun e he u hu => by
          have hu := ((hready t (List.mem_cons_of_mem _ ht)).1.versions e he u hu).2.2
          rw [hf1.pm u (by rw [hu]; exact (hne t ht).1)]
        exact ⟨kn', h'.congr (fun u => (hf1.core u).1) hov hf1.count⟩

/-! ## From the scan to the rebuilt lists -/

section Scan

variable {pm : PMem} {hs : List PMemOffsetType} {elems : PMemOffsetType → List PMemOffsetType}
  {ht : HashTable} {pre : List PMemOffsetType} {st : RebuilderState}

/-- The scan leaves the `old_version` of every version of an element as it was. -/
theorem ScanWF.oldVersion_reach (hwf : WellFormed cfg pm hs elems)
    (hinv : ScanWF cfg pm elems ht pre st) {h e u : PMemOffsetType} (hh : h ∈ hs)
    (he : e ∈ elems h) (hu : OldVersionReach pm e u) : (st.pm u).oldVersion = (pm u).oldVersion :=
  hinv.oldVersion u (by
    rw [(hwf.reach hh (List.mem_cons_of_mem _ he) hu).2.2.1, (hwf.elem h hh e he).1]; decide)

/-- **After the scan every walk is ready**: each rebuild skiplist stands on the live version of a
header, and the walk of its task is ready on the header's elements. -/
theorem ScanWF.walkReady (hwf : WellFormed cfg pm hs elems) (hfresh : FreshIndex pm hs elems ht)
    (hinv : ScanWF cfg pm elems ht pre st) (hpre : ∀ h ∈ pre, h ∈ hs) {s : Skiplist}
    (hs : s ∈ st.rebuildSkiplists) : ∃ h ∈ pre, liveVersion cfg pm h = some s.headerRecord ∧
      s.id = (pm h).id ∧ WalkReady cfg s st (elems h) := by
  obtain ⟨h, hh, hlive, hid, -, hlinks, hnode⟩ := hinv.rebuild s hs
  have hhs := hpre h hh
  have hcore : ∀ u, (st.pm u).core = (pm u).core := fun u => (hinv.core u).1
  obtain ⟨-, hvid, hvty, hvnn⟩ := hwf.reach hhs (List.mem_cons_self _ _)
    (findCheckpointVersion_reach (liveVersion_some hlive).1)
  refine ⟨h, hh, hlive, hid, hlinks,
    ⟨hvnn, fun e he => hwf.nonnull h hhs e (List.mem_cons_of_mem _ he)⟩,
    ⟨by rw [(hinv.core _).2, hvty]; exact (hwf.header h hhs).1,
      by rw [(DLRecord.sameCore (hcore _)).id, hvid, hid]⟩, fun e he u hu => ?_, ?_,
    fun e he => ?_, fun _ e he x hx => ?_, (hwf.fuel h hhs).1, hnode⟩
  · have hu' := OldVersionReach.of_congr (fun x hx => hinv.oldVersion_reach hwf hhs he hx) hu
    obtain ⟨hk, hi, hty, -⟩ := hwf.reach hhs (List.mem_cons_of_mem _ he) hu'
    rw [(hinv.core u).2, (DLRecord.sameCore (hcore u)).key, (DLRecord.sameCore (hcore e)).key,
      (DLRecord.sameCore (hcore u)).id, hk, hi, hty, hid]
    exact ⟨(hwf.elem h hhs e he).1, rfl, (hwf.elem h hhs e he).2⟩
  · rw [List.map_congr_left fun e _ => (DLRecord.sameCore (hcore e)).key]
    exact hwf.keys_nodup hhs
  · obtain ⟨v, hv⟩ := hwf.found hhs (List.mem_cons_of_mem _ he)
    exact ⟨v, by rw [RebuilderConfig.findCheckpointVersion, findCheckpointVersion_congr_reach hcore
      fun u hu => hinv.oldVersion_reach hwf hhs he hu]; exact hv⟩
  · rcases hinv.hash x hx with hx | ⟨hrt, -⟩
    · rw [(DLRecord.sameCore (hcore e)).key]; exact (hfresh x hx h hhs).2 e he
    · simp [HashEntry.matches, hrt]


/-- The rebuild skiplists the scan leaves have distinct IDs. -/
theorem ScanWF.rebuild_ids (hinv : ScanWF cfg pm elems ht pre st) :
    (st.rebuildSkiplists.map Skiplist.id).Nodup :=
  hinv.ids.sublist ((List.sublist_append_left _ _).map _)

/-- The elements of the headers the rebuild skiplists stand on have distinct keys. -/
theorem ScanWF.lists_keys (hwf : WellFormed cfg pm hs elems) (hinv : ScanWF cfg pm elems ht pre st)
    (hpre : ∀ h ∈ pre, h ∈ hs) (hd : Skiplist → PMemOffsetType)
    (hhd : ∀ s ∈ st.rebuildSkiplists, hd s ∈ pre ∧ s.id = (pm (hd s)).id) :
    (st.rebuildSkiplists.flatMap fun s => (elems (hd s)).map fun e => (st.pm e).key).Nodup := by
  have hids := hinv.rebuild_ids
  have hkey : ∀ e, (st.pm e).key = (pm e).key := fun e => (DLRecord.sameCore (hinv.core e).1).key
  simp only [hkey]
  refine List.nodup_flatMap.2 ⟨fun s hs => hwf.keys_nodup (hpre _ (hhd s hs).1),
    (hids.of_map _).pairwise_of_forall_ne fun a ha b hb hab => ?_⟩
  refine hwf.keys_disjoint (hpre _ (hhd a ha).1) (hpre _ (hhd b hb).1) fun he => hab ?_
  refine List.inj_on_of_nodup_map hids ha hb ?_
  rw [(hhd a ha).2, (hhd b hb).2, he]

/-- **The list-based index rebuild after the scan of a well-formed store**: the tasks of all
rebuild skiplists, in their batches, return `Ok`; each has left what `Rebuilt` says of its
header's elements as the store held them, and the run keeps what `TaskFrame` says. -/
theorem ScanWF.listBased (hwf : WellFormed cfg pm hs elems) (hfresh : FreshIndex pm hs elems ht)
    (hinv : ScanWF cfg pm elems ht pre st) (hpre : ∀ h ∈ pre, h ∈ hs) :
    ∃ evs st', listBasedIndexRebuild cfg st = .ok (.Ok, evs, st') ∧
      TaskFrame st.rebuildSkiplists st st' ∧
      ∀ s ∈ st.rebuildSkiplists, ∃ h ∈ pre, liveVersion cfg pm h = some s.headerRecord ∧
        s.id = (pm h).id ∧ ∃ kn, Rebuilt cfg s pm st.dram.nodeCount (elems h) kn st' := by
  have hchoose : ∀ s, ∃ h, s ∈ st.rebuildSkiplists → h ∈ pre ∧
      liveVersion cfg pm h = some s.headerRecord ∧ s.id = (pm h).id ∧
      WalkReady cfg s st (elems h) := fun s => by
    by_cases hs : s ∈ st.rebuildSkiplists
    · obtain ⟨h, hh, hrest⟩ := hinv.walkReady hwf hfresh hpre hs
      exact ⟨h, fun _ => ⟨hh, hrest⟩⟩
    · exact ⟨0, fun h => absurd h hs⟩
  choose hd hhd using hchoose
  have hids := hinv.rebuild_ids
  obtain ⟨rs, st', hrun, hok, hf, -, hreb⟩ := runTasks_rebuilt cfg (fun s => elems (hd s))
    st.rebuildSkiplists st hids hinv.nodes
    (hinv.lists_keys hwf hpre hd fun s hs => ⟨(hhd s hs).1, (hhd s hs).2.2.1⟩)
    fun s hs => ⟨(hhd s hs).2.2.2, findSkiplist_of_mem hids hs⟩
  have hl : ∃ evs, listBasedIndexRebuild cfg st = .ok (.Ok, evs, st') :=
    launchInBatches_of_runTasks
      (show runTasks (rebuildSkiplistIndex cfg) ([] ++ st.rebuildSkiplists) st = .ok (rs, st')
        from hrun) hok
  obtain ⟨evs, hl⟩ := hl
  refine ⟨evs, st', hl, hf, fun s hs => ?_⟩
  obtain ⟨kn, h⟩ := hreb s hs
  refine ⟨hd s, (hhd s hs).1, (hhd s hs).2.1, (hhd s hs).2.2.1, kn,
    h.congr (fun u => (hinv.core u).1) (fun e he u hu => ?_) le_rfl⟩
  exact hinv.oldVersion_reach hwf (hpre _ (hhd s hs).1) he hu

/-- The records a collection is rebuilt on, its live header version and the kept versions of its
elements, are sorted records. -/
theorem WellFormed.matchType_rebuilt (hwf : WellFormed cfg pm hs elems) {h v u : PMemOffsetType}
    (hh : h ∈ hs) (hlive : liveVersion cfg pm h = some v)
    (hu : u ∈ v :: rebuiltList cfg pm (elems h)) : matchType (pm u) = true := by
  rcases List.mem_cons.1 hu with rfl | hu
  · have hty := (hwf.reach hh (List.mem_cons_self _ _)
      (findCheckpointVersion_reach (liveVersion_some hlive).1)).2.2.1
    simp [matchType, hty, (hwf.header h hh).1]
  · obtain ⟨e, he, hv⟩ := mem_rebuiltList.1 hu
    have hty := (hwf.reach hh (List.mem_cons_of_mem _ he) (keptVersion_reach hv)).2.2.1
    simp [matchType, hty, (hwf.elem h hh e he).1]

/-- After the scan, every invalid skiplist stands on a version of a header, with that header's
elements linked after it: a cycle through a header record that is none of its elements. -/
theorem ScanWF.invalid_cycle (hwf : WellFormed cfg pm hs elems)
    (hinv : ScanWF cfg pm elems ht pre st) (hpre : ∀ h ∈ pre, h ∈ hs) {s : Skiplist}
    (hs : s ∈ st.invalidSkiplists) : ∃ h ∈ pre, s.id = (pm h).id ∧
      (∀ u ∈ s.headerRecord :: elems h, (pm u).id = s.id) ∧
      Links st.pm s.headerRecord (elems h) s.headerRecord ∧ s.headerRecord ∉ elems h ∧
      (elems h).length < cfg.fuel := by
  obtain ⟨h, hh, hreach, hid, hlinks⟩ := hinv.invalid s hs
  have hhs := hpre h hh
  refine ⟨h, hh, hid, fun u hu => ?_, hlinks, fun hm => ?_, (hwf.fuel h hhs).1⟩
  · rcases List.mem_cons.1 hu with rfl | hu
    · rw [hwf.reach_id hhs (List.mem_cons_self _ _) hreach, hid]
    · rw [(hwf.elem h hhs u hu).2, hid]
  · have hty := (hwf.reach hhs (List.mem_cons_self _ _) hreach).2.2.1
    rw [(hwf.elem h hhs _ hm).1, (hwf.header h hhs).1] at hty
    cases hty

/-- **The reclamation after an index rebuild keeps the rebuilt lists.**  When the rebuild, from
the scan's `st` to `st2`, changed no record of another collection, no record's core and no
invalid skiplist, the invalid skiplists are still cycles through their headers, so
`cleanInvalidRecords` returns; it frees and destroys none of the records of a rebuilt list, and
what a task left stays. -/
theorem ScanWF.reclaim (hwf : WellFormed cfg pm hs elems) (hinv : ScanWF cfg pm elems ht pre st)
    (hpre : ∀ h ∈ pre, h ∈ hs) {st2 : RebuilderState}
    (hpm : ∀ u, (st.pm u).id ∉ st.rebuildSkiplists.map Skiplist.id → st2.pm u = st.pm u)
    (hcore : ∀ u, (st2.pm u).core = (st.pm u).core ∧ (st2.pm u).recordType = (st.pm u).recordType)
    (hinvalid : st2.invalidSkiplists = st.invalidSkiplists) :
    ∃ st' fr, cleanInvalidRecords cfg { st2 with rebuildSkiplists := [] } = .ok st' ∧
      st'.freed = st2.freed ++ fr ∧
      ∀ s ∈ st.rebuildSkiplists, ∀ h ∈ pre, liveVersion cfg pm h = some s.headerRecord →
        ∀ base kn, Rebuilt cfg s pm base (elems h) kn st2 →
          Rebuilt cfg s pm base (elems h) kn { st' with rebuildSkiplists := st2.rebuildSkiplists } ∧
          ∀ u ∈ s.headerRecord :: kn.map Prod.fst, u ∉ fr ∧
            (st'.pm u).recordType = (pm u).recordType := by
  have hdisj : ∀ s ∈ st.rebuildSkiplists, ∀ t ∈ st.invalidSkiplists, s.id ≠ t.id :=
    fun s hs t ht e => List.disjoint_of_nodup_append (by simpa only [List.map_append] using hinv.ids)
      (List.mem_map_of_mem Skiplist.id hs) (e ▸ List.mem_map_of_mem Skiplist.id ht)
  have hchoose : ∀ t, ∃ h, t ∈ st.invalidSkiplists →
      (∀ u ∈ t.headerRecord :: elems h, (pm u).id = t.id) ∧
      Links st.pm t.headerRecord (elems h) t.headerRecord ∧ t.headerRecord ∉ elems h ∧
      (elems h).length < cfg.fuel := fun t => by
    by_cases ht : t ∈ st.invalidSkiplists
    · obtain ⟨h, -, -, hrest⟩ := hinv.invalid_cycle hwf hpre ht
      exact ⟨h, fun _ => hrest⟩
    · exact ⟨0, fun h => absurd h ht⟩
  choose hi hhi using hchoose
  have hid1 : ∀ u, (st.pm u).id = (pm u).id := fun u => (DLRecord.sameCore (hinv.core u).1).id
  have hinvalid' : ∀ t ∈ ({ st2 with rebuildSkiplists := [] } : RebuilderState).invalidSkiplists,
      Links st2.pm t.headerRecord (elems (hi t)) t.headerRecord ∧ t.headerRecord ∉ elems (hi t) ∧
      (elems (hi t)).length < cfg.fuel := fun t ht => by
    replace ht : t ∈ st.invalidSkiplists := hinvalid ▸ ht
    obtain ⟨hids, hl, hrest⟩ := hhi t ht
    refine ⟨links_of_eq_on (fun u hu => hpm u fun hm => ?_) hl, hrest⟩
    obtain ⟨s, hs, e⟩ := List.mem_map.1 hm
    exact hdisj s hs t ht (e.trans ((hid1 u).trans (hids u hu)))
  obtain ⟨st', fr, hclean, hpm', hfreed', hkeep, hdram, hhash, -⟩ :=
    cleanInvalidRecords_spec cfg (fun t => elems (hi t)) _ hinvalid'
  refine ⟨st', fr, hclean, hfreed', fun s hs h hh hlive base kn hR => ?_⟩
  have hcore2 : ∀ u, (st2.pm u).core = (pm u).core ∧ (st2.pm u).recordType = (pm u).recordType :=
    fun u => ⟨(hcore u).1.trans (hinv.core u).1, (hcore u).2.trans (hinv.core u).2⟩
  -- the records of the rebuilt list pass the cleaning and are on no invalid list
  have hkeepu : ∀ u ∈ s.headerRecord :: kn.map Prod.fst, u ∉ fr := fun u hu => by
    refine hkeep u ?_ (checkLinkage_of_cycle hR.links hu) fun t ht hut => ?_
    · rw [matchType, (hcore2 u).2]
      exact hwf.matchType_rebuilt (hpre h hh) hlive (by rw [← hR.kept]; exact hu)
    · have ht' : t ∈ st.invalidSkiplists := hinvalid ▸ ht
      exact hdisj s hs t ht' ((hR.ids u hu).symm.trans (((DLRecord.sameCore (hcore2 u).1).id).trans
        ((hhi t ht').1 u ((List.perm_append_singleton _ _).subset hut))))
  have hsame : ∀ u ∈ s.headerRecord :: kn.map Prod.fst, st'.pm u = st2.pm u := fun u hu => by
    rw [hpm']; exact foldl_destroy_of_not_mem (hkeepu u hu)
  exact ⟨hR.of_eq_on hsame hdram hhash rfl,
    fun u hu => ⟨hkeepu u hu, by rw [hsame u hu]; exact (hcore2 u).2⟩⟩

end Scan

/-- **A list-based `Rebuild` of a well-formed store**: from a rebuilder with no skiplist yet, over
a well-formed store and a hash index with no entry for its names and keys, `Rebuild` in list mode
returns `Ok`.  Every header with a live version gets a rebuild skiplist on it, and every skiplist
it hands back stands on the live version of a header of the store, and its task has left what `Rebuilt` says of that header's elements as the store held them: on
its list exactly their live checkpoint versions, in order, all of its ID; at every level, from
its header node, the null-terminated chain of the nodes built for them whose towers reach it;
their hash entries; and its size, in the skiplists the result hands back.  Reclamation frees
none of the records on those lists, and destroys none of them. -/
theorem rebuild_listBased_wellFormed (hmode : cfg.segmentBasedRebuild = false)
    {elems : PMemOffsetType → List PMemOffsetType} {st : RebuilderState}
    (hwf : WellFormed cfg st.pm st.linkedHeaders elems)
    (hfresh : FreshIndex st.pm st.linkedHeaders elems st.hashTable)
    (hempty : st.rebuildSkiplists = [] ∧ st.invalidSkiplists = []) (tid : Nat) :
    ∃ st1 res st', initRebuildLists cfg tid st = .ok (.Ok, st1) ∧
      rebuild cfg tid st = .ok (res, st') ∧ res.s = .Ok ∧
      (∀ h ∈ st.linkedHeaders, ∀ v, liveVersion cfg st.pm h = some v →
        ∃ s ∈ st1.rebuildSkiplists, s.headerRecord = v) ∧ ∃ fr, st'.freed = st.freed ++ fr ∧
      ∀ s ∈ st1.rebuildSkiplists, ∃ h ∈ st.linkedHeaders,
        liveVersion cfg st.pm h = some s.headerRecord ∧ s.id = (st.pm h).id ∧
        ∃ kn, Rebuilt cfg s st.pm st1.dram.nodeCount (elems h) kn
            { st' with rebuildSkiplists := res.rebuildSkiplists } ∧
          ∀ u ∈ s.headerRecord :: kn.map Prod.fst, u ∉ fr ∧
            (st'.pm u).recordType = (st.pm u).recordType := by
  obtain ⟨st1, hinit, hinv⟩ := initRebuildLists_wellFormed hwf hfresh hempty tid
  have hpre : ∀ h ∈ sortHeaders st.pm st.linkedHeaders, h ∈ st.linkedHeaders :=
    fun h hh => (List.perm_insertionSort _ _).subset hh
  -- the index rebuild, when there is a rebuild skiplist
  obtain ⟨st2, hstage, hf, hreb⟩ : ∃ st2, indexRebuildStage cfg .Ok st1 = .ok (.Ok, st2) ∧
      TaskFrame st1.rebuildSkiplists st1 st2 ∧
      ∀ s ∈ st1.rebuildSkiplists, ∃ h ∈ sortHeaders st.pm st.linkedHeaders,
        liveVersion cfg st.pm h = some s.headerRecord ∧ s.id = (st.pm h).id ∧
        ∃ kn, Rebuilt cfg s st.pm st1.dram.nodeCount (elems h) kn st2 := by
    by_cases hnil : st1.rebuildSkiplists = []
    · refine ⟨st1, ?_, hnil ▸ TaskFrame.refl st1, by simp [hnil]⟩
      rw [indexRebuildStage, if_neg fun h => h.2 hnil]; rfl
    · obtain ⟨evs, st2, hl, hf, hreb⟩ := hinv.listBased hwf hfresh hpre
      refine ⟨st2, ?_, hf, hreb⟩
      rw [indexRebuildStage, if_pos ⟨rfl, hnil⟩, indexRebuild, hmode, hl]; rfl
  obtain ⟨st', fr, hclean, hfreed', hkeep⟩ := hinv.reclaim hwf hpre hf.pm hf.core hf.invalid
  refine ⟨st1, ⟨.Ok, st2.maxRecoveredId, st2.rebuildSkiplists⟩, st', hinit, ?_, rfl,
    fun h hh => hinv.live h ((List.perm_insertionSort _ _).symm.subset hh), fr,
    by rw [hfreed']; exact congrArg (· ++ fr) (hf.freed.trans (initRebuildLists_freed hinit)),
    fun s hs => ?_⟩
  · simp only [rebuild, hinit, hstage, hclean, bind, Except.bind, if_pos, pure, Except.pure]
  obtain ⟨h, hh, hlive, hid, kn, hR⟩ := hreb s hs
  obtain ⟨hR', hk⟩ := hkeep s hs h hh hlive _ kn hR
  exact ⟨h, hpre h hh, hlive, hid, kn, hR', hk⟩

/-- One hash-indexed collection of ID `1` under the header at `0`, its elements `j` at `1` and `k`
at `2`, no record with an older version. -/
def twoElements : PMem := fun o =>
  if o = 0 then
    { (default : DLRecord) with
      recordType := .SortedRecord, key := "t", value := .encoded 1 ⟨"cmp", true⟩, id := 1,
      timestamp := 1, prev := 2, next := 1, oldVersion := kNullPMemOffset, valid := true }
  else if o = 1 then
    { (default : DLRecord) with
      recordType := .SortedElem, key := "j", id := 1, timestamp := 2, prev := 0, next := 2,
      oldVersion := kNullPMemOffset, valid := true }
  else if o = 2 then
    { (default : DLRecord) with
      recordType := .SortedElem, key := "k", id := 1, timestamp := 3, prev := 1, next := 0,
      oldVersion := kNullPMemOffset, valid := true }
  else default

/-- The elements of the collection of `twoElements`. -/
def twoElementsOf (h : PMemOffsetType) : List PMemOffsetType := if h = 0 then [1, 2] else []

theorem twoElements_wellFormed {cfg : RebuilderConfig} (hcmp : "cmp" ∈ cfg.comparators)
    (hfuel : 4 ≤ cfg.fuel) : WellFormed cfg twoElements [0] twoElementsOf := by
  refine ⟨?_, by decide, ?_, by decide, by decide, by decide, ?_, ?_, fun h hh => ?_⟩
  · simp [Links, PMem.Link, twoElements, twoElementsOf]
  · simp only [List.mem_singleton, forall_eq]
    exact ⟨rfl, ⟨"cmp", true⟩, rfl, hcmp⟩
  · simp
  · simp only [List.mem_singleton, forall_eq]
    intro r hr u hu
    have hnull : (twoElements r).oldVersion = kNullPMemOffset := by
      simp only [twoElementsOf, if_pos, List.mem_cons, List.mem_singleton, List.not_mem_nil, or_false] at hr
      rcases hr with rfl | rfl | rfl <;> rfl
    rw [hu.eq_of_null hnull]
    exact fun h => absurd hnull h
  · obtain rfl := List.mem_singleton.1 hh
    refine ⟨lt_of_lt_of_le (by decide) hfuel, fun r hr => lt_of_lt_of_le ?_ hfuel⟩
    simp only [twoElementsOf, if_pos, List.mem_cons, List.mem_singleton, List.not_mem_nil, or_false] at hr
    rcases hr with rfl | rfl | rfl <;> decide

end Kvdk
