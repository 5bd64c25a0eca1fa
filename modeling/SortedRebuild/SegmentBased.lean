import SortedRebuild.SegmentPhaseA

/-
  Phase B of the segment-based rebuild, and the rebuild as a whole:
  `SortedCollectionRebuilder::segmentBasedIndexRebuild` (rebuilder.cpp, lines 248-320) with its
  `linkHighDramNodes` tasks (lines 462-487).

  Phase A leaves every rebuild skiplist linked at level 1 (`LevelOne`): the level-1 paths of its
  segments, each handed over from its last node to the start node of the next, make one chain
  from the header node (`nodeChain_of_handover`).  A `linkHighDramNodes` task writes only at the
  nodes of its own chain (`linkHighDramNodes_frame`), so the tasks of different skiplists leave
  one another alone, and each builds the levels above 1 (`linkHighDramNodes_spec`).  Together
  (`segmentBasedIndexRebuild_rebuilt`): when the element start of every segment is live, the
  segment-based rebuild leaves each rebuild skiplist as `Rebuilt` says of the list-based task;
  the two modes agree on the lists, the towers, the hash index and the sizes.  Phase A leaves
  that level-1 state whatever order the segments are claimed in, one whole walk after another
  (`phaseA_any_order`).
-/

namespace Kvdk

/-! ## What `linkHighDramNodes` writes -/

/-- `d'` is `d` with pointers rewritten at the nodes `S` only: the same addresses, records and
towers, and every other node as it was. -/
structure Dram.Frame (S : List Nat) (d d' : Dram) : Prop where
  count : d'.nodeCount = d.nodeCount
  record : ∀ m, (d'.nodes m).record = (d.nodes m).record
  height : ∀ m, (d'.nodes m).height = (d.nodes m).height
  other : ∀ m ∉ S, d'.nodes m = d.nodes m

section Frame

variable {S : List Nat} {d d' d'' : Dram}

theorem Dram.Frame.refl (S : List Nat) (d : Dram) : Dram.Frame S d d :=
  ⟨rfl, fun _ => rfl, fun _ => rfl, fun _ _ => rfl⟩

theorem Dram.Frame.trans (h1 : Dram.Frame S d d') (h2 : Dram.Frame S d' d'') : Dram.Frame S d d'' :=
  ⟨h2.count.trans h1.count, fun m => (h2.record m).trans (h1.record m),
    fun m => (h2.height m).trans (h1.height m), fun m hm => (h2.other m hm).trans (h1.other m hm)⟩

theorem Dram.Frame.mono {T : List Nat} (h : Dram.Frame S d d') (hST : S ⊆ T) : Dram.Frame T d d' :=
  ⟨h.count, h.record, h.height, fun m hm => h.other m fun h' => hm (hST h')⟩

/-- Nodes outside the written ones keep their chains. -/
theorem Dram.Frame.nodeChain {l a : Nat} {ns : List Nat} (h : Dram.Frame S d d')
    (hS : ∀ u ∈ a :: ns, u ∉ S) (hc : NodeChain d l a ns) : NodeChain d' l a ns :=
  nodeChain_congr (fun u hu => h.other u (hS u hu)) hc

theorem Dram.Frame.writeNext {n : Nat} (hn : n ∈ S) (l : Nat) (v : Option Nat) :
    Dram.Frame S d (d.writeNext n l v) :=
  ⟨rfl, writeNext_record d n l v, writeNext_height d n l v, fun m hm => by
    simp [Dram.writeNext, Function.update_noteq (fun e : m = n => hm (e ▸ hn))]⟩

theorem setNext_ok {n l : Nat} {v : Option Nat} (h : d.setNext n l v = .ok d') :
    d' = d.writeNext n l v := by
  unfold Dram.setNext at h
  split_ifs at h
  cases h; rfl

/-- `setLevels` writes at the cursors of its levels, and only at its levels. -/
theorem setLevels_frame (prevs : Nat → Nat) (v : Option Nat) :
    ∀ (is : List Nat) (d d' : Dram), (∀ i ∈ is, prevs i ∈ S) → setLevels prevs v is d = .ok d' →
      Dram.Frame S d d' ∧ ∀ m k, k ∉ is → (d'.nodes m).next k = (d.nodes m).next k
  | [], d, d', _, h => by cases h; exact ⟨.refl S d, fun _ _ _ => rfl⟩
  | i :: is, d, d', hS, h => by
    simp only [setLevels, except_bind_eq_ok] at h
    obtain ⟨d1, h1, h2⟩ := h
    rw [setNext_ok h1] at h2
    obtain ⟨hf, hk⟩ := setLevels_frame prevs v is _ d' (fun j hj => hS j (List.mem_cons_of_mem _ hj)) h2
    refine ⟨(Dram.Frame.writeNext (hS i (List.mem_cons_self _ _)) i v).trans hf, fun m k hk' => ?_⟩
    rw [hk m k fun h => hk' (List.mem_cons_of_mem _ h), writeNext_next,
      if_neg fun h : m = prevs i ∧ k = i => hk' (h.2 ▸ List.mem_cons_self _ _)]

/-- `linkTower` writes at the cursors of its levels, which move to the node. -/
theorem linkTower_frame {node : Nat} {is : List Nat} {prevs prevs' : Nat → Nat} (hnd : is.Nodup)
    (hS : ∀ i ∈ is, prevs i ∈ S) (h : linkTower node is d prevs = .ok (d', prevs')) :
    Dram.Frame S d d' ∧ (∀ m k, k ∉ is → (d'.nodes m).next k = (d.nodes m).next k) ∧
      ∀ k, prevs' k = if k ∈ is then node else prevs k := by
  rw [linkTower_eq node is d prevs hnd] at h
  cases hs : setLevels prevs (some node) is d with
  | error e => rw [hs] at h; cases h
  | ok d1 =>
    rw [hs] at h
    simp only [Except.map, Except.ok.injEq, Prod.mk.injEq] at h
    obtain ⟨rfl, rfl⟩ := h
    exact ⟨(setLevels_frame prevs _ is d d1 hS hs).1, (setLevels_frame prevs _ is d d1 hS hs).2,
      fun _ => rfl⟩

/-- **The `while` loop of `linkHighDramNodes` writes only at nodes of `S`** when its cursors
and next node are in `S` and `S` is closed under level-1 pointers. -/
theorem linkHighLoop_frame : ∀ (fuel : Nat) (d : Dram) (prevs : Nat → Nat) (next : Option Nat)
    {d' : Dram} {prevs' : Nat → Nat}, linkHighLoop fuel d prevs next = .ok (d', prevs') →
    (∀ k, prevs k ∈ S) → (∀ n, next = some n → n ∈ S) →
    (∀ m ∈ S, ∀ n, (d.nodes m).next 1 = some n → n ∈ S) →
    Dram.Frame S d d' ∧ ∀ k, prevs' k ∈ S
  | 0, d, prevs, none, _, _, h, hp, _, _ => by cases h; exact ⟨.refl S d, hp⟩
  | _ + 1, d, prevs, none, _, _, h, hp, _, _ => by cases h; exact ⟨.refl S d, hp⟩
  | 0, _, _, some _, _, _, h, _, _, _ => by cases h
  | fuel + 1, d, prevs, some n, d', prevs', h, hp, hn, hcl => by
    simp only [linkHighLoop, except_bind_eq_ok, kvdkAssert_eq_ok] at h
    obtain ⟨-, -, ⟨d1, p1⟩, ht, hl⟩ := h
    have hn' := hn n rfl
    obtain ⟨hf1, hk1, hp1⟩ := linkTower_frame (List.nodup_range' _ _)
      (fun i _ => by rw [Function.update_apply]; split_ifs; exacts [hn', hp i]) ht
    have h1 : (1 : Nat) ∉ List.range' 2 ((d.nodes n).height - 1) := by simp [List.mem_range'_1]
    have hcl1 : ∀ m ∈ S, ∀ n', (d1.nodes m).next 1 = some n' → n' ∈ S := fun m hm n' h' =>
      hcl m hm n' (by rwa [hk1 m 1 h1] at h')
    obtain ⟨hf2, hp2⟩ := linkHighLoop_frame fuel d1 p1 _ hl
      (fun k => by rw [hp1, Function.update_apply]; split_ifs; exacts [hn', hn', hp k])
      (fun n' h' => hcl1 n hn' n' h') hcl1
    exact ⟨hf1.trans hf2, hp2⟩

/-- **`linkHighDramNodes` writes only at nodes of `S`**, a set of nodes holding the header and
closed under level-1 pointers. -/
theorem linkHighDramNodes_frame {k fuel header : Nat} {r : Status}
    (h : linkHighDramNodes k fuel d header = .ok (r, d')) (hh : header ∈ S)
    (hcl : ∀ m ∈ S, ∀ n, (d.nodes m).next 1 = some n → n ∈ S) : Dram.Frame S d d' := by
  simp only [linkHighDramNodes, except_bind_eq_ok, except_pure_eq_ok] at h
  obtain ⟨⟨d1, p1⟩, hl, d2, hs, h⟩ := h
  obtain ⟨-, rfl⟩ := Prod.mk.inj h
  obtain ⟨hf1, hp1⟩ := linkHighLoop_frame _ _ _ _ hl (fun _ => hh) (fun n hn => hcl header hh n hn) hcl
  exact hf1.trans (setLevels_frame p1 none _ d1 d2 (fun i _ => hp1 i) hs).1

end Frame

/-- The level-`l` pointers of a chain's nodes stay on the chain. -/
theorem nodeChain_closed {d : Dram} {l : Nat} :
    ∀ {a : Nat} {ns : List Nat}, NodeChain d l a ns → ∀ m ∈ a :: ns, ∀ n, (d.nodes m).next l = some n → n ∈ ns
  | _, [], h, m, hm, n, hn => by rw [List.mem_singleton.1 hm, h] at hn; cases hn
  | _, _ :: _, h, m, hm, n, hn => by
    rcases List.mem_cons.1 hm with rfl | hm
    · rw [h.1] at hn; cases hn; exact List.mem_cons_self _ _
    · exact List.mem_cons_of_mem _ (nodeChain_closed h.2 m hm n hn)

/-- A path followed by a chain from where it ends is a chain. -/
theorem nodeChain_append_of_path {d : Dram} {l : Nat} :
    ∀ {a : Nat} {xs ys : List Nat} {b : Nat}, NodePath d l a xs b → NodeChain d l b ys →
      NodeChain d l a (xs ++ ys)
  | _, [], _, _, hp, hc => by cases hp; exact hc
  | _, _ :: _, _, _, hp, hc => ⟨hp.1, nodeChain_append_of_path hp.2 hc⟩

/-- **Paths handed over from one to the next make a chain**: when each of `g :: B` has a level-1
path from its start through its nodes to its last node, whose pointer leads to the start of the
next one, or is null after the last, level 1 from the first start is the chain through all of
them. -/
theorem nodeChain_of_handover {α : Type} {d : Dram} (start last : α → Nat) (ns : α → List Nat) :
    ∀ (g : α) (B : List α), NodePath d 1 (start g) (ns g) (last g) →
      (d.nodes (last g)).next 1 = B.head?.map start →
      (∀ A' g' B', B = A' ++ g' :: B' → NodePath d 1 (start g') (ns g') (last g') ∧
        (d.nodes (last g')).next 1 = B'.head?.map start) →
      NodeChain d 1 (start g) (ns g ++ B.flatMap fun g' => start g' :: ns g')
  | _, [], hp, hn, _ => by simpa using nodeChain_of_path hp hn
  | _, g' :: B', hp, hn, hB => by
    obtain ⟨hp', hn'⟩ := hB [] g' B' rfl
    have ih := nodeChain_of_handover start last ns g' B' hp' hn' fun A'' g'' B'' e =>
      hB (g' :: A'') g'' B'' (by rw [e]; rfl)
    simpa using nodeChain_append_of_path (nodePath_snoc hp hn) ih

/-- A chain stays where the level-`l` pointers of its nodes are unchanged. -/
theorem nodeChain_of_eq_on_next {d d' : Dram} {l : Nat} :
    ∀ {a : Nat} {ns : List Nat}, (∀ u ∈ a :: ns, (d'.nodes u).next l = (d.nodes u).next l) →
      NodeChain d l a ns → NodeChain d' l a ns
  | _, [], he, h => (he _ (List.mem_cons_self _ _)).trans h
  | a, _ :: _, he, h => ⟨(he a (List.mem_cons_self _ _)).trans h.1,
      nodeChain_of_eq_on_next (fun u hu => he u (List.mem_cons_of_mem _ hu)) h.2⟩

/-- **`linkHighDramNodes` with what it leaves alone.**  On a skiplist whose header node is as tall
as `kMaxHeight` and whose level-1 chain is a finite null-terminated sequence `ns` of distinct
nodes of heights in `1..kMaxHeight`, the walk returns `Ok`, writes only at the header and the
nodes of `ns`, keeps every record and tower, and leaves at every level `i` in `1..kMaxHeight` the
null-terminated chain of the nodes of `ns` whose tower reaches `i`. -/
theorem linkHighDramNodes_spec {kMaxHeight header fuel : Nat} {d : Dram} {ns : List Nat}
    (hh : (d.nodes header).height = kMaxHeight) (hc : NodeChain d 1 header ns)
    (hnd : (header :: ns).Nodup)
    (hns : ∀ n ∈ ns, 1 ≤ (d.nodes n).height ∧ (d.nodes n).height ≤ kMaxHeight)
    (hf : ns.length ≤ fuel) :
    ∃ d', linkHighDramNodes kMaxHeight fuel d header = .ok (.Ok, d') ∧
      Dram.Frame (header :: ns) d d' ∧
      ∀ i, 1 ≤ i → i ≤ kMaxHeight → NodeChain d' i header (ns.filter fun n => i ≤ (d.nodes n).height) := by
  have hinit : LinkInv kMaxHeight d header [] d fun _ => header :=
    ⟨fun _ => rfl, fun _ => rfl, rfl, fun _ _ _ => rfl⟩
  obtain ⟨d1, prevs, hloop, hinv⟩ := linkHighLoop_spec hh ns [] d _ fuel (by simpa using hc)
    (by simpa using hnd) (by simpa using hns) hinit hf
  simp only [List.nil_append] at hinv
  have hcur : ∀ i ∈ List.range' 1 kMaxHeight, 1 ≤ i ∧ i ≤ (d1.nodes (prevs i)).height := by
    intro i hi
    rw [List.mem_range'_1] at hi
    exact ⟨hi.1, hinv.cursor_height hh (fun m hm => (hns m hm).1) hi.1 (by omega)⟩
  obtain ⟨d2, hd2, -, hn2⟩ := setLevels_spec prevs none _ d1 (List.nodup_range' _ _) hcur
  have hend : (d.nodes (prevs 1)).next 1 = none :=
    nodeChain_of_append (by simpa using hc : NodeChain d 1 header (ns ++ [])) hinv.path1
  have hrun : linkHighDramNodes kMaxHeight fuel d header = .ok (.Ok, d2) := by
    rw [linkHighDramNodes, hloop]; simp only [bind, Except.bind, hd2]; rfl
  refine ⟨d2, hrun, linkHighDramNodes_frame hrun (List.mem_cons_self _ _)
    fun m hm n hn => List.mem_cons_of_mem _ (nodeChain_closed hc m hm n hn), fun i h1 hi => ?_⟩
  by_cases h2 : 2 ≤ i
  · -- the levels the loop built, ended at their cursors
    have hfilter_nd : (header :: ns.filter fun m => i ≤ (d.nodes m).height).Nodup :=
      hnd.sublist (List.Sublist.cons₂ _ (List.filter_sublist _))
    have hi' : i ∈ List.range' 1 kMaxHeight := by rw [List.mem_range'_1]; omega
    refine nodeChain_of_path (b := prevs i) (nodePath_congr hfilter_nd (fun u _ hu => ?_)
      (hinv.paths i h2 hi)) (by rw [hn2]; simp [hi'])
    rw [hn2]; simp [hu]
  · -- level 1, as it was
    obtain rfl : i = 1 := by omega
    rw [List.filter_eq_self.2 fun n hn => by simpa using (hns n hn).1]
    refine nodeChain_of_eq_on_next (fun m _ => ?_) hc
    rw [hn2]
    split_ifs with hm
    · rw [hm.2, hend]
    · exact hinv.level1 m

/-! ## Phase B -/

variable (cfg : RebuilderConfig)

/-- **What phase A leaves of a rebuild skiplist `s`**, its list having held the elements `es` in
the store `pm0`: `Rebuilt` but for the levels above 1.  `kn` are the kept versions, each with its
node; they are linked after the header record, all of `s`'s ID; their nodes index them, with
towers of heights in `1..kMaxHeight`; from the header node, as tall as `kMaxHeight`, level 1 is
the null-terminated chain of their nodes, all distinct, no more than the fuel; in a hash-indexed
collection each has its entry; and `s`'s size counts them. -/
structure LevelOne (s : Skiplist) (pm0 : PMem) (es : List PMemOffsetType)
    (kn : List (PMemOffsetType × Option Nat)) (st : RebuilderState) : Prop where
  kept : kn.map Prod.fst = rebuiltList cfg pm0 es
  links : Links st.pm s.headerRecord (kn.map Prod.fst) s.headerRecord
  ids : ∀ u ∈ s.headerRecord :: kn.map Prod.fst, (st.pm u).id = s.id
  nodes : ∀ p ∈ kn, ∀ n ∈ p.2, n < st.dram.nodeCount ∧ (st.dram.nodes n).record = p.1
  heights : ∀ n ∈ kn.filterMap Prod.snd, 1 ≤ (st.dram.nodes n).height ∧
    (st.dram.nodes n).height ≤ cfg.kMaxHeight
  header : (st.dram.nodes s.headerNode).height = cfg.kMaxHeight
  chain : NodeChain st.dram 1 s.headerNode (kn.filterMap Prod.snd)
  nodup : (s.headerNode :: kn.filterMap Prod.snd).Nodup
  fuel : (kn.filterMap Prod.snd).length ≤ cfg.fuel
  hash : s.indexWithHashtable = true → (st.hashTable.slotsOf pm0 es).Perm (kn.map (elemEntry pm0))
  size : (findSkiplist st.rebuildSkiplists s.id).map Skiplist.size = some (s.size + kn.length)

variable {cfg}

section PhaseB

variable {s : Skiplist} {pm0 : PMem} {es : List PMemOffsetType} {kn : List (PMemOffsetType × Option Nat)}
  {st st' : RebuilderState}

/-- The `linkHighDramNodes` task of a skiplist left as `LevelOne` returns `Ok`, writes only at
its header node and its nodes, and builds every level. -/
theorem LevelOne.task (h : LevelOne cfg s pm0 es kn st) :
    ∃ d', linkHighDramNodesTask cfg s st = .ok (.Ok, { st with dram := d', nextTid := st.nextTid + 1 }) ∧
      Dram.Frame (s.headerNode :: kn.filterMap Prod.snd) st.dram d' ∧
      ∀ i, 1 ≤ i → i ≤ cfg.kMaxHeight → NodeChain d' i s.headerNode
        ((kn.filterMap Prod.snd).filter fun n => i ≤ (st.dram.nodes n).height) := by
  obtain ⟨d', hrun, hf, hc⟩ := linkHighDramNodes_spec h.header h.chain h.nodup h.heights h.fuel
  exact ⟨d', by simp only [linkHighDramNodesTask, hrun, bind, Except.bind, pure, Except.pure], hf, hc⟩

/-- What phase A left of a skiplist stays through writes at other nodes. -/
theorem LevelOne.frame {T : List Nat} (h : LevelOne cfg s pm0 es kn st) (hpm : st'.pm = st.pm)
    (hht : st'.hashTable = st.hashTable) (hrs : st'.rebuildSkiplists = st.rebuildSkiplists)
    (hf : Dram.Frame T st.dram st'.dram) (hT : ∀ u ∈ s.headerNode :: kn.filterMap Prod.snd, u ∉ T) :
    LevelOne cfg s pm0 es kn st' := by
  refine ⟨h.kept, hpm ▸ h.links, hpm ▸ h.ids, fun p hp n hn => ?_, fun n hn => ?_,
    (hf.height _).trans h.header, hf.nodeChain hT h.chain, h.nodup, h.fuel,
    hht ▸ h.hash, hrs ▸ h.size⟩
  · rw [hf.count, hf.record]; exact h.nodes p hp n hn
  · rw [hf.height]; exact h.heights n hn

variable (pm0) (es : Skiplist → List PMemOffsetType) (kn : Skiplist → List (PMemOffsetType × Option Nat))

/-- **Phase B**: the `linkHighDramNodes` tasks of skiplists left as `LevelOne`, whose header
nodes and nodes are distinct across them, run one after the other: each returns `Ok`, writes
only at its own nodes, and builds every level of its skiplist. -/
theorem runTasks_linkHigh : ∀ (xs : List Skiplist) (st : RebuilderState),
    (∀ s ∈ xs, LevelOne cfg s pm0 (es s) (kn s) st) →
    xs.Pairwise (fun s t => (s.headerNode :: (kn s).filterMap Prod.snd).Disjoint
      (t.headerNode :: (kn t).filterMap Prod.snd)) →
    ∃ d', runTasks (linkHighDramNodesTask cfg) xs st =
        .ok (xs.map (·, .Ok), { st with dram := d', nextTid := st.nextTid + xs.length }) ∧
      Dram.Frame (xs.flatMap fun s => s.headerNode :: (kn s).filterMap Prod.snd) st.dram d' ∧
      ∀ s ∈ xs, ∀ i, 1 ≤ i → i ≤ cfg.kMaxHeight → NodeChain d' i s.headerNode
        (((kn s).filterMap Prod.snd).filter fun n => i ≤ (st.dram.nodes n).height)
  | [], st, _, _ => ⟨st.dram, by simp [runTasks], .refl _ _, by simp⟩
  | s :: xs, st, hL, hp => by
    obtain ⟨d1, hrun1, hf1, hc1⟩ := (hL s (List.mem_cons_self _ _)).task
    obtain ⟨hdisj, hp⟩ := List.pairwise_cons.1 hp
    have hL1 : ∀ t ∈ xs, LevelOne cfg t pm0 (es t) (kn t) { st with dram := d1, nextTid := st.nextTid + 1 } :=
      fun t ht => (hL t (List.mem_cons_of_mem _ ht)).frame rfl rfl rfl hf1
        fun u hu hu' => hdisj t ht hu' hu
    obtain ⟨d', hrun, hf, hc⟩ := runTasks_linkHigh xs _ hL1 hp
    have hout : ∀ u ∈ s.headerNode :: (kn s).filterMap Prod.snd,
        u ∉ xs.flatMap fun t => t.headerNode :: (kn t).filterMap Prod.snd := fun u hu hu' => by
      obtain ⟨t, ht, hut⟩ := List.mem_flatMap.1 hu'
      exact hdisj t ht hu hut
    refine ⟨d', ?_, (hf1.mono fun u hu => List.mem_flatMap.2 ⟨s, List.mem_cons_self _ _, hu⟩).trans
      (hf.mono fun u hu => ?_), fun t ht i h1 hi => ?_⟩
    · simp only [runTasks, hrun1, hrun, bind, Except.bind, pure, Except.pure, List.map_cons,
        List.length_cons]
      congr 3; omega
    · obtain ⟨t, ht, hut⟩ := List.mem_flatMap.1 hu
      exact List.mem_flatMap.2 ⟨t, List.mem_cons_of_mem _ ht, hut⟩
    · rcases List.mem_cons.1 ht with rfl | ht
      · refine hf.nodeChain (fun u hu => hout u ?_) (hc1 i h1 hi)
        rcases List.mem_cons.1 hu with rfl | hu
        · exact List.mem_cons_self _ _
        · exact List.mem_cons_of_mem _ (List.mem_filter.1 hu).1
      · have := hc t ht i h1 hi
        rwa [List.filter_congr fun n _ => by rw [hf1.height n]] at this

end PhaseB

/-! ## From phase A to phase B -/

variable (stA : RebuilderState) (lists : Skiplist → List PMemOffsetType)

/-- What the walks of the segments of `s` kept, in list order, each with its node. -/
def segmentsKept (s : Skiplist) (out : PMemOffsetType → List (PMemOffsetType × Option Nat) × Nat) :
    List (PMemOffsetType × Option Nat) :=
  (segsOf stA lists s).flatMap (segKept stA s out)

variable {stA lists}

section Handover

variable {C pre : List PMemOffsetType} {out : PMemOffsetType → List (PMemOffsetType × Option Nat) × Nat}
  {st : RebuilderState} {s : Skiplist} {g : PMemOffsetType × List PMemOffsetType}

theorem segKept_map_fst (hg : g.1 ∈ pre) :
    (segKept stA s out g).map Prod.fst = segPart s.headerRecord pre out g := by
  unfold segKept segStart segPart
  split_ifs <;> simp_all

theorem segKept_nodes : (segKept stA s out g).filterMap Prod.snd =
    (if g.1 ≠ s.headerRecord then [segNode stA.recoverySegments g.1] else []) ++
      (out g.1).1.filterMap Prod.snd := by
  unfold segKept segStart
  split_ifs <;> simp

/-- The nodes of a walked segment: its start node, then the new ones after it. -/
theorem PhaseA.segNodes_range (hr : PhaseReady cfg stA lists) (hinv : PhaseA cfg stA lists C pre out st)
    (hs : s ∈ stA.rebuildSkiplists) (hg : g ∈ segsOf stA lists s) (hgp : g.1 ∈ pre) :
    segNode stA.recoverySegments g.1 < stA.dram.nodeCount ∧
      ∀ n ∈ (out g.1).1.filterMap Prod.snd, stA.dram.nodeCount ≤ n ∧ n < st.dram.nodeCount := by
  obtain ⟨seg, -, hsn, hlt, -⟩ := hinv.segNode_spec hr (hr.segsOf_mem hs hg).2
  exact ⟨hsn ▸ hlt, fun n hn => (hinv.built n).2 ⟨s, hs, g, hg, hgp, hn⟩⟩

/-- **The nodes of two walked segments are distinct**, within a skiplist or across two. -/
theorem PhaseA.segNodes_disjoint (hr : PhaseReady cfg stA lists) (hinv : PhaseA cfg stA lists C pre out st)
    {s' : Skiplist} {g' : PMemOffsetType × List PMemOffsetType}
    (hs : s ∈ stA.rebuildSkiplists) (hg : g ∈ segsOf stA lists s) (hgp : g.1 ∈ pre)
    (hs' : s' ∈ stA.rebuildSkiplists) (hg' : g' ∈ segsOf stA lists s') (hgp' : g'.1 ∈ pre)
    (hne : g.1 ≠ g'.1) :
    (segNode stA.recoverySegments g.1 :: (out g.1).1.filterMap Prod.snd).Disjoint
      (segNode stA.recoverySegments g'.1 :: (out g'.1).1.filterMap Prod.snd) := by
  obtain ⟨h1, h2⟩ := hinv.segNodes_range hr hs hg hgp
  obtain ⟨h1', h2'⟩ := hinv.segNodes_range hr hs' hg' hgp'
  intro n hn hn'
  rcases List.mem_cons.1 hn with rfl | hn <;> rcases List.mem_cons.1 hn' with e | hn'
  · obtain ⟨seg, -, hsn, -, hrec, -⟩ := hinv.segNode_spec hr (hr.segsOf_mem hs hg).2
    obtain ⟨seg', -, hsn', -, hrec', -⟩ := hinv.segNode_spec hr (hr.segsOf_mem hs' hg').2
    rw [hsn, hsn'] at e
    exact hne (hrec.symm.trans (e ▸ hrec'))
  · exact absurd (h2' _ hn').1 (not_le.2 h1)
  · exact absurd (h2 n hn).1 (not_le.2 (e ▸ h1'))
  · exact hinv.disjoint s hs g hg s' hs' g' hg' hgp hgp' hne n hn hn'

variable (out) in
/-- The header node of a skiplist, then the nodes of what its segments kept, are the nodes of its
segments, each start node before the new ones. -/
theorem segmentsKept_nodes (hr : PhaseReady cfg stA lists) (hs : s ∈ stA.rebuildSkiplists) :
    s.headerNode :: (segmentsKept stA lists s out).filterMap Prod.snd =
      (segsOf stA lists s).flatMap fun g =>
        segNode stA.recoverySegments g.1 :: (out g.1).1.filterMap Prod.snd := by
  have hH : segNode stA.recoverySegments s.headerRecord = s.headerNode := by
    simp [segNode, (hr.header s hs).1]
  have htail : ∀ g ∈ (segsOf stA lists s).tail, g.1 ≠ s.headerRecord := fun g hg =>
    (hr.segsOf_tail hs hg).2.1
  unfold segmentsKept
  rw [List.filterMap_flatMap]
  simp only [segsOf, segmentsOf, List.flatMap_cons, segKept_nodes, ne_eq, not_true_eq_false,
    if_false, List.nil_append, hH, List.cons_append]
  congr 2
  exact List.flatMap_congr fun g hg => by simp [htail g hg]

/-- The live start of an element segment is kept as it is. -/
theorem keptVersion_live {pm : PMem} {e : PMemOffsetType}
    (hcp : cfg.findCheckpointVersion pm e = .ok (some e)) (hst : (pm e).recordStatus ≠ .Outdated) :
    keptVersion cfg pm e = some e := by
  simp [keptVersion, hcp, Option.filter, hst]

/-- **Phase A over, every segment walked**: each rebuild skiplist is left as `LevelOne` says,
with what its segments kept, read against the store phase A started from. -/
theorem PhaseA.levelOne (hr : PhaseReady cfg stA lists) (hinv : PhaseA cfg stA lists C pre out st)
    (hall : ∀ s ∈ stA.rebuildSkiplists, ∀ g ∈ segsOf stA lists s, g.1 ∈ pre)
    (hs : s ∈ stA.rebuildSkiplists) :
    LevelOne cfg s stA.pm (lists s) (segmentsKept stA lists s out) st := by
  have hw := hr.walk s hs
  have hfst : (segmentsKept stA lists s out).map Prod.fst =
      (segsOf stA lists s).flatMap (segPart s.headerRecord pre out) := by
    rw [segmentsKept, List.map_flatMap]
    exact List.flatMap_congr fun g hg => segKept_map_fst (hall s hs g hg)
  have hkept : (segmentsKept stA lists s out).map Prod.fst = rebuiltList cfg stA.pm (lists s) := by
    rw [hfst, ← hr.segsOf_elems hs, rebuiltList, List.filterMap_flatMap]
    refine List.flatMap_congr fun g hg => ?_
    simp only [segPart, segElems, if_pos (hall s hs g hg), List.filterMap_append,
      hinv.kept s hs g hg (hall s hs g hg), rebuiltList]
    split_ifs with hH
    · have he : g.1 ∈ lists s := hr.mem_of_segElems hs hg (by simp [segElems, hH])
      obtain ⟨hcp, hst⟩ := hr.live s hs g.1 he (hr.segsOf_mem hs hg).2
      simp [keptVersion_live hcp hst]
    · rfl
  have hnodes := segmentsKept_nodes out hr hs
  have hsplit : segsOf stA lists s = (s.headerRecord,
      (splitSegments (fun e => (stA.recoverySegments.lookup e).isSome) (lists s)).1) ::
      (splitSegments (fun e => (stA.recoverySegments.lookup e).isSome) (lists s)).2 := rfl
  refine ⟨hkept, hfst ▸ hinv.links s hs, fun u hu => ?_, fun p hp n hn => ?_, fun n hn => ?_,
    ?_, ?_, ?_, ?_, fun hi => ?_, ?_⟩
  · -- ids
    rw [(DLRecord.sameCore (hinv.core u).1).id]
    rcases List.mem_cons.1 hu with rfl | hu
    · exact hw.header.2
    · obtain ⟨e, he, hre⟩ := hinv.mem_list hr hs (hfst ▸ hu)
      exact (hw.versions e he u hre).2.2
  · -- nodes
    obtain ⟨g, hg, hp⟩ := List.mem_flatMap.1 hp
    rcases List.mem_append.1 hp with hp | hp
    · unfold segStart at hp
      split_ifs at hp
      · obtain rfl := List.mem_singleton.1 hp
        obtain rfl := Option.some.inj hn
        obtain ⟨seg, -, hsn, hlt, hrec, -⟩ := hinv.segNode_spec hr (hr.segsOf_mem hs hg).2
        exact ⟨hsn ▸ lt_of_lt_of_le hlt hinv.count, hsn ▸ hrec⟩
      · cases hp
    · exact ⟨(hinv.built n).2 ⟨s, hs, g, hg, hall s hs g hg, List.mem_filterMap.2 ⟨p, hp, hn⟩⟩ |>.2,
        (hinv.nodes s hs g hg (hall s hs g hg) p hp n hn).1⟩
  · -- heights
    rw [segmentsKept, List.filterMap_flatMap] at hn
    obtain ⟨g, hg, hn⟩ := List.mem_flatMap.1 hn
    rw [segKept_nodes] at hn
    rcases List.mem_append.1 hn with hn | hn
    · split_ifs at hn
      · obtain rfl := List.mem_singleton.1 hn
        obtain ⟨seg, -, hsn, -, -, hh⟩ := hinv.segNode_spec hr (hr.segsOf_mem hs hg).2
        rw [hsn]; exact hh
      · cases hn
    · obtain ⟨p, hp, hpn⟩ := List.mem_filterMap.1 hn
      exact (hinv.nodes s hs g hg (hall s hs g hg) p hp n hpn).2
  · -- header
    rw [(hinv.oldNode _ hw.headerNode.1).2]; exact hw.headerNode.2.1
  · -- chain: the segments' level-1 paths, handed over from each to the next
    have hc := nodeChain_of_handover (d := st.dram) (fun g => segNode stA.recoverySegments g.1)
      (fun g => (out g.1).2) (fun g => (out g.1).1.filterMap Prod.snd) _ _
      (hinv.path s hs [] _ _ hsplit (hall s hs _ (hsplit ▸ List.mem_cons_self _ _))).1
      (hinv.path s hs [] _ _ hsplit (hall s hs _ (hsplit ▸ List.mem_cons_self _ _))).2
      fun A' g' B' e => hinv.path s hs (_ :: A') g' B' (by rw [hsplit, e]; rfl)
        (hall s hs g' (by rw [hsplit, e]; simp))
    rw [hsplit, List.flatMap_cons, List.cons_append, List.cons.injEq] at hnodes
    rw [hnodes.1, hnodes.2]
    exact hc
  · -- nodup: distinct nodes in every segment and across segments
    rw [hnodes, List.nodup_flatMap]
    refine ⟨fun g hg => ?_, ((List.pairwise_map.1 (hr.segsOf_nodup hs)).imp_of_mem
      fun ha hb hab => hinv.segNodes_disjoint hr hs ha (hall s hs _ ha) hs hb (hall s hs _ hb) hab)⟩
    obtain ⟨h1, h2⟩ := hinv.segNodes_range hr hs hg (hall s hs g hg)
    exact List.nodup_cons.2 ⟨fun h => absurd (h2 _ h).1 (not_le.2 h1),
      hinv.nodup s hs g hg (hall s hs g hg)⟩
  · -- fuel
    calc ((segmentsKept stA lists s out).filterMap Prod.snd).length
        ≤ (segmentsKept stA lists s out).length := List.length_filterMap_le _ _
      _ = (rebuiltList cfg stA.pm (lists s)).length := by rw [← hkept, List.length_map]
      _ ≤ (lists s).length := List.length_filterMap_le _ _
      _ ≤ cfg.fuel := hw.fuel.le
  · -- hash
    have := hinv.entries s hs hi
    rwa [List.filter_eq_self.2 fun g hg => by simpa using hall s hs g hg] at this
  · -- size
    rw [hinv.sizes, findSkiplist_map_size, findSkiplist_of_mem hr.ids hs, Option.map_some',
      List.flatMap_congr fun g hg => if_pos (hall s hs g hg)]
    rfl

end Handover

/-- What phase A left and phase B built is what `Rebuilt` says, with the nodes counted from
address 0: the start nodes of the element segments were built before the rebuild. -/
theorem LevelOne.rebuilt {s : Skiplist} {pm0 : PMem} {es : List PMemOffsetType}
    {kn : List (PMemOffsetType × Option Nat)} {st st' : RebuilderState} {T : List Nat}
    (h : LevelOne cfg s pm0 es kn st) (hf : Dram.Frame T st.dram st'.dram)
    (hc : ∀ i, 1 ≤ i → i ≤ cfg.kMaxHeight → NodeChain st'.dram i s.headerNode
      ((kn.filterMap Prod.snd).filter fun n => i ≤ (st.dram.nodes n).height))
    (hpm : st'.pm = st.pm) (hht : st'.hashTable = st.hashTable)
    (hrs : st'.rebuildSkiplists = st.rebuildSkiplists) : Rebuilt cfg s pm0 0 es kn st' :=
  ⟨h.kept, hpm ▸ h.links, hpm ▸ h.ids, fun p hp n hn => ⟨Nat.zero_le _,
    by rw [hf.count]; exact (h.nodes p hp n hn).1, by rw [hf.record]; exact (h.nodes p hp n hn).2⟩,
    fun i h1 hi => by simpa only [hf.height] using hc i h1 hi, hht ▸ h.hash, hrs ▸ h.size⟩

variable (cfg) in
/-- The `linkHighDramNodes` task of a skiplist reads only its header node. -/
theorem runTasks_linkHigh_map (f : Skiplist → Skiplist) (hf : ∀ s, (f s).headerNode = s.headerNode) :
    ∀ (xs : List Skiplist) (st st' : RebuilderState) (rs : List (Skiplist × Status)),
      runTasks (linkHighDramNodesTask cfg) xs st = .ok (rs, st') →
      runTasks (linkHighDramNodesTask cfg) (xs.map f) st = .ok (rs.map fun q => (f q.1, q.2), st')
  | [], st, st', rs, h => by cases h; rfl
  | s :: xs, st, st', rs, h => by
    have htask : linkHighDramNodesTask cfg (f s) st = linkHighDramNodesTask cfg s st := by
      simp only [linkHighDramNodesTask, hf]
    simp only [runTasks, except_bind_eq_ok, except_pure_eq_ok] at h
    obtain ⟨⟨r, st1⟩, h1, ⟨rs', st2⟩, h2, h3⟩ := h
    obtain ⟨rfl, rfl⟩ := Prod.mk.inj h3
    simp only [List.map_cons, runTasks, htask, h1, runTasks_linkHigh_map f hf xs st1 st2 rs' h2,
      bind, Except.bind, pure, Except.pure]

/-- **The segment-based rebuild, with what it leaves alone**: from a state phase A is ready for,
`segmentBasedIndexRebuild` returns `Ok` and leaves every rebuild skiplist as `Rebuilt` says; it
changes no record of another collection and no record's core, and neither the invalid skiplists
nor the records freed. -/
theorem segmentBasedIndexRebuild_ok (hr : PhaseReady cfg stA lists) :
    ∃ esA esB st', segmentBasedIndexRebuild cfg stA = .ok (.Ok, esA, esB, st') ∧
      (∀ s ∈ stA.rebuildSkiplists, ∃ kn, Rebuilt cfg s stA.pm 0 (lists s) kn st') ∧
      (∀ u, (∀ s ∈ stA.rebuildSkiplists, (stA.pm u).id ≠ s.id) → st'.pm u = stA.pm u) ∧
      (∀ u, (st'.pm u).core = (stA.pm u).core ∧ (st'.pm u).recordType = (stA.pm u).recordType) ∧
      st'.invalidSkiplists = stA.invalidSkiplists ∧ st'.freed = stA.freed := by
  obtain ⟨pre, out, st1, hA, hinv⟩ := phaseA_run hr
  have hr' := hr.nextTid (stA.nextTid + 1)
  have hall : ∀ s ∈ stA.rebuildSkiplists, ∀ g ∈ segsOf stA lists s, g.1 ∈ pre := fun s hs g hg => by
    obtain ⟨seg, hseg⟩ := Option.isSome_iff_exists.1 (hr.segsOf_mem hs hg).2
    exact (hinv.walked s hs g hg).1 (List.mem_map_of_mem Prod.fst (mem_of_lookup hseg))
  -- phase A leaves every rebuild skiplist linked at level 1
  have hL : ∀ s ∈ stA.rebuildSkiplists, LevelOne cfg s stA.pm (lists s) (segmentsKept stA lists s out)
      { st1 with nextTid := stA.nextTid + cfg.numRebuildThreads } := fun s hs =>
    (hinv.levelOne hr' hall hs).frame rfl rfl rfl (.refl [] _) fun _ _ h => absurd h (List.not_mem_nil _)
  have hpair : stA.rebuildSkiplists.Pairwise fun s t =>
      (s.headerNode :: (segmentsKept stA lists s out).filterMap Prod.snd).Disjoint
        (t.headerNode :: (segmentsKept stA lists t out).filterMap Prod.snd) := by
    refine (List.pairwise_map.1 hr.ids).imp_of_mem fun {s t} hs ht hid => ?_
    rw [segmentsKept_nodes out hr hs, segmentsKept_nodes out hr ht]
    intro n hn hn'
    obtain ⟨g, hg, hn⟩ := List.mem_flatMap.1 hn
    obtain ⟨g', hg', hn'⟩ := List.mem_flatMap.1 hn'
    exact hinv.segNodes_disjoint hr' hs hg (hall s hs g hg) ht hg' (hall t ht g' hg')
      (fun e => hid (congrArg Skiplist.id (hr'.seg_unique hs ht hg hg' e).1)) hn hn'
  -- phase B builds the other levels, in batches
  obtain ⟨d', hB, hfB, hcB⟩ := runTasks_linkHigh stA.pm lists (fun s => segmentsKept stA lists s out)
    stA.rebuildSkiplists _ hL hpair
  obtain ⟨f, hfs, hf⟩ : ∃ f : Skiplist → Skiplist, st1.rebuildSkiplists = stA.rebuildSkiplists.map f ∧
      ∀ s, (f s).headerNode = s.headerNode := ⟨_, hinv.sizes, fun _ => rfl⟩
  have hB' := runTasks_linkHigh_map cfg f hf _ _ _ _ hB
  rw [← hfs] at hB'
  obtain ⟨es, hes⟩ : ∃ es, launchInBatches (linkHighDramNodesTask cfg) cfg.numRebuildThreads
      st1.rebuildSkiplists.length 0 [] st1.rebuildSkiplists
      { st1 with nextTid := stA.nextTid + cfg.numRebuildThreads } = .ok (.Ok, es,
        { { st1 with nextTid := stA.nextTid + cfg.numRebuildThreads } with
          dram := d', nextTid := stA.nextTid + cfg.numRebuildThreads + stA.rebuildSkiplists.length }) :=
    launchInBatches_of_runTasks (show runTasks _ ([] ++ st1.rebuildSkiplists) _ = _ from hB') fun p hp => by
      simp only [List.map_map, List.mem_map] at hp
      obtain ⟨a, -, rfl⟩ := hp
      rfl
  refine ⟨launches (List.range cfg.numRebuildThreads) ++
    waits ((List.range cfg.numRebuildThreads).map (·, .Ok)), es, { st1 with
      dram := d', nextTid := stA.nextTid + cfg.numRebuildThreads + stA.rebuildSkiplists.length,
      recoverySegments := [] }, ?_,
    fun s hs => ⟨_, (hL s hs).rebuilt hfB (hcB s hs) rfl rfl rfl⟩, hinv.frame, hinv.core,
    (congrArg RebuilderState.invalidSkiplists hinv.rest).trans rfl,
    (congrArg RebuilderState.freed hinv.rest).trans rfl⟩
  have hff : firstFailure ((List.range cfg.numRebuildThreads).map (·, Status.Ok)) = .Ok :=
    firstFailure_eq_ok_iff.2 fun p hp => by
      obtain ⟨a, -, rfl⟩ := List.mem_map.1 hp
      rfl
  simp only [segmentBasedIndexRebuild, hA, bind, Except.bind, hff, ne_eq, not_true_eq_false,
    if_false]
  rw [hes]
  rfl

/-- **The segment-based rebuild leaves what the list-based one leaves.**  From a state where
the walk of every rebuild skiplist over its elements `lists s` is ready, as the list-based task
needs, and the registered recovery segments are those of the header nodes and of live elements
(each its own checkpoint version, not `Outdated`), or of invalid skiplists, none claimed yet:
`segmentBasedIndexRebuild` returns `Ok`, and leaves every rebuild skiplist as `Rebuilt` says of a
list-based task: on its list exactly the live checkpoint versions of its elements, in order; at
every level the chain of their nodes whose tower reaches it; their hash entries; and its size. -/
theorem segmentBasedIndexRebuild_rebuilt (hr : PhaseReady cfg stA lists) :
    ∃ esA esB st', segmentBasedIndexRebuild cfg stA = .ok (.Ok, esA, esB, st') ∧
      ∀ s ∈ stA.rebuildSkiplists, ∃ kn, Rebuilt cfg s stA.pm 0 (lists s) kn st' := by
  obtain ⟨esA, esB, st', h, hreb, -⟩ := segmentBasedIndexRebuild_ok hr
  exact ⟨esA, esB, st', h, hreb⟩

/-- A segment-based rebuilder with two phase-A workers and towers of height 2. -/
def twoWorkers : RebuilderConfig where
  checkpoint := ⟨0⟩
  segmentBasedRebuild := true
  numRebuildThreads := 2
  numRebuildThreads_pos := Nat.two_pos
  comparators := ["cmp"]
  kMaxHeight := 2
  kRestoreSkiplistStride := 1
  randomHeight := fun _ => 2
  randomHeight_le := fun _ => Nat.le_refl 2
  fuel := 4

/-- The collection of `twoElements` before phase A: the header node `0`, as tall as
`kMaxHeight`, starts the segment of the header, and the node `1` that the scan built for the
element `k` at `2` starts a second segment. -/
def twoSegments : RebuilderState :=
  { RebuilderState.init twoElements
      ⟨fun n => if n = 1 then ⟨2, 2, fun _ => none⟩ else ⟨0, 2, fun _ => none⟩, 2⟩ [] with
    rebuildSkiplists := [⟨0, 0, "t", 1, "cmp", true, 0⟩]
    recoverySegments := [(0, ⟨false, 0⟩), (2, ⟨false, 1⟩)] }

theorem twoSegments_ready :
    PhaseReady twoWorkers twoSegments fun s => twoElementsOf s.headerRecord := by
  refine ⟨?_, by decide, by decide, by decide, by decide, ?_, by decide, fun s hs => ?_,
    fun s hs e he _ => ?_⟩
  · intro s hs
    obtain rfl := List.mem_singleton.1 hs
    refine ⟨by simp [Links, PMem.Link, twoSegments, RebuilderState.init, twoElements, twoElementsOf],
      by decide, by decide, fun e he u hu => ?_, by decide, fun _ _ => ⟨_, rfl⟩,
      fun _ _ _ x hx => absurd hx (List.not_mem_nil x), by decide, by decide, rfl, fun _ => rfl⟩
    simp only [twoElementsOf, if_true, List.mem_cons, List.mem_singleton, List.not_mem_nil, or_false] at he
    rcases he with rfl | rfl <;> rw [hu.eq_of_null rfl] <;> decide
  · intro p hp s hfind
    simp only [twoSegments, List.mem_cons, List.mem_singleton, List.not_mem_nil, or_false] at hp
    rcases hp with rfl | rfl <;> cases hfind <;> decide
  · obtain rfl := List.mem_singleton.1 hs
    exact ⟨rfl, rfl, rfl⟩
  · obtain rfl := List.mem_singleton.1 hs
    refine ⟨rfl, ?_⟩
    simp only [twoElementsOf, if_true, List.mem_cons, List.mem_singleton, List.not_mem_nil, or_false] at he
    rcases he with rfl | rfl <;> decide

theorem segmentBasedIndexRebuild_twoSegments :
    PhaseReady twoWorkers twoSegments (fun s => twoElementsOf s.headerRecord) ∧
      ∃ esA esB st', segmentBasedIndexRebuild twoWorkers twoSegments = .ok (.Ok, esA, esB, st') ∧
        ∀ s ∈ twoSegments.rebuildSkiplists, ∃ kn,
          Rebuilt twoWorkers s twoSegments.pm 0 (twoElementsOf s.headerRecord) kn st' :=
  ⟨twoSegments_ready, segmentBasedIndexRebuild_rebuilt twoSegments_ready⟩

/-- **Phase A in any order of claims**: whatever order the registered segments are claimed in,
each walked to its end before the next one is claimed (one worker over any ordering of them, or
workers whose whole-segment walks follow one another), the walks return `Ok` and leave every
rebuild skiplist as `LevelOne` says: on its list exactly its elements' live checkpoint versions,
in order, linked at level 1 through their nodes from the header node, with one hash entry per kept
version in a hash-indexed collection, and its size counting them. -/
theorem phaseA_any_order (hr : PhaseReady cfg stA lists) {order : List PMemOffsetType}
    (hperm : order.Perm (stA.recoverySegments.map Prod.fst)) (tid : Nat) :
    ∃ st, rebuildSegmentsIndexLoop cfg tid order stA = .ok (.Ok, st) ∧
      ∀ s ∈ stA.rebuildSkiplists, ∃ kn, LevelOne cfg s stA.pm (lists s) kn st := by
  obtain ⟨pre, out, st, hloop, hinv⟩ := PhaseA.loop hr tid order [] [] (fun _ => ([], 0)) stA
    (PhaseA.init hr) (hperm.nodup_iff.2 hr.starts) fun r hr' => lookup_isSome_of_mem (hperm.subset hr')
  have hall : ∀ s ∈ stA.rebuildSkiplists, ∀ g ∈ segsOf stA lists s, g.1 ∈ pre := fun s hs g hg => by
    obtain ⟨v, hv⟩ := Option.isSome_iff_exists.1 (hr.segsOf_mem hs hg).2
    exact (hinv.walked s hs g hg).1
      (hperm.symm.subset (List.mem_map_of_mem Prod.fst (mem_of_lookup hv)))
  exact ⟨st, hloop, fun s hs => ⟨_, hinv.levelOne hr hall hs⟩⟩

/-- The two segments of `twoSegments` claimed the other way round, the element's segment first. -/
theorem phaseA_twoSegments_reversed :
    PhaseReady twoWorkers twoSegments (fun s => twoElementsOf s.headerRecord) ∧
      [2, 0].Perm (twoSegments.recoverySegments.map Prod.fst) ∧
      ∃ st, rebuildSegmentsIndexLoop twoWorkers 0 [2, 0] twoSegments = .ok (.Ok, st) ∧
        ∀ s ∈ twoSegments.rebuildSkiplists, ∃ kn,
          LevelOne twoWorkers s twoSegments.pm (twoElementsOf s.headerRecord) kn st :=
  ⟨twoSegments_ready, List.Perm.swap 0 2 [],
    phaseA_any_order twoSegments_ready (List.Perm.swap 0 2 []) 0⟩

end Kvdk
