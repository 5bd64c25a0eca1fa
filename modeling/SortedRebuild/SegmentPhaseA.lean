import SortedRebuild.SegmentWalk
import SortedRebuild.ListBased

/-
  Phase A of the segment-based rebuild over all its segments: the worker
  `rebuild_segments_index` of `SortedCollectionRebuilder::segmentBasedIndexRebuild`
  (rebuilder.cpp, lines 252-284), run by `num_rebuild_threads_` workers one after the other.

  The list of a rebuild skiplist falls into segments (`segmentsOf`): the header's first, then
  one for each element with a registered recovery segment, each reaching up to the next start.
  When every element start is live (its own checkpoint version, not `Outdated`), the first
  worker claims every segment, walks each one of a rebuild skiplist (`rebuildSegmentIndex_spec`)
  and keeps `PhaseA`: a walked segment is as the list-based walk leaves it, with its level-1 path
  ending at the start node of the next segment; a segment not yet walked is as it was and ready
  for its walk (`PhaseA.segReady`, `PhaseA.start_ready`).  The later workers find every segment
  claimed and only take their thread IDs (`phaseA_run`).
-/

namespace Kvdk

/-! ## The segments of a list -/

/-- The list `es` cut at its starts: the elements before the first start, then each start with
the elements after it up to the next start. -/
def splitSegments (isStart : PMemOffsetType → Bool) :
    List PMemOffsetType → List PMemOffsetType × List (PMemOffsetType × List PMemOffsetType)
  | [] => ([], [])
  | e :: es =>
    if isStart e then ([], (e, (splitSegments isStart es).1) :: (splitSegments isStart es).2)
    else (e :: (splitSegments isStart es).1, (splitSegments isStart es).2)

section Split

variable (isStart : PMemOffsetType → Bool)

/-- Put back together, the segments are the list. -/
theorem splitSegments_join : ∀ es : List PMemOffsetType,
    (splitSegments isStart es).1 ++ (splitSegments isStart es).2.flatMap (fun g => g.1 :: g.2) = es
  | [] => rfl
  | e :: es => by
    have ih := splitSegments_join es
    by_cases h : isStart e <;> simp [splitSegments, h, ih]

/-- No element of a segment's body is a start; every segment begins at one. -/
theorem splitSegments_starts : ∀ es : List PMemOffsetType,
    (∀ e ∈ (splitSegments isStart es).1, isStart e = false) ∧
      ∀ g ∈ (splitSegments isStart es).2, isStart g.1 = true ∧ ∀ e ∈ g.2, isStart e = false
  | [] => by simp [splitSegments]
  | e :: es => by
    obtain ⟨ih1, ih2⟩ := splitSegments_starts es
    by_cases h : isStart e
    · simp only [splitSegments, h, if_true, List.not_mem_nil, false_implies, implies_true,
        List.mem_cons, forall_eq_or_imp, true_and]
      exact ⟨ih1, ih2⟩
    · simp only [splitSegments, h, Bool.false_eq_true, if_false, List.mem_cons, forall_eq_or_imp]
      exact ⟨⟨trivial, ih1⟩, ih2⟩

/-- A start in the list begins one of its segments. -/
theorem splitSegments_start {e : PMemOffsetType} (he : isStart e = true) :
    ∀ {es : List PMemOffsetType}, e ∈ es → ∃ g ∈ (splitSegments isStart es).2, g.1 = e
  | [], hm => absurd hm (List.not_mem_nil _)
  | e' :: es, hm => by
    rcases List.mem_cons.1 hm with rfl | hm
    · simp only [splitSegments, he, if_true]; exact ⟨_, List.mem_cons_self _ _, rfl⟩
    · obtain ⟨g, hg, rfl⟩ := splitSegments_start he hm
      by_cases h : isStart e'
      · simp only [splitSegments, h, if_true]; exact ⟨g, List.mem_cons_of_mem _ hg, rfl⟩
      · simp only [splitSegments, h, Bool.false_eq_true, if_false]; exact ⟨g, hg, rfl⟩

end Split

/-- The recovery segments a list of elements falls into, the header's first: with `segs` the
registered segments, each start record with the elements up to the next start. -/
def segmentsOf (segs : List (PMemOffsetType × RecoverySegment)) (h : PMemOffsetType)
    (es : List PMemOffsetType) : List (PMemOffsetType × List PMemOffsetType) :=
  (h, (splitSegments (fun e => (segs.lookup e).isSome) es).1) ::
    (splitSegments (fun e => (segs.lookup e).isSome) es).2

/-- The start node registered for a segment's start record. -/
def segNode (segs : List (PMemOffsetType × RecoverySegment)) (r : PMemOffsetType) : Nat :=
  ((segs.lookup r).map RecoverySegment.startNode).getD 0

/-- What a segment holds on the list while the segments `W` have been walked, `out r` being what
the walk of the segment of `r` kept: its start record, unless it is the header `h`, then its
elements, or the versions kept for them once walked. -/
def segPart (h : PMemOffsetType) (W : List PMemOffsetType)
    (out : PMemOffsetType → List (PMemOffsetType × Option Nat) × Nat)
    (g : PMemOffsetType × List PMemOffsetType) : List PMemOffsetType :=
  (if g.1 ≠ h then [g.1] else []) ++ if g.1 ∈ W then (out g.1).1.map Prod.fst else g.2

/-- The elements of a segment: its start record, unless it is the header `h`, and its body. -/
def segElems (h : PMemOffsetType) (g : PMemOffsetType × List PMemOffsetType) : List PMemOffsetType :=
  (if g.1 ≠ h then [g.1] else []) ++ g.2

theorem segPart_of_not_mem {h : PMemOffsetType} {W : List PMemOffsetType}
    {out : PMemOffsetType → List (PMemOffsetType × Option Nat) × Nat}
    {g : PMemOffsetType × List PMemOffsetType} (hg : g.1 ∉ W) : segPart h W out g = segElems h g := by
  simp [segPart, segElems, hg]

theorem segmentsOf_join (segs : List (PMemOffsetType × RecoverySegment)) (h : PMemOffsetType)
    (es : List PMemOffsetType) (hh : h ∉ es) : (segmentsOf segs h es).flatMap (segElems h) = es := by
  have hj := splitSegments_join (fun e => (segs.lookup e).isSome) es
  have hne : ∀ g ∈ (splitSegments (fun e => (segs.lookup e).isSome) es).2, g.1 ≠ h := fun g hg e =>
    hh (by rw [← hj, List.mem_append, List.mem_flatMap]; exact .inr ⟨g, hg, by simp [e]⟩)
  have hpart : ∀ g ∈ (splitSegments (fun e => (segs.lookup e).isSome) es).2,
      segElems h g = g.1 :: g.2 := fun g hg => by simp [segElems, hne g hg]
  rw [segmentsOf, List.flatMap_cons, List.flatMap_congr hpart]
  conv_rhs => rw [← hj]
  simp [segElems]

/-- In a list without repeated images, the image of a member differs from those of the members
before and after it. -/
theorem ne_of_split {α β : Type} {f : α → β} {l A B : List α} {a b : α} (hnd : (l.map f).Nodup)
    (h : l = A ++ a :: B) (hb : b ∈ A ∨ b ∈ B) : f b ≠ f a := by
  subst h
  rw [List.map_append, List.map_cons, List.nodup_middle, List.nodup_cons, ← List.map_append] at hnd
  exact fun e => hnd.1 (e ▸ List.mem_map_of_mem f (List.mem_append.2 hb))

/-- The lists a duplicate-free `flatMap` is made of are disjoint for distinct members. -/
theorem disjoint_of_nodup_flatMap {α β : Type} {l : List α} {f : α → List β}
    (h : (l.flatMap f).Nodup) {a b : α} (ha : a ∈ l) (hb : b ∈ l) (hab : a ≠ b) :
    (f a).Disjoint (f b) :=
  (List.nodup_flatMap.1 h).2.forall (fun _ _ h => List.disjoint_symm h) ha hb hab

/-- A member of a duplicate-free list splits it in one way only. -/
theorem split_unique {α : Type} {x : α} :
    ∀ {A B A' B' : List α}, (A ++ x :: B).Nodup → A ++ x :: B = A' ++ x :: B' → A = A' ∧ B = B'
  | [], _, [], _, _, h => ⟨rfl, (List.cons.inj h).2⟩
  | [], _, a :: A', _, hnd, h => by
    simp only [List.nil_append, List.cons_append, List.cons.injEq] at h hnd
    obtain ⟨rfl, rfl⟩ := h
    exact absurd (by simp) (List.nodup_cons.1 hnd).1
  | a :: A, _, [], _, hnd, h => by
    simp only [List.nil_append, List.cons_append, List.cons.injEq] at h hnd
    obtain ⟨rfl, -⟩ := h
    exact absurd (by simp) (List.nodup_cons.1 hnd).1
  | a :: A, _, a' :: A', _, hnd, h => by
    simp only [List.cons_append, List.cons.injEq] at h hnd
    obtain ⟨rfl, h⟩ := h
    obtain ⟨rfl, rfl⟩ := split_unique (List.nodup_cons.1 hnd).2 h
    exact ⟨rfl, rfl⟩

/-- A lookup in a list of pairs whose second components a map rewrites by their keys. -/
theorem lookup_map_snd {β : Type} (f : PMemOffsetType → β → β) (r : PMemOffsetType) :
    ∀ l : List (PMemOffsetType × β), (l.map fun p => (p.1, f p.1 p.2)).lookup r =
      (l.lookup r).map (f r)
  | [] => rfl
  | (a, b) :: l => by
    by_cases h : r = a
    · subst h; simp
    · have hb : (r == a) = false := by simpa using h
      simp only [List.map_cons, List.lookup_cons, hb, lookup_map_snd f r l]

/-- A key of a list of pairs is found in it. -/
theorem lookup_isSome_of_mem {β : Type} {r : PMemOffsetType} {l : List (PMemOffsetType × β)}
    (h : r ∈ l.map Prod.fst) : (l.lookup r).isSome := by
  obtain ⟨p, hp, rfl⟩ := List.mem_map.1 h
  exact List.lookup_isSome_iff.2 ⟨p, hp, by simp⟩

/-- A pair found by a lookup is in the list. -/
theorem mem_of_lookup {β : Type} {r : PMemOffsetType} {b : β} {l : List (PMemOffsetType × β)}
    (h : l.lookup r = some b) : (r, b) ∈ l := by
  obtain ⟨l₁, l₂, rfl, -⟩ := List.lookup_eq_some_iff.1 h
  simp

/-- A path stays where the level-`l` pointers of its nodes are unchanged. -/
theorem nodePath_of_eq_on {d d' : Dram} {l : Nat} :
    ∀ {a : Nat} {ns : List Nat} {b : Nat},
      (∀ u ∈ a :: ns, (d'.nodes u).next l = (d.nodes u).next l) →
      NodePath d l a ns b → NodePath d' l a ns b
  | _, [], _, _, h => h
  | a, _ :: _, _, he, h => ⟨(he a (List.mem_cons_self _ _)).trans h.1,
      nodePath_of_eq_on (fun u hu => he u (List.mem_cons_of_mem _ hu)) h.2⟩

/-- Growing the sizes of skiplists keeps their IDs, so `find` sees the grown skiplist. -/
theorem findSkiplist_map_size (l : List Skiplist) (f : Skiplist → Nat) (id : CollectionIDType) :
    findSkiplist (l.map fun x => { x with size := f x }) id =
      (findSkiplist l id).map fun x => { x with size := f x } := by
  simp only [findSkiplist, List.find?_map]; rfl

theorem flatMap_sublist_flatMap {α β : Type} {f g : α → List β} :
    ∀ {l : List α}, (∀ a ∈ l, List.Sublist (f a) (g a)) → List.Sublist (l.flatMap f) (l.flatMap g)
  | [], _ => List.Sublist.slnil
  | a :: l, h => by
    simp only [List.flatMap_cons]
    exact (h a (List.mem_cons_self _ _)).append
      (flatMap_sublist_flatMap fun b hb => h b (List.mem_cons_of_mem _ hb))

/-! ## Phase A -/

variable (cfg : RebuilderConfig) (stA : RebuilderState) (lists : Skiplist → List PMemOffsetType)

/-- The segments of the rebuild skiplist `s`, whose list holds the elements `lists s`, by the
recovery segments registered in `stA`. -/
def segsOf (s : Skiplist) : List (PMemOffsetType × List PMemOffsetType) :=
  segmentsOf stA.recoverySegments s.headerRecord (lists s)

/-- What the walk of the segment `g` of `s` indexes: its start, when an element, on its node,
then the versions `out` says it kept. -/
def segKept (s : Skiplist) (out : PMemOffsetType → List (PMemOffsetType × Option Nat) × Nat)
    (g : PMemOffsetType × List PMemOffsetType) : List (PMemOffsetType × Option Nat) :=
  segStart s g.1 (segNode stA.recoverySegments g.1) ++ (out g.1).1

/-- **What phase A needs of the state `stA` its first worker starts from**, the list of each
rebuild skiplist `s` holding the elements `lists s`.  Each walk is ready (`WalkReady`), the
skiplists have distinct IDs and their elements distinct keys.  The registered segments have
distinct start records, none of them claimed; each is built over its start record, with a tower
of a height in `1..kMaxHeight`,
and belongs to a rebuild skiplist, as its header or one of its elements, or to an invalid one.
Every header starts a segment on its header node, has no older version and is its own checkpoint
version; every element start is its own checkpoint version and is not `Outdated`. -/
structure PhaseReady : Prop where
  walk : ∀ s ∈ stA.rebuildSkiplists, WalkReady cfg s stA (lists s)
  ids : (stA.rebuildSkiplists.map Skiplist.id).Nodup
  keys : (stA.rebuildSkiplists.flatMap fun s => (lists s).map fun e => (stA.pm e).key).Nodup
  starts : (stA.recoverySegments.map Prod.fst).Nodup
  segs : ∀ p ∈ stA.recoverySegments, p.2.visited = false ∧ p.2.startNode < stA.dram.nodeCount ∧
    (stA.dram.nodes p.2.startNode).record = p.1 ∧ 1 ≤ (stA.dram.nodes p.2.startNode).height ∧
    (stA.dram.nodes p.2.startNode).height ≤ cfg.kMaxHeight
  owner : ∀ p ∈ stA.recoverySegments, ∀ s, findSkiplist stA.rebuildSkiplists (stA.pm p.1).id = some s →
    p.1 = s.headerRecord ∨ p.1 ∈ lists s
  invalid : ∀ p ∈ stA.recoverySegments, findSkiplist stA.rebuildSkiplists (stA.pm p.1).id = none →
    (findSkiplist stA.invalidSkiplists (stA.pm p.1).id).isSome
  header : ∀ s ∈ stA.rebuildSkiplists,
    stA.recoverySegments.lookup s.headerRecord = some ⟨false, s.headerNode⟩ ∧
    (stA.pm s.headerRecord).oldVersion = kNullPMemOffset ∧
    cfg.findCheckpointVersion stA.pm s.headerRecord = .ok (some s.headerRecord)
  live : ∀ s ∈ stA.rebuildSkiplists, ∀ e ∈ lists s, (stA.recoverySegments.lookup e).isSome →
    cfg.findCheckpointVersion stA.pm e = .ok (some e) ∧ (stA.pm e).recordStatus ≠ .Outdated

/-- **The invariant of the first phase-A worker's loop** once it has claimed the segments of the
start records `C`, of which those of rebuild skiplists, `pre`, it has walked, `out r` being what
the walk of the segment of `r` kept and its last node.  The claimed segments are marked
visited.  Each list holds its unwalked segments as they were and its walked ones as
`rebuiltList`, linked through its header; each walked segment has on level 1 the path from its
start node through its new nodes, the last pointing at the next segment's start node or null.
The records keep their cores and types, and their `old_version` but at walked starts and kept
versions; records of no rebuild skiplist are untouched.  The hash index has the entries of the
walked segments appended, and in a hash-indexed skiplist the slots of its keys hold one entry per
version its walked segments kept.  The nodes that were there keep their records and towers, and all but
the walked start nodes are untouched; the new nodes are those of the walked segments, distinct.
Each rebuild skiplist's size counts what its walked segments kept, and nothing else changed but
the draws and the thread caches. -/
structure PhaseA (C pre : List PMemOffsetType)
    (out : PMemOffsetType → List (PMemOffsetType × Option Nat) × Nat) (st : RebuilderState) :
    Prop where
  segs : st.recoverySegments = stA.recoverySegments.map fun p =>
    (p.1, if p.1 ∈ C then { p.2 with visited := true } else p.2)
  walked : ∀ s ∈ stA.rebuildSkiplists, ∀ g ∈ segsOf stA lists s, g.1 ∈ C ↔ g.1 ∈ pre
  links : ∀ s ∈ stA.rebuildSkiplists, Links st.pm s.headerRecord
    ((segsOf stA lists s).flatMap (segPart s.headerRecord pre out)) s.headerRecord
  kept : ∀ s ∈ stA.rebuildSkiplists, ∀ g ∈ segsOf stA lists s, g.1 ∈ pre →
    (out g.1).1.map Prod.fst = rebuiltList cfg stA.pm g.2
  path : ∀ s ∈ stA.rebuildSkiplists, ∀ A g B, segsOf stA lists s = A ++ g :: B → g.1 ∈ pre →
    NodePath st.dram 1 (segNode stA.recoverySegments g.1) ((out g.1).1.filterMap Prod.snd)
      (out g.1).2 ∧
    (st.dram.nodes (out g.1).2).next 1 = B.head?.map fun g' => segNode stA.recoverySegments g'.1
  nodes : ∀ s ∈ stA.rebuildSkiplists, ∀ g ∈ segsOf stA lists s, g.1 ∈ pre → ∀ p ∈ (out g.1).1,
    ∀ n ∈ p.2, (st.dram.nodes n).record = p.1 ∧ 1 ≤ (st.dram.nodes n).height ∧
      (st.dram.nodes n).height ≤ cfg.kMaxHeight
  core : ∀ u, (st.pm u).core = (stA.pm u).core ∧ (st.pm u).recordType = (stA.pm u).recordType
  oldVersion : ∀ u, (∀ s ∈ stA.rebuildSkiplists, ∀ g ∈ segsOf stA lists s, g.1 ∈ pre →
    u ≠ g.1 ∧ u ∉ (out g.1).1.map Prod.fst) → (st.pm u).oldVersion = (stA.pm u).oldVersion
  frame : ∀ u, (∀ s ∈ stA.rebuildSkiplists, (stA.pm u).id ≠ s.id) → st.pm u = stA.pm u
  hash : ∃ added, st.hashTable = stA.hashTable ++ added ∧ ∀ x ∈ added,
    ∃ s ∈ stA.rebuildSkiplists, ∃ g ∈ segsOf stA lists s, g.1 ∈ pre ∧
      ∃ p ∈ segKept stA s out g, x = elemEntry stA.pm p
  entries : ∀ s ∈ stA.rebuildSkiplists, s.indexWithHashtable = true →
    (st.hashTable.slotsOf stA.pm (lists s)).Perm
      ((((segsOf stA lists s).filter fun g => g.1 ∈ pre).flatMap (segKept stA s out)).map
        (elemEntry stA.pm))
  count : stA.dram.nodeCount ≤ st.dram.nodeCount
  old : ∀ m < stA.dram.nodeCount, (∀ s ∈ stA.rebuildSkiplists, ∀ g ∈ segsOf stA lists s,
    g.1 ∈ pre → m ≠ segNode stA.recoverySegments g.1) → st.dram.nodes m = stA.dram.nodes m
  oldNode : ∀ m < stA.dram.nodeCount, (st.dram.nodes m).record = (stA.dram.nodes m).record ∧
    (st.dram.nodes m).height = (stA.dram.nodes m).height
  built : ∀ n, stA.dram.nodeCount ≤ n ∧ n < st.dram.nodeCount ↔
    ∃ s ∈ stA.rebuildSkiplists, ∃ g ∈ segsOf stA lists s, g.1 ∈ pre ∧
      n ∈ (out g.1).1.filterMap Prod.snd
  nodup : ∀ s ∈ stA.rebuildSkiplists, ∀ g ∈ segsOf stA lists s, g.1 ∈ pre →
    ((out g.1).1.filterMap Prod.snd).Nodup
  disjoint : ∀ s ∈ stA.rebuildSkiplists, ∀ g ∈ segsOf stA lists s,
    ∀ s' ∈ stA.rebuildSkiplists, ∀ g' ∈ segsOf stA lists s', g.1 ∈ pre → g'.1 ∈ pre → g.1 ≠ g'.1 →
      ∀ n ∈ (out g.1).1.filterMap Prod.snd, n ∉ (out g'.1).1.filterMap Prod.snd
  sizes : st.rebuildSkiplists = stA.rebuildSkiplists.map fun x => { x with
    size := x.size + ((segsOf stA lists x).flatMap fun g =>
      if g.1 ∈ pre then segKept stA x out g else []).length }
  rest : st = { stA with
    pm := st.pm, dram := st.dram, hashTable := st.hashTable, draws := st.draws,
    unlinkedRecords := st.unlinkedRecords, rebuildSkiplists := st.rebuildSkiplists,
    recoverySegments := st.recoverySegments }

variable {cfg stA lists}

/-- Before the first segment: nothing claimed. -/
theorem PhaseA.init (hr : PhaseReady cfg stA lists) :
    PhaseA cfg stA lists [] [] (fun _ => ([], 0)) stA := by
  refine ⟨by simp, by simp, fun s hs => ?_, by simp, by simp, by simp, fun _ => ⟨rfl, rfl⟩, fun _ _ => rfl,
    fun _ _ => rfl, ⟨[], by simp, by simp⟩,
    fun s hs hi => by simp [HashTable.slotsOf_eq_nil ((hr.walk s hs).hash hi)], le_rfl, fun _ _ _ => rfl, fun _ _ => ⟨rfl, rfl⟩,
    fun n => ?_, by simp, by simp, ?_, rfl⟩
  · have hw := hr.walk s hs
    have hH : s.headerRecord ∉ lists s := fun h => by
      have := (hw.versions _ h _ .refl).1
      rw [hw.header.1] at this; cases this
    rw [List.flatMap_congr fun g _ => segPart_of_not_mem (List.not_mem_nil g.1), segsOf,
      segmentsOf_join _ _ _ hH]
    exact hw.links
  · simp only [List.not_mem_nil, false_and, and_false, exists_false, iff_false, not_and]; omega
  · conv_lhs => rw [← List.map_id stA.rebuildSkiplists]
    exact List.map_congr_left fun x _ => by simp [List.flatMap_eq_nil_iff.2 fun _ _ => rfl]

section Segments

variable {s : Skiplist}

theorem PhaseReady.header_not_mem (hr : PhaseReady cfg stA lists) (hs : s ∈ stA.rebuildSkiplists) :
    s.headerRecord ∉ lists s := fun h => by
  have hw := hr.walk s hs
  have := (hw.versions _ h _ .refl).1
  rw [hw.header.1] at this
  cases this

/-- The elements of its segments are the skiplist's elements. -/
theorem PhaseReady.segsOf_elems (hr : PhaseReady cfg stA lists) (hs : s ∈ stA.rebuildSkiplists) :
    (segsOf stA lists s).flatMap (segElems s.headerRecord) = lists s :=
  segmentsOf_join _ _ _ (hr.header_not_mem hs)

/-- The elements of a segment's body are elements of the skiplist, and start no segment. -/
theorem PhaseReady.segsOf_body (hr : PhaseReady cfg stA lists) (hs : s ∈ stA.rebuildSkiplists)
    {g : PMemOffsetType × List PMemOffsetType} (hg : g ∈ segsOf stA lists s) :
    ∀ e ∈ g.2, e ∈ lists s ∧ stA.recoverySegments.lookup e = none := by
  have hst := splitSegments_starts (fun e => (stA.recoverySegments.lookup e).isSome) (lists s)
  intro e he
  refine ⟨by rw [← hr.segsOf_elems hs]; exact List.mem_flatMap.2 ⟨g, hg, by simp [segElems, he]⟩, ?_⟩
  rcases List.mem_cons.1 hg with rfl | hg'
  · simpa using hst.1 e he
  · simpa using (hst.2 g hg').2 e he

/-- A segment after the first starts at an element of the skiplist, which has a registered
segment. -/
theorem PhaseReady.segsOf_tail (hr : PhaseReady cfg stA lists) (hs : s ∈ stA.rebuildSkiplists)
    {g : PMemOffsetType × List PMemOffsetType} (hg : g ∈ (segsOf stA lists s).tail) :
    g.1 ∈ lists s ∧ g.1 ≠ s.headerRecord ∧ (stA.recoverySegments.lookup g.1).isSome := by
  have hmem : g.1 ∈ lists s := splitSegments_join _ (lists s) ▸
    List.mem_append_right _ (List.mem_flatMap.2 ⟨g, hg, List.mem_cons_self _ _⟩)
  exact ⟨hmem, fun h => hr.header_not_mem hs (h ▸ hmem),
    ((splitSegments_starts (fun e => (stA.recoverySegments.lookup e).isSome) (lists s)).2 g hg).1⟩

/-- A segment of a rebuild skiplist starts at its header or at an element, which has a registered
segment. -/
theorem PhaseReady.segsOf_mem (hr : PhaseReady cfg stA lists) (hs : s ∈ stA.rebuildSkiplists)
    {g : PMemOffsetType × List PMemOffsetType} (hg : g ∈ segsOf stA lists s) :
    (g.1 = s.headerRecord ∨ g.1 ∈ lists s ∧ g.1 ≠ s.headerRecord) ∧
      (stA.recoverySegments.lookup g.1).isSome := by
  rcases List.mem_cons.1 hg with rfl | hg'
  · exact ⟨.inl rfl, by simp [(hr.header s hs).1]⟩
  · obtain ⟨h1, h2, h3⟩ := hr.segsOf_tail hs hg'
    exact ⟨.inr ⟨h1, h2⟩, h3⟩

theorem PhaseReady.mem_of_segElems (hr : PhaseReady cfg stA lists) (hs : s ∈ stA.rebuildSkiplists)
    {g : PMemOffsetType × List PMemOffsetType} (hg : g ∈ segsOf stA lists s) {e : PMemOffsetType}
    (he : e ∈ segElems s.headerRecord g) : e ∈ lists s := by
  rw [← hr.segsOf_elems hs]; exact List.mem_flatMap.2 ⟨g, hg, he⟩

/-- The segments of a skiplist start at distinct records. -/
theorem PhaseReady.segsOf_nodup (hr : PhaseReady cfg stA lists) (hs : s ∈ stA.rebuildSkiplists) :
    ((segsOf stA lists s).map Prod.fst).Nodup := by
  have hnd : (lists s).Nodup := (hr.walk s hs).keys.of_map _
  have hsub : List.Sublist ((segsOf stA lists s).tail.map Prod.fst) (lists s) := by
    conv_rhs => rw [← splitSegments_join (fun e => (stA.recoverySegments.lookup e).isSome) (lists s)]
    rw [List.map_eq_flatMap]
    exact (flatMap_sublist_flatMap fun g _ => List.cons_sublist_cons.2 (List.nil_sublist _)).trans
      (List.sublist_append_right _ _)
  refine List.nodup_cons.2 ⟨fun h => hr.header_not_mem hs (hsub.subset h), hnd.sublist hsub⟩

/-- A segment is the only one of all rebuild skiplists with its start record. -/
theorem PhaseReady.seg_unique (hr : PhaseReady cfg stA lists) {s s' : Skiplist}
    (hs : s ∈ stA.rebuildSkiplists) (hs' : s' ∈ stA.rebuildSkiplists)
    {g g' : PMemOffsetType × List PMemOffsetType} (hg : g ∈ segsOf stA lists s)
    (hg' : g' ∈ segsOf stA lists s') (h : g.1 = g'.1) : s = s' ∧ g = g' := by
  have hid : ∀ {t : Skiplist} {x : PMemOffsetType × List PMemOffsetType},
      t ∈ stA.rebuildSkiplists → x ∈ segsOf stA lists t → (stA.pm x.1).id = t.id := fun ht hx => by
    rcases (hr.segsOf_mem ht hx).1 with hH | ⟨hm, -⟩
    · rw [hH]; exact (hr.walk _ ht).header.2
    · exact ((hr.walk _ ht).versions _ hm _ .refl).2.2
  obtain rfl : s = s' := List.inj_on_of_nodup_map hr.ids hs hs' (by rw [← hid hs hg, h, hid hs' hg'])
  exact ⟨rfl, List.inj_on_of_nodup_map (hr.segsOf_nodup hs) hg hg' h⟩

/-- **Elements of two different segments have different keys**, within one skiplist or across
two. -/
theorem PhaseReady.key_ne (hr : PhaseReady cfg stA lists) {s s' : Skiplist}
    (hs : s ∈ stA.rebuildSkiplists) (hs' : s' ∈ stA.rebuildSkiplists)
    {g g' : PMemOffsetType × List PMemOffsetType} (hg : g ∈ segsOf stA lists s)
    (hg' : g' ∈ segsOf stA lists s') {e e' : PMemOffsetType} (he : e ∈ segElems s.headerRecord g)
    (he' : e' ∈ segElems s'.headerRecord g') (hne : g.1 ≠ g'.1) :
    (stA.pm e).key ≠ (stA.pm e').key := by
  intro hk
  by_cases hss : s = s'
  · subst hss
    have hkeys := (hr.walk s hs).keys
    rw [← hr.segsOf_elems hs, List.map_flatMap] at hkeys
    exact disjoint_of_nodup_flatMap hkeys hg hg' (fun h => hne (h ▸ rfl))
      (List.mem_map_of_mem _ he) (hk ▸ List.mem_map_of_mem _ he')
  · exact disjoint_of_nodup_flatMap hr.keys hs hs' hss
      (List.mem_map_of_mem _ (hr.mem_of_segElems hs hg he))
      (hk ▸ List.mem_map_of_mem _ (hr.mem_of_segElems hs' hg' he'))

/-- A registered start record of a skiplist's header or element begins one of its segments. -/
theorem segsOf_start_of_owner {r : PMemOffsetType} (hreg : (stA.recoverySegments.lookup r).isSome)
    (ho : r = s.headerRecord ∨ r ∈ lists s) : ∃ g ∈ segsOf stA lists s, g.1 = r := by
  rcases ho with rfl | hm
  · exact ⟨_, List.mem_cons_self _ _, rfl⟩
  · obtain ⟨g, hg, e⟩ := splitSegments_start (fun e => (stA.recoverySegments.lookup e).isSome) hreg hm
    exact ⟨g, List.mem_cons_of_mem _ hg, e⟩

end Segments

section Untouched

variable {C pre : List PMemOffsetType} {out : PMemOffsetType → List (PMemOffsetType × Option Nat) × Nat}
  {st : RebuilderState} {s : Skiplist} {g : PMemOffsetType × List PMemOffsetType}

/-- What a segment's walk indexes is a version of one of its elements, of that element's key. -/
theorem segKept_reach_of_kept (hr : PhaseReady cfg stA lists) (hs : s ∈ stA.rebuildSkiplists)
    (hg : g ∈ segsOf stA lists s) (hkept : (out g.1).1.map Prod.fst = rebuiltList cfg stA.pm g.2)
    {p : PMemOffsetType × Option Nat} (hp : p ∈ segKept stA s out g) :
    ∃ e ∈ segElems s.headerRecord g, OldVersionReach stA.pm e p.1 ∧
      (stA.pm p.1).key = (stA.pm e).key := by
  rcases List.mem_append.1 hp with hp | hp
  · unfold segStart at hp
    split_ifs at hp with hH
    · obtain rfl := List.mem_singleton.1 hp
      exact ⟨g.1, by simp [segElems, hH], .refl, rfl⟩
    · exact absurd hp (List.not_mem_nil _)
  · obtain ⟨e, he, hv⟩ := mem_rebuiltList.1 (hkept ▸ List.mem_map_of_mem _ hp)
    have hre := keptVersion_reach hv
    exact ⟨e, by simp [segElems, he], hre,
      ((hr.walk s hs).versions e (hr.segsOf_body hs hg e he).1 _ hre).2.1⟩

/-- What a walked segment indexes is a version of one of its elements, of that element's key. -/
theorem PhaseA.segKept_reach (hr : PhaseReady cfg stA lists) (hinv : PhaseA cfg stA lists C pre out st)
    (hs : s ∈ stA.rebuildSkiplists) (hg : g ∈ segsOf stA lists s) (hgp : g.1 ∈ pre)
    {p : PMemOffsetType × Option Nat} (hp : p ∈ segKept stA s out g) :
    ∃ e ∈ segElems s.headerRecord g, OldVersionReach stA.pm e p.1 ∧
      (stA.pm p.1).key = (stA.pm e).key :=
  segKept_reach_of_kept hr hs hg (hinv.kept s hs g hg hgp) hp

variable {g0 : PMemOffsetType × List PMemOffsetType}

/-- **A segment not yet walked is untouched**: the `old_version` of every version of its elements
is as at the start of phase A. -/
theorem PhaseA.reach_untouched (hr : PhaseReady cfg stA lists) (hinv : PhaseA cfg stA lists C pre out st)
    (hs : s ∈ stA.rebuildSkiplists) (hg0 : g0 ∈ segsOf stA lists s) (hg0p : g0.1 ∉ pre)
    {e u : PMemOffsetType} (he : e ∈ segElems s.headerRecord g0) (hu : OldVersionReach stA.pm e u) :
    (st.pm u).oldVersion = (stA.pm u).oldVersion := by
  obtain ⟨hut, huk, -⟩ := (hr.walk s hs).versions e (hr.mem_of_segElems hs hg0 he) u hu
  refine hinv.oldVersion u fun s' hs' g hg hgp => ⟨fun h => ?_, fun h => ?_⟩
  · have hne : g0.1 ≠ g.1 := fun h' => hg0p (h' ▸ hgp)
    rcases (hr.segsOf_mem hs' hg).1 with hH | ⟨-, hH⟩
    · rw [h, hH, (hr.walk s' hs').header.1] at hut; cases hut
    · exact hr.key_ne hs hs' hg0 hg he (show g.1 ∈ segElems s'.headerRecord g by simp [segElems, hH])
        hne (huk.symm.trans (by rw [h]))
  · obtain ⟨p, hp, rfl⟩ := List.mem_map.1 h
    obtain ⟨e', he', -, hk⟩ := hinv.segKept_reach hr hs' hg hgp (List.mem_append_right _ hp)
    exact hr.key_ne hs hs' hg0 hg he he' (fun h' => hg0p (h' ▸ hgp)) (huk.symm.trans hk)

/-- What a walked segment indexes has the key of one of its elements: the hash index holds, besides
its entries at the start of phase A, only entries of keys of walked elements. -/
theorem PhaseA.fresh (hr : PhaseReady cfg stA lists) (hinv : PhaseA cfg stA lists C pre out st)
    (hs : s ∈ stA.rebuildSkiplists) (hg0 : g0 ∈ segsOf stA lists s) (hg0p : g0.1 ∉ pre)
    {e : PMemOffsetType} (he : e ∈ segElems s.headerRecord g0) (hi : s.indexWithHashtable = true) :
    ∀ x ∈ st.hashTable, x.matches (stA.pm e).key .SortedElem = false := by
  intro x hx
  obtain ⟨added, hadd, hx'⟩ := hinv.hash
  rw [hadd] at hx
  rcases List.mem_append.1 hx with hx | hx
  · exact (hr.walk s hs).hash hi e (hr.mem_of_segElems hs hg0 he) x hx
  · obtain ⟨s', hs', g, hg, hgp, p, hp, rfl⟩ := hx' x hx
    obtain ⟨e', he', -, hk⟩ := hinv.segKept_reach hr hs' hg hgp hp
    simp only [elemEntry, HashEntry.matches, Bool.and_eq_false_iff, decide_eq_false_iff_not]
    exact .inl (hk.trans_ne (hr.key_ne hs' hs hg hg0 he' he fun h => hg0p (h ▸ hgp)))

/-- A header not yet walked keeps its null `old_version`. -/
theorem PhaseA.header_oldVersion (hr : PhaseReady cfg stA lists) (hinv : PhaseA cfg stA lists C pre out st)
    (hs : s ∈ stA.rebuildSkiplists) (hH : s.headerRecord ∉ pre) :
    (st.pm s.headerRecord).oldVersion = kNullPMemOffset := by
  rw [← (hr.header s hs).2.1]
  refine hinv.oldVersion _ fun s' hs' g hg hgp => ⟨fun h => hH (h ▸ hgp), fun h => ?_⟩
  obtain ⟨p, hp, hpH⟩ := List.mem_map.1 h
  obtain ⟨e', he', hre, -⟩ := hinv.segKept_reach hr hs' hg hgp (List.mem_append_right _ hp)
  have ht := ((hr.walk s' hs').versions e' (hr.mem_of_segElems hs' hg he') _ hre).1
  rw [hpH, (hr.walk s hs).header.1] at ht
  cases ht

/-- The records on a list during phase A are versions of its elements. -/
theorem PhaseA.mem_list (hr : PhaseReady cfg stA lists) (hinv : PhaseA cfg stA lists C pre out st)
    (hs : s ∈ stA.rebuildSkiplists) {u : PMemOffsetType}
    (hu : u ∈ (segsOf stA lists s).flatMap (segPart s.headerRecord pre out)) :
    ∃ e ∈ lists s, OldVersionReach stA.pm e u := by
  obtain ⟨g, hg, hu⟩ := List.mem_flatMap.1 hu
  by_cases hgp : g.1 ∈ pre
  · simp only [segPart, hgp, if_true, List.mem_append] at hu
    rcases hu with hu | hu
    · exact ⟨u, hr.mem_of_segElems hs hg (List.mem_append_left _ hu), .refl⟩
    · obtain ⟨p, hp, rfl⟩ := List.mem_map.1 hu
      obtain ⟨e, he, hre, -⟩ := hinv.segKept_reach hr hs hg hgp (List.mem_append_right _ hp)
      exact ⟨e, hr.mem_of_segElems hs hg he, hre⟩
  · rw [segPart_of_not_mem hgp] at hu
    exact ⟨u, hr.mem_of_segElems hs hg hu, .refl⟩

/-- The keys on a list during phase A are distinct. -/
theorem PhaseA.keys_nodup (hr : PhaseReady cfg stA lists) (hinv : PhaseA cfg stA lists C pre out st)
    (hs : s ∈ stA.rebuildSkiplists) :
    (((segsOf stA lists s).flatMap (segPart s.headerRecord pre out)).map
      fun u => (stA.pm u).key).Nodup := by
  refine (hr.walk s hs).keys.sublist ?_
  rw [← hr.segsOf_elems hs, List.map_flatMap, List.map_flatMap]
  refine flatMap_sublist_flatMap fun g hg => ?_
  by_cases hgp : g.1 ∈ pre
  · simp only [segPart, segElems, hgp, if_true, List.map_append]
    refine (List.Sublist.refl _).append ?_
    rw [hinv.kept s hs g hg hgp]
    exact rebuiltList_keys fun e he v hv =>
      ((hr.walk s hs).versions e (hr.segsOf_body hs hg e he).1 _ (keptVersion_reach hv)).2.1
  · rw [segPart_of_not_mem hgp]

end Untouched

section Claim

variable {C pre : List PMemOffsetType} {out : PMemOffsetType → List (PMemOffsetType × Option Nat) × Nat}
  {st : RebuilderState}

section
variable (r : PMemOffsetType) (st : RebuilderState)
@[simp] theorem claimSegment_pm : (claimSegment r st).pm = st.pm := rfl
@[simp] theorem claimSegment_dram : (claimSegment r st).dram = st.dram := rfl
@[simp] theorem claimSegment_hashTable : (claimSegment r st).hashTable = st.hashTable := rfl
@[simp] theorem claimSegment_rebuildSkiplists :
    (claimSegment r st).rebuildSkiplists = st.rebuildSkiplists := rfl
end

/-- Claiming the segment of `r` marks it visited with the others claimed. -/
theorem PhaseA.claim_segs (hinv : PhaseA cfg stA lists C pre out st) (r : PMemOffsetType) :
    (claimSegment r st).recoverySegments = stA.recoverySegments.map fun p =>
      (p.1, if p.1 ∈ C ++ [r] then { p.2 with visited := true } else p.2) := by
  simp only [claimSegment, hinv.segs, List.map_map]
  refine List.map_congr_left fun ⟨a, seg⟩ _ => ?_
  by_cases h1 : a = r
  · subst h1; by_cases h2 : a ∈ C <;> simp [h2]
  · by_cases h2 : a ∈ C <;> simp [h1, h2]

theorem PhaseA.claim_lookup (hinv : PhaseA cfg stA lists C pre out st) (r x : PMemOffsetType) :
    (claimSegment r st).recoverySegments.lookup x = (stA.recoverySegments.lookup x).map fun seg =>
      if x ∈ C ++ [r] then { seg with visited := true } else seg := by
  rw [hinv.claim_segs]
  exact lookup_map_snd
    (fun k (v : RecoverySegment) => if k ∈ C ++ [r] then { v with visited := true } else v) x _

variable {s : Skiplist} {A B : List (PMemOffsetType × List PMemOffsetType)}
  {g : PMemOffsetType × List PMemOffsetType}

/-- The start node of a registered segment is built over its start record, with a tower of a
height in `1..kMaxHeight`, and keeps both through phase A. -/
theorem PhaseA.segNode_spec (hr : PhaseReady cfg stA lists) (hinv : PhaseA cfg stA lists C pre out st)
    {r : PMemOffsetType} (hr' : (stA.recoverySegments.lookup r).isSome) :
    ∃ seg, stA.recoverySegments.lookup r = some seg ∧ segNode stA.recoverySegments r = seg.startNode ∧
      seg.startNode < stA.dram.nodeCount ∧ (st.dram.nodes seg.startNode).record = r ∧
      1 ≤ (st.dram.nodes seg.startNode).height ∧
      (st.dram.nodes seg.startNode).height ≤ cfg.kMaxHeight := by
  obtain ⟨seg, hseg⟩ := Option.isSome_iff_exists.1 hr'
  obtain ⟨-, hlt, hrec, hh⟩ := hr.segs _ (mem_of_lookup hseg)
  exact ⟨seg, hseg, by simp [segNode, hseg], hlt, (hinv.oldNode _ hlt).1.trans hrec,
    by rw [(hinv.oldNode _ hlt).2]; exact hh⟩

/-- **A segment not yet walked is ready for its task** once claimed: the list holds the walked
segments before it as kept, its start, its body as it was, and the segments after it, the first
of them beginning at its start record; its start node stands over its start. -/
theorem PhaseA.segReady (hr : PhaseReady cfg stA lists) (hinv : PhaseA cfg stA lists C pre out st)
    (hs : s ∈ stA.rebuildSkiplists) (hsplit : segsOf stA lists s = A ++ g :: B) (hgp : g.1 ∉ pre) :
    SegReady cfg s (claimSegment g.1 st)
      (A.flatMap (segPart s.headerRecord pre out) ++ if g.1 ≠ s.headerRecord then [g.1] else [])
      g.2 (B.flatMap (segPart s.headerRecord pre out)) (segNode stA.recoverySegments g.1) := by
  have hw := hr.walk s hs
  have hg : g ∈ segsOf stA lists s := hsplit ▸ List.mem_append_right _ (List.mem_cons_self _ _)
  have htail : ∀ g' ∈ B, g' ∈ (segsOf stA lists s).tail := fun g' hg' => by
    rw [hsplit]; cases A <;> simp [hg']
  have hlist : (segsOf stA lists s).flatMap (segPart s.headerRecord pre out) =
      (A.flatMap (segPart s.headerRecord pre out) ++ if g.1 ≠ s.headerRecord then [g.1] else []) ++
        g.2 ++ B.flatMap (segPart s.headerRecord pre out) := by
    rw [hsplit, List.flatMap_append, List.flatMap_cons, segPart_of_not_mem hgp]
    simp [segElems, List.append_assoc]
  have hkey : ∀ u, (st.pm u).key = (stA.pm u).key := fun u => (DLRecord.sameCore (hinv.core u).1).key
  have hid : ∀ u, (st.pm u).id = (stA.pm u).id := fun u => (DLRecord.sameCore (hinv.core u).1).id
  have hmem : ∀ u ∈ (A.flatMap (segPart s.headerRecord pre out) ++
      if g.1 ≠ s.headerRecord then [g.1] else []) ++ g.2 ++ B.flatMap (segPart s.headerRecord pre out),
      ∃ e ∈ lists s, OldVersionReach stA.pm e u := fun u hu => hinv.mem_list hr hs (hlist ▸ hu)
  have hbody : ∀ e ∈ g.2, e ∈ segElems s.headerRecord g := fun e he => by simp [segElems, he]
  obtain ⟨seg, hseg, hsn, hlt, hrec, hh⟩ := hinv.segNode_spec hr (hr.segsOf_mem hs hg).2
  refine ⟨hlist ▸ hinv.links s hs, ⟨hw.nonnull.1, fun u hu => ?_⟩, ?_, fun u hu => ?_,
    fun e he u hu => ?_, ?_, fun e he => ?_, fun hi e he => ?_, ?_, fun e he => ?_, ?_, ?_⟩
  · obtain ⟨e, he, hre⟩ := hmem u hu
    exact hre.ne_null (hw.nonnull.2 e he)
  · exact ⟨(hinv.core _).2.trans hw.header.1, (hid _).trans hw.header.2⟩
  · obtain ⟨e, he, hre⟩ := hmem u hu
    obtain ⟨ht, -, hi⟩ := hw.versions e he u hre
    exact ⟨(hinv.core u).2.trans ht, (hid u).trans hi⟩
  · have hu' := OldVersionReach.of_congr
      (fun x hx => hinv.reach_untouched hr hs hg hgp (hbody e he) hx) hu
    obtain ⟨ht, hk, hi⟩ := hw.versions e (hr.segsOf_body hs hg e he).1 u hu'
    exact ⟨(hinv.core u).2.trans ht, (hkey u).trans (hk.trans (hkey e).symm), (hid u).trans hi⟩
  · simp only [show ∀ u, ((claimSegment g.1 st).pm u).key = (stA.pm u).key from hkey]
    rw [← hlist]
    exact hinv.keys_nodup hr hs
  · rw [show cfg.findCheckpointVersion (claimSegment g.1 st).pm e =
        cfg.findCheckpointVersion stA.pm e from findCheckpointVersion_congr_reach
        (fun u => (hinv.core u).1) fun u hu => hinv.reach_untouched hr hs hg hgp (hbody e he) hu]
    exact hw.found e (hr.segsOf_body hs hg e he).1
  · rw [show ((claimSegment g.1 st).pm e).key = (stA.pm e).key from hkey e]
    exact hinv.fresh hr hs hg hgp (hbody e he) hi
  · refine lt_of_le_of_lt ?_ hw.fuel
    rw [← hr.segsOf_elems hs]
    exact ((List.sublist_append_right _ _).trans
      (List.sublist_flatten_of_mem (List.mem_map_of_mem (segElems s.headerRecord) hg))).length_le
  · rw [hinv.claim_lookup, (hr.segsOf_body hs hg e he).2]; rfl
  · intro b hb
    cases B with
    | nil => simp at hb
    | cons g' B' =>
      obtain ⟨-, hne', hsome⟩ := hr.segsOf_tail hs (htail g' (List.mem_cons_self _ _))
      have hb' : b = g'.1 := by simpa [segPart, hne'] using hb.symm
      subst hb'
      obtain ⟨seg', hseg', -, hlt', hrec', -⟩ := hinv.segNode_spec hr hsome
      refine ⟨_, by rw [hinv.claim_lookup, hseg']; rfl, ?_, ?_⟩
      · split_ifs <;> exact lt_of_lt_of_le hlt' hinv.count
      · split_ifs <;> exact hrec'
  · refine ⟨?_, hsn ▸ lt_of_lt_of_le hlt hinv.count, hsn ▸ hh.1⟩
    rw [hsn]
    show (st.dram.nodes seg.startNode).record = _
    rw [hrec]
    by_cases hH : g.1 = s.headerRecord
    · obtain rfl : A = [] := by
        cases A with
        | nil => rfl
        | cons a A =>
          exact absurd hH (hr.segsOf_tail hs (by rw [hsplit]; simp)).2.1
      simp [hH]
    · simp [hH]

/-- **A segment not yet walked starts live**: its start node stands over its start record, which
is its own checkpoint version, and an element start has no hash entry yet. -/
theorem PhaseA.start_ready (hr : PhaseReady cfg stA lists) (hinv : PhaseA cfg stA lists C pre out st)
    (hs : s ∈ stA.rebuildSkiplists) (hg : g ∈ segsOf stA lists s) (hgp : g.1 ∉ pre) :
    (st.dram.nodes (segNode stA.recoverySegments g.1)).record = g.1 ∧
      cfg.findCheckpointVersion st.pm g.1 = .ok (some g.1) ∧
      (g.1 ≠ s.headerRecord → s.indexWithHashtable = true →
        ∀ x ∈ st.hashTable, x.matches (st.pm g.1).key .SortedElem = false) := by
  obtain ⟨seg, -, hsn, -, hrec, -⟩ := hinv.segNode_spec hr (hr.segsOf_mem hs hg).2
  have hkey : (st.pm g.1).key = (stA.pm g.1).key := (DLRecord.sameCore (hinv.core _).1).key
  refine ⟨hsn ▸ hrec, ?_, fun hH hi => hkey ▸ hinv.fresh hr hs hg hgp (by simp [segElems, hH]) hi⟩
  by_cases hH : g.1 = s.headerRecord
  · have hnull := (hr.header s hs).2.1
    rw [hH, RebuilderConfig.findCheckpointVersion, findCheckpointVersion_congr_reach
      (fun u => (hinv.core u).1) fun u hu => by
        rw [OldVersionReach.eq_of_null hnull hu, hnull]
        exact hinv.header_oldVersion hr hs (hH ▸ hgp)]
    exact (hr.header s hs).2.2
  · have he : g.1 ∈ segElems s.headerRecord g := by simp [segElems, hH]
    rw [RebuilderConfig.findCheckpointVersion, findCheckpointVersion_congr_reach
      (fun u => (hinv.core u).1) fun u hu => hinv.reach_untouched hr hs hg hgp he hu]
    exact (hr.live s hs g.1 (hr.mem_of_segElems hs hg he) (hr.segsOf_mem hs hg).2).1

/-- Claiming a segment of no rebuild skiplist changes nothing phase A is about. -/
theorem PhaseA.skip (hinv : PhaseA cfg stA lists C pre out st) {r : PMemOffsetType}
    (hnot : ∀ s ∈ stA.rebuildSkiplists, ∀ g ∈ segsOf stA lists s, g.1 ≠ r) :
    PhaseA cfg stA lists (C ++ [r]) pre out (claimSegment r st) := by
  refine { hinv with segs := hinv.claim_segs r, walked := fun s hs g hg => ?_, rest := ?_ }
  · rw [List.mem_append, List.mem_singleton, or_iff_left (hnot s hs g hg)]
    exact hinv.walked s hs g hg
  · unfold claimSegment
    conv_lhs => rw [hinv.rest]

end Claim

section Walk

variable {C pre : List PMemOffsetType} {out : PMemOffsetType → List (PMemOffsetType × Option Nat) × Nat}
  {st st' : RebuilderState} {s : Skiplist} {A B : List (PMemOffsetType × List PMemOffsetType)}
  {g g' : PMemOffsetType × List PMemOffsetType} {kn : List (PMemOffsetType × Option Nat)} {cur : Nat}

theorem mem_snoc_of_ne {a r : PMemOffsetType} (h : a ≠ r) : a ∈ pre ++ [r] ↔ a ∈ pre := by
  simp [h]

/-- A segment other than the one walked keeps its part of the list and what it kept. -/
theorem segPart_update_of_ne {h r : PMemOffsetType} {v : List (PMemOffsetType × Option Nat) × Nat}
    (hne : g'.1 ≠ r) : segPart h (pre ++ [r]) (Function.update out r v) g' = segPart h pre out g' := by
  simp [segPart, hne, Function.update_noteq hne]

theorem segKept_update_of_ne {r : PMemOffsetType} {v : List (PMemOffsetType × Option Nat) × Nat}
    (hne : g'.1 ≠ r) : segKept stA s (Function.update out r v) g' = segKept stA s out g' := by
  simp [segKept, Function.update_noteq hne]

/-- Segments other than the one walked keep what they kept, walked or not. -/
theorem walked_update_of_ne {l : List (PMemOffsetType × List PMemOffsetType)} {r : PMemOffsetType}
    {v : List (PMemOffsetType × Option Nat) × Nat} (hl : ∀ g' ∈ l, g'.1 ≠ r) :
    (l.filter fun g' => g'.1 ∈ pre ++ [r]).flatMap (segKept stA s (Function.update out r v)) =
      (l.filter fun g' => g'.1 ∈ pre).flatMap (segKept stA s out) := by
  have hf : (l.filter fun g' => g'.1 ∈ pre ++ [r]) = l.filter fun g' => g'.1 ∈ pre :=
    List.filter_congr fun g' hg' => by simp only [mem_snoc_of_ne (hl g' hg')]
  rw [hf]
  exact List.flatMap_congr fun g' hg' => segKept_update_of_ne (hl g' (List.mem_filter.1 hg').1)

/-- Walking the segment `g` adds what it kept to what the walked segments of its list kept, up to
the order of the segments. -/
theorem walked_snoc_perm {l : List (PMemOffsetType × List PMemOffsetType)}
    {v : List (PMemOffsetType × Option Nat) × Nat} (hnd : (l.map Prod.fst).Nodup)
    (hsplit : l = A ++ g :: B) (hgp : g.1 ∉ pre) :
    ((l.filter fun g' => g'.1 ∈ pre ++ [g.1]).flatMap (segKept stA s (Function.update out g.1 v))).Perm
      ((l.filter fun g' => g'.1 ∈ pre).flatMap (segKept stA s out) ++
        segKept stA s (Function.update out g.1 v) g) := by
  have hA : ∀ g' ∈ A, g'.1 ≠ g.1 := fun g' hg' => ne_of_split hnd hsplit (.inl hg')
  have hB : ∀ g' ∈ B, g'.1 ≠ g.1 := fun g' hg' => ne_of_split hnd hsplit (.inr hg')
  subst hsplit
  rw [List.filter_append, List.filter_cons_of_pos (by simp), List.flatMap_append, List.flatMap_cons,
    walked_update_of_ne hA, walked_update_of_ne hB, List.filter_append,
    List.filter_cons_of_neg (by simpa using hgp), List.flatMap_append, List.append_assoc]
  exact List.Perm.append_left _ List.perm_append_comm

/-- The segments after a segment are not the first. -/
theorem segsOf_tail_of_split (hsplit : segsOf stA lists s = A ++ g :: B) :
    ∀ g' ∈ B, g' ∈ (segsOf stA lists s).tail := fun g' hg' => by
  rw [hsplit]; cases A <;> simp [hg']

/-- Where the walk of a segment hands over: the start node of the next segment, null after the
last. -/
theorem PhaseA.nextStart (hr : PhaseReady cfg stA lists) (hinv : PhaseA cfg stA lists C pre out st)
    (hs : s ∈ stA.rebuildSkiplists) (hsplit : segsOf stA lists s = A ++ g :: B) (r : PMemOffsetType) :
    nextStartNode (claimSegment r st).recoverySegments (B.flatMap (segPart s.headerRecord pre out)) =
      B.head?.map fun g' => segNode stA.recoverySegments g'.1 := by
  cases B with
  | nil => rfl
  | cons g' B' =>
    obtain ⟨-, hne', hsome⟩ := hr.segsOf_tail hs (segsOf_tail_of_split hsplit g' (List.mem_cons_self _ _))
    obtain ⟨seg', hseg', hsn', -⟩ := hinv.segNode_spec hr hsome
    simp [nextStartNode, segPart, hne', hinv.claim_lookup, hseg', hsn']
    split_ifs <;> rfl

/-- **One segment walked**: what the walk of an unwalked segment leaves (`SegDone`, on the state
with the segment claimed) is the invariant with the segment claimed and walked, and what it kept
recorded for it. -/
theorem PhaseA.walk (hr : PhaseReady cfg stA lists) (hinv : PhaseA cfg stA lists C pre out st)
    (hs : s ∈ stA.rebuildSkiplists) (hsplit : segsOf stA lists s = A ++ g :: B) (hgp : g.1 ∉ pre)
    (hd : SegDone cfg s (claimSegment g.1 st)
      (A.flatMap (segPart s.headerRecord pre out) ++ if g.1 ≠ s.headerRecord then [g.1] else [])
      g.2 (B.flatMap (segPart s.headerRecord pre out)) (segNode stA.recoverySegments g.1) kn cur st') :
    PhaseA cfg stA lists (C ++ [g.1]) (pre ++ [g.1]) (Function.update out g.1 (kn, cur)) st' := by
  set sn := segNode stA.recoverySegments g.1 with hsn
  have hg : g ∈ segsOf stA lists s := hsplit ▸ List.mem_append_right _ (List.mem_cons_self _ _)
  have huniq : ∀ x ∈ stA.rebuildSkiplists, ∀ g' ∈ segsOf stA lists x, g'.1 = g.1 → x = s ∧ g' = g :=
    fun x hx g' hg' h => hr.seg_unique hx hs hg' hg h
  have hsnr : (st.dram.nodes sn).record = g.1 := (hinv.start_ready hr hs hg hgp).1
  have hsnlt : sn < stA.dram.nodeCount := by
    obtain ⟨seg, -, hsn, hlt, -⟩ := hinv.segNode_spec hr (hr.segsOf_mem hs hg).2
    show segNode stA.recoverySegments g.1 < _
    rw [hsn]; exact hlt
  have hcore : ∀ u, (st.pm u).core = (stA.pm u).core := fun u => (hinv.core u).1
  have hid : ∀ u, (st.pm u).id = (stA.pm u).id := fun u => (DLRecord.sameCore (hcore u)).id
  have hhash : st'.hashTable = st.hashTable ++ if s.indexWithHashtable then
      (segStart s g.1 sn ++ kn).map (elemEntry stA.pm) else [] := by
    have := hd.hash
    rwa [claimSegment_hashTable, claimSegment_dram, claimSegment_pm, hsnr, elemEntry_congr hcore] at this
  have hrest := hd.rest
  unfold RebuilderState.WalkFrame at hrest
  simp only [claimSegment_dram, hsnr] at hrest
  have hold := hd.level.old
  have hnew : ∀ n ∈ kn.filterMap Prod.snd, st.dram.nodeCount ≤ n ∧ n < st'.dram.nodeCount :=
    fun n hn => (hd.level.built n).1 hn
  have hwas : ∀ x ∈ stA.rebuildSkiplists, ∀ g' ∈ segsOf stA lists x, g'.1 ∈ pre →
      ∀ n ∈ (out g'.1).1.filterMap Prod.snd, stA.dram.nodeCount ≤ n ∧ n < st.dram.nodeCount :=
    fun x hx g' hg' hm n hn => (hinv.built n).2 ⟨x, hx, g', hg', hm, hn⟩
  -- the pointers of an earlier segment's start node and new nodes are as they were
  have hpath_on : ∀ x ∈ stA.rebuildSkiplists, ∀ g' ∈ segsOf stA lists x, g'.1 ∈ pre →
      ∀ u ∈ segNode stA.recoverySegments g'.1 :: (out g'.1).1.filterMap Prod.snd,
        st'.dram.nodes u = st.dram.nodes u := fun x hx g' hg' hm u hu => by
    rcases List.mem_cons.1 hu with rfl | hu
    · obtain ⟨seg', -, hsn', hlt', hrec', -⟩ := hinv.segNode_spec hr (hr.segsOf_mem hx hg').2
      refine hold _ (hsn' ▸ lt_of_lt_of_le hlt' hinv.count) fun e => hgp ?_
      rw [← hsnr, ← e, hsn', hrec']; exact hm
    · obtain ⟨h1, h2⟩ := hwas x hx g' hg' hm u hu
      exact hold u h2 (by omega)
  have hkeptg : (Function.update out g.1 (kn, cur) g.1).1.map Prod.fst = rebuiltList cfg stA.pm g.2 := by
    rw [Function.update_same, hd.kept]
    exact rebuiltList_congr hcore fun e he u hu =>
      hinv.reach_untouched hr hs hg hgp (by simp [segElems, he]) hu
  refine ⟨?_, fun x hx g' hg' => ?_, fun x hx => ?_, fun x hx g' hg' hm => ?_,
    fun x hx A' g' B' hsp hm => ?_, fun x hx g' hg' hm p hp n hn => ?_,
    fun u => ⟨(hd.core u).1.trans (hinv.core u).1, (hd.core u).2.trans (hinv.core u).2⟩,
    fun u hu => ?_, fun u hu => ?_, ?_, fun x hx hi => ?_,
    hinv.count.trans hd.level.count, fun m hm hne => ?_, fun m hm => ?_, fun n => ?_,
    fun x hx g' hg' hm => ?_, fun x hx g1 hg1 x' hx' g2 hg2 hm1 hm2 hne n hn hn' => ?_, ?_, ?_⟩
  · -- segs
    exact (congrArg RebuilderState.recoverySegments hrest).trans (hinv.claim_segs g.1)
  · -- walked
    simp only [List.mem_append, List.mem_singleton, hinv.walked x hx g' hg']
  · -- links: the walked skiplist as the walk left it, the others untouched
    by_cases hxs : x = s
    · subst hxs
      have hAB : ∀ g' ∈ A ++ B, segPart x.headerRecord (pre ++ [g.1]) (Function.update out g.1 (kn, cur)) g' =
          segPart x.headerRecord pre out g' := fun g' hg' =>
        segPart_update_of_ne (ne_of_split (hr.segsOf_nodup hx) hsplit (List.mem_append.1 hg'))
      rw [hsplit, List.flatMap_append, List.flatMap_cons,
        List.flatMap_congr fun g' hg' => hAB g' (List.mem_append_left _ hg'),
        List.flatMap_congr fun g' hg' => hAB g' (List.mem_append_right _ hg')]
      simpa [segPart] using hd.links
    · have hne : x.id ≠ s.id := fun h => hxs (List.inj_on_of_nodup_map hr.ids hx hs h)
      rw [List.flatMap_congr fun g' hg' => segPart_update_of_ne fun h => hxs (huniq x hx g' hg' h).1]
      refine links_of_eq_on (fun u hu => hd.frame u ?_) (hinv.links x hx)
      rw [claimSegment_pm, hid]
      rcases List.mem_cons.1 hu with rfl | hu
      · rw [(hr.walk x hx).header.2]; exact hne
      · obtain ⟨e, he, hre⟩ := hinv.mem_list hr hx hu
        rw [((hr.walk x hx).versions e he u hre).2.2]; exact hne
  · -- kept
    by_cases h : g'.1 = g.1
    · obtain ⟨rfl, rfl⟩ := huniq x hx g' hg' h
      exact hkeptg
    · rw [Function.update_noteq h]
      exact hinv.kept x hx g' hg' ((mem_snoc_of_ne h).1 hm)
  · -- path
    have hg' : g' ∈ segsOf stA lists x := hsp ▸ List.mem_append_right _ (List.mem_cons_self _ _)
    by_cases h : g'.1 = g.1
    · obtain ⟨rfl, rfl⟩ := huniq x hx g' hg' h
      obtain ⟨rfl, rfl⟩ := split_unique (hsp ▸ (hr.segsOf_nodup hx).of_map _) (hsp.symm.trans hsplit)
      rw [Function.update_same]
      exact ⟨hd.level.path, hd.next.trans (hinv.nextStart hr hx hsp g'.1)⟩
    · rw [Function.update_noteq h]
      have hm' := (mem_snoc_of_ne h).1 hm
      obtain ⟨hp, hn⟩ := hinv.path x hx A' g' B' hsp hm'
      have hon := hpath_on x hx g' hg' hm'
      refine ⟨nodePath_of_eq_on (fun u hu => by rw [hon u hu]) hp, ?_⟩
      rw [hon _ ((nodePath_end hp).elim (fun e => e ▸ List.mem_cons_self _ _) (List.mem_cons_of_mem _)), hn]
  · -- nodes
    by_cases h : g'.1 = g.1
    · obtain ⟨rfl, rfl⟩ := huniq x hx g' hg' h
      rw [Function.update_same] at hp
      exact ⟨hd.nodes p hp n hn, hd.level.height n (List.mem_filterMap.2 ⟨p, hp, hn⟩)⟩
    · rw [Function.update_noteq h] at hp
      have hm' := (mem_snoc_of_ne h).1 hm
      rw [hpath_on x hx g' hg' hm' n (List.mem_cons_of_mem _ (List.mem_filterMap.2 ⟨p, hp, hn⟩))]
      exact hinv.nodes x hx g' hg' hm' p hp n hn
  · -- oldVersion
    obtain ⟨h1, h2⟩ := hu s hs g hg (by simp)
    rw [Function.update_same] at h2
    rw [hd.oldVersion u h2 (by rw [claimSegment_dram, hsnr]; exact h1)]
    refine hinv.oldVersion u fun x hx g' hg' hm => ?_
    have hne : g'.1 ≠ g.1 := fun e => hgp (e ▸ hm)
    simpa only [Function.update_noteq hne] using hu x hx g' hg' ((mem_snoc_of_ne hne).2 hm)
  · -- frame
    rw [hd.frame u (by rw [claimSegment_pm, hid]; exact hu s hs)]
    exact hinv.frame u hu
  · -- hash
    obtain ⟨added, hadd, hmem⟩ := hinv.hash
    refine ⟨added ++ if s.indexWithHashtable then (segStart s g.1 sn ++ kn).map (elemEntry stA.pm)
      else [], by rw [hhash, hadd, List.append_assoc], fun x hx => ?_⟩
    rcases List.mem_append.1 hx with hx | hx
    · obtain ⟨x', hx', g', hg', hm, p, hp, rfl⟩ := hmem x hx
      have hne : g'.1 ≠ g.1 := fun e => hgp (e ▸ hm)
      exact ⟨x', hx', g', hg', (mem_snoc_of_ne hne).2 hm, p, by rwa [segKept_update_of_ne hne], rfl⟩
    · split_ifs at hx
      · obtain ⟨p, hp, rfl⟩ := List.mem_map.1 hx
        exact ⟨s, hs, g, hg, by simp, p, by simpa [segKept] using hp, rfl⟩
      · cases hx
  · -- entries: the walked skiplist's slots gain the segment's entries, the others' nothing
    have hK : segKept stA s (Function.update out g.1 (kn, cur)) g = segStart s g.1 sn ++ kn := by
      simp [segKept]
    have hkey : ∀ p ∈ segStart s g.1 sn ++ kn, ∃ e ∈ segElems s.headerRecord g,
        (stA.pm p.1).key = (stA.pm e).key := fun p hp => by
      obtain ⟨e, he, -, hk⟩ := segKept_reach_of_kept hr hs hg hkeptg (by rw [hK]; exact hp)
      exact ⟨e, he, hk⟩
    rw [hhash, HashTable.slotsOf_append]
    by_cases hxs : x = s
    · subst hxs
      rw [if_pos hi, HashTable.slotsOf_elemEntry fun p hp => ?_, ← hK]
      · refine ((hinv.entries x hx hi).append_right _).trans ?_
        rw [← List.map_append]
        exact ((walked_snoc_perm (hr.segsOf_nodup hx) hsplit hgp).map _).symm
      · obtain ⟨e, he, hk⟩ := hkey p hp
        exact List.mem_map.2 ⟨e, hr.mem_of_segElems hx hg he, hk.symm⟩
    · rw [walked_update_of_ne fun g' hg' h => hxs (huniq x hx g' hg' h).1]
      refine (List.Perm.append_right _ (hinv.entries x hx hi)).trans ?_
      rw [HashTable.slotsOf_eq_nil fun e he y hy => ?_, List.append_nil]
      split_ifs at hy
      · obtain ⟨p, hp, rfl⟩ := List.mem_map.1 hy
        obtain ⟨e', he', hk⟩ := hkey p hp
        rw [← hr.segsOf_elems hx] at he
        obtain ⟨g', hg', he⟩ := List.mem_flatMap.1 he
        simp only [elemEntry, HashEntry.matches, Bool.and_eq_false_iff, decide_eq_false_iff_not]
        exact .inl (hk.trans_ne (hr.key_ne hs hx hg hg' he' he fun h => hxs (huniq x hx g' hg' h.symm).1))
      · cases hy
  · -- old
    rw [hold m (lt_of_lt_of_le hm hinv.count) (hne s hs g hg (by simp))]
    exact hinv.old m hm fun x hx g' hg' hm' => hne x hx g' hg' (by simp [hm'])
  · -- oldNode
    by_cases h : m = sn
    · rw [h, hd.level.start.1, hd.level.start.2, ← h]
      exact hinv.oldNode m hm
    · rw [hold m (lt_of_lt_of_le hm hinv.count) h]
      exact hinv.oldNode m hm
  · -- built: the new nodes are those of the walked segments
    constructor
    · rintro ⟨h1, h2⟩
      by_cases hn : n < st.dram.nodeCount
      · obtain ⟨x, hx, g', hg', hm, hn'⟩ := (hinv.built n).1 ⟨h1, hn⟩
        have hne : g'.1 ≠ g.1 := fun e => hgp (e ▸ hm)
        exact ⟨x, hx, g', hg', (mem_snoc_of_ne hne).2 hm, by rwa [Function.update_noteq hne]⟩
      · exact ⟨s, hs, g, hg, by simp, by
          rw [Function.update_same]; exact (hd.level.built n).2 ⟨not_lt.1 hn, h2⟩⟩
    · rintro ⟨x, hx, g', hg', hm, hn⟩
      by_cases h : g'.1 = g.1
      · obtain ⟨rfl, rfl⟩ := huniq x hx g' hg' h
        rw [Function.update_same] at hn
        exact ⟨hinv.count.trans (hnew n hn).1, (hnew n hn).2⟩
      · rw [Function.update_noteq h] at hn
        obtain ⟨h1, h2⟩ := hwas x hx g' hg' ((mem_snoc_of_ne h).1 hm) n hn
        exact ⟨h1, lt_of_lt_of_le h2 hd.level.count⟩
  · -- nodup
    by_cases h : g'.1 = g.1
    · obtain ⟨rfl, rfl⟩ := huniq x hx g' hg' h
      rw [Function.update_same]; exact hd.level.nodup
    · rw [Function.update_noteq h]; exact hinv.nodup x hx g' hg' ((mem_snoc_of_ne h).1 hm)
  · -- disjoint: the new nodes come after all the others
    by_cases h1 : g1.1 = g.1
    · have h2 : g2.1 ≠ g.1 := fun e => hne (h1.trans e.symm)
      rw [h1, Function.update_same] at hn
      rw [Function.update_noteq h2] at hn'
      exact absurd (hwas x' hx' g2 hg2 ((mem_snoc_of_ne h2).1 hm2) n hn').2 (not_lt.2 (hnew n hn).1)
    · rw [Function.update_noteq h1] at hn
      by_cases h2 : g2.1 = g.1
      · rw [h2, Function.update_same] at hn'
        exact absurd (hwas x hx g1 hg1 ((mem_snoc_of_ne h1).1 hm1) n hn).2 (not_lt.2 (hnew n hn').1)
      · rw [Function.update_noteq h2] at hn'
        exact hinv.disjoint x hx g1 hg1 x' hx' g2 hg2 ((mem_snoc_of_ne h1).1 hm1)
          ((mem_snoc_of_ne h2).1 hm2) hne n hn hn'
  · -- sizes: the walked skiplist grows by what the segment kept
    have hterm : ∀ x g', g'.1 ≠ g.1 →
        (if g'.1 ∈ pre ++ [g.1] then segKept stA x (Function.update out g.1 (kn, cur)) g' else []) =
          if g'.1 ∈ pre then segKept stA x out g' else [] := fun x g' h => by
      simp only [mem_snoc_of_ne h, segKept_update_of_ne h]
    rw [congrArg RebuilderState.rebuildSkiplists hrest]
    simp only [updateSize, claimSegment_rebuildSkiplists, hinv.sizes, List.map_map]
    refine List.map_congr_left fun x hx => ?_
    by_cases hxs : x = s
    · subst hxs
      have hAB : ∀ l : List (PMemOffsetType × List PMemOffsetType), (∀ g' ∈ l, g'.1 ≠ g.1) →
          (l.flatMap fun g' => if g'.1 ∈ pre ++ [g.1] then
            segKept stA x (Function.update out g.1 (kn, cur)) g' else []) =
          l.flatMap fun g' => if g'.1 ∈ pre then segKept stA x out g' else [] :=
        fun l hl => List.flatMap_congr fun g' hg' => hterm x g' (hl g' hg')
      simp only [Function.comp, if_pos rfl, hsplit, List.flatMap_append, List.flatMap_cons,
        hAB A fun g' hg' => ne_of_split (hr.segsOf_nodup hx) hsplit (.inl hg'),
        hAB B fun g' hg' => ne_of_split (hr.segsOf_nodup hx) hsplit (.inr hg')]
      simp only [List.length_append, if_neg hgp, List.mem_append, List.mem_singleton, or_true,
        if_true, segKept, Function.update_same, ← hsn, List.length_nil]
      congr 1; omega
    · have hne : x.id ≠ s.id := fun h => hxs (List.inj_on_of_nodup_map hr.ids hx hs h)
      simp only [Function.comp, hne, if_false]
      rw [List.flatMap_congr fun g' hg' => hterm x g' fun h => hxs (huniq x hx g' hg' h).1]
  · -- rest
    rw [hrest]
    conv_lhs => rw [hinv.rest]
    rfl

end Walk

section Owner

/-- The walk of a segment reads of its owner only the header, the ID and the flag, not the
size. -/
theorem rebuildSegmentIndexLoop_size (tid : Nat) (o : Skiplist) (n : Nat) :
    ∀ fuel cur c k st, rebuildSegmentIndexLoop cfg tid { o with size := n } fuel cur c k st =
      rebuildSegmentIndexLoop cfg tid o fuel cur c k st
  | 0, _, _, _, _ => rfl
  | fuel + 1, cur, c, k, st => by
    simp only [rebuildSegmentIndexLoop, endSegment, rebuildSegmentIndexLoop_size tid o n fuel]

theorem rebuildSegmentIndex_size (tid sn : Nat) (o : Skiplist) (n : Nat) (st : RebuilderState) :
    rebuildSegmentIndex cfg tid sn { o with size := n } st = rebuildSegmentIndex cfg tid sn o st := by
  simp only [rebuildSegmentIndex, indexSegmentStart, rebuildSegmentIndexLoop_size]

end Owner

section Loop

/-- **The first phase-A worker's loop** over registered start records `rs`, none claimed yet,
returns `Ok`: it skips the segments of no rebuild skiplist and walks the others, and keeps the
invariant, with every record of `rs` claimed. -/
theorem PhaseA.loop (hr : PhaseReady cfg stA lists) (tid : Nat) :
    ∀ (rs C pre : List PMemOffsetType) (out : PMemOffsetType → List (PMemOffsetType × Option Nat) × Nat)
      (st : RebuilderState), PhaseA cfg stA lists C pre out st → (C ++ rs).Nodup →
      (∀ r ∈ rs, (stA.recoverySegments.lookup r).isSome) →
      ∃ pre' out' st', rebuildSegmentsIndexLoop cfg tid rs st = .ok (.Ok, st') ∧
        PhaseA cfg stA lists (C ++ rs) pre' out' st'
  | [], C, pre, out, st, hinv, _, _ => ⟨pre, out, st, rfl, by simpa using hinv⟩
  | r :: rs, C, pre, out, st, hinv, hnd, hreg => by
    have hrC : r ∉ C := fun h => (List.nodup_middle.1 hnd |> List.nodup_cons.1).1
      (List.mem_append_left _ h)
    have hnd' : (C ++ [r] ++ rs).Nodup := by simpa using hnd
    have hreg' : ∀ r' ∈ rs, (stA.recoverySegments.lookup r').isSome :=
      fun r' h => hreg r' (List.mem_cons_of_mem _ h)
    obtain ⟨seg, hseg⟩ := Option.isSome_iff_exists.1 (hreg r (List.mem_cons_self _ _))
    obtain ⟨hvis, hlt, hrec, -⟩ := hr.segs _ (mem_of_lookup hseg)
    dsimp only at hvis hlt hrec
    have hlook : st.recoverySegments.lookup r = some seg := by
      rw [hinv.segs, lookup_map_snd
        (fun k (v : RecoverySegment) => if k ∈ C then { v with visited := true } else v), hseg]
      simp [hrC]
    have hid : (st.pm (st.dram.nodes seg.startNode).record).id = (stA.pm r).id := by
      rw [(hinv.oldNode _ hlt).1, hrec]; exact (DLRecord.sameCore (hinv.core r).1).id
    have hfind' : ∀ i, findSkiplist st.rebuildSkiplists i =
        (findSkiplist stA.rebuildSkiplists i).map fun x => { x with size := x.size +
          ((segsOf stA lists x).flatMap fun g => if g.1 ∈ pre then segKept stA x out g else []).length } :=
      fun i => by rw [hinv.sizes, findSkiplist_map_size]
    rcases hfind : findSkiplist stA.rebuildSkiplists (stA.pm r).id with _ | s
    · -- a segment of no rebuild skiplist: its owner is invalid
      have hnot : ∀ s ∈ stA.rebuildSkiplists, ∀ g ∈ segsOf stA lists s, g.1 ≠ r := fun s hs g hg e => by
        have hgid : (stA.pm g.1).id = s.id := by
          rcases (hr.segsOf_mem hs hg).1 with hH | ⟨hm, -⟩
          · rw [hH]; exact (hr.walk s hs).header.2
          · exact ((hr.walk s hs).versions _ hm _ .refl).2.2
        rw [← e, hgid, findSkiplist_of_mem hr.ids hs] at hfind
        cases hfind
      have hinval : (findSkiplist (claimSegment r st).invalidSkiplists (stA.pm r).id).isSome := by
        show (findSkiplist st.invalidSkiplists _).isSome
        rw [hinv.rest]; exact hr.invalid _ (mem_of_lookup hseg) hfind
      obtain ⟨pre', out', st', hrun, hinv'⟩ :=
        PhaseA.loop hr tid rs (C ++ [r]) pre out _ (hinv.skip hnot) hnd' hreg'
      refine ⟨pre', out', st', ?_, by simpa using hinv'⟩
      simp only [rebuildSegmentsIndexLoop, hlook, hvis, Bool.false_eq_true, if_false,
        claimSegment_rebuildSkiplists, claimSegment_dram, claimSegment_pm, hid, hfind', hfind,
        Option.map_none']
      simp only [bind, Except.bind, kvdkAssert_of_true hinval]
      exact hrun
    · -- a segment of a rebuild skiplist: walk it
      have hs : s ∈ stA.rebuildSkiplists := List.mem_of_find?_eq_some hfind
      obtain ⟨g, hg, rfl⟩ := segsOf_start_of_owner (hreg r (List.mem_cons_self _ _))
        (hr.owner _ (mem_of_lookup hseg) s hfind)
      obtain ⟨A, B, hsplit⟩ := List.append_of_mem hg
      have hgp : g.1 ∉ pre := fun h => hrC ((hinv.walked s hs g hg).2 h)
      have hsn : segNode stA.recoverySegments g.1 = seg.startNode := by simp [segNode, hseg]
      obtain ⟨hrec', hcp, hfresh⟩ := hinv.start_ready hr hs hg hgp
      obtain ⟨kn, cur, st1, hidx, hdone⟩ := rebuildSegmentIndex_spec (hinv.segReady hr hs hsplit hgp)
        (by rw [claimSegment_dram, claimSegment_pm, hrec']; exact hcp)
        (by rw [claimSegment_dram, claimSegment_pm, claimSegment_hashTable, hrec']; exact hfresh) tid
      obtain ⟨pre', out', st', hrun, hinv'⟩ := PhaseA.loop hr tid rs (C ++ [g.1]) (pre ++ [g.1])
        _ st1 (hinv.walk hr hs hsplit hgp hdone) hnd' hreg'
      refine ⟨pre', out', st', ?_, by simpa using hinv'⟩
      simp only [rebuildSegmentsIndexLoop, hlook, hvis, Bool.false_eq_true, if_false,
        claimSegment_rebuildSkiplists, claimSegment_dram, claimSegment_pm, hid, hfind', hfind,
        Option.map_some', rebuildSegmentIndex_size]
      simp only [← hsn, hidx, bind, Except.bind, ne_eq, not_true_eq_false, if_false]
      exact hrun

end Loop

/-- What phase A needs does not read the thread IDs. -/
theorem PhaseReady.nextTid (hr : PhaseReady cfg stA lists) (tid : Nat) :
    PhaseReady cfg { stA with nextTid := tid } lists :=
  ⟨fun s hs => (hr.walk s hs).nextTid tid, hr.2, hr.3, hr.4, hr.5, hr.6, hr.7, hr.8, hr.9⟩

variable (cfg) in
/-- A worker that finds every segment claimed returns `Ok` and changes nothing. -/
theorem rebuildSegmentsIndexLoop_visited (tid : Nat) : ∀ (rs : List PMemOffsetType) (st : RebuilderState),
    (∀ r ∈ rs, ∀ seg, st.recoverySegments.lookup r = some seg → seg.visited = true) →
    rebuildSegmentsIndexLoop cfg tid rs st = .ok (.Ok, st)
  | [], _, _ => rfl
  | r :: rs, st, h => by
    have ih := rebuildSegmentsIndexLoop_visited tid rs st fun r' hr' => h r' (List.mem_cons_of_mem _ hr')
    rcases hl : st.recoverySegments.lookup r with _ | seg
    · simp only [rebuildSegmentsIndexLoop, hl, ih]
    · simp only [rebuildSegmentsIndexLoop, hl, h r (List.mem_cons_self _ _) seg hl, if_true, ih]

variable (cfg) in
/-- The workers after the first find every segment claimed: each returns `Ok` and takes its
thread ID. -/
theorem runTasks_visited : ∀ (xs : List Nat) (st : RebuilderState),
    (∀ r, ∀ seg, st.recoverySegments.lookup r = some seg → seg.visited = true) →
    runTasks (fun _ => rebuildSegmentsIndex cfg) xs st =
      .ok (xs.map (·, .Ok), { st with nextTid := st.nextTid + xs.length })
  | [], st, _ => by simp [runTasks]
  | x :: xs, st, h => by
    have ih := runTasks_visited xs { st with nextTid := st.nextTid + 1 } h
    simp only [runTasks, rebuildSegmentsIndex, rebuildSegmentsIndexLoop_visited cfg st.nextTid
      (st.recoverySegments.map Prod.fst) { st with nextTid := st.nextTid + 1 } fun r _ => h r, ih,
      bind, Except.bind, pure, Except.pure, List.map_cons, List.length_cons]
    congr 3; omega

/-- **Phase A**: the `num_rebuild_threads_` workers, run one after the other from `stA`, all
return `Ok`.  The first claims every segment and walks those of the rebuild skiplists, leaving
what `PhaseA` says over all of them, read against `stA` with its thread ID taken; the others only
take theirs. -/
theorem phaseA_run (hr : PhaseReady cfg stA lists) :
    ∃ pre out st, runTasks (fun _ => rebuildSegmentsIndex cfg) (List.range cfg.numRebuildThreads) stA =
        .ok ((List.range cfg.numRebuildThreads).map (·, .Ok),
          { st with nextTid := stA.nextTid + cfg.numRebuildThreads }) ∧
      PhaseA cfg { stA with nextTid := stA.nextTid + 1 } lists (stA.recoverySegments.map Prod.fst)
        pre out st := by
  have hr' := hr.nextTid (stA.nextTid + 1)
  obtain ⟨pre, out, st, hloop, hinv⟩ := PhaseA.loop hr' stA.nextTid (stA.recoverySegments.map Prod.fst)
    [] [] _ _ (PhaseA.init hr') hr.starts fun r hr => lookup_isSome_of_mem hr
  rw [List.nil_append] at hinv
  have hvis : ∀ r seg, st.recoverySegments.lookup r = some seg → seg.visited = true := fun r seg h => by
    rw [hinv.segs, lookup_map_snd (fun k (v : RecoverySegment) =>
      if k ∈ stA.recoverySegments.map Prod.fst then { v with visited := true } else v)] at h
    obtain ⟨v, hv, rfl⟩ := Option.map_eq_some'.1 h
    simp [List.mem_map_of_mem Prod.fst (mem_of_lookup hv)]
  have hnt : st.nextTid = stA.nextTid + 1 := by rw [hinv.rest]
  obtain ⟨n, hn⟩ : ∃ n, cfg.numRebuildThreads = n + 1 :=
    ⟨_, (Nat.succ_pred_eq_of_pos cfg.numRebuildThreads_pos).symm⟩
  refine ⟨pre, out, st, ?_, hinv⟩
  rw [hn, List.range_succ_eq_map]
  simp only [runTasks, rebuildSegmentsIndex, hloop, runTasks_visited cfg _ st hvis, bind, Except.bind,
    pure, Except.pure, List.map_cons, List.length_map, List.length_range, hnt]
  congr 3; omega

end Kvdk
