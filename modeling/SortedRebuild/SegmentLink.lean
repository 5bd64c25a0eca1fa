import SortedRebuild.State

/-
  `SortedCollectionRebuilder::linkSegmentDramNodes` (rebuilder.cpp, lines 420-460): the pointers
  of one level `height` of the towers over one recovery segment, built from the pointers of level
  `height - 1`.  The source defines it and never calls it; it is the per-segment counterpart of
  `linkHighDramNodes`.

  From the segment's start node the first loop (`segmentFirstTall`) walks level `height - 1` to
  the first node whose tower reaches `height`, giving up at null or at the start of another
  segment.  The main loop (`segmentLinkLoop`) walks on along level `height - 1` and links at
  level `height` each node tall enough after the last one linked, up to null or the start of the
  next segment; there it walks into the next segment to its first tall node (`segmentEndPoint`),
  or null, and links the segment's last node to it.

  Every walk reads the level-`height - 1` pointer of the node it stands on, whether or not that
  node's tower reaches the level; `Dram.relaxedNext`, like `Dram.setNext`, fails with
  `Fault.badLevel` outside a tower.  A segment start whose tower is lower than `height - 1` is
  read past its tower at the first step (`linkSegmentDramNodes_short_start`): on a skiplist whose
  levels 1 and 2 are the chains of the nodes that reach them, a start of height 1 makes the calls
  at height 3 fail in either order (`linkSegmentDramNodes_shortStart`).

  That is the only way the calls go wrong.  When every segment start is a node of the
  level-`height - 1` chain, the first loop finds the first node of the segment tall enough for
  `height` (`segmentFirstTall_spec`), the main loop links each tall node of the segment to the
  first tall node after it on the chain, across the segments after for the last one
  (`segmentLinkLoop_spec`), and a call writes no node outside its segment
  (`linkSegmentDramNodes_spec`).  So the calls at the starts, in any order and each at least
  once, return and leave level `height` the chain of the tall nodes (`linkSegmentsAt_links_level`).
  The pointer a tall node gets is `tallAfter`, the first tall node after it on the chain, and
  `Dram.SameBut` says that the calls write no other level.
-/

namespace Kvdk

/-- `SkiplistNode::RelaxedNext(l)`: the level-`l` pointer, defined only for a level of the node's
tower. -/
def Dram.relaxedNext (d : Dram) (n l : Nat) : Except Fault (Option Nat) :=
  if 1 ≤ l ∧ l ≤ (d.nodes n).height then .ok ((d.nodes n).next l) else .error .badLevel

/-- `recovery_segments_.find(node->record) != recovery_segments_.end()`: a recovery segment
starts at the node's record. -/
def startsSegment (segs : List (PMemOffsetType × RecoverySegment)) (d : Dram) (n : Nat) : Bool :=
  (segs.lookup (d.nodes n).record).isSome

variable (segs : List (PMemOffsetType × RecoverySegment)) (height : Nat)

/-- The first loop of `linkSegmentDramNodes` (lines 423-429): from `startNode` along level
`height - 1` to the first node whose tower reaches `height`; none when the walk meets null or
the start of another segment first. -/
def segmentFirstTall (d : Dram) : Nat → Nat → Except Fault (Option Nat)
  | 0, _ => .error .outOfFuel
  | fuel + 1, startNode =>
    if (d.nodes startNode).height < height then do
      match ← d.relaxedNext startNode (height - 1) with
      | none => pure none
      | some n => if startsSegment segs d n then pure none else segmentFirstTall d fuel n
    else pure (some startNode)

/-- The inner loop of lines 441-449: from the start of the next segment along level
`height - 1` to the first node whose tower reaches `height`, or null. -/
def segmentEndPoint (d : Dram) : Nat → Option Nat → Except Fault (Option Nat)
  | _, none => pure none
  | 0, some _ => .error .outOfFuel
  | fuel + 1, some n =>
    if height ≤ (d.nodes n).height then pure (some n)
    else do segmentEndPoint d fuel (← d.relaxedNext n (height - 1))

/-- The main loop of `linkSegmentDramNodes` (lines 432-458): `curNode` is the last node linked
at level `height`, `nextNode` the node read after it at level `height - 1`.  At null the last
node is ended; at the start of the next segment it is linked to that segment's first tall node;
a tall node is linked after it, nulled, and becomes the last node. -/
def segmentLinkLoop : Nat → Dram → Nat → Option Nat → Except Fault Dram
  | 0, _, _, _ => .error .outOfFuel
  | _ + 1, d, curNode, none => d.setNext curNode height none
  | fuel + 1, d, curNode, some n =>
    if startsSegment segs d n then do
      d.setNext curNode height (← segmentEndPoint height d fuel (some n))
    else if height ≤ (d.nodes n).height then do
      let d ← d.setNext curNode height (some n)
      let d ← d.setNext n height none
      segmentLinkLoop fuel d n (← d.relaxedNext n (height - 1))
    else do
      segmentLinkLoop fuel d curNode (← d.relaxedNext n (height - 1))

/-- `SortedCollectionRebuilder::linkSegmentDramNodes(start_node, height)` over the recovery
segments `segs`, with the debug `assert(height > 1)`; `fuel` bounds each loop. -/
def linkSegmentDramNodes (fuel : Nat) (d : Dram) (startNode : Nat) : Except Fault Dram := do
  kvdkAssert (1 < height) ""
  match ← segmentFirstTall segs height d fuel startNode with
  | none => pure d
  | some startNode =>
    segmentLinkLoop segs height fuel d startNode (← d.relaxedNext startNode (height - 1))

/-- Modelled from the spec: phase B as a sequence of `linkSegmentDramNodes` calls at one
`height`, one for each segment start node of `starts`, in that order. -/
def linkSegmentsAt (fuel : Nat) : List Nat → Dram → Except Fault Dram
  | [], d => pure d
  | s :: ss, d => do linkSegmentsAt fuel ss (← linkSegmentDramNodes segs height fuel d s)

/-! ## A start below level `height - 1` -/

/-- **A segment start lower than `height - 1` is read past its tower**: the first loop reads its
level-`height - 1` pointer at once. -/
theorem linkSegmentDramNodes_short_start {d : Dram} {startNode fuel : Nat} (hh : 1 < height)
    (hs : (d.nodes startNode).height < height - 1) (hfuel : 0 < fuel) :
    linkSegmentDramNodes segs height fuel d startNode = .error .badLevel := by
  obtain ⟨fuel, rfl⟩ : ∃ f, fuel = f + 1 := ⟨fuel - 1, by omega⟩
  have hlt : (d.nodes startNode).height < height := by omega
  have hread : d.relaxedNext startNode (height - 1) = .error .badLevel := by
    simp only [Dram.relaxedNext]
    rw [if_neg (by omega)]
  simp [linkSegmentDramNodes, segmentFirstTall, hh, hlt, hread, bind, Except.bind, pure, Except.pure]

/-- A skiplist over records 0 (the header node, height 3), 1 (height 1) and 2 (height 3): level 1
runs 0, 1, 2 and level 2 runs 0, 2; level 3 is not linked yet. -/
def shortStart : Dram where
  nodes n :=
    { record := n, height := if n = 1 then 1 else 3,
      next := fun l => if n = 0 ∧ l = 1 then some 1 else if n < 2 ∧ l ≤ 2 then some 2 else none }
  nodeCount := 3

/-- The recovery segments of `shortStart`: one at the header record and one at record 1. -/
def shortStartSegments : List (PMemOffsetType × RecoverySegment) :=
  [(0, ⟨false, 0⟩), (1, ⟨false, 1⟩)]

theorem linkSegmentDramNodes_shortStart :
    NodeChain shortStart 1 0 [1, 2] ∧ NodeChain shortStart 2 0 [2] ∧
      (shortStart.nodes 1).height = 1 ∧
      linkSegmentsAt shortStartSegments 3 4 [0, 1] shortStart = .error .badLevel ∧
      linkSegmentsAt shortStartSegments 3 4 [1, 0] shortStart = .error .badLevel := by
  have hshort : ∀ d : Dram, (d.nodes 1).height = 1 →
      linkSegmentDramNodes shortStartSegments 3 4 d 1 = .error .badLevel := fun d h =>
    linkSegmentDramNodes_short_start _ _ (by decide) (by omega) (by decide)
  -- the call at the header start links level 3 and leaves the towers as they were
  obtain ⟨d1, h1, hh1⟩ : ∃ d1, linkSegmentDramNodes shortStartSegments 3 4 shortStart 0 = .ok d1 ∧
      (d1.nodes 1).height = 1 := ⟨_, rfl, rfl⟩
  refine ⟨⟨rfl, rfl, rfl⟩, ⟨rfl, rfl⟩, rfl, ?_, ?_⟩
  · simp only [linkSegmentsAt, h1, hshort d1 hh1, bind, Except.bind]
  · simp only [linkSegmentsAt, hshort shortStart rfl, bind, Except.bind]

/-! ## Starts on the level below -/

/-- The nodes of `c` after the first occurrence of `m`. -/
def nodesAfter (c : List Nat) (m : Nat) : List Nat := (c.dropWhile (· ≠ m)).tail

theorem nodesAfter_cons_self (m : Nat) (xs : List Nat) : nodesAfter (m :: xs) m = xs := by
  simp [nodesAfter, List.dropWhile_cons]

theorem nodesAfter_cons_of_ne {a m : Nat} (h : a ≠ m) (xs : List Nat) :
    nodesAfter (a :: xs) m = nodesAfter xs m := by
  simp [nodesAfter, List.dropWhile_cons, h]

theorem nodesAfter_append {m : Nat} :
    ∀ {P : List Nat}, m ∉ P → ∀ xs, nodesAfter (P ++ xs) m = nodesAfter xs m
  | [], _, _ => rfl
  | a :: P, h, xs => by
    rw [List.cons_append, nodesAfter_cons_of_ne (fun e => h (List.mem_cons.2 (.inl e.symm))),
      nodesAfter_append (fun hm => h (List.mem_cons_of_mem _ hm))]

/-- The first node of `xs` whose tower reaches `height`. -/
def tallHead (d : Dram) (xs : List Nat) : Option Nat :=
  xs.find? fun n => height ≤ (d.nodes n).height

theorem tallHead_cons (d : Dram) (n : Nat) (xs : List Nat) :
    tallHead height d (n :: xs) =
      if height ≤ (d.nodes n).height then some n else tallHead height d xs := by
  by_cases h : height ≤ (d.nodes n).height <;> simp [tallHead, List.find?_cons, h]

/-- The first node after `m` on `c` whose tower reaches `height`: where `m`'s level-`height`
pointer goes once the level is linked. -/
def tallAfter (d : Dram) (c : List Nat) (m : Nat) : Option Nat :=
  tallHead height d (nodesAfter c m)

theorem tallAfter_cons_self (d : Dram) (m : Nat) (xs : List Nat) :
    tallAfter height d (m :: xs) m = tallHead height d xs := by
  rw [tallAfter, nodesAfter_cons_self]

theorem tallAfter_cons_of_ne (d : Dram) {a m : Nat} (h : a ≠ m) (xs : List Nat) :
    tallAfter height d (a :: xs) m = tallAfter height d xs m := by
  rw [tallAfter, tallAfter, nodesAfter_cons_of_ne h]

theorem tallAfter_append (d : Dram) {m : Nat} {P : List Nat} (h : m ∉ P) (xs : List Nat) :
    tallAfter height d (P ++ xs) m = tallAfter height d xs m := by
  rw [tallAfter, tallAfter, nodesAfter_append h]

/-- A node of a `takeWhile` prefix splits the list at the same place. -/
theorem takeWhile_split {p : Nat → Bool} {l A B : List Nat} {t : Nat}
    (h : l.takeWhile p = A ++ t :: B) :
    ∃ ys, l = A ++ t :: ys ∧ l.takeWhile p = A ++ t :: ys.takeWhile p := by
  have hp : ∀ a ∈ A ++ [t], p a = true := fun a ha => List.mem_takeWhile_imp
    (h ▸ ((List.singleton_sublist.2 (List.mem_cons_self t B)).append_left A).subset ha)
  have hl : l = (A ++ [t]) ++ (B ++ l.dropWhile p) := by
    conv_lhs => rw [← List.takeWhile_append_dropWhile p l, h]
    simp
  refine ⟨B ++ l.dropWhile p, by simpa using hl, ?_⟩
  conv_lhs => rw [hl]
  rw [List.takeWhile_append_of_pos hp]
  simp

/-- A list holding an element that fails `p` splits at the last such element. -/
theorem exists_last_split {p : Nat → Bool} : ∀ {A : List Nat}, (∃ a ∈ A, p a = false) →
    ∃ A1 s A2, A = A1 ++ s :: A2 ∧ p s = false ∧ ∀ x ∈ A2, p x = true
  | [], ⟨_, ha, _⟩ => absurd ha (List.not_mem_nil _)
  | a :: A, ⟨b, hb, hpb⟩ => by
    by_cases h : ∃ a' ∈ A, p a' = false
    · obtain ⟨A1, s, A2, rfl, hs, h2⟩ := exists_last_split h
      exact ⟨a :: A1, s, A2, rfl, hs, h2⟩
    · push_neg at h
      refine ⟨[], a, A, rfl, ?_, fun x hx => by simpa using h x hx⟩
      rcases List.mem_cons.1 hb with rfl | hb
      · exact hpb
      · exact absurd hpb (by simpa using h b hb)

/-- `d` is `d0` but for the level-`l` pointers. -/
def Dram.SameBut (l : Nat) (d d0 : Dram) : Prop :=
  ∀ n, (d.nodes n).record = (d0.nodes n).record ∧ (d.nodes n).height = (d0.nodes n).height ∧
    ∀ k, k ≠ l → (d.nodes n).next k = (d0.nodes n).next k

theorem Dram.SameBut.refl (l : Nat) (d : Dram) : d.SameBut l d :=
  fun _ => ⟨rfl, rfl, fun _ _ => rfl⟩

theorem Dram.SameBut.writeNext {l : Nat} {d d0 : Dram} (hd : d.SameBut l d0) (n : Nat)
    (v : Option Nat) : (d.writeNext n l v).SameBut l d0 := fun m => by
  refine ⟨by rw [writeNext_record]; exact (hd m).1, by rw [writeNext_height]; exact (hd m).2.1,
    fun k hk => ?_⟩
  rw [writeNext_next, if_neg fun e => hk e.2]
  exact (hd m).2.2 k hk

theorem relaxedNext_eq {d : Dram} {n l : Nat} (h1 : 1 ≤ l) (h2 : l ≤ (d.nodes n).height) :
    d.relaxedNext n l = .ok ((d.nodes n).next l) := if_pos ⟨h1, h2⟩

section Walks

variable {height} {d0 : Dram}

theorem Dram.SameBut.relaxedNext {l k : Nat} {d : Dram} (hd : d.SameBut l d0) (hk : k ≠ l)
    (n : Nat) : d.relaxedNext n k = d0.relaxedNext n k := by
  simp only [Dram.relaxedNext, (hd n).2.1, (hd n).2.2 k hk]

theorem Dram.SameBut.startsSegment {l : Nat} {d : Dram} (hd : d.SameBut l d0) (n : Nat) :
    startsSegment segs d n = startsSegment segs d0 n := by
  simp only [Kvdk.startsSegment, (hd n).1]

theorem Dram.SameBut.setNext {l : Nat} {d : Dram} (hd : d.SameBut l d0) {n : Nat} (v : Option Nat)
    (h1 : 1 ≤ l) (h2 : l ≤ (d0.nodes n).height) : d.setNext n l v = .ok (d.writeNext n l v) :=
  setNext_eq v h1 ((hd n).2.1 ▸ h2)

/-- The walk of lines 441-449 from a node `y` of the level-`height - 1` chain returns the first
node from `y` on whose tower reaches `height`. -/
theorem segmentEndPoint_spec {d : Dram} (hd : d.SameBut height d0) (hh : 1 < height) :
    ∀ (ys : List Nat) (y fuel : Nat), NodeChain d0 (height - 1) y ys →
      (∀ n ∈ y :: ys, height - 1 ≤ (d0.nodes n).height) → ys.length < fuel →
      segmentEndPoint height d fuel (some y) = .ok (tallHead height d0 (y :: ys))
  | _, _, 0, _, _, hf => absurd hf (Nat.not_lt_zero _)
  | ys, y, fuel + 1, hc, hlow, hf => by
    rw [segmentEndPoint, tallHead_cons, (hd y).2.1]
    split_ifs with hy
    · rfl
    rw [hd.relaxedNext (by omega), relaxedNext_eq (by omega) (hlow y (List.mem_cons_self _ _)),
      nodeChain_next hc]
    cases ys with
    | nil => simp only [List.head?, bind, Except.bind, segmentEndPoint]; rfl
    | cons z zs =>
      exact segmentEndPoint_spec hd hh zs z fuel hc.2 (fun n hn => hlow n (List.mem_cons_of_mem _ hn))
        (Nat.lt_of_succ_lt_succ hf)

/-- The first loop of `linkSegmentDramNodes` from a node `x` of the level-`height - 1` chain
returns the first node of `x`'s segment whose tower reaches `height`. -/
theorem segmentFirstTall_spec {d : Dram} (hd : d.SameBut height d0) (hh : 1 < height) :
    ∀ (ys : List Nat) (x fuel : Nat), NodeChain d0 (height - 1) x ys →
      (∀ n ∈ x :: ys, height - 1 ≤ (d0.nodes n).height) → ys.length < fuel →
      segmentFirstTall segs height d fuel x =
        .ok (tallHead height d0 (x :: ys.takeWhile fun n => !startsSegment segs d0 n))
  | _, _, 0, _, _, hf => absurd hf (Nat.not_lt_zero _)
  | ys, x, fuel + 1, hc, hlow, hf => by
    rw [segmentFirstTall, tallHead_cons, (hd x).2.1]
    by_cases hx : height ≤ (d0.nodes x).height
    · rw [if_neg (Nat.not_lt.2 hx), if_pos hx]; rfl
    rw [if_pos (Nat.lt_of_not_le hx), if_neg hx, hd.relaxedNext (by omega),
      relaxedNext_eq (by omega) (hlow x (List.mem_cons_self _ _)), nodeChain_next hc]
    cases ys with
    | nil => rfl
    | cons z zs =>
      simp only [List.head?, bind, Except.bind, hd.startsSegment, List.takeWhile_cons]
      by_cases hz : startsSegment segs d0 z = true
      · simp only [hz, if_true, Bool.not_true]; rfl
      · simp only [hz, Bool.false_eq_true, if_false, Bool.not_false]
        exact segmentFirstTall_spec hd hh zs z fuel hc.2
          (fun n hn => hlow n (List.mem_cons_of_mem _ hn)) (Nat.lt_of_succ_lt_succ hf)

/-- **The main loop of `linkSegmentDramNodes`**: from the last node linked, `cur`, along the
level-`height - 1` chain `ys` after the last node read, it links every node of the segment whose
tower reaches `height` to the first such node after it (the last one to the first such node of
the segments after, or null), and writes no node outside the segment. -/
theorem segmentLinkLoop_spec (hh : 1 < height) :
    ∀ (ys : List Nat) (d : Dram) (cur x fuel : Nat), d.SameBut height d0 →
      NodeChain d0 (height - 1) x ys → (∀ n ∈ ys, height - 1 ≤ (d0.nodes n).height) →
      ys.length < fuel → height ≤ (d0.nodes cur).height → (cur :: ys).Nodup →
      ∃ d', segmentLinkLoop segs height fuel d cur ys.head? = .ok d' ∧ d'.SameBut height d0 ∧
        (∀ m ∈ cur :: ys.takeWhile (fun n => !startsSegment segs d0 n),
          height ≤ (d0.nodes m).height →
            (d'.nodes m).next height = tallAfter height d0 (cur :: ys) m) ∧
        ∀ m, m ∉ cur :: ys.takeWhile (fun n => !startsSegment segs d0 n) →
          (d'.nodes m).next height = (d.nodes m).next height
  | _, _, _, _, 0, _, _, _, hf, _, _ => absurd hf (Nat.not_lt_zero _)
  | [], d, cur, _, fuel + 1, hd, _, _, _, hcur, _ => by
    refine ⟨_, hd.setNext none (by omega) hcur, hd.writeNext _ _, fun m hm _ => ?_, fun m hm => ?_⟩
    · obtain rfl : m = cur := by simpa using hm
      simp [tallAfter_cons_self, tallHead]
    · rw [writeNext_next, if_neg fun e => hm (by simp [e.1])]
  | n :: ys, d, cur, _, fuel + 1, hd, hc, hlow, hf, hcur, hnd => by
    have hcn : cur ∉ n :: ys := (List.nodup_cons.1 hnd).1
    have hcn1 : cur ≠ n := fun e => hcn (e ▸ List.mem_cons_self _ _)
    have htw : ∀ m ∈ ys.takeWhile (fun n => !startsSegment segs d0 n), m ∈ ys :=
      fun m hm => (List.takeWhile_sublist _).subset hm
    have hlowys : ∀ m ∈ ys, height - 1 ≤ (d0.nodes m).height :=
      fun m hm => hlow m (List.mem_cons_of_mem _ hm)
    have hread : ∀ d' : Dram, d'.SameBut height d0 →
        d'.relaxedNext n (height - 1) = .ok ys.head? := fun d' hd' => by
      rw [hd'.relaxedNext (by omega), relaxedNext_eq (by omega) (hlow n (List.mem_cons_self _ _)),
        nodeChain_next hc.2]
    by_cases hs : startsSegment segs d0 n = true
    · -- the start of the next segment: link `cur` to its first tall node, or null
      have hend := segmentEndPoint_spec hd hh ys n fuel hc.2 hlow (Nat.lt_of_succ_lt_succ hf)
      refine ⟨d.writeNext cur height (tallHead height d0 (n :: ys)), ?_, hd.writeNext _ _,
        fun m hm _ => ?_, fun m hm => ?_⟩
      · simp only [List.head?_cons, segmentLinkLoop, hd.startsSegment, hs, if_true, hend, bind,
          Except.bind, hd.setNext _ (by omega) hcur]
      · obtain rfl : m = cur := by simpa [hs] using hm
        rw [writeNext_next, if_pos ⟨rfl, rfl⟩, tallAfter_cons_self]
      · rw [writeNext_next, if_neg fun e => hm (by simp [e.1])]
    have hs' : startsSegment segs d n = false := by simpa [hd.startsSegment] using hs
    by_cases ht : height ≤ (d0.nodes n).height
    · -- a tall node: link it after `cur`, null it, and go on from it
      have hd2 := (hd.writeNext cur (some n)).writeNext n none
      obtain ⟨d', hrun, hd', hin, hout⟩ := segmentLinkLoop_spec hh ys _ n n fuel hd2 hc.2 hlowys
        (Nat.lt_of_succ_lt_succ hf) ht (List.nodup_cons.1 hnd).2
      have hcur' : (d'.nodes cur).next height = some n := by
        rw [hout cur fun h => hcn (List.mem_cons.2 ((List.mem_cons.1 h).imp id (htw cur))),
          writeNext_next_of_ne hcn1, writeNext_next_self]
      refine ⟨d', ?_, hd', fun m hm hmt => ?_, fun m hm => ?_⟩
      · simp only [List.head?_cons, segmentLinkLoop, hs', Bool.false_eq_true, if_false, (hd n).2.1, ht,
          if_true, hd.setNext _ (by omega) hcur, bind, Except.bind,
          (hd.writeNext cur (some n)).setNext _ (by omega) ht, hread _ hd2, hrun]
      · simp only [List.takeWhile_cons, hs, Bool.not_false, if_true, List.mem_cons] at hm
        rcases hm with rfl | hm
        · rw [hcur', tallAfter_cons_self, tallHead_cons, if_pos ht]
        · have hmc : cur ≠ m := fun e => hcn (e ▸ List.mem_cons.2 (hm.imp id (htw m)))
          rw [hin m (List.mem_cons.2 hm) hmt, tallAfter_cons_of_ne _ _ hmc]
      · simp only [List.takeWhile_cons, hs, Bool.not_false, if_true, List.mem_cons, not_or] at hm
        rw [hout m (by simp [hm.2.1, hm.2.2]), writeNext_next_of_ne hm.2.1,
          writeNext_next_of_ne hm.1]
    · -- a short node: go on past it
      obtain ⟨d', hrun, hd', hin, hout⟩ := segmentLinkLoop_spec hh ys d cur n fuel hd hc.2 hlowys
        (Nat.lt_of_succ_lt_succ hf) hcur (List.nodup_cons.2 ⟨fun h => hcn (List.mem_cons_of_mem _ h),
          (List.nodup_cons.1 (List.nodup_cons.1 hnd).2).2⟩)
      refine ⟨d', ?_, hd', fun m hm hmt => ?_, fun m hm => hout m fun h => hm ?_⟩
      · simp only [List.head?_cons, segmentLinkLoop, hs', Bool.false_eq_true, if_false, (hd n).2.1, ht,
          bind, Except.bind, hread _ hd, hrun]
      · simp only [List.takeWhile_cons, hs, Bool.not_false, if_true, List.mem_cons] at hm
        rcases hm with rfl | rfl | hm
        · rw [hin m (List.mem_cons_self _ _) hmt, tallAfter_cons_self, tallAfter_cons_self,
            tallHead_cons, if_neg ht]
        · exact absurd hmt ht
        · have hmc : cur ≠ m := fun e => hcn (List.mem_cons_of_mem _ (e ▸ htw m hm))
          have hmn : n ≠ m := fun e => ht (e ▸ hmt)
          rw [hin m (List.mem_cons_of_mem _ hm) hmt, tallAfter_cons_of_ne _ _ hmc,
            tallAfter_cons_of_ne _ _ hmc, tallAfter_cons_of_ne _ _ hmn]
      · simp only [List.takeWhile_cons, hs, Bool.not_false, if_true, List.mem_cons] at h ⊢
        exact h.imp_right .inr

/-- **One call of `linkSegmentDramNodes`** at a start `s` of the level-`height - 1` chain, `Q`
the chain after it: every node of `s`'s segment whose tower reaches `height` is linked to the
first such node after it on the chain, and no node outside the segment is written. -/
theorem linkSegmentDramNodes_spec (hh : 1 < height) {d : Dram} (hd : d.SameBut height d0)
    {s fuel : Nat} {Q : List Nat} (hc : NodeChain d0 (height - 1) s Q)
    (hlow : ∀ n ∈ s :: Q, height - 1 ≤ (d0.nodes n).height) (hnd : (s :: Q).Nodup)
    (hf : Q.length < fuel) :
    ∃ d', linkSegmentDramNodes segs height fuel d s = .ok d' ∧ d'.SameBut height d0 ∧
      (∀ m ∈ s :: Q.takeWhile (fun n => !startsSegment segs d0 n),
        height ≤ (d0.nodes m).height → (d'.nodes m).next height = tallAfter height d0 (s :: Q) m) ∧
      ∀ m, m ∉ s :: Q.takeWhile (fun n => !startsSegment segs d0 n) →
        (d'.nodes m).next height = (d.nodes m).next height := by
  have hfirst := segmentFirstTall_spec segs hd hh Q s fuel hc hlow hf
  rcases hcase : tallHead height d0 (s :: Q.takeWhile fun n => !startsSegment segs d0 n) with _ | t
  · -- no node of the segment is tall: nothing is written
    refine ⟨d, ?_, hd, fun m hm hmt => absurd hmt (List.find?_eq_none.1 hcase m hm ∘ decide_eq_true),
      fun _ _ => rfl⟩
    simp only [linkSegmentDramNodes, kvdkAssert_of_true hh, hfirst, hcase, bind, Except.bind, pure,
      Except.pure]
  -- the first tall node `t`, after the short nodes `A`
  obtain ⟨ht, A, B, hAB, hA⟩ := List.find?_eq_some.1 hcase
  obtain ⟨ys, hQ, hseg⟩ : ∃ ys, s :: Q = A ++ t :: ys ∧
      s :: Q.takeWhile (fun n => !startsSegment segs d0 n) =
        A ++ t :: ys.takeWhile (fun n => !startsSegment segs d0 n) := by
    cases A with
    | nil => obtain ⟨rfl, -⟩ := List.cons.inj hAB; exact ⟨Q, rfl, rfl⟩
    | cons a A =>
      rw [List.cons_append] at hAB
      obtain ⟨rfl, htw⟩ := List.cons.inj hAB
      obtain ⟨ys, h1, h2⟩ := takeWhile_split htw
      exact ⟨ys, by rw [h1]; rfl, by rw [h2]; rfl⟩
  have ht' : height ≤ (d0.nodes t).height := of_decide_eq_true ht
  have hlen : ys.length < fuel := by
    have := congrArg List.length hQ
    simp only [List.length_cons, List.length_append] at this
    omega
  have hmem : ∀ m ∈ t :: ys, m ∈ s :: Q := fun m hm => hQ ▸ List.mem_append_right _ hm
  have hndt : (t :: ys).Nodup := (hQ ▸ hnd).sublist (List.sublist_append_right _ _)
  obtain ⟨d', hrun, hd', hin, hout⟩ := segmentLinkLoop_spec segs hh ys d t t fuel hd
    (nodeChain_suffix hc hQ) (fun m hm => hlow m (hmem m (List.mem_cons_of_mem _ hm))) hlen ht' hndt
  refine ⟨d', ?_, hd', fun m hm hmt => ?_, fun m hm => hout m fun h => hm ?_⟩
  · have hread : d.relaxedNext t (height - 1) = .ok ys.head? := by
      rw [hd.relaxedNext (by omega), relaxedNext_eq (by omega) (hlow t (hmem t (List.mem_cons_self _ _))),
        nodeChain_next (nodeChain_suffix hc hQ)]
    simp only [linkSegmentDramNodes, kvdkAssert_of_true hh, hfirst, hcase, bind, Except.bind, pure,
      Except.pure, hread, hrun]
  · have hmA : m ∉ A := fun h => by simpa [hmt] using hA m h
    rw [hseg] at hm
    rw [hQ, tallAfter_append _ _ hmA]
    exact hin m ((List.mem_append.1 hm).resolve_left hmA) hmt
  · rw [hseg]
    exact List.mem_append_right _ h

/-- **The calls at one level, in any order**: after calls at the starts `order`, each a node of
the level-`height - 1` chain `hn :: ns`, every node of their segments whose tower reaches
`height` is linked to the first such node after it on the chain, and every node outside their
segments is as it was. -/
theorem linkSegmentsAt_spec (hh : 1 < height) {hn fuel : Nat} {ns : List Nat}
    (hc : NodeChain d0 (height - 1) hn ns) (hlow : ∀ n ∈ hn :: ns, height - 1 ≤ (d0.nodes n).height)
    (hnd : (hn :: ns).Nodup) (hf : ns.length < fuel) :
    ∀ (order : List Nat) (d : Dram), d.SameBut height d0 → (∀ s ∈ order, s ∈ hn :: ns) →
      ∃ d', linkSegmentsAt segs height fuel order d = .ok d' ∧ d'.SameBut height d0 ∧
        (∀ m, height ≤ (d0.nodes m).height → (∃ s ∈ order,
          m ∈ s :: (nodesAfter (hn :: ns) s).takeWhile fun n => !startsSegment segs d0 n) →
            (d'.nodes m).next height = tallAfter height d0 (hn :: ns) m) ∧
        ∀ m, (∀ s ∈ order,
          m ∉ s :: (nodesAfter (hn :: ns) s).takeWhile fun n => !startsSegment segs d0 n) →
            (d'.nodes m).next height = (d.nodes m).next height
  | [], d, hd, _ => ⟨d, rfl, hd, fun _ _ ⟨_, hs, _⟩ => absurd hs (List.not_mem_nil _), fun _ _ => rfl⟩
  | s :: order, d, hd, hsub => by
    obtain ⟨P, Q, hPQ⟩ := List.append_of_mem (hsub s (List.mem_cons_self _ _))
    have hnd' := hPQ ▸ hnd
    have hsP : s ∉ P := fun h => List.disjoint_of_nodup_append hnd' h (List.mem_cons_self _ _)
    have hafter : nodesAfter (hn :: ns) s = Q := by
      rw [hPQ, nodesAfter_append hsP, nodesAfter_cons_self]
    have hlen : Q.length < fuel := by
      have := congrArg List.length hPQ
      simp only [List.length_cons, List.length_append] at this
      omega
    obtain ⟨d1, h1, hd1, hin1, hout1⟩ := linkSegmentDramNodes_spec segs hh hd (nodeChain_suffix hc hPQ)
      (fun n h => hlow n (hPQ ▸ List.mem_append_right _ h)) (hnd'.sublist (List.sublist_append_right _ _))
      hlen
    obtain ⟨d', h', hd', hin', hout'⟩ := linkSegmentsAt_spec hh hc hlow hnd hf order d1 hd1
      fun s' hs' => hsub s' (List.mem_cons_of_mem _ hs')
    refine ⟨d', by simp only [linkSegmentsAt, h1, bind, Except.bind, h'], hd',
      fun m hmt ⟨s', hs', hm⟩ => ?_, fun m hm => ?_⟩
    · by_cases hm' : ∃ s' ∈ order,
          m ∈ s' :: (nodesAfter (hn :: ns) s').takeWhile fun n => !startsSegment segs d0 n
      · exact hin' m hmt hm'
      rw [hout' m fun s' hs' h => hm' ⟨s', hs', h⟩]
      rcases List.mem_cons.1 hs' with rfl | hs'
      · rw [hafter] at hm
        have hmP : m ∉ P := fun h => List.disjoint_of_nodup_append hnd' h
          ((List.cons_sublist_cons.2 (List.takeWhile_sublist _)).subset hm)
        rw [hin1 m hm hmt, hPQ, tallAfter_append _ _ hmP]
      · exact absurd ⟨s', hs', hm⟩ hm'
    · rw [hout' m fun s' hs' => hm s' (List.mem_cons_of_mem _ hs'),
        hout1 m (hafter ▸ hm s (List.mem_cons_self _ _))]

/-- Level-`height` pointers that go from every tall node of `a :: rest` to the next tall node
make the level, from `a`, the chain of the tall nodes of `rest`. -/
theorem nodeChain_of_tallAfter {d : Dram} : ∀ (rest : List Nat) (a : Nat), (a :: rest).Nodup →
    (d.nodes a).next height = tallHead height d0 rest →
    (∀ m ∈ rest, height ≤ (d0.nodes m).height →
      (d.nodes m).next height = tallAfter height d0 rest m) →
    NodeChain d height a (rest.filter fun n => height ≤ (d0.nodes n).height)
  | [], _, _, ha, _ => ha
  | x :: rest, a, hnd, ha, hm => by
    have hx : x ∉ rest := (List.nodup_cons.1 (List.nodup_cons.1 hnd).2).1
    have hrest : ∀ m ∈ rest, height ≤ (d0.nodes m).height →
        (d.nodes m).next height = tallAfter height d0 rest m := fun m hm' hmt => by
      have hxm : x ≠ m := fun e => hx (by rw [e]; exact hm')
      rw [hm m (List.mem_cons_of_mem _ hm') hmt, tallAfter_cons_of_ne _ _ hxm]
    rw [tallHead_cons] at ha
    by_cases ht : height ≤ (d0.nodes x).height
    · rw [if_pos ht] at ha
      rw [List.filter_cons_of_pos (by simpa using ht)]
      exact ⟨ha, nodeChain_of_tallAfter rest x (List.nodup_cons.1 hnd).2
        (by rw [hm x (List.mem_cons_self _ _) ht, tallAfter_cons_self]) hrest⟩
    · rw [if_neg ht] at ha
      rw [List.filter_cons_of_neg (by simpa using ht)]
      exact nodeChain_of_tallAfter rest a (hnd.sublist ((List.sublist_cons_self x rest).cons₂ a)) ha
        hrest

end Walks

/-- Every node of a chain whose first node starts a segment lies in the segment of a start. -/
theorem exists_segment_start {d : Dram} {hn m : Nat} {ns : List Nat} (hnd : (hn :: ns).Nodup)
    (hstart : startsSegment segs d hn = true) (hm : m ∈ hn :: ns) :
    ∃ s ∈ hn :: ns, startsSegment segs d s = true ∧
      m ∈ s :: (nodesAfter (hn :: ns) s).takeWhile fun n => !startsSegment segs d n := by
  by_cases hms : startsSegment segs d m = true
  · exact ⟨m, hm, hms, List.mem_cons_self _ _⟩
  obtain ⟨A, B, hAB⟩ := List.append_of_mem hm
  obtain ⟨A1, s, A2, rfl, hs, h2⟩ := exists_last_split (p := fun n => !startsSegment segs d n) (A := A) (by
    cases A with
    | nil => obtain ⟨rfl, -⟩ := List.cons.inj hAB; exact absurd hstart hms
    | cons a A =>
      obtain ⟨rfl, -⟩ := List.cons.inj hAB
      exact ⟨hn, List.mem_cons_self _ _, by simpa using hstart⟩)
  have hc : hn :: ns = A1 ++ s :: (A2 ++ m :: B) := by simpa using hAB
  have hsA : s ∉ A1 := fun h => List.disjoint_of_nodup_append (hc ▸ hnd) h (List.mem_cons_self _ _)
  refine ⟨s, hc ▸ List.mem_append_right _ (List.mem_cons_self _ _), by simpa using hs, ?_⟩
  rw [hc, nodesAfter_append hsA, nodesAfter_cons_self,
    show A2 ++ m :: B = (A2 ++ [m]) ++ B by simp, List.takeWhile_append_of_pos fun x hx => by
      rcases List.mem_append.1 hx with hx | hx
      · exact h2 x hx
      · simpa [List.mem_singleton.1 hx] using hms]
  simp

/-- **With every segment start on the level below, the calls link the level**: on a skiplist
whose level-`height - 1` chain from its header node `hn` is `ns`, every node of it as tall as
that level and `hn` a segment start as tall as `height`, calling `linkSegmentDramNodes` at
`height` for the segment starts, in any order and each at least once, all of them nodes of that
chain, returns, writes only level-`height` pointers, and leaves that level the chain of the nodes
of `ns` whose tower reaches `height`. -/
theorem linkSegmentsAt_links_level (hh : 1 < height) {d : Dram} {hn fuel : Nat}
    {ns order : List Nat} (hc : NodeChain d (height - 1) hn ns) (hnd : (hn :: ns).Nodup)
    (hlow : ∀ n ∈ hn :: ns, height - 1 ≤ (d.nodes n).height) (hhead : height ≤ (d.nodes hn).height)
    (hstart : startsSegment segs d hn = true)
    (hall : ∀ n ∈ hn :: ns, startsSegment segs d n = true → n ∈ order)
    (hsub : ∀ s ∈ order, s ∈ hn :: ns) (hf : ns.length < fuel) :
    ∃ d', linkSegmentsAt segs height fuel order d = .ok d' ∧ d'.SameBut height d ∧
      NodeChain d' height hn (ns.filter fun n => height ≤ (d.nodes n).height) := by
  obtain ⟨d', h', hd', hin, -⟩ :=
    linkSegmentsAt_spec segs hh hc hlow hnd hf order d (Dram.SameBut.refl _ _) hsub
  have hlinked : ∀ m ∈ hn :: ns, height ≤ (d.nodes m).height →
      (d'.nodes m).next height = tallAfter height d (hn :: ns) m := fun m hm hmt => by
    obtain ⟨s, hs, hss, hms⟩ := exists_segment_start segs hnd hstart hm
    exact hin m hmt ⟨s, hall s hs hss, hms⟩
  refine ⟨d', h', hd', nodeChain_of_tallAfter ns hn hnd ?_ fun m hm hmt => ?_⟩
  · rw [hlinked hn (List.mem_cons_self _ _) hhead, tallAfter_cons_self]
  · have hne : hn ≠ m := fun e => (List.nodup_cons.1 hnd).1 (e ▸ hm)
    rw [hlinked m (List.mem_cons_of_mem _ hm) hmt, tallAfter_cons_of_ne _ _ hne]

/-- `shortStart`, whose level 2 runs 0, 2, both of height 3: with one recovery segment, at the
header, and with a second one at node 2 whose call comes first, the calls at height 3 link level 3
from the header to node 2. -/
theorem linkSegmentsAt_headerSegment :
    (∃ d', linkSegmentsAt [(0, ⟨false, 0⟩)] 3 4 [0] shortStart = .ok d' ∧
      d'.SameBut 3 shortStart ∧
      NodeChain d' 3 0 ([2].filter fun n => 3 ≤ (shortStart.nodes n).height)) ∧
    ∃ d', linkSegmentsAt [(0, ⟨false, 0⟩), (2, ⟨false, 2⟩)] 3 4 [2, 0] shortStart = .ok d' ∧
      d'.SameBut 3 shortStart ∧
      NodeChain d' 3 0 ([2].filter fun n => 3 ≤ (shortStart.nodes n).height) :=
  ⟨linkSegmentsAt_links_level _ _ (by decide) ⟨rfl, rfl⟩ (by decide) (by decide) (by decide)
    (by decide) (by decide) (by decide) (by decide),
  linkSegmentsAt_links_level _ _ (by decide) ⟨rfl, rfl⟩ (by decide) (by decide) (by decide)
    (by decide) (by decide) (by decide) (by decide)⟩

end Kvdk
