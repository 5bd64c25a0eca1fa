import SortedRebuild.SegmentBased

/-
  The intake of a segment-mode recovery: `AddHeader`, and `AddElement` with its sampling of
  segment starts (rebuilder.cpp lines 42-93), run over the records the scan finds.

  The intake only ever adds DRAM nodes, so what it built stays as it was (`Dram.Extends`).  Each
  segment it registers sits on a fresh node, unclaimed, with a built tower, and starts at an
  offered element record that is its own checkpoint version (`SampledSeg`); no start is
  registered twice.  `intake_segmentBased` runs the intake over any list of offered records
  whose linkage checks and whose elements have a checkpoint version, and keeps all of this.
-/

namespace Kvdk

/-! ## DRAM that only grows -/

/-- `d'` is `d` with more nodes built: every node of `d` is as it was. -/
structure Dram.Extends (d d' : Dram) : Prop where
  count : d.nodeCount ≤ d'.nodeCount
  nodes : ∀ m < d.nodeCount, d'.nodes m = d.nodes m

section Extends

variable {d d' d'' : Dram}

theorem Dram.Extends.refl (d : Dram) : d.Extends d := ⟨le_rfl, fun _ _ => rfl⟩

theorem Dram.Extends.trans (h1 : d.Extends d') (h2 : d'.Extends d'') : d.Extends d'' :=
  ⟨h1.count.trans h2.count, fun m hm => (h2.nodes m (lt_of_lt_of_le hm h1.count)).trans (h1.nodes m hm)⟩

theorem Dram.extends_newNode (d : Dram) (r k : Nat) : d.Extends (d.newNode r k).2 :=
  ⟨Nat.le_succ _, fun _ hm => Function.update_noteq hm.ne _ _⟩

end Extends

/-! ## Intake: the sampled segment starts -/

variable {cfg : RebuilderConfig}

variable (cfg) in
/-- A recovery segment as `AddElement` registers it (lines 76-91): unclaimed, on a built node
over its start record with a tower of 1 to `kMaxHeight` levels, the start an element record that
is its own checkpoint version. -/
structure SampledSeg (pm : PMem) (d : Dram) (p : PMemOffsetType × RecoverySegment) : Prop where
  unclaimed : p.2.visited = false
  built : p.2.startNode < d.nodeCount
  record : (d.nodes p.2.startNode).record = p.1
  tower : 1 ≤ (d.nodes p.2.startNode).height ∧ (d.nodes p.2.startNode).height ≤ cfg.kMaxHeight
  elem : (pm p.1).recordType = .SortedElem
  own : cfg.findCheckpointVersion pm p.1 = .ok (some p.1)

theorem SampledSeg.mono {pm : PMem} {d d' : Dram} {p : PMemOffsetType × RecoverySegment}
    (h : SampledSeg cfg pm d p) (hd : d.Extends d') : SampledSeg cfg pm d' p := by
  have hn := hd.nodes _ h.built
  exact ⟨h.unclaimed, lt_of_lt_of_le h.built hd.count, hn ▸ h.record, hn ▸ h.tower, h.elem, h.own⟩

/-- **The retry loop of `AddElement` returns a node** once one of the next `fuel` draws is not
zero: the node of the first such draw, over `r` at the next address. -/
theorem newNodeBuildRetry_spec (r : PMemOffsetType) : ∀ (fuel : Nat) (st : RebuilderState),
    (∃ j < fuel, cfg.randomHeight (st.draws + j) ≠ 0) → ∃ k, cfg.randomHeight k ≠ 0 ∧
      newNodeBuildRetry cfg r fuel st = .ok (st.dram.nodeCount,
        { st with dram := (st.dram.newNode r (cfg.randomHeight k)).2, draws := k + 1 })
  | 0, _, ⟨_, hj, _⟩ => absurd hj (Nat.not_lt_zero _)
  | fuel + 1, st, ⟨j, hj, hne⟩ => by
    by_cases h0 : cfg.randomHeight st.draws = 0
    · obtain _ | j := j
      · exact absurd h0 hne
      obtain ⟨k, hk, heq⟩ := newNodeBuildRetry_spec r fuel { st with draws := st.draws + 1 }
        ⟨j, by omega, by show cfg.randomHeight (st.draws + 1 + j) ≠ 0; rwa [Nat.add_right_comm]⟩
      refine ⟨k, hk, ?_⟩
      simp only [newNodeBuildRetry, newNodeBuild, if_pos h0]
      exact heq
    · refine ⟨st.draws, h0, ?_⟩
      simp only [newNodeBuildRetry, newNodeBuild_of_ne h0]

/-- The headers among offered records, one record at a time. -/
theorem offeredHeaders_snoc (pm : PMem) (rs : List (Nat × PMemOffsetType)) (p : Nat × PMemOffsetType) :
    offeredHeaders pm (rs ++ [p]) =
      offeredHeaders pm rs ++ if (pm p.2).recordType = .SortedRecord then [p.2] else [] := by
  simp only [offeredHeaders, List.map_append, List.filter_append, List.map_cons, List.map_nil,
    List.filter_cons, List.filter_nil, decide_eq_true_eq]

variable (cfg) in
/-- **What the intake in segment mode leaves** after the records `rs`, from `st0` with no
segment: the store, the skiplists, the hash index and the thread queues as they were, the
headers among `rs` gathered, only nodes built, and every registered segment one that
`AddElement` registers, at a record of `rs`; no two start at one record. -/
structure IntakeSegs (st0 : RebuilderState) (rs : List (Nat × PMemOffsetType)) (st : RebuilderState) :
    Prop where
  rest : st = { st0 with
    linkedHeaders := st0.linkedHeaders ++ offeredHeaders st0.pm rs, dram := st.dram,
    draws := st.draws, visitedSkiplists := st.visitedSkiplists,
    recoverySegments := st.recoverySegments }
  dram : st0.dram.Extends st.dram
  segs : ∀ p ∈ st.recoverySegments, SampledSeg cfg st0.pm st.dram p ∧ p.1 ∈ rs.map Prod.snd
  nodup : (st.recoverySegments.map Prod.fst).Nodup

section Intake

variable {st0 st : RebuilderState} {rs : List (Nat × PMemOffsetType)} {r : PMemOffsetType}

theorem IntakeSegs.start (h : st0.recoverySegments = []) : IntakeSegs cfg st0 [] st0 := by
  refine ⟨?_, .refl _, by simp [h], by simp [h]⟩
  cases st0
  simp [offeredHeaders]

theorem IntakeSegs.pm (hinv : IntakeSegs cfg st0 rs st) : st.pm = st0.pm := by
  rw [hinv.rest]

/-- A registered segment starts at a record of `rs`, so of any longer list. -/
theorem IntakeSegs.segs_snoc (hinv : IntakeSegs cfg st0 rs st)
    {p : PMemOffsetType × RecoverySegment} (hp : p ∈ st.recoverySegments) (q : Nat × PMemOffsetType) :
    SampledSeg cfg st0.pm st.dram p ∧ p.1 ∈ (rs ++ [q]).map Prod.snd :=
  (hinv.segs p hp).imp_right fun h => by simp [h]

/-- An element record offered changes no header gathered, whatever it does to the counters. -/
theorem IntakeSegs.elem (hinv : IntakeSegs cfg st0 rs st) (hr : (st0.pm r).recordType = .SortedElem)
    (tid : Nat) (V : Nat → CollectionIDType → Nat) :
    IntakeSegs cfg st0 (rs ++ [(tid, r)]) { st with visitedSkiplists := V } := by
  refine ⟨?_, hinv.dram, fun p hp => hinv.segs_snoc hp _, hinv.nodup⟩
  rw [offeredHeaders_snoc, if_neg (by rw [hr]; decide), List.append_nil]
  conv_lhs => rw [hinv.rest]

/-- **`AddElement` in segment mode**, on a linked element record whose checkpoint version is
found: it counts the record, and when it samples it, builds its node and registers its segment
unless one starts there already. -/
theorem IntakeSegs.sample (hmode : cfg.segmentBasedRebuild = true) (hinv : IntakeSegs cfg st0 rs st)
    (hr : (st0.pm r).recordType = .SortedElem) {valid : Option PMemOffsetType}
    (hvalid : cfg.findCheckpointVersion st0.pm r = .ok valid)
    (hdraw : ∀ k, ∃ j < cfg.fuel, cfg.randomHeight (k + j) ≠ 0) (tid : Nat) :
    ∃ st', sampleSegmentStart cfg tid r st = .ok st' ∧ IntakeSegs cfg st0 (rs ++ [(tid, r)]) st' := by
  have hpm := hinv.pm
  have hr' : (st.pm r).recordType = .SortedElem := by rw [hpm]; exact hr
  have hvalid' : cfg.findCheckpointVersion st.pm r = .ok valid := by rw [hpm]; exact hvalid
  unfold sampleSegmentStart
  dsimp only
  set V := Function.update st.visitedSkiplists (tid % cfg.numRebuildThreads)
    (Function.update (st.visitedSkiplists (tid % cfg.numRebuildThreads)) (st.pm r).id
      (st.visitedSkiplists (tid % cfg.numRebuildThreads) (st.pm r).id + 1)) with hV
  have he := hinv.elem hr tid V
  split_ifs with hc
  swap
  · exact ⟨_, rfl, he⟩
  simp only [bind, Except.bind, hvalid']
  split_ifs with hs
  swap
  · exact ⟨_, rfl, he⟩
  obtain ⟨k, hk, hretry⟩ := newNodeBuildRetry_spec r cfg.fuel { st with visitedSkiplists := V }
    (hdraw _)
  simp only [hretry]
  refine ⟨_, rfl, ?_⟩
  have hext := Dram.extends_newNode st.dram r (cfg.randomHeight k)
  have hrec : ((st.dram.newNode r (cfg.randomHeight k)).2.nodes st.dram.nodeCount).record = r := by
    simp [Dram.newNode]
  rw [addRecoverySegment_eq]
  simp only [hrec, hmode, true_and]
  have hrest : ∀ segs, { st with
      dram := (st.dram.newNode r (cfg.randomHeight k)).2, draws := k + 1, visitedSkiplists := V,
      recoverySegments := segs } = { st0 with
        linkedHeaders := st0.linkedHeaders ++ offeredHeaders st0.pm (rs ++ [(tid, r)]),
        dram := (st.dram.newNode r (cfg.randomHeight k)).2, draws := k + 1, visitedSkiplists := V,
        recoverySegments := segs } := fun segs => by
    rw [offeredHeaders_snoc, if_neg (by rw [hr]; decide), List.append_nil]
    conv_lhs => rw [hinv.rest]
  split_ifs with hfresh
  · exact ⟨hrest _, hinv.dram.trans hext, fun p hp => (he.segs p hp).imp_left (·.mono hext), hinv.nodup⟩
  · refine ⟨hrest _, hinv.dram.trans hext, fun p hp => ?_, ?_⟩
    · rcases List.mem_append.1 hp with hp | hp
      · exact (he.segs p hp).imp_left (·.mono hext)
      · obtain rfl := List.mem_singleton.1 hp
        refine ⟨⟨rfl, by simp [Dram.newNode], hrec, ?_, hr, hs.1 ▸ hvalid⟩, by simp⟩
        simp only [Dram.newNode, Function.update_same]
        exact ⟨Nat.one_le_iff_ne_zero.2 hk, cfg.randomHeight_le k⟩
    · rw [List.map_append]
      exact List.nodup_append.2 ⟨hinv.nodup, List.nodup_singleton _, List.disjoint_singleton.2 hfresh⟩

/-- **One record of the intake in segment mode**, linked on both sides, and, when it is an
element, with its checkpoint version found: a header is gathered, an element counted and maybe
sampled, any other record passed over. -/
theorem IntakeSegs.step (hmode : cfg.segmentBasedRebuild = true) (hinv : IntakeSegs cfg st0 rs st)
    (hl : checkLinkage st0.pm r = true)
    (hf : (st0.pm r).recordType = .SortedElem → ∃ valid, cfg.findCheckpointVersion st0.pm r = .ok valid)
    (hdraw : ∀ k, ∃ j < cfg.fuel, cfg.randomHeight (k + j) ≠ 0) (tid : Nat) :
    ∃ st', (match (st.pm r).recordType with
        | .SortedRecord => addHeader cfg tid r st
        | .SortedElem => addElement cfg tid r st
        | _ => pure st) = .ok st' ∧ IntakeSegs cfg st0 (rs ++ [(tid, r)]) st' := by
  have hpm := hinv.pm
  have hc : checkAndRepairLinkage st.pm r = (true, st.pm) :=
    checkAndRepairLinkage_of_linked (by rw [hpm]; exact hl)
  have ht' : (st.pm r).recordType = (st0.pm r).recordType := by rw [hpm]
  cases ht : (st0.pm r).recordType with
  | SortedRecord =>
    refine ⟨{ st with linkedHeaders := st.linkedHeaders ++ [r] }, by simp only [ht', ht, addHeader,
      kvdkAssert, hc, if_pos, bind, Except.bind, pure, Except.pure],
      ⟨?_, hinv.dram, fun p hp => hinv.segs_snoc hp _, hinv.nodup⟩⟩
    rw [offeredHeaders_snoc, if_pos ht, ← List.append_assoc]
    conv_lhs => rw [hinv.rest]
  | SortedElem =>
    obtain ⟨valid, hvalid⟩ := hf ht
    obtain ⟨st', hs, hinv'⟩ := hinv.sample hmode ht hvalid hdraw tid
    refine ⟨st', ?_, hinv'⟩
    simp only [ht', ht, addElement, kvdkAssert, hc, if_pos, hmode, bind, Except.bind, pure,
      Except.pure, Bool.not_true, Bool.false_eq_true, if_false]
    exact hs
  | _ =>
    refine ⟨st, by rw [ht', ht]; rfl, ⟨?_, hinv.dram, fun p hp => hinv.segs_snoc hp _, hinv.nodup⟩⟩
    rw [offeredHeaders_snoc, if_neg (by rw [ht]; decide), List.append_nil]
    exact hinv.rest

/-- **The intake in segment mode**: over records linked on both sides, each element with its
checkpoint version found, it returns and leaves what `IntakeSegs` says. -/
theorem intake_segmentBased (hmode : cfg.segmentBasedRebuild = true)
    (hdraw : ∀ k, ∃ j < cfg.fuel, cfg.randomHeight (k + j) ≠ 0) :
    ∀ (rs' rs : List (Nat × PMemOffsetType)) (st : RebuilderState), IntakeSegs cfg st0 rs st →
      (∀ p ∈ rs', checkLinkage st0.pm p.2 = true ∧ ((st0.pm p.2).recordType = .SortedElem →
        ∃ valid, cfg.findCheckpointVersion st0.pm p.2 = .ok valid)) →
      ∃ st', intake cfg rs' st = .ok st' ∧ IntakeSegs cfg st0 (rs ++ rs') st'
  | [], rs, st, hinv, _ => ⟨st, rfl, by simpa using hinv⟩
  | (tid, r) :: rs', rs, st, hinv, hall => by
    obtain ⟨hl, hf⟩ := hall (tid, r) (List.mem_cons_self _ _)
    dsimp only at hl hf
    obtain ⟨st1, h1, hinv1⟩ := hinv.step hmode hl hf hdraw tid
    obtain ⟨st', h2, hinv'⟩ := intake_segmentBased hmode hdraw rs' (rs ++ [(tid, r)]) st1 hinv1
      fun p hp => hall p (List.mem_cons_of_mem _ hp)
    refine ⟨st', ?_, by simpa using hinv'⟩
    rw [intake]
    cases ht : (st.pm r).recordType <;> simp only [ht] at h1 ⊢ <;> rw [h1] <;> exact h2

end Intake

end Kvdk
