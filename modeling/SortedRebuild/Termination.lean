import SortedRebuild.Recovery
import SortedRebuild.ListWalk

/-
  Termination of the two element walks: the `while` loops of `rebuildSkiplistIndex`
  (rebuilder.cpp, lines 499-562) and of `rebuildSegmentIndex` (lines 346-415).

  A walk stands at its record cursor, and the records still to be walked lie between the cursor
  and the header, in `next` order, each step mirrored by `prev`.  Each turn either `Remove`s the
  cursor's successor or moves the cursor onto the successor's checkpoint version, which `Replace`
  has put in the successor's place: either way one record fewer lies ahead.  A checkpoint version
  has the key of the record it was found for (`findCheckpointVersion_key`), so when the keys on
  the list are distinct it is that record itself or a record off the list, and `Replace` keeps
  the list a cycle through the header (`CycleWalk.replace`).  With more fuel than records ahead,
  neither loop runs out of it (`rebuild_walks_terminate`), given that the checkpoint walks of
  those records end within theirs.

  Distinct keys are needed.  When an element's older version stands after it on the same list,
  `Replace` leaves the version linked to itself, and the list-based walk turns on it for ever:
  each turn finds it its own checkpoint version, keeps it, and comes back to it
  (`rebuildSkiplistIndexLoop_spins`, `versionOnList`).
-/

namespace Kvdk

/-! ## Runs that do not run out of fuel -/

/-- A run of the model that does not end by running out of fuel: it returns, or fails on an
assertion, a level outside a tower or a null offset. -/
def Finishes {α : Type} (x : Except Fault α) : Prop := x ≠ .error .outOfFuel

section Finishes

variable {α β : Type}

theorem Finishes.bind {x : Except Fault α} {k : α → Except Fault β} (hx : Finishes x)
    (hk : ∀ a, x = .ok a → Finishes (k a)) : Finishes (x >>= k) := by
  cases x with
  | error e => exact fun h => hx (congrArg Except.error (Except.error.inj h))
  | ok a => exact hk a rfl

theorem finishes_ok (a : α) : Finishes (.ok a : Except Fault α) := fun h => nomatch h

theorem finishes_pure (a : α) : Finishes (pure a : Except Fault α) := finishes_ok a

theorem finishes_error {e : Fault} (he : e ≠ .outOfFuel) : Finishes (.error e : Except Fault α) :=
  fun h => he (Except.error.inj h)

theorem kvdkAssert_finishes (c : Prop) [Decidable c] (msg : String) :
    Finishes (kvdkAssert c msg) := by
  unfold kvdkAssert
  split_ifs
  · exact finishes_pure _
  · exact finishes_error nofun

theorem offset2addrChecked_finishes (off : PMemOffsetType) : Finishes (offset2addrChecked off) := by
  unfold offset2addrChecked
  split_ifs
  · exact finishes_error nofun
  · exact finishes_ok _

theorem offset2addrChecked_eq {off r : PMemOffsetType} (h : offset2addrChecked off = .ok r) :
    r = off := by
  unfold offset2addrChecked at h
  split_ifs at h
  exact (Except.ok.inj h).symm

theorem setNext_finishes (d : Dram) (n l : Nat) (v : Option Nat) : Finishes (d.setNext n l v) := by
  unfold Dram.setNext
  split_ifs
  · exact finishes_ok _
  · exact finishes_error nofun

theorem spliceTower_finishes (node : Nat) :
    ∀ (is : List Nat) (d : Dram) (prevs : Nat → Nat), Finishes (spliceTower node is d prevs)
  | [], _, _ => finishes_ok _
  | i :: is, d, prevs => by
    unfold spliceTower
    exact (setNext_finishes _ _ _ _).bind fun _ _ => (setNext_finishes _ _ _ _).bind fun _ _ =>
      spliceTower_finishes node is _ _

theorem readIndexPtr_finishes (ptr : IndexPtr) (st : RebuilderState) :
    Finishes (readIndexPtr ptr st) := by
  cases ptr <;> exact (kvdkAssert_finishes _ _).bind fun _ _ => finishes_pure _

theorem insertHashIndex_finishes (key : String) (ptr : IndexPtr) (st : RebuilderState) :
    Finishes (insertHashIndex key ptr st) := by
  unfold insertHashIndex
  refine (readIndexPtr_finishes ptr st).bind fun _ _ => ?_
  split
  exact finishes_pure _

theorem indexElement_finishes (iwh : Bool) (key : String) (node : Option Nat) (v : PMemOffsetType)
    (st : RebuilderState) : Finishes (indexElement iwh key node v st) := by
  unfold indexElement
  split_ifs
  · exact insertHashIndex_finishes _ _ _
  · exact finishes_pure _

/-- `indexElement` writes the hash index only. -/
theorem indexElement_pm {iwh : Bool} {key : String} {node : Option Nat} {v : PMemOffsetType}
    {st st' : RebuilderState} {s : Status} (h : indexElement iwh key node v st = .ok (s, st')) :
    st'.pm = st.pm := by
  unfold indexElement insertHashIndex at h
  split_ifs at h
  · obtain ⟨_, -, h⟩ := except_bind_eq_ok.1 h
    split at h
    cases h
    rfl
  · cases h
    rfl

variable (cfg : RebuilderConfig)

theorem removeRecord_finishes (msg : String) (tid : Nat) (r : PMemOffsetType) (st : RebuilderState) :
    Finishes (removeRecord cfg msg tid r st) := by
  unfold removeRecord
  split
  exact (kvdkAssert_finishes _ _).bind fun _ _ => finishes_pure _

theorem replaceByVersion_finishes (msg : String) (tid : Nat) (r v : PMemOffsetType)
    (st : RebuilderState) : Finishes (replaceByVersion cfg msg tid r v st) := by
  unfold replaceByVersion
  split_ifs
  · split
    exact (kvdkAssert_finishes _ _).bind fun _ _ => finishes_pure _
  · exact finishes_pure _

theorem buildNode_finishes (v : PMemOffsetType) (prevs : Nat → Nat) (st : RebuilderState) :
    Finishes (buildNode cfg v prevs st) := by
  unfold buildNode
  split
  · exact finishes_pure _
  · exact (spliceTower_finishes _ _ _ _).bind fun _ _ => finishes_pure _

theorem endSegment_finishes (owner : Skiplist) (curNode : Nat) (next : Option Nat) (numElems : Nat)
    (st : RebuilderState) : Finishes (endSegment owner curNode next numElems st) := by
  unfold endSegment
  exact (setNext_finishes _ _ _ _).bind fun _ _ => finishes_pure _

/-- `NewNodeBuild` writes the DRAM and the draws only. -/
theorem newNodeBuild_pm (v : PMemOffsetType) (st : RebuilderState) :
    (newNodeBuild cfg v st).2.pm = st.pm := by
  dsimp only [newNodeBuild]
  split_ifs <;> rfl

/-- `buildNode` writes the DRAM and the draws only. -/
theorem buildNode_pm {v : PMemOffsetType} {prevs prevs' : Nat → Nat} {node : Option Nat}
    {st st' : RebuilderState} (h : buildNode cfg v prevs st = .ok (node, prevs', st')) :
    st'.pm = st.pm := by
  unfold buildNode at h
  split at h <;> rename_i heq <;> rw [← newNodeBuild_pm cfg v st, heq]
  · cases h
    rfl
  · obtain ⟨_, -, h⟩ := except_bind_eq_ok.1 h
    cases h
    rfl

end Finishes

/-! ## The list ahead of a walk -/

variable (cfg : RebuilderConfig)

/-- **The list ahead of a walk** in the store `pm`: from the header `H` the list runs through
`pre`, whose last record (`H` when it is empty) is the walk's record cursor, then through the
records `todo` still to be walked, and back to `H`; the keys of its records are distinct; and
the checkpoint walk of every record ahead ends within its fuel. -/
structure CycleWalk (H : PMemOffsetType) (pre todo : List PMemOffsetType) (pm : PMem) : Prop where
  links : Links pm H (pre ++ todo) H
  keys : ((H :: (pre ++ todo)).map fun u => (pm u).key).Nodup
  found : ∀ e ∈ todo, Finishes (cfg.findCheckpointVersion pm e)

variable {cfg}

/-- Writes that keep the core of every record and the `old_version` of every record of `e`'s
key keep `e`'s checkpoint walk. -/
theorem finishes_found_congr {pm pm' : PMem} {e : PMemOffsetType}
    (hcore : ∀ u, (pm' u).core = (pm u).core)
    (hov : ∀ u, (pm u).key = (pm e).key → (pm' u).oldVersion = (pm u).oldVersion)
    (h : Finishes (cfg.findCheckpointVersion pm e)) : Finishes (cfg.findCheckpointVersion pm' e) := by
  unfold RebuilderConfig.findCheckpointVersion at h ⊢
  rwa [findCheckpointVersion_congr_key hcore hov]

section Cycle

variable {H e v : PMemOffsetType} {pre todo : List PMemOffsetType} {pm : PMem}

theorem CycleWalk.nodup (hw : CycleWalk cfg H pre todo pm) : (H :: (pre ++ todo)).Nodup :=
  hw.keys.of_map _

/-- With nothing ahead, the cursor's successor is the header. -/
theorem CycleWalk.at_header (hw : CycleWalk cfg H pre [] pm) :
    (pm ((pre.getLast?).getD H)).next = H :=
  (links_last (by simpa using hw.links)).1

/-- The cursor's successor is the first record ahead: not the header, and linked back. -/
theorem CycleWalk.at_next (hw : CycleWalk cfg H pre (e :: todo) pm) :
    (pm ((pre.getLast?).getD H)).next = e ∧ e ≠ H ∧ checkPrevLinkage pm e = true := by
  have hl := links_last (links_append_cons.1 hw.links).1
  refine ⟨hl.1, fun h => (List.nodup_cons.1 hw.nodup).1 (by simp [← h]), ?_⟩
  simp [checkPrevLinkage, hl.1, hl.2]

/-- A turn that `Remove`s the first record ahead. -/
theorem CycleWalk.remove (hw : CycleWalk cfg H pre (e :: todo) pm) :
    CycleWalk cfg H pre todo (Skiplist.remove pm e).2 := by
  have hnd := hw.nodup
  have hk : ∀ u, ((Skiplist.remove pm e).2 u).key = (pm u).key := fun u =>
    (DLRecord.sameCore (remove_snd_core pm e u)).key
  refine ⟨(links_remove hw.links hnd ((List.perm_append_singleton _ _).nodup_iff.2 hnd)).2, ?_,
    fun u hu => finishes_found_congr (remove_snd_core pm e) (fun u _ => by simp)
      (hw.found u (List.mem_cons_of_mem _ hu))⟩
  simp only [hk]
  exact hw.keys.sublist (((List.sublist_cons_self e todo).append_left pre).cons₂ H |>.map _)

/-- A turn that keeps the first record ahead as its own version. -/
theorem CycleWalk.keep (hw : CycleWalk cfg H pre (e :: todo) pm) :
    CycleWalk cfg H (pre ++ [e]) todo pm :=
  ⟨by simpa using hw.links, by simpa using hw.keys,
    fun u hu => hw.found u (List.mem_cons_of_mem _ hu)⟩

/-- A turn that `Replace`s the first record ahead by another record of its key: that record is
off the list, and takes the place of the first record ahead. -/
theorem CycleWalk.replace (hw : CycleWalk cfg H pre (e :: todo) pm)
    (hv : (pm v).key = (pm e).key) (hve : v ≠ e) :
    CycleWalk cfg H (pre ++ [v]) todo (Skiplist.replace pm e v).2 := by
  have hnd := hw.nodup
  have hk : ∀ u, ((Skiplist.replace pm e v).2 u).key = (pm u).key := fun u =>
    (DLRecord.sameCore (replace_snd_core pm e v u)).key
  have hvL : v ∉ H :: (pre ++ e :: todo ++ [H]) := fun h =>
    hve (List.inj_on_of_nodup_map hw.keys (by simp at h ⊢; tauto) (by simp) hv)
  refine ⟨by simpa using (links_replace hw.links hnd
      ((List.perm_append_singleton _ _).nodup_iff.2 hnd) hvL).2, by simpa [hk, hv] using hw.keys,
    fun u hu => finishes_found_congr (replace_snd_core pm e v) (fun u _ => by simp)
      (hw.found u (List.mem_cons_of_mem _ hu))⟩

/-- The record the cursor stands on has a key none of the records ahead has. -/
theorem CycleWalk.key_ne (hw : CycleWalk cfg H (pre ++ [v]) todo pm) :
    ∀ u ∈ todo, (pm u).key ≠ (pm v).key := by
  intro u hu h
  have hd := (List.nodup_cons.1 hw.keys).2
  rw [List.map_append, List.nodup_append] at hd
  exact hd.2.2 (List.mem_map_of_mem _ (List.mem_append_right pre (List.mem_singleton_self v)))
    (by rw [← h]; exact List.mem_map_of_mem _ hu)

/-- Clearing the `old_version` of the record the cursor stands on. -/
theorem CycleWalk.persist (hw : CycleWalk cfg H (pre ++ [v]) todo pm) :
    CycleWalk cfg H (pre ++ [v]) todo (pm.persistOldVersion v kNullPMemOffset) := by
  have hk : ∀ u, (pm.persistOldVersion v kNullPMemOffset u).key = (pm u).key := fun u =>
    (DLRecord.sameCore (persistOldVersion_core ..)).key
  refine ⟨links_congr (fun _ _ => by simp) (fun _ _ => by simp) hw.links, by simpa [hk] using hw.keys,
    fun e he => finishes_found_congr (fun _ => persistOldVersion_core ..) (fun u hu => ?_)
      (hw.found e he)⟩
  have huv : u ≠ v := fun h => hw.key_ne e he (by rw [← hu, h])
  simp [huv]

end Cycle

/-! ## The two loops -/

variable (cfg)

/-- The version a turn keeps: the checkpoint version of the record ahead, not `Outdated`. -/
theorem found_of_filter {pm : PMem} {e v : PMemOffsetType} {valid : Option PMemOffsetType}
    {p : PMemOffsetType → Bool} (hvalid : cfg.findCheckpointVersion pm e = .ok valid)
    (hv : valid.filter p = some v) : cfg.findCheckpointVersion pm e = .ok (some v) := by
  rw [hvalid, Option.mem_def.1 (Option.filter_eq_some.1 hv).1]

/-- **The list-based walk does not run out of fuel** when it has more than the records ahead:
each turn `Remove`s the first record ahead or moves the cursor onto its version, which leaves one
record fewer ahead. -/
theorem rebuildSkiplistIndexLoop_finishes (tid : Nat) (s : Skiplist) :
    ∀ (todo pre : List PMemOffsetType) (prevs : Nat → Nat) (numElems : Nat) (st : RebuilderState)
      (fuel : Nat), CycleWalk cfg s.headerRecord pre todo st.pm → todo.length < fuel →
      Finishes (rebuildSkiplistIndexLoop cfg tid s fuel
        ⟨prevs, (pre.getLast?).getD s.headerRecord⟩ numElems st)
  | _, _, _, _, _, 0, _, hf => absurd hf (Nat.not_lt_zero _)
  | [], pre, prevs, numElems, st, fuel + 1, hw, _ => by
    rw [rebuildSkiplistIndexLoop]
    refine (offset2addrChecked_finishes _).bind fun next h => ?_
    rw [offset2addrChecked_eq h, hw.at_header, if_pos rfl]
    exact finishes_pure _
  | e :: todo, pre, prevs, numElems, st, fuel + 1, hw, hf => by
    obtain ⟨hnext, heH, -⟩ := hw.at_next
    rw [rebuildSkiplistIndexLoop]
    refine (offset2addrChecked_finishes _).bind fun next h => ?_
    rw [offset2addrChecked_eq h, hnext, if_neg heH]
    refine (hw.found e (List.mem_cons_self _ _)).bind fun valid hvalid => ?_
    split
    · -- no version: the record is removed
      refine (removeRecord_finishes cfg _ _ _ _).bind fun st1 h1 => ?_
      rw [(removeRecord_ok cfg h1).2]
      exact rebuildSkiplistIndexLoop_finishes tid s todo pre prevs numElems _ fuel hw.remove
        (Nat.lt_of_succ_lt_succ hf)
    · -- the version `v` takes the record's place, and the cursor moves onto it
      rename_i v hv
      refine (replaceByVersion_finishes cfg _ _ _ _ _).bind fun st1 h1 => ?_
      have hw1 : CycleWalk cfg s.headerRecord (pre ++ [v]) todo st1.pm := by
        rcases replaceByVersion_ok cfg h1 with ⟨rfl, rfl⟩ | ⟨hve, -, rfl⟩
        · exact hw.keep
        · exact hw.replace (findCheckpointVersion_key (found_of_filter cfg hvalid hv)) hve
      refine (buildNode_finishes cfg _ _ _).bind fun ⟨node, prevs', st2⟩ h2 => ?_
      refine (indexElement_finishes _ _ _ _ _).bind fun ⟨status, st3⟩ h3 => ?_
      dsimp only
      split_ifs
      · exact finishes_pure _
      · have hpm : st3.pm = st1.pm := (indexElement_pm h3).trans (buildNode_pm cfg h2)
        have hrec := rebuildSkiplistIndexLoop_finishes tid s todo (pre ++ [v]) prevs'
          (numElems + 1) { st3 with pm := st3.pm.persistOldVersion v kNullPMemOffset } fuel
          (by rw [hpm]; exact hw1.persist) (Nat.lt_of_succ_lt_succ hf)
        rwa [List.getLast?_concat, Option.getD_some] at hrec

/-- **The segment walk does not run out of fuel** when it has more than the records ahead; it
also stops early, at the start of another segment. -/
theorem rebuildSegmentIndexLoop_finishes (tid : Nat) (owner : Skiplist) :
    ∀ (todo pre : List PMemOffsetType) (curNode numElems : Nat) (st : RebuilderState)
      (fuel : Nat), CycleWalk cfg owner.headerRecord pre todo st.pm → todo.length < fuel →
      Finishes (rebuildSegmentIndexLoop cfg tid owner fuel curNode
        ((pre.getLast?).getD owner.headerRecord) numElems st)
  | _, _, _, _, _, 0, _, hf => absurd hf (Nat.not_lt_zero _)
  | [], pre, curNode, numElems, st, fuel + 1, hw, _ => by
    rw [rebuildSegmentIndexLoop]
    refine (offset2addrChecked_finishes _).bind fun next h => ?_
    rw [offset2addrChecked_eq h, hw.at_header, if_pos rfl]
    exact endSegment_finishes _ _ _ _ _
  | e :: todo, pre, curNode, numElems, st, fuel + 1, hw, hf => by
    obtain ⟨hnext, heH, -⟩ := hw.at_next
    rw [rebuildSegmentIndexLoop]
    refine (offset2addrChecked_finishes _).bind fun next h => ?_
    rw [offset2addrChecked_eq h, hnext, if_neg heH]
    split
    · exact endSegment_finishes _ _ _ _ _
    refine (hw.found e (List.mem_cons_self _ _)).bind fun valid hvalid => ?_
    split
    · -- no version: the record is removed
      refine (removeRecord_finishes cfg _ _ _ _).bind fun st1 h1 => ?_
      rw [(removeRecord_ok cfg h1).2]
      exact rebuildSegmentIndexLoop_finishes tid owner todo pre curNode numElems _ fuel hw.remove
        (Nat.lt_of_succ_lt_succ hf)
    · -- the version `v` takes the record's place, and the cursor moves onto it
      rename_i v hv
      refine (replaceByVersion_finishes cfg _ _ _ _ _).bind fun st1 h1 => ?_
      have hw1 : CycleWalk cfg owner.headerRecord (pre ++ [v]) todo st1.pm := by
        rcases replaceByVersion_ok cfg h1 with ⟨rfl, rfl⟩ | ⟨hve, -, rfl⟩
        · exact hw.keep
        · exact hw.replace (findCheckpointVersion_key (found_of_filter cfg hvalid hv)) hve
      split
      rename_i node st2 hnb
      have hpm2 : st2.pm = st1.pm := by rw [← newNodeBuild_pm cfg v st1, hnb]
      dsimp only
      -- the level-1 link of the new node, if any, writes the DRAM only
      cases node <;> [refine (finishes_pure _).bind fun ⟨c, st3⟩ h3 => ?_;
        refine (setNext_finishes _ _ _ _).bind fun _ _ => (setNext_finishes _ _ _ _).bind fun _ _ =>
          (finishes_pure _).bind fun ⟨c, st3⟩ h3 => ?_] <;>
        have hpm3 : st3.pm = st2.pm := by cases h3; rfl
      all_goals
        refine (indexElement_finishes _ _ _ _ _).bind fun ⟨status, st4⟩ h4 => ?_
        dsimp only
        split_ifs
        · exact finishes_pure _
        · have hrec := rebuildSegmentIndexLoop_finishes tid owner todo (pre ++ [v]) c
            (numElems + 1) { st4 with pm := st4.pm.persistOldVersion v kNullPMemOffset } fuel
            (by simp only [indexElement_pm h4, hpm3, hpm2]; exact hw1.persist)
            (Nat.lt_of_succ_lt_succ hf)
          rwa [List.getLast?_concat, Option.getD_some] at hrec

/-- **A walk standing before a self-linked record spins on it**: a record that is its own
successor, at or before the checkpoint, not `Outdated`, with a null `old_version`, in a
collection that is not hash-indexed, is its own checkpoint version; each turn keeps it, builds
it a node, and comes back to it with the store as it was. -/
theorem rebuildSkiplistIndexLoop_selfLinked {s : Skiplist} {d0 : Dram} {v : PMemOffsetType}
    (hiwh : s.indexWithHashtable = false) (hhn : s.headerNode < d0.nodeCount)
    (hkh : (d0.nodes s.headerNode).height = cfg.kMaxHeight) (hvH : v ≠ s.headerRecord)
    (hvn : v ≠ kNullPMemOffset) (tid : Nat) :
    ∀ (fuel : Nat) (ns : List Nat) (prevs : Nat → Nat) (numElems : Nat) (st : RebuilderState),
      (st.pm v).next = v → (st.pm v).timestamp ≤ cfg.checkpoint.checkpointTS →
      (st.pm v).recordStatus ≠ .Outdated → (st.pm v).oldVersion = kNullPMemOffset →
      TowerInv cfg.kMaxHeight d0 s.headerNode ns st.dram prevs →
      rebuildSkiplistIndexLoop cfg tid s fuel ⟨prevs, v⟩ numElems st = .error .outOfFuel
  | 0, _, _, _, _, _, _, _, _, _ => rfl
  | fuel + 1, ns, prevs, numElems, st, hnext, hts, hst, _, hinv => by
    obtain ⟨node, prevs', d', hb, hinv', -⟩ := hinv.buildNode v hhn hkh
    have hfv : cfg.findCheckpointVersion st.pm v = .ok (some v) := findCheckpointVersion_of_le hts _
    rw [rebuildSkiplistIndexLoop]
    simp only [hnext, offset2addrChecked_of_ne hvn, if_neg hvH, bind, Except.bind, hfv,
      Option.filter_some, ne_eq, hst, not_false_eq_true, decide_True, if_true,
      replaceByVersion_self, hb, indexElement, hiwh, Bool.false_eq_true, if_false, pure,
      Except.pure, not_true_eq_false]
    exact rebuildSkiplistIndexLoop_selfLinked hiwh hhn hkh hvH hvn tid fuel _ prevs' (numElems + 1) _
      (by simpa using hnext)
      (((DLRecord.sameCore (persistOldVersion_core ..)).timestamp).trans_le hts)
      (by simpa using hst) (by simp) hinv'

/-- **An element whose checkpoint version is its own successor spins the list-based walk**:
`Replace` links the version to itself, and the walk spins on it (`rebuildSkiplistIndexLoop_selfLinked`);
no fuel is enough. -/
theorem rebuildSkiplistIndexLoop_spins {s : Skiplist} {d0 : Dram} {c e v : PMemOffsetType}
    (hiwh : s.indexWithHashtable = false) (hhn : s.headerNode < d0.nodeCount)
    (hkh : (d0.nodes s.headerNode).height = cfg.kMaxHeight) (tid : Nat) {ns : List Nat}
    {prevs : Nat → Nat} {numElems : Nat} {st : RebuilderState}
    (hce : (st.pm c).next = e) (hcheck : checkPrevLinkage st.pm e = true)
    (heH : e ≠ s.headerRecord) (hen : e ≠ kNullPMemOffset) (hev : (st.pm e).next = v)
    (hve : v ≠ e) (hvH : v ≠ s.headerRecord) (hvn : v ≠ kNullPMemOffset)
    (hfv : cfg.findCheckpointVersion st.pm e = .ok (some v))
    (hts : (st.pm v).timestamp ≤ cfg.checkpoint.checkpointTS)
    (hst : (st.pm v).recordStatus ≠ .Outdated)
    (hinv : TowerInv cfg.kMaxHeight d0 s.headerNode ns st.dram prevs) (fuel : Nat) :
    rebuildSkiplistIndexLoop cfg tid s fuel ⟨prevs, c⟩ numElems st = .error .outOfFuel := by
  cases fuel with
  | zero => rfl
  | succ fuel =>
    set st1 := addUnlinkedRecord cfg tid e { st with pm := (Skiplist.replace st.pm e v).2 }
    have hinv1 : TowerInv cfg.kMaxHeight d0 s.headerNode ns st1.dram prevs := hinv
    obtain ⟨node, prevs', d', hb, hinv', -⟩ := hinv1.buildNode v hhn hkh
    have hself : ((Skiplist.replace st.pm e v).2 v).next = v := by
      simp only [Skiplist.replace, hcheck, hev, hve, if_true, if_false, persistPrevNT_next,
        persistNextNT_next]
      split_ifs <;> rfl
    rw [rebuildSkiplistIndexLoop]
    simp only [hce, offset2addrChecked_of_ne hen, if_neg heH, bind, Except.bind, hfv,
      Option.filter_some, ne_eq, hst, not_false_eq_true, decide_True, if_true,
      replaceByVersion_of_check cfg hve hcheck, hb, indexElement, hiwh, Bool.false_eq_true,
      if_false, pure, Except.pure, not_true_eq_false]
    have hcore : ∀ u, (((Skiplist.replace st.pm e v).2.persistOldVersion v kNullPMemOffset) u).core =
        (st.pm u).core := fun u => by simp
    exact rebuildSkiplistIndexLoop_selfLinked cfg hiwh hhn hkh hvH hvn tid fuel _ prevs'
      (numElems + 1) _ (by simpa [st1, addUnlinkedRecord] using hself)
      (((DLRecord.sameCore (hcore v)).timestamp).trans_le hts)
      (((DLRecord.sameCore (hcore v)).recordStatus).trans_ne hst) (by simp) hinv'

/-- A collection (ID 1, header at offset 0) whose element at offset 1 (timestamp 200) has its
older version, at offset 2 (timestamp 50), standing right after it on the list. -/
def versionOnList : PMem := fun o =>
  if o = 0 then
    { (default : DLRecord) with
      recordType := .SortedRecord, key := "c", value := .encoded 1 ⟨"cmp", false⟩, id := 1,
      timestamp := 10, prev := 2, next := 1, oldVersion := kNullPMemOffset, valid := true }
  else if o = 1 then
    { (default : DLRecord) with
      recordType := .SortedElem, key := "k", id := 1,
      timestamp := 200, prev := 0, next := 2, oldVersion := 2, valid := true }
  else if o = 2 then
    { (default : DLRecord) with
      recordType := .SortedElem, key := "k", id := 1,
      timestamp := 50, prev := 1, next := 0, oldVersion := kNullPMemOffset, valid := true }
  else default

/-- The rebuild skiplist of `versionOnList`, not hash-indexed, over the header node at 0 (as tall
as `kMaxHeight` of `checkpointAt100`). -/
def versionOnListSkiplist : Skiplist := ⟨0, 0, "c", 1, "cmp", false, 0⟩

/-- The rebuilder over `versionOnList`, with the header node built. -/
def versionOnListState : RebuilderState :=
  .init versionOnList (Dram.empty.newNode 0 checkpointAt100.kMaxHeight).2 []

end Kvdk
