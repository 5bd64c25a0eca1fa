import SortedRebuild.Record

/-
  Checkpoint version resolution: `SortedCollectionRebuilder::findCheckpointVersion`
  (rebuilder.cpp, lines 676-702).

  When recovery targets a checkpoint, the rebuilder walks the `old_version` chain of a record
  while the timestamp is past the checkpoint.  Every ancestor it steps to must validate and carry
  the key of the record it started from (two `kvdk_assert`s), and an ancestor of another
  collection ID ends the walk in `nullptr` (its offset was reused by an unrelated record).

  The specification is stated over the chain as a list.  `VersionChain pm ch` says that `ch` is a
  complete old-version chain (each record's `old_version` is the next one, the last one's is
  null), and `chainVersion` picks from it the first record at or before the checkpoint unless a
  record of another collection comes first.  The results:

  * `exists_versionChain` — strictly decreasing timestamps make the chain of every record finite;
  * `checkpointWalk_chain` — on a finite chain whose records the walk reads (those after a run of
    records of the collection past the checkpoint) are valid and of one key, the walk returns
    `chainVersion` of it once it has as much fuel as the chain is long;
  * `checkpointWalk_assert` — an ancestor the walk reaches that does not validate, or has
    another key, is an assertion failure;
  * `findCheckpointVersion_some` — a non-null result is at or before the checkpoint, of the
    record's collection and key; `findCheckpointVersion_idem` — it is its own checkpoint version.
-/

namespace Kvdk

/-! ## The checkpoint and the walk -/

/-- The checkpoint a recovery targets; a zero timestamp means none. -/
structure CheckPoint where
  checkpointTS : Nat
  deriving DecidableEq, Repr

/-- Modelled from the spec: `recoverToCheckpoint()` holds when the checkpoint timestamp is
non-zero. -/
def CheckPoint.recoverToCheckpoint (cp : CheckPoint) : Prop :=
  0 < cp.checkpointTS

instance (cp : CheckPoint) : Decidable cp.recoverToCheckpoint :=
  inferInstanceAs (Decidable (0 < cp.checkpointTS))

/-- The `while` loop of `findCheckpointVersion` (lines 685-700): from `curr`, step to the
`old_version` while the timestamp is past the checkpoint `ts`.  `id` and `key` are those of the
record the walk started from. -/
def checkpointWalk (ts : Nat) (pm : PMem) (id : CollectionIDType) (key : String) :
    Nat → Option PMemOffsetType → Except Fault (Option PMemOffsetType)
  | _, none => .ok none
  | fuel, some c =>
    if ts < (pm c).timestamp then
      match fuel with
      | 0 => .error .outOfFuel
      | fuel + 1 => do
        let curr := offset2addr (pm c).oldVersion
        kvdkAssert (curr.all fun o => (pm o).valid)
          "Broken checkpoint: invalid older version sorted record"
        kvdkAssert (curr.all fun o => (pm o).key = key)
          "Broken checkpoint: key of older version sorted data is not same as new version"
        checkpointWalk ts pm id key fuel (curr.filter fun o => (pm o).id = id)
    else .ok (some c)

/-- `SortedCollectionRebuilder::findCheckpointVersion(pmem_record)`; `fuel` bounds its loop. -/
def findCheckpointVersion (cp : CheckPoint) (fuel : Nat) (pm : PMem) (r : PMemOffsetType) :
    Except Fault (Option PMemOffsetType) :=
  if cp.recoverToCheckpoint then
    checkpointWalk cp.checkpointTS pm (pm r).id (pm r).key fuel (some r)
  else .ok (some r)

theorem findCheckpointVersion_of_not_recover {cp : CheckPoint} (h : ¬ cp.recoverToCheckpoint)
    (fuel : Nat) (pm : PMem) (r : PMemOffsetType) :
    findCheckpointVersion cp fuel pm r = .ok (some r) := by
  simp [findCheckpointVersion, h]

theorem checkpointWalk_of_le {ts : Nat} {pm : PMem} {id : CollectionIDType} {key : String}
    {c : PMemOffsetType} (h : (pm c).timestamp ≤ ts) (fuel : Nat) :
    checkpointWalk ts pm id key fuel (some c) = .ok (some c) := by
  unfold checkpointWalk; simp [Nat.not_lt.2 h]

/-- One step of the walk from a record past the checkpoint whose `old_version` is `o`. -/
theorem checkpointWalk_step {ts : Nat} {pm : PMem} {id : CollectionIDType} {key : String}
    {c o : PMemOffsetType} (h : ts < (pm c).timestamp) (ho : (pm c).oldVersion = o)
    (hn : o ≠ kNullPMemOffset) (fuel : Nat) :
    checkpointWalk ts pm id key (fuel + 1) (some c) =
      if (pm o).valid then
        if (pm o).key = key then
          checkpointWalk ts pm id key fuel (if (pm o).id = id then some o else none)
        else .error (.assertion
          "Broken checkpoint: key of older version sorted data is not same as new version")
      else .error (.assertion "Broken checkpoint: invalid older version sorted record") := by
  rw [checkpointWalk, if_pos h]
  simp only [ho, offset2addr_of_ne hn, Option.all_some, Option.filter, kvdkAssert]
  by_cases hv : (pm o).valid <;> by_cases hk : (pm o).key = key <;> simp [hv, hk] <;> rfl

/-- The last step of the walk, from a record past the checkpoint with no older version. -/
theorem checkpointWalk_step_null {ts : Nat} {pm : PMem} {id : CollectionIDType} {key : String}
    {c : PMemOffsetType} (h : ts < (pm c).timestamp) (ho : (pm c).oldVersion = kNullPMemOffset)
    (fuel : Nat) : checkpointWalk ts pm id key (fuel + 1) (some c) = .ok none := by
  rw [checkpointWalk, if_pos h]
  simp [ho, kvdkAssert, checkpointWalk]

/-! ## Old-version chains -/

/-- The records reachable from `r` by `old_version` steps. -/
inductive OldVersionReach (pm : PMem) (r : PMemOffsetType) : PMemOffsetType → Prop
  | refl : OldVersionReach pm r r
  | step {x : PMemOffsetType} : OldVersionReach pm r x → (pm x).oldVersion ≠ kNullPMemOffset →
      OldVersionReach pm r (pm x).oldVersion

/-- `VersionChain pm ch`: `ch` is a complete old-version chain, newest first: each record's
`old_version` is the next one, and the last one's is null. -/
def VersionChain (pm : PMem) : List PMemOffsetType → Prop
  | [] => False
  | [x] => (pm x).oldVersion = kNullPMemOffset
  | x :: y :: rest =>
    (pm x).oldVersion = y ∧ y ≠ kNullPMemOffset ∧ VersionChain pm (y :: rest)

/-- The version a checkpoint at `ts` selects from the chain: the first record at or before it,
unless a record of a collection other than `id` comes first. -/
def chainVersion (pm : PMem) (ts : Nat) (id : CollectionIDType) :
    List PMemOffsetType → Option PMemOffsetType
  | [] => none
  | x :: xs =>
    if (pm x).id = id then (if (pm x).timestamp ≤ ts then some x else chainVersion pm ts id xs)
    else none

theorem OldVersionReach.trans {pm : PMem} {r x y : PMemOffsetType} (hx : OldVersionReach pm r x)
    (hy : OldVersionReach pm x y) : OldVersionReach pm r y := by
  induction hy with
  | refl => exact hx
  | step _ hn ih => exact ih.step hn

/-- Reaching a record in a store whose `old_version` fields agree, on the records reachable in
the other store, reaches it in the other store too. -/
theorem OldVersionReach.of_congr {pm pm' : PMem} {r u : PMemOffsetType}
    (hov : ∀ x, OldVersionReach pm r x → (pm' x).oldVersion = (pm x).oldVersion)
    (hu : OldVersionReach pm' r u) : OldVersionReach pm r u := by
  induction hu with
  | refl => exact .refl
  | step _ hn ih => rw [hov _ ih] at hn ⊢; exact ih.step hn

/-- A record without an older version reaches only itself. -/
theorem OldVersionReach.eq_of_null {pm : PMem} {r u : PMemOffsetType}
    (hn : (pm r).oldVersion = kNullPMemOffset) (hu : OldVersionReach pm r u) : u = r := by
  induction hu with
  | refl => rfl
  | step _ hx ih => subst ih; exact absurd hn hx

/-- Every record of the chain after `r` is the `old_version` of a record reachable from `r`. -/
theorem versionChain_mem {pm : PMem} : ∀ {r : PMemOffsetType} {ch : List PMemOffsetType},
    VersionChain pm (r :: ch) → ∀ x ∈ ch, ∃ y, OldVersionReach pm r y ∧
      (pm y).oldVersion ≠ kNullPMemOffset ∧ (pm y).oldVersion = x
  | _, [], _, _, hx => absurd hx (List.not_mem_nil _)
  | r, y :: rest, ⟨hry, hy, hch⟩, x, hx => by
    rcases List.mem_cons.1 hx with rfl | hx
    · exact ⟨r, .refl, hry ▸ hy, hry⟩
    · obtain ⟨z, hz, hzn, hzx⟩ := versionChain_mem hch x hx
      exact ⟨z, (hry ▸ OldVersionReach.refl.step (hry ▸ hy) : OldVersionReach pm r y).trans hz,
        hzn, hzx⟩

/-- **Strictly decreasing timestamps make every old-version chain finite.** -/
theorem exists_versionChain {pm : PMem} {r : PMemOffsetType}
    (hdec : ∀ x, OldVersionReach pm r x → (pm x).oldVersion ≠ kNullPMemOffset →
      (pm (pm x).oldVersion).timestamp < (pm x).timestamp) :
    ∃ ch, VersionChain pm (r :: ch) := by
  suffices ∀ n x, OldVersionReach pm r x → (pm x).timestamp ≤ n → ∃ ch, VersionChain pm (x :: ch)
    from this _ r .refl (Nat.le_refl _)
  intro n
  induction n with
  | zero =>
    intro x hx hts
    by_cases hn : (pm x).oldVersion = kNullPMemOffset
    · exact ⟨[], hn⟩
    · have := hdec x hx hn; omega
  | succ n ih =>
    intro x hx hts
    by_cases hn : (pm x).oldVersion = kNullPMemOffset
    · exact ⟨[], hn⟩
    · obtain ⟨ch, hch⟩ := ih _ (hx.step hn) (by have := hdec x hx hn; omega)
      exact ⟨(pm x).oldVersion :: ch, rfl, hn, hch⟩

/-- **The walk over a finite chain.**  From a record of collection `id`, on a chain whose
ancestors validate and carry `key`, a walk with as much fuel as the chain is long returns the
version `chainVersion` selects. -/
theorem checkpointWalk_chain {ts : Nat} {pm : PMem} {id : CollectionIDType} {key : String} :
    ∀ {c : PMemOffsetType} {rest : List PMemOffsetType} {fuel : Nat},
      VersionChain pm (c :: rest) → (pm c).id = id →
      (∀ pre y post, rest = pre ++ y :: post →
        (∀ x ∈ c :: pre, ts < (pm x).timestamp ∧ (pm x).id = id) → (pm y).valid ∧ (pm y).key = key) →
      rest.length < fuel →
      checkpointWalk ts pm id key fuel (some c) = .ok (chainVersion pm ts id (c :: rest))
  | c, [], fuel, hch, hid, _, _ => by
    by_cases hts : (pm c).timestamp ≤ ts
    · simp [checkpointWalk_of_le hts, chainVersion, hid, hts]
    · obtain ⟨fuel, rfl⟩ : ∃ f, fuel = f + 1 := ⟨fuel - 1, by simp at *; omega⟩
      rw [checkpointWalk_step_null (Nat.lt_of_not_le hts) hch]
      simp [chainVersion, hid, hts]
  | c, y :: rest, fuel, hch, hid, hrec, hlen => by
    obtain ⟨ho, hn, hch'⟩ := hch
    by_cases hts : (pm c).timestamp ≤ ts
    · simp [checkpointWalk_of_le hts, chainVersion, hid, hts]
    · obtain ⟨fuel, rfl⟩ : ∃ f, fuel = f + 1 := ⟨fuel - 1, by simp at hlen; omega⟩
      have hc : ts < (pm c).timestamp ∧ (pm c).id = id := ⟨Nat.lt_of_not_le hts, hid⟩
      have hy := hrec [] y rest rfl (by simpa using hc)
      rw [checkpointWalk_step hc.1 ho hn, if_pos hy.1, if_pos hy.2]
      by_cases hyid : (pm y).id = id
      · rw [if_pos hyid, checkpointWalk_chain hch' hyid (fun pre z post he hpre =>
          hrec (y :: pre) z post (by rw [he]; rfl) (List.forall_mem_cons.2 ⟨hc, hpre⟩))
          (by simp at hlen; omega)]
        simp [chainVersion, hid, hts]
      · simp [if_neg hyid, checkpointWalk, chainVersion, hid, hts, hyid]

/-- **An ancestor the walk reaches that does not validate, or carries another key, is an
assertion failure.** -/
theorem checkpointWalk_assert {ts : Nat} {pm : PMem} {id : CollectionIDType} {key : String} :
    ∀ {c : PMemOffsetType} {pre : List PMemOffsetType} {y : PMemOffsetType}
      {post : List PMemOffsetType} {fuel : Nat},
      VersionChain pm (c :: (pre ++ y :: post)) → (∀ x ∈ c :: pre, ts < (pm x).timestamp) →
      (∀ x ∈ pre, (pm x).valid ∧ (pm x).key = key ∧ (pm x).id = id) →
      ((pm y).valid = false ∨ (pm y).key ≠ key) → pre.length < fuel →
      ∃ msg, checkpointWalk ts pm id key fuel (some c) = .error (.assertion msg)
  | c, [], y, post, fuel, hch, hts, _, hy, hlen => by
    obtain ⟨fuel, rfl⟩ : ∃ f, fuel = f + 1 := ⟨fuel - 1, by simp at hlen; omega⟩
    obtain ⟨ho, hn, -⟩ := hch
    rw [checkpointWalk_step (hts c (by simp)) ho hn]
    rcases hy with hy | hy
    · simp [hy]
    · by_cases hv : (pm y).valid <;> simp [hv, hy]
  | c, p :: pre, y, post, fuel, hch, hts, hpre, hy, hlen => by
    obtain ⟨fuel, rfl⟩ : ∃ f, fuel = f + 1 := ⟨fuel - 1, by simp at hlen; omega⟩
    obtain ⟨ho, hn, hch'⟩ := hch
    obtain ⟨hv, hk, hid⟩ := hpre p (by simp)
    rw [checkpointWalk_step (hts c (by simp)) ho hn, if_pos hv, if_pos hk, if_pos hid]
    exact checkpointWalk_assert hch' (fun x hx => hts x (List.mem_cons_of_mem _ hx))
      (fun x hx => hpre x (by simp [hx])) hy (by simp at hlen; omega)

/-- What the walk returns, when it returns a record: one at or before the checkpoint, of the
collection and key the walk started from. -/
theorem checkpointWalk_some {ts : Nat} {pm : PMem} {id : CollectionIDType} {key : String} :
    ∀ {fuel : Nat} {c v : PMemOffsetType}, (pm c).id = id → (pm c).key = key →
      checkpointWalk ts pm id key fuel (some c) = .ok (some v) →
      (pm v).timestamp ≤ ts ∧ (pm v).id = id ∧ (pm v).key = key
  | fuel, c, v, hid, hk, h => by
    by_cases hts : (pm c).timestamp ≤ ts
    · rw [checkpointWalk_of_le hts] at h
      cases h; exact ⟨hts, hid, hk⟩
    · have hlt := Nat.lt_of_not_le hts
      match fuel with
      | 0 => simp [checkpointWalk, hlt] at h
      | fuel + 1 =>
        by_cases hn : (pm c).oldVersion = kNullPMemOffset
        · rw [checkpointWalk_step_null hlt hn] at h; cases h
        · rw [checkpointWalk_step hlt rfl hn] at h
          split_ifs at h with hv hk' hid'
          · exact checkpointWalk_some hid' hk' h
          · simp [checkpointWalk] at h

/-- The record the walk returns is reached from its start by `old_version` steps. -/
theorem checkpointWalk_reach {ts : Nat} {pm : PMem} {id : CollectionIDType} {key : String}
    {r v : PMemOffsetType} : ∀ {fuel : Nat} {c : PMemOffsetType}, OldVersionReach pm r c →
      checkpointWalk ts pm id key fuel (some c) = .ok (some v) → OldVersionReach pm r v
  | fuel, c, hc, h => by
    by_cases hts : (pm c).timestamp ≤ ts
    · rw [checkpointWalk_of_le hts] at h
      cases h; exact hc
    · have hlt := Nat.lt_of_not_le hts
      match fuel with
      | 0 => simp [checkpointWalk, hlt] at h
      | fuel + 1 =>
        by_cases hn : (pm c).oldVersion = kNullPMemOffset
        · rw [checkpointWalk_step_null hlt hn] at h; cases h
        · rw [checkpointWalk_step hlt rfl hn] at h
          split_ifs at h
          · exact checkpointWalk_reach (hc.step hn) h
          · simp [checkpointWalk] at h

/-- A checkpoint version is an old version of the record it was found for. -/
theorem findCheckpointVersion_reach {cp : CheckPoint} {fuel : Nat} {pm : PMem}
    {r v : PMemOffsetType} (h : findCheckpointVersion cp fuel pm r = .ok (some v)) :
    OldVersionReach pm r v := by
  unfold findCheckpointVersion at h
  split_ifs at h
  · exact checkpointWalk_reach .refl h
  · cases h; exact .refl

/-- The walk in collection `id` reads the core of records and the `old_version` of records of
that collection, and nothing else: two stores that agree on these walk alike. -/
theorem checkpointWalk_congr {ts : Nat} {pm pm' : PMem} {id : CollectionIDType} {key : String}
    (hcore : ∀ u, (pm' u).core = (pm u).core)
    (hov : ∀ u, (pm u).id = id → (pm' u).oldVersion = (pm u).oldVersion) :
    ∀ {fuel : Nat} {c : PMemOffsetType}, (pm c).id = id →
      checkpointWalk ts pm' id key fuel (some c) = checkpointWalk ts pm id key fuel (some c)
  | fuel, c, hc => by
    have hts := fun u => (DLRecord.sameCore (hcore u)).timestamp
    have hv := fun u => (DLRecord.sameCore (hcore u)).valid
    have hk := fun u => (DLRecord.sameCore (hcore u)).key
    have hi := fun u => (DLRecord.sameCore (hcore u)).id
    match fuel with
    | 0 => simp only [checkpointWalk, hts]
    | fuel + 1 =>
      have hrec : ∀ F : Option PMemOffsetType, (∀ o ∈ F, (pm o).id = id) →
          checkpointWalk ts pm' id key fuel F = checkpointWalk ts pm id key fuel F := by
        rintro (_ | o) hF
        · simp [checkpointWalk]
        · exact checkpointWalk_congr hcore hov (hF o rfl)
      simp only [checkpointWalk, hts, hv, hk, hi, hov c hc]
      rw [hrec _ fun o ho => by simpa using (Option.mem_filter_iff.1 ho).2]

/-- `findCheckpointVersion` of a record reads what its walk reads. -/
theorem findCheckpointVersion_congr {cp : CheckPoint} {fuel : Nat} {pm pm' : PMem}
    {r : PMemOffsetType} (hcore : ∀ u, (pm' u).core = (pm u).core)
    (hov : ∀ u, (pm u).id = (pm r).id → (pm' u).oldVersion = (pm u).oldVersion) :
    findCheckpointVersion cp fuel pm' r = findCheckpointVersion cp fuel pm r := by
  simp only [findCheckpointVersion, (DLRecord.sameCore (hcore r)).id,
    (DLRecord.sameCore (hcore r)).key, checkpointWalk_congr hcore hov rfl]

/-- The walk from a record `r` reads the cores of records and the `old_version` of the records
reachable from `r`, and nothing else: two stores that agree on these walk alike. -/
theorem checkpointWalk_congr_reach {ts : Nat} {pm pm' : PMem} {id : CollectionIDType}
    {key : String} {r : PMemOffsetType} (hcore : ∀ u, (pm' u).core = (pm u).core)
    (hov : ∀ u, OldVersionReach pm r u → (pm' u).oldVersion = (pm u).oldVersion) :
    ∀ {fuel : Nat} {c : PMemOffsetType}, OldVersionReach pm r c →
      checkpointWalk ts pm' id key fuel (some c) = checkpointWalk ts pm id key fuel (some c)
  | fuel, c, hc => by
    have hts := fun u => (DLRecord.sameCore (hcore u)).timestamp
    have hv := fun u => (DLRecord.sameCore (hcore u)).valid
    have hk := fun u => (DLRecord.sameCore (hcore u)).key
    have hi := fun u => (DLRecord.sameCore (hcore u)).id
    match fuel with
    | 0 => simp only [checkpointWalk, hts]
    | fuel + 1 =>
      have hrec : ∀ F : Option PMemOffsetType, (∀ o ∈ F, OldVersionReach pm r o) →
          checkpointWalk ts pm' id key fuel F = checkpointWalk ts pm id key fuel F := by
        rintro (_ | o) hF
        · simp [checkpointWalk]
        · exact checkpointWalk_congr_reach hcore hov (hF o rfl)
      simp only [checkpointWalk, hts, hv, hk, hi, hov c hc]
      rw [hrec _ fun o ho => ?_]
      have ho' := (Option.mem_filter_iff.1 ho).1
      by_cases hn : (pm c).oldVersion = kNullPMemOffset
      · simp [hn] at ho'
      · rw [offset2addr_of_ne hn, Option.mem_def, Option.some_inj] at ho'
        exact ho' ▸ hc.step hn

/-- `findCheckpointVersion` of a record reads what its walk reads: the cores of records and the
`old_version` of the records reachable from it. -/
theorem findCheckpointVersion_congr_reach {cp : CheckPoint} {fuel : Nat} {pm pm' : PMem}
    {r : PMemOffsetType} (hcore : ∀ u, (pm' u).core = (pm u).core)
    (hov : ∀ u, OldVersionReach pm r u → (pm' u).oldVersion = (pm u).oldVersion) :
    findCheckpointVersion cp fuel pm' r = findCheckpointVersion cp fuel pm r := by
  simp only [findCheckpointVersion, (DLRecord.sameCore (hcore r)).id,
    (DLRecord.sameCore (hcore r)).key, checkpointWalk_congr_reach hcore hov .refl]

/-- The walk reads the `old_version` of records of its key only: at a version of another key it
stops with an assertion before reading further.  Two stores that agree on the cores of all
records and on the `old_version` of the records of that key walk alike. -/
theorem checkpointWalk_congr_key {ts : Nat} {pm pm' : PMem} {id : CollectionIDType} {key : String}
    (hcore : ∀ u, (pm' u).core = (pm u).core)
    (hov : ∀ u, (pm u).key = key → (pm' u).oldVersion = (pm u).oldVersion) :
    ∀ {fuel : Nat} {c : PMemOffsetType}, (pm c).key = key →
      checkpointWalk ts pm' id key fuel (some c) = checkpointWalk ts pm id key fuel (some c)
  | 0, c, _ => by simp only [checkpointWalk, (DLRecord.sameCore (hcore c)).timestamp]
  | fuel + 1, c, hc => by
    have hts := (DLRecord.sameCore (hcore c)).timestamp
    by_cases hlt : ts < (pm c).timestamp
    · have hlt' : ts < (pm' c).timestamp := by rwa [hts]
      by_cases hn : (pm c).oldVersion = kNullPMemOffset
      · rw [checkpointWalk_step_null hlt hn, checkpointWalk_step_null hlt' ((hov c hc).trans hn)]
      · rw [checkpointWalk_step hlt rfl hn, checkpointWalk_step hlt' (hov c hc) hn]
        simp only [(DLRecord.sameCore (hcore _)).valid, (DLRecord.sameCore (hcore _)).key,
          (DLRecord.sameCore (hcore _)).id]
        split_ifs with h1 h2 h3
        · exact checkpointWalk_congr_key hcore hov h2
        · simp [checkpointWalk]
        · rfl
        · rfl
    · rw [checkpointWalk_of_le (Nat.le_of_not_lt hlt),
        checkpointWalk_of_le (by rw [hts]; exact Nat.le_of_not_lt hlt)]

/-- `findCheckpointVersion` of a record reads the `old_version` of records of its key only. -/
theorem findCheckpointVersion_congr_key {cp : CheckPoint} {fuel : Nat} {pm pm' : PMem}
    {r : PMemOffsetType} (hcore : ∀ u, (pm' u).core = (pm u).core)
    (hov : ∀ u, (pm u).key = (pm r).key → (pm' u).oldVersion = (pm u).oldVersion) :
    findCheckpointVersion cp fuel pm' r = findCheckpointVersion cp fuel pm r := by
  simp only [findCheckpointVersion, (DLRecord.sameCore (hcore r)).id,
    (DLRecord.sameCore (hcore r)).key, checkpointWalk_congr_key hcore hov rfl]

/-- A checkpoint version has the key of the record it was found for. -/
theorem findCheckpointVersion_key {cp : CheckPoint} {fuel : Nat} {pm : PMem}
    {r v : PMemOffsetType} (h : findCheckpointVersion cp fuel pm r = .ok (some v)) :
    (pm v).key = (pm r).key := by
  unfold findCheckpointVersion at h
  split_ifs at h
  · exact (checkpointWalk_some rfl rfl h).2.2
  · cases h; rfl

/-- A record at or before the checkpoint is its own checkpoint version. -/
theorem findCheckpointVersion_of_le {cp : CheckPoint} {pm : PMem} {v : PMemOffsetType}
    (h : (pm v).timestamp ≤ cp.checkpointTS) (fuel : Nat) :
    findCheckpointVersion cp fuel pm v = .ok (some v) := by
  unfold findCheckpointVersion; split_ifs <;> simp [checkpointWalk_of_le h]

/-- **`findCheckpointVersion`.**  Without a checkpoint it returns its argument.  With one, the
old-version chain of a record whose timestamps strictly decrease is finite.  On it the walk
terminates and returns the first version at or before the checkpoint unless a version of another
collection comes first (`chainVersion`), whenever every version it reads validates and carries the
record's key: the versions after a run of versions of the collection past the checkpoint, whatever
the chain holds further down.  An ancestor it reaches that does not validate or carries another
key is an assertion failure.  A non-null result is at or before the checkpoint, of the
record's collection and key, and is its own checkpoint version. -/
theorem findCheckpointVersion_correct (cp : CheckPoint) (pm : PMem) (r : PMemOffsetType) :
    (¬ cp.recoverToCheckpoint → ∀ fuel, findCheckpointVersion cp fuel pm r = .ok (some r)) ∧
    (cp.recoverToCheckpoint →
      (∀ x, OldVersionReach pm r x → (pm x).oldVersion ≠ kNullPMemOffset →
        (pm (pm x).oldVersion).timestamp < (pm x).timestamp) →
      ∃ ch, VersionChain pm (r :: ch)) ∧
    (cp.recoverToCheckpoint → ∀ ch, VersionChain pm (r :: ch) →
      (∀ pre y post, ch = pre ++ y :: post →
        (∀ x ∈ r :: pre, cp.checkpointTS < (pm x).timestamp ∧ (pm x).id = (pm r).id) →
        (pm y).valid ∧ (pm y).key = (pm r).key) → ∀ fuel, ch.length < fuel →
      findCheckpointVersion cp fuel pm r =
        .ok (chainVersion pm cp.checkpointTS (pm r).id (r :: ch))) ∧
    (cp.recoverToCheckpoint → ∀ pre y post, VersionChain pm (r :: (pre ++ y :: post)) →
      (∀ x ∈ r :: pre, cp.checkpointTS < (pm x).timestamp) →
      (∀ x ∈ pre, (pm x).valid ∧ (pm x).key = (pm r).key ∧ (pm x).id = (pm r).id) →
      ((pm y).valid = false ∨ (pm y).key ≠ (pm r).key) → ∀ fuel, pre.length < fuel →
      ∃ msg, findCheckpointVersion cp fuel pm r = .error (.assertion msg)) ∧
    (∀ fuel v, findCheckpointVersion cp fuel pm r = .ok (some v) →
      (cp.recoverToCheckpoint → (pm v).timestamp ≤ cp.checkpointTS ∧ (pm v).id = (pm r).id ∧
        (pm v).key = (pm r).key) ∧
      ∀ fuel', findCheckpointVersion cp fuel' pm v = .ok (some v)) := by
  refine ⟨fun h fuel => findCheckpointVersion_of_not_recover h fuel pm r, fun _ hdec => exists_versionChain hdec,
    fun hcp ch hch hrec fuel hlen => ?_, fun hcp pre y post hch hts hpre hy fuel hlen => ?_,
    fun fuel v h => ?_⟩
  · rw [findCheckpointVersion, if_pos hcp]; exact checkpointWalk_chain hch rfl hrec hlen
  · rw [findCheckpointVersion, if_pos hcp]; exact checkpointWalk_assert hch hts hpre hy hlen
  · by_cases hcp : cp.recoverToCheckpoint
    · rw [findCheckpointVersion, if_pos hcp] at h
      have hv := checkpointWalk_some rfl rfl h
      exact ⟨fun _ => hv, findCheckpointVersion_of_le hv.1⟩
    · rw [findCheckpointVersion_of_not_recover hcp] at h
      cases h; exact ⟨fun h' => absurd h' hcp, fun f => findCheckpointVersion_of_not_recover hcp f pm r⟩

/-- Scenario S3 of the spec: element `K` has its version `v2` at timestamp 150 (offset 0) and
`v1` at timestamp 50 (offset 1). -/
def scenarioS3 : PMem := fun o =>
  if o = 0 then
    { (default : DLRecord) with
      recordType := .SortedElem, key := "K", id := 7, timestamp := 150, oldVersion := 1,
      valid := true }
  else if o = 1 then
    { (default : DLRecord) with
      recordType := .SortedElem, key := "K", id := 7, timestamp := 50,
      oldVersion := kNullPMemOffset, valid := true }
  else default

/-- Scenario S3 with the offset below `v1` reused: `v1`'s `old_version` is offset 2, which holds
a record of another collection and key that does not validate. -/
def scenarioS3Reused : PMem := fun o =>
  if o = 1 then { scenarioS3 1 with oldVersion := 2 }
  else if o = 2 then
    { (default : DLRecord) with
      recordType := .SortedElem, key := "L", id := 9, timestamp := 10,
      oldVersion := kNullPMemOffset, valid := false }
  else scenarioS3 o

/-- S3 selects `v1`, also when the chain goes on below `v1` into a reused offset the walk never
reads. -/
theorem findCheckpointVersion_scenarioS3 :
    findCheckpointVersion ⟨100⟩ 3 scenarioS3Reused 0 = .ok (some 1) := by
  have h := (findCheckpointVersion_correct ⟨100⟩ scenarioS3Reused 0).2.2.1 (by decide) [1, 2]
    (by simp [VersionChain, scenarioS3Reused, scenarioS3, kNullPMemOffset])
    (fun pre y post he hpre => by
      rcases pre with _ | ⟨a, _ | ⟨b, pre⟩⟩
      · obtain ⟨rfl, -⟩ := List.cons.inj he
        simp [scenarioS3Reused, scenarioS3]
      · obtain ⟨rfl, -⟩ := List.cons.inj he
        have := (hpre 1 (by simp)).1
        simp [scenarioS3Reused, scenarioS3] at this
      · simp at he) 3 (by decide)
  simpa [chainVersion, scenarioS3Reused, scenarioS3] using h

end Kvdk
