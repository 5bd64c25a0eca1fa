import SortedRebuild.Headers
import Mathlib.Data.Prod.Lex

/-
  What the header scan of `initRebuildLists` leaves (rebuilder.cpp, lines 119-246), for every
  order `std::sort` may give the linked headers.

  The sorted headers of one ID stand together, oldest first.  The scan of such a group breaks
  every header but the last and resolves the last one, and leaves every record, skiplist entry
  and hash slot of the other IDs as it was (`ScanInv.group`).  The invariant `ScanInv` carries
  this from group to group: for every ID the scan has passed, what it has left (`IdResolved`),
  and for every ID still to come, the records, versions and maps as they were at the start.  For
  a store whose headers are well linked (`HeaderLinks`), `IdResolved` also says where the broken
  headers and the resolved versions stand.
-/

namespace Kvdk

/-! ## Well-linked headers -/

/-- The headers of a well-formed store: each is a header record whose old versions are header
records, and either points to itself (an empty collection) or sits between two elements of its
own collection. -/
def HeaderLinks (pm : PMem) (hs : List PMemOffsetType) : Prop :=
  ∀ h ∈ hs, (pm h).recordType = .SortedRecord ∧
    (∀ u, OldVersionReach pm h u → (pm u).recordType = .SortedRecord) ∧
    ((pm h).prev = h ∧ (pm h).next = h ∨
      pm.Link (pm h).prev h ∧ pm.Link h (pm h).next ∧
        ∀ u ∈ [(pm h).prev, (pm h).next], (pm u).id = (pm h).id ∧ (pm u).recordType = .SortedElem)

/-- The version `v` of ID `x` that took the place of the header `h` (in the store `pm`) sits
between the header's neighbours in `pm'`: itself, for a header that pointed to itself. -/
def HeaderPlaced (pm pm' : PMem) (h : PMemOffsetType) (x : CollectionIDType)
    (valid : Option PMemOffsetType) : Prop :=
  ∀ v, (valid.filter fun v => (pm v).id = x) = some v →
    pm'.Link (placeOf h v (pm h).prev) v ∧ pm'.Link v (placeOf h v (pm h).next)

/-- The newest headers of a sorted list stand last among the headers of their ID. -/
theorem HeadersSorted.split {pm : PMem} {a : PMemOffsetType} :
    ∀ {hs : List PMemOffsetType}, HeadersSorted pm (a :: hs) →
      ∃ as h rest, a :: hs = as ++ [h] ++ rest ∧ (∀ b ∈ as ++ [h], (pm b).id = (pm a).id) ∧
        (∀ b ∈ as, (pm b).timestamp ≤ (pm h).timestamp) ∧ ∀ b ∈ rest, (pm a).id < (pm b).id
  | [], _ => ⟨[], a, [], rfl, by simp, by simp, by simp⟩
  | b :: hs, hsort => by
    have hle : ∀ {c : PMemOffsetType} {l : List PMemOffsetType}, HeadersSorted pm (c :: l) →
        ∀ d ∈ l, (pm c).id ≤ (pm d).id := fun hs d hd => by
      have := List.rel_of_pairwise_cons hs hd
      simp only [headerCmp] at this
      split_ifs at this with he <;> simp_all
    have hab := hle hsort b (List.mem_cons_self _ _)
    by_cases hid : (pm b).id = (pm a).id
    · obtain ⟨as, h, rest, heq, hids, hts, hrest⟩ := HeadersSorted.split (List.Pairwise.of_cons hsort)
      have hh : h ∈ b :: hs := by rw [heq]; simp
      refine ⟨a :: as, h, rest, by rw [heq]; rfl, ?_, ?_, by simpa [hid] using hrest⟩
      · intro c hc
        have hc' : c = a ∨ c ∈ as ++ [h] := by simpa using hc
        rcases hc' with rfl | hc
        · rfl
        · rw [hids c hc, hid]
      · intro c hc
        rcases List.mem_cons.1 hc with rfl | hc
        · have := List.rel_of_pairwise_cons hsort hh
          have hhid : (pm h).id = (pm c).id := by rw [hids h (by simp), hid]
          simp only [headerCmp, hhid, if_true, decide_eq_false_iff_not, not_lt] at this
          exact this
        · exact hts c hc
    · refine ⟨[], a, b :: hs, rfl, by simp, by simp, fun c hc => ?_⟩
      have hlt : (pm a).id < (pm b).id := lt_of_le_of_ne hab (Ne.symm hid)
      rcases List.mem_cons.1 hc with rfl | hc
      · exact hlt
      · exact lt_of_lt_of_le hlt (hle (List.Pairwise.of_cons hsort) c hc)

section Links

variable {pm : PMem} {hs : List PMemOffsetType} {h : PMemOffsetType}

/-- The records on either side of a well-linked header: the header itself, or two elements,
which are no header and no old version of one. -/
theorem HeaderLinks.sides (hl : HeaderLinks pm hs) (hh : h ∈ hs) {u : PMemOffsetType}
    (hu : (pm u).recordType = .SortedRecord) :
    (pm h).prev = h ∧ (pm h).next = h ∨
      (pm h).prev ≠ h ∧ (pm h).next ≠ h ∧ (pm h).prev ≠ u ∧ (pm h).next ≠ u := by
  obtain ⟨hrt, -, hself | ⟨-, -, hside⟩⟩ := hl h hh
  · exact .inl hself
  · have hne : ∀ w, (pm w).recordType = .SortedRecord → (pm h).prev ≠ w ∧ (pm h).next ≠ w :=
      fun w hw => ⟨fun e => by simpa [e, hw] using (hside (pm h).prev (by simp)).2,
        fun e => by simpa [e, hw] using (hside (pm h).next (by simp)).2⟩
    exact .inr ⟨(hne h hrt).1, (hne h hrt).2, (hne u hu).1, (hne u hu).2⟩

/-- A version of a well-linked header's ID, and what stands on either side of it once it is in
the header's place, are of the header's ID. -/
theorem HeaderLinks.place_id (hl : HeaderLinks pm hs) (hh : h ∈ hs) {v : PMemOffsetType}
    (hv : (pm v).id = (pm h).id) :
    (pm (placeOf h v (pm h).prev)).id = (pm h).id ∧ (pm (placeOf h v (pm h).next)).id = (pm h).id := by
  obtain ⟨-, -, ⟨hp, hn⟩ | ⟨-, -, hside⟩⟩ := hl h hh
  · simp [placeOf, hp, hn, hv]
  · constructor <;> unfold placeOf <;> split_ifs
    · exact hv
    · exact (hside _ (by simp)).1
    · exact hv
    · exact (hside _ (by simp)).1

theorem HeaderLinks.links (hl : HeaderLinks pm hs) (hh : h ∈ hs) :
    pm.Link (pm h).prev h ∧ pm.Link h (pm h).next := by
  obtain ⟨-, -, ⟨hp, hn⟩ | ⟨hl1, hl2, -⟩⟩ := hl h hh
  · simp [PMem.Link, hp, hn]
  · exact ⟨hl1, hl2⟩

end Links

/-! ## What the scan leaves for one ID -/

/-- A header `a` broken towards the next header `b` of its ID, as the store `pm` shows it: its
`prev` points to `b`, its `next` still to itself, and neither side of its linkage holds. -/
def BrokenHeader (pm : PMem) (a b : PMemOffsetType) : Prop :=
  (pm a).prev = b ∧ (pm a).next = a ∧ checkPrevLinkage pm a = false ∧
    checkNextLinkage pm a = false

theorem BrokenHeader.congr {pm pm' : PMem} {a b : PMemOffsetType} (ha : pm' a = pm a)
    (hb : pm' b = pm b) (hbr : BrokenHeader pm a b) : BrokenHeader pm' a b := by
  obtain ⟨hp, hn, h1, h2⟩ := hbr
  simp only [checkPrevLinkage, checkNextLinkage, hp, hn] at h1 h2
  refine ⟨by rw [ha, hp], by rw [ha, hn], ?_, ?_⟩ <;>
    simp only [checkPrevLinkage, checkNextLinkage, ha, hp, hn, hb] <;> assumption

variable (cfg : RebuilderConfig)

/-- **What the scan of the sorted headers `hs` of the store `pm`, run by thread `tid`, leaves in
`st` for the collection ID `x`.**  The headers of `x` are `as ++ [h]`, standing together in `hs`,
the newest last.  `h` is resolved: it decodes to `x` and `configs`, its comparator is registered,
`valid` is its checkpoint version, `x` is below the greatest recovered ID, and the collection's
fate is the one `HeaderFate` gives.  Every other header is queued on the thread's cache.  When
the headers are well linked, the version that took `h`'s place stands between `h`'s neighbours,
and every other header is that version or is broken towards the next header of its ID. -/
structure IdResolved (tid : Nat) (pm : PMem) (hs : List PMemOffsetType) (st : RebuilderState)
    (x : CollectionIDType) (as : List PMemOffsetType) (h : PMemOffsetType)
    (configs : SortedCollectionConfigs) (valid : Option PMemOffsetType) : Prop where
  group : ∃ pre rest, hs = pre ++ as ++ h :: rest ∧ ∀ p ∈ pre ++ rest, (pm p).id ≠ x
  id : ∀ a ∈ as ++ [h], (pm a).id = x
  newest : ∀ a ∈ as, (pm a).timestamp ≤ (pm h).timestamp
  decode : decodeSortedCollectionValue (pm h) = .ok (x, configs)
  comparator : configs.comparatorName ∈ cfg.comparators
  version : cfg.findCheckpointVersion pm h = .ok valid
  maxId : x ≤ st.maxRecoveredId
  fate : HeaderFate pm st h x configs valid
  placed : HeaderLinks pm hs → HeaderPlaced pm st.pm h x valid
  broken : (as ++ [h]).Chain' fun a b => a ∈ st.unlinkedRecords (tid % cfg.numRebuildThreads) ∧
    (HeaderLinks pm hs →
      (valid.filter fun v => (pm v).id = x) = some a ∨ BrokenHeader st.pm a b)

/-- What a part of the scan that works on other IDs keeps of the collection `x`: the greatest
ID does not fall, no queued record leaves its queue, and the records of `x` (when the headers are
well linked; their `old_version` always), the skiplists of `x` and every occupied hash slot stay
as they are. -/
structure IdFrame (pm : PMem) (hs : List PMemOffsetType) (x : CollectionIDType)
    (st st' : RebuilderState) : Prop where
  maxId : st.maxRecoveredId ≤ st'.maxRecoveredId
  unlinked : ∀ t, st.unlinkedRecords t ⊆ st'.unlinkedRecords t
  oldVersion : ∀ u, (pm u).id = x → (st'.pm u).oldVersion = (st.pm u).oldVersion
  records : HeaderLinks pm hs → ∀ u, (pm u).id = x → st'.pm u = st.pm u
  rebuild : findSkiplist st'.rebuildSkiplists x = findSkiplist st.rebuildSkiplists x
  invalid : findSkiplist st'.invalidSkiplists x = findSkiplist st.invalidSkiplists x
  hash : ∀ name, st.hashTable.filter (·.matches name .SortedRecord) ≠ [] →
    st'.hashTable.filter (·.matches name .SortedRecord) =
      st.hashTable.filter (·.matches name .SortedRecord)

variable {cfg} {tid : Nat} {pm : PMem} {hs : List PMemOffsetType}

/-- What the scan left for `x` survives a part of the scan that keeps `x`. -/
theorem IdResolved.frame {st st' : RebuilderState} {x : CollectionIDType}
    {as : List PMemOffsetType} {h : PMemOffsetType} {configs : SortedCollectionConfigs}
    {valid : Option PMemOffsetType} (hres : IdResolved cfg tid pm hs st x as h configs valid)
    (hf : IdFrame pm hs x st st') : IdResolved cfg tid pm hs st' x as h configs valid := by
  obtain ⟨hgrp, hid, hnew, hdec, hcmp, hver, hmax, hfate, hplaced, hbroken⟩ := hres
  have hh : h ∈ hs := by
    obtain ⟨pre, rest, rfl, -⟩ := hgrp
    simp
  have hhx : (pm h).id = x := hid h (by simp)
  refine ⟨hgrp, hid, hnew, hdec, hcmp, hver, hmax.trans hf.maxId, ?_, fun hl w hw => ?_,
    (List.Chain'.iff_mem.1 hbroken).imp fun a b ⟨ha, hb, hu, hbr⟩ =>
      ⟨hf.unlinked _ hu, fun hl => (hbr hl).imp_right
        (BrokenHeader.congr (hf.records hl a (hid a ha)) (hf.records hl b (hid b hb)))⟩⟩
  · unfold HeaderFate at hfate ⊢
    rw [hf.rebuild, hf.invalid]
    rcases hv : valid.filter (fun v => (pm v).id = x) with _ | v <;> simp only [hv] at hfate ⊢
    · exact hfate
    · have hvx : (pm v).id = x := by simpa using (Option.filter_eq_some.1 hv).2
      split_ifs at hfate ⊢
      · exact hfate
      · obtain ⟨hreb, hinv, hov, hhash⟩ := hfate
        refine ⟨hreb, hinv, (hf.oldVersion v hvx).trans hov, ?_⟩
        rw [hf.hash _ (by simp [hhash]), hhash]
  · have hwx : (pm w).id = (pm h).id := by
      rw [hhx]; simpa using (Option.filter_eq_some.1 hw).2
    obtain ⟨hp, hn⟩ := HeaderLinks.place_id hl hh hwx
    obtain ⟨h1, h2⟩ := hplaced hl w hw
    simp only [PMem.Link, hf.records hl _ (hp.trans hhx), hf.records hl _ (hn.trans hhx),
      hf.records hl _ (hwx.trans hhx)]
    exact ⟨h1, h2⟩

/-! ## The scan, group by group -/

/-- A store whose headers' `FetchID` is the ID their value decodes to. -/
def DecodesToId (pm : PMem) (hs : List PMemOffsetType) : Prop :=
  ∀ h ∈ hs, ∀ x configs, decodeSortedCollectionValue (pm h) = .ok (x, configs) → (pm h).id = x

variable (cfg tid pm hs) in
/-- **The invariant of the scan of the headers `hs` of the store `pm`**, between two groups: the
headers `pre` are scanned and `rest` is to come, every ID of `pre` below every ID of `rest`.  The
cores of all records are those of `pm`; the records of the IDs to come (their `old_version`
always, all of them when the headers are well linked) are those of `pm`, and those IDs have no
skiplist yet; every ID scanned has what `IdResolved` says. -/
structure ScanInv (pre rest : List PMemOffsetType) (st : RebuilderState) : Prop where
  split : hs = pre ++ rest
  sep : ∀ p ∈ pre, ∀ r ∈ rest, (pm p).id < (pm r).id
  core : ∀ u, (st.pm u).core = (pm u).core
  oldVersion : ∀ u, (pm u).id ∈ rest.map (fun u => (pm u).id) →
    (st.pm u).oldVersion = (pm u).oldVersion
  records : HeaderLinks pm hs → ∀ u, (pm u).id ∈ rest.map (fun u => (pm u).id) → st.pm u = pm u
  fresh : ∀ x ∈ rest.map (fun u => (pm u).id), findSkiplist st.rebuildSkiplists x = none ∧
    findSkiplist st.invalidSkiplists x = none
  done : ∀ x ∈ pre.map (fun u => (pm u).id), ∃ as h configs valid,
    IdResolved cfg tid pm hs st x as h configs valid

/-- **The scan of one group**, the headers `as ++ [h]` of one ID, keeps the invariant: the ID
gets what `IdResolved` says, and every ID scanned before keeps what it had. -/
theorem ScanInv.group {pre as rest : List PMemOffsetType} {h : PMemOffsetType}
    {st st1 : RebuilderState} (hinv : ScanInv cfg tid pm hs pre (as ++ h :: rest) st)
    (hnd : hs.Nodup) (hdecid : DecodesToId pm hs)
    (hid : ∀ a ∈ as, (pm a).id = (pm h).id) (hts : ∀ a ∈ as, (pm a).timestamp ≤ (pm h).timestamp)
    (hrest : ∀ r ∈ rest, (pm h).id < (pm r).id)
    (hl : initRebuildListsLoop cfg tid (as ++ [h]) st = .ok (.Ok, st1)) :
    ScanInv cfg tid pm hs (pre ++ as ++ [h]) rest st1 := by
  obtain ⟨hsplit, hsep, hcore, hov, hrec, hfresh, hdone⟩ := hinv
  have hsubl : (as ++ [h]).Sublist hs := hsplit ▸
    ((List.cons_sublist_cons.2 (List.nil_sublist rest)).append_left as).trans
      (List.sublist_append_right pre _)
  have hgrp : ∀ u ∈ as ++ [h], u ∈ hs := fun u hu => hsubl.subset hu
  have hh : h ∈ hs := hgrp h (by simp)
  have hndg : (as ++ [h]).Nodup := hnd.sublist hsubl
  have hha : h ∉ as := fun hm => (List.nodup_append.1 hndg).2.2 hm (List.mem_singleton_self h)
  have hyin : ∀ u, (pm u).id = (pm h).id → (pm u).id ∈ (as ++ h :: rest).map fun u => (pm u).id :=
    fun u hu => List.mem_map.2 ⟨h, by simp, hu.symm⟩
  have hidst : ∀ u, (st.pm u).id = (pm u).id := fun u => (DLRecord.sameCore (hcore u)).id
  obtain ⟨pm1, hr, hpm1, hfr, hpairs⟩ := initRebuildListsLoop_group (by simpa [hidst] using hid) hndg hl
  have hcore1 : ∀ u, (pm1 u).core = (pm u).core := fun u => (hpm1 u).1.trans (hcore u)
  obtain ⟨id', configs, valid, v, hdec, hcmp, hvalid, hv, -, hpm', hmax, hunl, hlists, hhash, hfate⟩ :=
    resolveHeader_uniform cfg hcore1 hr
  obtain rfl : id' = (pm h).id := (hdecid h hh id' configs hdec).symm
  have hvalid0 : cfg.findCheckpointVersion pm h = .ok valid := by
    rw [← hvalid]
    exact (findCheckpointVersion_congr hcore1 fun u hu => (hpm1 u).2.1.trans (hov u (hyin u hu))).symm
  have hvid : (pm v).id = (pm h).id := by
    rcases hv with hv | ⟨-, rfl⟩
    · simpa using (Option.filter_eq_some.1 hv).2
    · rfl
  -- the store the group leaves: `v` in the place of `h`, perhaps with its `old_version` cleared
  have hst1 : ∀ u, u ≠ v → st1.pm u = pm1.placeVersion h v u := fun u hu => by
    rcases hpm' with e | e <;> simp [e, PMem.persistOldVersion, hu]
  have hst1next : ∀ u, (st1.pm u).next = (pm1.placeVersion h v u).next := fun u => by
    rcases hpm' with e | e <;> simp [e]
  have hst1prev : ∀ u, (st1.pm u).prev = (pm1.placeVersion h v u).prev := fun u => by
    rcases hpm' with e | e <;> simp [e]
  have hst1core : ∀ u, (st1.pm u).core = (pm u).core := fun u => by
    rcases hpm' with e | e <;> simp [e, hcore1]
  have hpm1h : HeaderLinks pm hs → pm1 h = pm h := fun hL =>
    (hfr h hha).trans (hrec hL h (hyin h rfl))
  -- a record of another ID is not written
  have hkeep : ∀ u, (pm u).id ≠ (pm h).id → (st1.pm u).oldVersion = (st.pm u).oldVersion ∧
      (HeaderLinks pm hs → st1.pm u = st.pm u) := fun u hu => by
    have huv : u ≠ v := fun e => hu (e ▸ hvid)
    refine ⟨by rw [hst1 u huv, placeVersion_oldVersion, (hpm1 u).2.1], fun hL => ?_⟩
    obtain ⟨hp, hn⟩ := HeaderLinks.place_id hL hh hvid
    rw [hst1 u huv, placeVersion_of_ne _ huv _, hfr u fun hm => hu (hid u hm)] <;> rw [hpm1h hL] <;>
      rintro rfl <;> contradiction
  have hother : ∀ x ∈ rest.map (fun u => (pm u).id), x ≠ (pm h).id := fun x hx => by
    obtain ⟨r, hr, rfl⟩ := List.mem_map.1 hx
    exact (hrest r hr).ne'
  have hsub : ∀ x ∈ rest.map (fun u => (pm u).id), x ∈ (as ++ h :: rest).map fun u => (pm u).id :=
    fun x hx => List.map_subset _ (by simp) hx
  refine ⟨by rw [hsplit]; simp, ?_, hst1core, ?_, ?_, ?_, ?_⟩
  · intro p hp r hr'
    simp only [List.mem_append, List.mem_singleton] at hp
    rcases hp with (hp | hp) | rfl
    · exact hsep p hp r (by simp [hr'])
    · rw [hid p hp]; exact hrest r hr'
    · exact hrest r hr'
  · intro u hu
    rw [(hkeep u (hother _ hu)).1, hov u (hsub _ hu)]
  · intro hL u hu
    rw [(hkeep u (hother _ hu)).2 hL, hrec hL u (hsub _ hu)]
  · intro x hx
    rw [(hlists x (hother x hx)).1, (hlists x (hother x hx)).2]
    exact hfresh x (hsub x hx)
  intro x hx
  by_cases hxp : x ∈ pre.map fun u => (pm u).id
  · -- an ID scanned before keeps what it had
    obtain ⟨as', h', configs', valid', hres⟩ := hdone x hxp
    have hxy : x ≠ (pm h).id := by
      obtain ⟨p, hp, rfl⟩ := List.mem_map.1 hxp
      exact (hsep p hp h (by simp)).ne
    refine ⟨as', h', configs', valid', hres.frame ⟨?_, fun t => ?_, fun u hu => (hkeep u (hu ▸ hxy)).1,
      fun hL u hu => (hkeep u (hu ▸ hxy)).2 hL, (hlists x hxy).1, (hlists x hxy).2, hhash⟩⟩
    · rw [hmax]; exact le_max_left _ _
    · refine List.Subset.trans ?_ (hunl t)
      by_cases ht : t = tid % cfg.numRebuildThreads
      · subst ht; simp
      · simp [Function.update_noteq ht]
  -- the ID of the group
  have hgid : ∀ a ∈ as ++ [h], (pm a).id = (pm h).id := fun a ha => by
    rcases List.mem_append.1 ha with ha | ha
    · exact hid a ha
    · rw [List.mem_singleton.1 ha]
  obtain rfl : x = (pm h).id := by
    have hx' : x ∈ (as ++ [h]).map fun u => (pm u).id := by
      simpa only [List.append_assoc, List.map_append, List.mem_append, hxp, false_or] using hx
    obtain ⟨a, ha, rfl⟩ := List.mem_map.1 hx'
    exact hgid a ha
  refine ⟨as, h, configs, valid, ⟨pre, rest, by rw [hsplit]; simp, ?_⟩, hgid, hts, hdec, hcmp,
    hvalid0, by rw [hmax]; exact le_max_right _ _,
    hfate (hfresh _ (hyin h rfl)).1 (hfresh _ (hyin h rfl)).2, ?_, ?_⟩
  · intro p hp
    rcases List.mem_append.1 hp with hp | hp
    · exact (hsep p hp h (by simp)).ne
    · exact (hrest p hp).ne'
  · -- the version stands in the header's place
    intro hL w hw
    obtain rfl : w = v := by
      rcases hv with hv | ⟨hnone, -⟩
      · rw [hv] at hw; exact (Option.some.inj hw).symm
      · rw [hnone] at hw; cases hw
    suffices key : (pm1.placeVersion h w).Link (placeOf h w (pm h).prev) w ∧
        (pm1.placeVersion h w).Link w (placeOf h w (pm h).next) by
      simpa only [PMem.Link, hst1next, hst1prev] using key
    by_cases hwh : w = h
    · subst hwh
      have hnas : (pm w).next ∉ as := fun hm => by
        rcases HeaderLinks.sides hL hh (hL _ (hgrp (pm w).next (by simp [hm]))).1 with
          ⟨-, hn⟩ | ⟨-, -, -, hn⟩
        · exact hha (hn ▸ hm)
        · exact hn rfl
      obtain ⟨hp, hn⟩ := HeaderLinks.place_id hL hh (v := w) rfl
      have hlinks := HeaderLinks.links hL hh
      simp only [placeOf_self] at hp hn
      simpa only [placeVersion_self, placeOf_self, PMem.Link, (hpm1 _).2.2, hpm1h hL,
        hrec hL _ (hyin _ hp), hfr _ hnas, hrec hL _ (hyin _ hn)] using hlinks
    · have hw' : findCheckpointVersion cfg.checkpoint cfg.fuel pm h = .ok (some w) :=
        (Option.filter_eq_some.1 hw).1 ▸ hvalid0
      have hreach : OldVersionReach pm h w := findCheckpointVersion_reach hw'
      have hsides := HeaderLinks.sides hL hh ((hL h hh).2.1 w hreach)
      rw [← hpm1h hL] at hsides ⊢
      exact placeVersion_links hwh hsides
  · -- every other header is queued, and is the version or broken
    refine (List.Chain'.iff_mem.1 hpairs).imp fun a b ⟨_, hb, ha, hab, hprev, hnext, hpm1a⟩ =>
      ⟨hunl _ (by simp [ha]), fun hL => ?_⟩
    by_cases hva : v = a
    · subst hva
      rcases hv with hv | ⟨-, rfl⟩
      · exact .inl hv
      · exact absurd ha hha
    right
    have hat : (pm a).recordType = .SortedRecord := (hL a (hgrp a (by simp [ha]))).1
    have hne : a ≠ placeOf h v (pm1 h).prev ∧ a ≠ placeOf h v (pm1 h).next := by
      rw [hpm1h hL]
      rcases HeaderLinks.sides hL hh hat with ⟨hp, hn⟩ | ⟨hp, hn, hpa, hna⟩
      · simp [placeOf, hp, hn, Ne.symm hva]
      · simp [placeOf, hp, hn, Ne.symm hpa, Ne.symm hna]
    have hst1a : st1.pm a = { st.pm a with prev := b } := by
      rw [hst1 a (Ne.symm hva), placeVersion_of_ne hne.1 (Ne.symm hva) hne.2, hpm1a]
    have hbnext : (st1.pm b).next ≠ a := by
      rw [hst1next]
      rcases placeVersion_next pm1 h v b with e | e | e <;> rw [e]
      · rw [(hpm1 b).2.2, hrec hL b (hyin b (hgid b hb))]
        rcases HeaderLinks.sides hL (hgrp b hb) hat with ⟨-, hn⟩ | ⟨-, -, -, hn⟩
        · rw [hn]; exact Ne.symm hab
        · exact hn
      · exact hva
      · exact Ne.symm hne.2
    refine ⟨by rw [hst1a], by rw [hst1a]; exact hnext, ?_, ?_⟩
    · simpa only [checkPrevLinkage, hst1a, decide_eq_false_iff_not] using hbnext
    · simpa only [checkNextLinkage, hst1a, hnext, decide_eq_false_iff_not] using Ne.symm hab

/-- The invariant at the start of the scan, from a rebuilder with no skiplist yet. -/
theorem ScanInv.start {st : RebuilderState}
    (hempty : st.rebuildSkiplists = [] ∧ st.invalidSkiplists = []) :
    ScanInv cfg tid st.pm hs [] hs st :=
  ⟨rfl, by simp, fun _ => rfl, fun _ _ => rfl, fun _ _ _ => rfl,
    fun _ _ => by simp [hempty, findSkiplist], by simp⟩

/-- **The scan keeps the invariant to its end**, group by group. -/
theorem ScanInv.run (hnd : hs.Nodup) (hdecid : DecodesToId pm hs) {pre rest : List PMemOffsetType}
    {st st' : RebuilderState} (hinv : ScanInv cfg tid pm hs pre rest st)
    (hsort : HeadersSorted pm rest) (hl : initRebuildListsLoop cfg tid rest st = .ok (.Ok, st')) :
    ScanInv cfg tid pm hs hs [] st' := by
  match rest, hinv, hsort, hl with
  | [], hinv, _, hl =>
    simp only [initRebuildListsLoop, except_pure_eq_ok, Prod.mk.injEq, true_and] at hl
    subst hl
    obtain rfl : pre = hs := by simpa using hinv.split.symm
    exact hinv
  | a :: rest, hinv, hsort, hl =>
    obtain ⟨as, h, rest', heq, hids, hts, hgt⟩ := hsort.split
    have hha : (pm h).id = (pm a).id := hids h (by simp)
    have hidst : ∀ u, (st.pm u).id = (pm u).id := fun u => (DLRecord.sameCore (hinv.core u)).id
    rw [heq] at hl hinv hsort
    have hb : ∀ x ∈ (as ++ [h]).getLast?, ∀ y ∈ rest'.head?, (st.pm x).id ≠ (st.pm y).id :=
      fun x hx y hy => by
        obtain rfl : h = x := by simpa using hx
        rw [hidst, hidst, hha]
        exact (hgt y (List.mem_of_mem_head? hy)).ne
    obtain ⟨st1, h1, h2⟩ := initRebuildListsLoop_append hb hl
    have hinv1 := ScanInv.group (by simpa using hinv) hnd hdecid
      (fun b hb => (hids b (by simp [hb])).trans hha.symm) hts
      (fun r hr => hha ▸ hgt r hr) h1
    exact ScanInv.run hnd hdecid (by simpa using hinv1)
      (List.Pairwise.sublist (List.sublist_append_right _ _) hsort) h2
termination_by rest.length
decreasing_by
  have := congrArg List.length heq
  simp at this ⊢
  omega

/-- **The header scan, over any order `std::sort` may give the headers.**  From a rebuilder with
no skiplist yet, a scan of distinct sorted headers, each of which decodes to its own ID, that
ends in `Ok` leaves for every ID of the headers what `IdResolved` says. -/
theorem initRebuildListsLoop_resolves {st st' : RebuilderState} (hnd : hs.Nodup)
    (hsort : HeadersSorted st.pm hs) (hdecid : DecodesToId st.pm hs)
    (hempty : st.rebuildSkiplists = [] ∧ st.invalidSkiplists = [])
    (hl : initRebuildListsLoop cfg tid hs st = .ok (.Ok, st')) :
    ∀ x ∈ hs.map (fun u => (st.pm u).id), ∃ as h configs valid,
      IdResolved cfg tid st.pm hs st' x as h configs valid :=
  (ScanInv.run hnd hdecid (ScanInv.start hempty) hsort hl).done

/-! ## `initRebuildLists` -/

/-- The comparator orders headers by their `(ID, timestamp)` pairs, lexicographically. -/
theorem headerCmp_eq_false {pm : PMem} {a b : PMemOffsetType} :
    headerCmp pm b a = false ↔
      toLex ((pm a).id, (pm a).timestamp) ≤ toLex ((pm b).id, (pm b).timestamp) := by
  rw [Prod.Lex.le_iff]
  unfold headerCmp
  by_cases h : (pm b).id = (pm a).id
  · simp [h]
  · simp only [if_neg h, decide_eq_false_iff_not, not_lt]
    constructor
    · intro hle; exact .inl (lt_of_le_of_ne hle (Ne.symm h))
    · rintro (hlt | ⟨he, -⟩)
      · exact hlt.le
      · exact absurd he.symm h

/-- The insertion sort of the model is one of the orders `std::sort` may give. -/
theorem sortHeaders_sorted (pm : PMem) (hs : List PMemOffsetType) :
    HeadersSorted pm (sortHeaders pm hs) := by
  have : IsTotal PMemOffsetType fun a b => headerCmp pm b a = false :=
    ⟨fun a b => by simp only [headerCmp_eq_false]; exact le_total _ _⟩
  have : IsTrans PMemOffsetType fun a b => headerCmp pm b a = false :=
    ⟨fun a b c => by simp only [headerCmp_eq_false]; exact le_trans⟩
  exact List.sorted_insertionSort _ hs

/-- Two collections: ID 1 has two headers of an empty collection, the newer one (offset 1)
written over the older one (offset 0), both pointing to themselves; ID 2 has one header
(offset 2). -/
def twoCollections : PMem := fun o =>
  if o = 0 then
    { (default : DLRecord) with
      recordType := .SortedRecord, key := "a", value := .encoded 1 ⟨"cmp", false⟩, id := 1,
      timestamp := 5, prev := 0, next := 0, oldVersion := kNullPMemOffset, valid := true }
  else if o = 1 then
    { (default : DLRecord) with
      recordType := .SortedRecord, key := "a", value := .encoded 1 ⟨"cmp", false⟩, id := 1,
      timestamp := 10, prev := 1, next := 1, oldVersion := 0, valid := true }
  else if o = 2 then
    { (default : DLRecord) with
      recordType := .SortedRecord, key := "b", value := .encoded 2 ⟨"cmp", true⟩, id := 2,
      timestamp := 7, prev := 2, next := 2, oldVersion := kNullPMemOffset, valid := true }
  else default

/-- A list-based rebuilder with one thread, no checkpoint and the comparator `cmp`. -/
def oneThread : RebuilderConfig where
  checkpoint := ⟨0⟩
  segmentBasedRebuild := false
  numRebuildThreads := 1
  numRebuildThreads_pos := Nat.one_pos
  comparators := ["cmp"]
  kMaxHeight := 2
  kRestoreSkiplistStride := 1
  randomHeight := fun _ => 1
  randomHeight_le := fun _ => Nat.le_succ 1
  fuel := 4

/-- The rebuilder after `AddHeader` of the three headers of `twoCollections`. -/
def twoCollectionsIntake : RebuilderState :=
  { RebuilderState.init twoCollections .empty [] with linkedHeaders := [2, 1, 0] }

end Kvdk
