import SortedRebuild.Linkage

/-
  Rollback of torn batch writes (rebuilder.cpp, lines 95-117).

  Before its skiplists are rebuilt, a recovery undoes the element writes of a batch whose commit
  may be partial.  `Rollback` takes the record of one sorted entry of the batch-write log; if it
  validates and its `prev` side points back to it, it is taken off its list (`Remove`, for an
  insert) or swapped back for the record it replaced (`Replace`, for an update); either way it
  is then destroyed.

  The write path is outside src/ and is modelled from the spec: an element write persists its
  record, validated, between its neighbours, with `old_version` set to the record it replaces
  (null for an insert); then it links it by persisting `prev.next` and afterwards `next.prev`.
  `BatchOn h xs ws ys` says that the writes `ws` on the collection with header `h` and elements
  `xs` leave the elements `ys`, each write inserting a fresh record after a record of the list,
  or putting one in the place of a record of the list.  A crash cuts the batch after any of its
  persistent steps (`crashAfter`).

  What rolling back the whole log restores depends on the order of the log.

  * In the reverse order of the writes it restores the store exactly: every record outside the
    log reads as before the batch, every logged record is destroyed, and no `Replace` or
    `Remove` assertion fails (`rollbackAll_reverse_restores`).
  * In the order of the writes it does not (`rollbackAll_forward_tears`): an insert torn between
    its two link steps, just before a record inserted earlier in the same batch, leaves that
    record's `prev` pointing past it, so that record's own rollback finds it unlinked and
    destroys it in place, still on the list.

  Each undo is a frame statement: against the store `M` before a write, rolling back the
  write's record from any store that agrees with the store after the write, outside the records
  of later writes, gives a store that agrees with `M` outside those records and the rolled-back
  one.  Stores are compared record by record through `DLRecord.ext_body`.
-/

namespace Kvdk

/-! ## `Rollback` -/

/-- `SortedCollectionRebuilder::Rollback` on the record at `offset`, the offset of a sorted entry
of a batch-write log. -/
def rollback (pm : PMem) (offset : PMemOffsetType) : Except Fault (Status × PMem) := do
  let elem ← offset2addrChecked offset
  let pm ←
    if (pm elem).valid && checkPrevLinkage pm elem then
      if (pm elem).oldVersion ≠ kNullPMemOffset then do
        let old ← offset2addrChecked (pm elem).oldVersion
        let (success, pm) := Skiplist.replace pm elem old
        kvdkAssert (success = true) "Replace should success as we checked linkage"
        pure pm
      else do
        let (success, pm) := Skiplist.remove pm elem
        kvdkAssert (success = true) "Remove should success as we checked linkage"
        pure pm
    else pure pm
  pure (.Ok, pm.destroy elem)

/-- `Rollback` of the logged records `rs`, one after the other. -/
def rollbackAll : PMem → List PMemOffsetType → Except Fault PMem
  | pm, [] => .ok pm
  | pm, r :: rs => do
    let (_, pm) ← rollback pm r
    rollbackAll pm rs

theorem rollbackAll_append {pm : PMem} {rs qs : List PMemOffsetType} {pm'' : PMem}
    {pm' : PMem} (h1 : rollbackAll pm rs = .ok pm') (h2 : rollbackAll pm' qs = .ok pm'') :
    rollbackAll pm (rs ++ qs) = .ok pm'' := by
  induction rs generalizing pm with
  | nil => cases h1; exact h2
  | cons r rs ih =>
    simp only [rollbackAll, except_bind_eq_ok] at h1 ⊢
    obtain ⟨⟨s, pm1⟩, h, h1⟩ := h1
    exact ⟨(s, pm1), h, ih h1⟩

section RollbackSteps

variable {pm : PMem} {a r b o : PMemOffsetType}

/-- A logged record that does not validate, or whose `prev` does not point back to it, is only
destroyed. -/
theorem rollback_of_unlinked (hr : r ≠ kNullPMemOffset)
    (h : (pm r).valid = false ∨ checkPrevLinkage pm r = false) :
    rollback pm r = .ok (.Ok, pm.destroy r) := by
  rcases h with h | h <;> simp [rollback, hr, h]

/-- A linked insert is taken off its list, then destroyed. -/
theorem rollback_insert (hr : r ≠ kNullPMemOffset) (hv : (pm r).valid = true)
    (hold : (pm r).oldVersion = kNullPMemOffset) (har : pm.Link a r) (hrb : (pm r).next = b) :
    rollback pm r = .ok (.Ok, ((pm.persistNextNT a b).persistPrevNT b a).destroy r) := by
  have hc : checkPrevLinkage pm r = true := by simp [checkPrevLinkage, har.2, har.1]
  simp [rollback, hr, hv, hold, hc, remove_eq har hrb]

/-- A linked update is swapped back for the record it replaced, then destroyed. -/
theorem rollback_update (hr : r ≠ kNullPMemOffset) (ho : o ≠ kNullPMemOffset)
    (hv : (pm r).valid = true) (hold : (pm r).oldVersion = o) (har : pm.Link a r)
    (hrb : (pm r).next = b) (ha : a ≠ r) (hb : b ≠ r) :
    rollback pm r = .ok (.Ok, (pm.splice a o b).destroy r) := by
  have hc : checkPrevLinkage pm r = true := by simp [checkPrevLinkage, har.2, har.1]
  simp [rollback, hr, ho, hv, hold, hc, replace_eq_splice har hrb ha hb]

end RollbackSteps

/-! ## Batch writes -/

/-- Modelled from the spec: an element write of a batch — a fresh record `r` inserted after the
record `a` (an insert of a new key), or a fresh record `r` in the place of `old` (an update of
`old`'s key). -/
inductive ElemWrite where
  | insert (r a : PMemOffsetType)
  | update (r old : PMemOffsetType)
  deriving DecidableEq, Repr

/-- The record a write persists, which the batch-write log names. -/
def ElemWrite.record : ElemWrite → PMemOffsetType
  | .insert r _ => r
  | .update r _ => r

/-- The `old_version` a write persists: null for an insert, the replaced record for an update. -/
def ElemWrite.oldVersion : ElemWrite → PMemOffsetType
  | .insert _ _ => kNullPMemOffset
  | .update _ o => o

/-- The fields a write persists in its record besides its links. -/
def ElemWrite.fill (w : ElemWrite) (d : DLRecord) : DLRecord :=
  { d with recordType := .SortedElem, valid := true, oldVersion := w.oldVersion }

/-- The first step of a write: its record persisted, validated, with `prev` and `next` set to the
neighbours it goes between. -/
def PMem.persistWrite (pm : PMem) (w : ElemWrite) : PMem :=
  let (a, b) := match w with
    | .insert _ a => (a, (pm a).next)
    | .update _ o => ((pm o).prev, (pm o).next)
  ((pm.modify w.record w.fill).persistPrevNT w.record a).persistNextNT w.record b

/-- The second step of a write of `r`: `prev.next = r`. -/
def linkPrev (pm : PMem) (r : PMemOffsetType) : PMem := pm.persistNextNT (pm r).prev r

/-- The third step of a write of `r`: `next.prev = r`. -/
def linkNext (pm : PMem) (r : PMemOffsetType) : PMem := pm.persistPrevNT (pm r).next r

/-- The persistent steps of one write, in order. -/
def ElemWrite.steps (w : ElemWrite) : List (PMem → PMem) :=
  [fun pm => pm.persistWrite w, fun pm => linkPrev pm w.record,
    fun pm => linkNext pm w.record]

/-- The persistent steps of a batch, in order. -/
def batchSteps : List ElemWrite → List (PMem → PMem)
  | [] => []
  | w :: ws => w.steps ++ batchSteps ws

/-- Run persistent steps one after the other. -/
def runSteps : List (PMem → PMem) → PMem → PMem
  | [], pm => pm
  | f :: fs, pm => runSteps fs (f pm)

/-- The store a crash leaves after the first `k` persistent steps of the batch `ws`. -/
def crashAfter (pm : PMem) (ws : List ElemWrite) (k : Nat) : PMem :=
  runSteps ((batchSteps ws).take k) pm

/-- Modelled from the spec: one write of a batch on a collection with header `h` and elements
`xs`, leaving the elements `ys` — a fresh record inserted after the header or an element, or
put in the place of an element. -/
inductive WriteOn (h : PMemOffsetType) :
    List PMemOffsetType → ElemWrite → List PMemOffsetType → Prop
  | insert (ys zs : List PMemOffsetType) (r a : PMemOffsetType)
      (ha : (h :: ys).getLast? = some a) : WriteOn h (ys ++ zs) (.insert r a) (ys ++ r :: zs)
  | update (ys zs : List PMemOffsetType) (r o : PMemOffsetType) :
      WriteOn h (ys ++ o :: zs) (.update r o) (ys ++ r :: zs)

/-- A batch of writes, one after the other, on the collection with header `h`. -/
inductive BatchOn (h : PMemOffsetType) : List PMemOffsetType → List ElemWrite → Prop
  | nil (xs : List PMemOffsetType) : BatchOn h xs []
  | cons {xs ys : List PMemOffsetType} {w : ElemWrite} {ws : List ElemWrite} :
      WriteOn h xs w ys → BatchOn h ys ws → BatchOn h xs (w :: ws)

/-! ## One write and its undo -/

/-- The write `w` on the store `M` goes between `a` and `b`: an insert after `a`, whose successor
is `b`, or an update of a record linked between `a` and `b`. -/
inductive WriteAt (M : PMem) : ElemWrite → PMemOffsetType → PMemOffsetType → Prop
  | insert {r a b : PMemOffsetType} : M.Link a b → WriteAt M (.insert r a) a b
  | update {r o a b : PMemOffsetType} : M.Link a o → M.Link o b → a ≠ o → b ≠ o →
      o ≠ kNullPMemOffset → WriteAt M (.update r o) a b

section Undo

variable {M cur : PMem} {w : ElemWrite} {a b : PMemOffsetType} {E : List PMemOffsetType}

@[simp] theorem ElemWrite.record_insert (r a : PMemOffsetType) :
    (ElemWrite.insert r a).record = r := rfl

@[simp] theorem ElemWrite.record_update (r o : PMemOffsetType) :
    (ElemWrite.update r o).record = r := rfl

theorem WriteAt.persistWrite_eq (hw : WriteAt M w a b) :
    M.persistWrite w =
      ((M.modify w.record w.fill).persistPrevNT w.record a).persistNextNT w.record b := by
  cases hw with
  | insert hab => simp [PMem.persistWrite, hab.1]
  | update hao hob => simp [PMem.persistWrite, hao.2, hob.1]

/-- A whole write splices its record, filled, between its neighbours. -/
theorem WriteAt.run_eq (hw : WriteAt M w a b) (hra : w.record ≠ a) :
    runSteps w.steps M = (M.modify w.record w.fill).splice a w.record b := by
  simp [runSteps, ElemWrite.steps, linkPrev, linkNext, hw.persistWrite_eq, PMem.splice, hra]

/-- What the store after a whole write reads at the written record and its neighbours, and
elsewhere. -/
theorem WriteAt.run_reads (hw : WriteAt M w a b) (hra : w.record ≠ a) (hrb : w.record ≠ b) :
    let S := runSteps w.steps M
    (S w.record).prev = a ∧ (S w.record).next = b ∧ (S a).next = w.record ∧
      (S b).prev = w.record ∧ (S w.record).valid = true ∧
      (S w.record).oldVersion = w.oldVersion ∧
      ∀ u, u ≠ w.record → (S u).body = (M u).body ∧
        (u ≠ a → (S u).next = (M u).next) ∧ (u ≠ b → (S u).prev = (M u).prev) := by
  intro S
  have hS : S = (M.modify w.record w.fill).splice a w.record b := hw.run_eq hra
  simp only [hS, splice_next, splice_prev, if_true, if_neg hrb, if_neg hra]
  refine ⟨trivial, trivial, trivial, trivial, by simp [PMem.splice, ElemWrite.fill],
    by simp [PMem.splice, ElemWrite.fill], fun u hu => ⟨by simp [PMem.splice, hu], ?_, ?_⟩⟩
  · intro hua; simp [hua, hu]
  · intro hub; simp [hub, hu]

/-- What the store reads after a write torn after `prev.next`. -/
theorem WriteAt.linkPrev_reads (hw : WriteAt M w a b) (hra : w.record ≠ a) :
    let L := linkPrev (M.persistWrite w) w.record
    (L w.record).prev = a ∧ (L w.record).next = b ∧ (L a).next = w.record ∧
      (L w.record).valid = true ∧ (L w.record).oldVersion = w.oldVersion ∧
      ∀ u, u ≠ w.record → (L u).body = (M u).body ∧
        (u ≠ a → (L u).next = (M u).next) ∧ (L u).prev = (M u).prev := by
  intro L
  simp only [L, linkPrev, hw.persistWrite_eq]
  refine ⟨by simp [hra], by simp [hra], by simp, by simp [ElemWrite.fill],
    by simp [ElemWrite.fill], fun u hu => ⟨by simp [hu], fun hua => by simp [hu, hua],
    by simp [hu]⟩⟩

/-- **Undo of a linked write.**  The record of a write whose `prev` side is linked — the whole
write, or the write torn after `prev.next` — is rolled back from a store that reads like the
store `M` before the write outside `E` (the records of later writes), the written record, and the
link fields of its neighbours that the write set: the result reads like `M` outside `E` and
the written record, which is destroyed. -/
theorem WriteAt.rollback_linked (hw : WriteAt M w a b) (hra : w.record ≠ a) (hrb : w.record ≠ b)
    (hr : w.record ≠ kNullPMemOffset) (hrold : w.record ≠ w.oldVersion)
    (hE : ∀ u ∈ E, u ≠ w.record ∧ u ≠ a ∧ u ≠ b ∧ u ≠ w.oldVersion)
    (hrp : (cur w.record).prev = a) (hrn : (cur w.record).next = b)
    (han : (cur a).next = w.record) (hrv : (cur w.record).valid = true)
    (hro : (cur w.record).oldVersion = w.oldVersion)
    (hcur : ∀ u, u ∉ E → u ≠ w.record → (cur u).body = (M u).body ∧
      (u ≠ a → (cur u).next = (M u).next) ∧ (u ≠ b → (cur u).prev = (M u).prev)) :
    ∃ cur', rollback cur w.record = .ok (.Ok, cur') ∧
      (∀ u, u ∉ E → u ≠ w.record → cur' u = M u) ∧ (cur' w.record).recordType = .Padding ∧
      ∀ u ∈ E, (cur' u).recordType = (cur u).recordType := by
  have hin : ∀ u, u ∈ E → u ≠ w.record := fun u hu => (hE u hu).1
  cases hw with
  | insert hab =>
    simp only [ElemWrite.record_insert, ElemWrite.oldVersion] at *
    refine ⟨_, rollback_insert hr hrv hro ⟨han, hrp⟩ hrn, fun u hu hur => ?_,
      by simp, fun u hu => by simp [hin u hu]⟩
    obtain ⟨hbody, hnext, hprev⟩ := hcur u hu hur
    refine DLRecord.ext_body (by simp [hur, hbody]) ?_ ?_
    · by_cases hub : u = b
      · subst hub; simp [hur, hab.2]
      · simp [hur, hub, hprev hub]
    · by_cases hua : u = a
      · subst hua; simp [hur, hab.1]
      · simp [hur, hua, hnext hua]
  | update hao hob hao' hbo ho =>
    rename_i o
    simp only [ElemWrite.record_update, ElemWrite.oldVersion] at *
    have hoE : o ∉ E := fun h => (hE _ h).2.2.2 rfl
    refine ⟨_, rollback_update hr ho hrv hro ⟨han, hrp⟩ hrn hra.symm hrb.symm,
      fun u hu hur => ?_, by simp, fun u hu => by simp [hin u hu]⟩
    obtain ⟨hbody, hnext, hprev⟩ := hcur u hu hur
    refine DLRecord.ext_body (by simp [hur, hbody]) ?_ ?_
    · by_cases hub : u = b
      · subst hub; simp [hur, hob.2]
      · by_cases huo : u = o
        · subst huo; simp [hur, hub, hao.2]
        · simp [hur, hub, huo, hprev hub]
    · by_cases hua : u = a
      · subst hua; simp [hur, hao.1]
      · by_cases huo : u = o
        · subst huo; simp [hur, hua, hob.1]
        · simp [hur, hua, huo, hnext hua]

/-- **Undo of a write cut after `t` of its steps**, from a store that agrees with the store the
cut left outside the records `E` of later writes: the result agrees with the store before the
write outside `E` and the written record, which is destroyed; and the records of `E` keep their
types. -/
theorem WriteAt.rollback_partial (hw : WriteAt M w a b) (hra : w.record ≠ a)
    (hrb : w.record ≠ b) (hr : w.record ≠ kNullPMemOffset) (hrold : w.record ≠ w.oldVersion)
    (hv : (M w.record).valid = false)
    (hE : ∀ u ∈ E, u ≠ w.record ∧ u ≠ a ∧ u ≠ b ∧ u ≠ w.oldVersion) {t : Nat} (ht : t ≤ 3)
    (hcur : ∀ u, u ∉ E → cur u = runSteps (w.steps.take t) M u) :
    ∃ cur', rollback cur w.record = .ok (.Ok, cur') ∧
      (∀ u, u ∉ E → u ≠ w.record → cur' u = M u) ∧ (cur' w.record).recordType = .Padding ∧
      ∀ u ∈ E, (cur' u).recordType = (cur u).recordType := by
  have hr' : w.record ∉ E := fun h => (hE _ h).1 rfl
  have ha' : a ∉ E := fun h => (hE _ h).2.1 rfl
  have hin : ∀ u, u ∈ E → u ≠ w.record := fun u hu => (hE u hu).1
  obtain rfl | rfl | rfl | rfl : t = 0 ∨ t = 1 ∨ t = 2 ∨ t = 3 := by omega
  · -- not yet persisted: the record does not validate
    have hcv : (cur w.record).valid = false := by rw [hcur _ hr']; exact hv
    refine ⟨_, rollback_of_unlinked hr (.inl hcv), fun u hu hur => ?_, by simp,
      fun u hu => by simp [hin u hu]⟩
    rw [destroy_of_ne _ hur, hcur u hu]; rfl
  · -- persisted, not linked: its `prev` does not point back to it
    have hP : ∀ u, u ≠ w.record → M.persistWrite w u = M u := fun u hu => by
      simp [hw.persistWrite_eq, PMem.persistNextNT, PMem.persistPrevNT, hu]
    have hc : checkPrevLinkage cur w.record = false := by
      have ha : (cur a).next ≠ w.record := by
        rw [hcur _ ha']
        simp only [runSteps, ElemWrite.steps, List.take, hP a hra.symm]
        cases hw with
        | insert hab => simpa [hab.1] using hrb.symm
        | update hao => simpa [hao.1, ElemWrite.oldVersion] using hrold.symm
      simp [checkPrevLinkage, hcur _ hr', runSteps, ElemWrite.steps, hw.persistWrite_eq, hra,
        ha]
    refine ⟨_, rollback_of_unlinked hr (.inr hc), fun u hu hur => ?_, by simp,
      fun u hu => by simp [hin u hu]⟩
    rw [destroy_of_ne _ hur, hcur u hu]
    exact hP u hur
  · -- torn after `prev.next`
    obtain ⟨hrp, hrn, han, hrv, hro, hL⟩ := hw.linkPrev_reads hra
    have hc : ∀ u, u ∉ E → cur u = linkPrev (M.persistWrite w) w.record u := hcur
    rw [← hc _ hr'] at hrp hrn hrv hro
    rw [← hc _ ha'] at han
    exact hw.rollback_linked hra hrb hr hrold hE hrp hrn han hrv hro fun u hu hur => by
      obtain ⟨h1, h2, h3⟩ := hL u hur
      exact ⟨hc u hu ▸ h1, fun h => hc u hu ▸ h2 h, fun _ => hc u hu ▸ h3⟩
  · -- the whole write
    have hb' : b ∉ E := fun h => (hE _ h).2.2.1 rfl
    obtain ⟨hrp, hrn, han, -, hrv, hro, hS⟩ := hw.run_reads hra hrb
    have hc : ∀ u, u ∉ E → cur u = runSteps w.steps M u := hcur
    rw [← hc _ hr'] at hrp hrn hrv hro
    rw [← hc _ ha'] at han
    exact hw.rollback_linked hra hrb hr hrold hE hrp hrn han hrv hro fun u hu hur => by
      obtain ⟨h1, h2, h3⟩ := hS u hur
      exact ⟨hc u hu ▸ h1, fun h => hc u hu ▸ h2 h, fun h => hc u hu ▸ h3 h⟩

end Undo

/-! ## A batch, cut and rolled back -/

@[simp] theorem modify_fill_next (M : PMem) (w : ElemWrite) (r u : PMemOffsetType) :
    (M.modify r w.fill u).next = (M u).next := by
  by_cases hu : u = r <;> simp [PMem.modify_apply, hu, ElemWrite.fill]

@[simp] theorem modify_fill_prev (M : PMem) (w : ElemWrite) (r u : PMemOffsetType) :
    (M.modify r w.fill u).prev = (M u).prev := by
  by_cases hu : u = r <;> simp [PMem.modify_apply, hu, ElemWrite.fill]

/-- **One write of a batch** on a collection linked from its header: it goes between two records
of the list, and after it the list holds the written record in its place. -/
theorem WriteOn.spec {h : PMemOffsetType} {xs ys : List PMemOffsetType} {w : ElemWrite}
    {M : PMem} (hw : WriteOn h xs w ys) (hl : Links M h xs h) (hnd : (h :: xs).Nodup)
    (hr : w.record ∉ h :: xs) (hnull : kNullPMemOffset ∉ xs) :
    ∃ a b, WriteAt M w a b ∧ a ∈ h :: xs ∧ b ∈ h :: xs ∧
      (w.oldVersion = kNullPMemOffset ∨ w.oldVersion ∈ xs) ∧
      Links (runSteps w.steps M) h ys h ∧ (h :: ys).Nodup ∧ ∀ u ∈ ys, u ∈ xs ∨ u = w.record := by
  have hfill : Links (M.modify w.record w.fill) h xs h :=
    links_congr (fun u _ => by simp) (fun u _ => by simp) hl
  have ht : (xs ++ [h]).Nodup := (List.perm_append_singleton h xs).nodup_iff.2 hnd
  have hv : w.record ∉ h :: (xs ++ [h]) := by
    simp only [List.mem_cons, List.mem_append, List.mem_singleton, List.not_mem_nil, or_false]
      at hr ⊢
    exact fun hm => hr (hm.elim .inl (·.elim .inr .inl))
  cases hw with
  | insert ys zs r a ha =>
    simp only [ElemWrite.record_insert] at hr hv hfill ⊢
    obtain ⟨a', b, ha', hab, hb, hl'⟩ := links_splice_insert hfill hnd ht hv
    rw [ha, Option.some.injEq] at ha'
    subst ha'
    have hab' : M.Link a b := by simpa [PMem.Link] using hab
    obtain ⟨l, hlast⟩ := List.getLast?_eq_some_iff.1 ha
    have ham : a ∈ h :: (ys ++ zs) := by
      have : a ∈ h :: ys := by rw [hlast]; simp
      simp only [List.mem_cons, List.mem_append] at this ⊢
      exact this.imp_right .inl
    have hbm : b ∈ h :: (ys ++ zs) := by
      simp only [List.mem_append, List.mem_singleton] at hb
      simp only [List.mem_cons, List.mem_append]
      exact hb.elim (fun e => .inr (.inr e)) .inl
    have hra : r ≠ a := fun e => hr (e ▸ ham)
    refine ⟨a, b, .insert hab', ham, hbm, .inl rfl, ?_, ?_, fun u hu => ?_⟩
    · rw [WriteAt.run_eq (.insert hab') hra]; exact hl'
    · rw [← List.cons_append, List.nodup_middle, List.cons_append]
      exact List.nodup_cons.2 ⟨hr, hnd⟩
    · simp only [List.mem_append, List.mem_cons] at hu ⊢
      exact hu.elim (fun e => .inl (.inl e)) (·.elim .inr fun e => .inl (.inr e))
  | update ys zs r o =>
    simp only [ElemWrite.record_update] at hr hv hfill ⊢
    obtain ⟨a, b, hao, hob, hao', hbo, ha, hb, hl'⟩ :=
      links_splice_replace hfill (by simpa using hnd) (by simpa using ht) (by simpa using hv)
    have hao2 : M.Link a o := by simpa [PMem.Link] using hao
    have hob2 : M.Link o b := by simpa [PMem.Link] using hob
    have hom : o ∈ ys ++ o :: zs := by simp
    have ham : a ∈ h :: (ys ++ o :: zs) := by
      simp only [List.mem_cons, List.mem_append] at ha ⊢
      exact ha.imp_right .inl
    have hbm : b ∈ h :: (ys ++ o :: zs) := by
      simp only [List.mem_append, List.mem_singleton, List.mem_cons, List.not_mem_nil, or_false]
        at hb ⊢
      exact hb.elim (fun e => .inr (.inr (.inr e))) .inl
    have hra : r ≠ a := fun e => hr (e ▸ ham)
    refine ⟨a, b, .update hao2 hob2 hao' hbo (fun e => hnull (e ▸ hom)), ham, hbm,
      .inr hom, ?_, ?_, fun u hu => ?_⟩
    · rw [WriteAt.run_eq (.update hao2 hob2 hao' hbo (fun e => hnull (e ▸ hom))) hra]; exact hl'
    · have h1 := hnd
      rw [← List.cons_append, List.nodup_middle] at h1 ⊢
      rw [List.cons_append] at h1 ⊢
      exact List.nodup_cons.2 ⟨fun hm => hr (by
        simp only [List.mem_cons, List.mem_append] at hm ⊢
        exact hm.imp_right (·.imp_right .inr)), (List.nodup_cons.1 h1).2⟩
    · simp only [List.mem_append, List.mem_cons] at hu ⊢
      exact hu.elim (fun e => .inl (.inl e)) (·.elim .inr fun e => .inl (.inr (.inr e)))

theorem runSteps_append (fs gs : List (PMem → PMem)) (pm : PMem) :
    runSteps (fs ++ gs) pm = runSteps gs (runSteps fs pm) := by
  induction fs generalizing pm with
  | nil => rfl
  | cons f fs ih => exact ih (f pm)

@[simp] theorem ElemWrite.length_steps (w : ElemWrite) : w.steps.length = 3 := rfl

@[simp] theorem crashAfter_nil (pm : PMem) (k : Nat) : crashAfter pm [] k = pm := by
  simp [crashAfter, batchSteps, runSteps]

/-- A crash in the first write of a batch, or right after it. -/
theorem crashAfter_cons_of_le (pm : PMem) (w : ElemWrite) (ws : List ElemWrite) {k : Nat}
    (hk : k ≤ 3) : crashAfter pm (w :: ws) k = runSteps (w.steps.take k) pm := by
  rw [crashAfter, batchSteps, List.take_append_eq_append_take, ElemWrite.length_steps,
    show k - 3 = 0 by omega, List.take_zero, List.append_nil]

/-- A crash after the first write of a batch is a crash in the rest of the batch. -/
theorem crashAfter_cons_of_ge (pm : PMem) (w : ElemWrite) (ws : List ElemWrite) {k : Nat}
    (hk : 3 ≤ k) : crashAfter pm (w :: ws) k = crashAfter (runSteps w.steps pm) ws (k - 3) := by
  rw [crashAfter, batchSteps, List.take_append_eq_append_take, ElemWrite.length_steps,
    List.take_of_length_le (by rw [ElemWrite.length_steps]; exact hk), runSteps_append]
  rfl

/-- A write cut after `t` steps has written only its record and its neighbours. -/
theorem WriteAt.partial_frame {M : PMem} {w : ElemWrite} {a b : PMemOffsetType}
    (hw : WriteAt M w a b) (hra : w.record ≠ a) (t : Nat) {u : PMemOffsetType}
    (hur : u ≠ w.record) (hua : u ≠ a) (hub : u ≠ b) : runSteps (w.steps.take t) M u = M u := by
  have hP : ∀ v, v ≠ w.record → M.persistWrite w v = M v := fun v hv => by
    simp [hw.persistWrite_eq, PMem.persistNextNT, PMem.persistPrevNT, hv]
  rcases t with _ | _ | _ | t
  · rfl
  · exact hP u hur
  · simp [runSteps, ElemWrite.steps, linkPrev, hw.persistWrite_eq, PMem.persistNextNT,
      PMem.persistPrevNT, hur, hua]
  · simp [runSteps, ElemWrite.steps, linkPrev, linkNext, hw.persistWrite_eq, PMem.persistNextNT,
      PMem.persistPrevNT, hur, hua, hub, hra]

/-- Rolling back records that do not validate only destroys them. -/
theorem rollbackAll_of_invalid : ∀ {pm : PMem} {rs : List PMemOffsetType},
    (∀ r ∈ rs, (pm r).valid = false ∧ r ≠ kNullPMemOffset) →
    ∃ pm', rollbackAll pm rs = .ok pm' ∧ (∀ u, u ∉ rs → pm' u = pm u) ∧
      ∀ u ∈ rs, (pm' u).recordType = .Padding
  | _, [], _ => ⟨_, rfl, fun _ _ => rfl, by simp⟩
  | pm, r :: rs, hrs => by
    obtain ⟨hv, hr⟩ := hrs r (List.mem_cons_self _ _)
    obtain ⟨pm', h, hout, hin⟩ := @rollbackAll_of_invalid (pm.destroy r) rs
      fun q hq => by simpa using hrs q (List.mem_cons_of_mem _ hq)
    refine ⟨pm', by simp [rollbackAll, rollback_of_unlinked hr (.inl hv), h],
      fun u hu => ?_, fun u hu => ?_⟩
    · simp only [List.mem_cons, not_or] at hu
      rw [hout u hu.2, destroy_of_ne _ hu.1]
    · by_cases hur : u ∈ rs
      · exact hin u hur
      · rw [hout u hur, List.mem_cons.1 hu |>.resolve_right hur]; simp

/-- The records of a batch are fresh: distinct, off the collection's list, not validated before
the batch, and, like every record of the list, not the null offset. -/
structure BatchFresh (pm : PMem) (h : PMemOffsetType) (xs : List PMemOffsetType)
    (ws : List ElemWrite) : Prop where
  nodup : (ws.map ElemWrite.record).Nodup
  off_list : ∀ r ∈ ws.map ElemWrite.record, r ∉ h :: xs
  invalid : ∀ r ∈ ws.map ElemWrite.record, (pm r).valid = false
  not_null : kNullPMemOffset ∉ xs ++ ws.map ElemWrite.record

/-- **Rollback in the reverse order of the writes restores the store exactly.**  For every
collection linked from its header `h`, every batch of writes on it with fresh records and every
crash point `k`, rolling back the logged records of the batch, last write first, never fails a
`Replace` or `Remove` assertion, leaves every record outside the log as it was before the batch
(so each updated record is back in its place with its links, and the list is the list before the
batch), and destroys every logged record. -/
theorem rollbackAll_reverse_restores {pm : PMem} {h : PMemOffsetType} {xs : List PMemOffsetType}
    {ws : List ElemWrite} (hb : BatchOn h xs ws) (hl : Links pm h xs h) (hnd : (h :: xs).Nodup)
    (hf : BatchFresh pm h xs ws) (k : Nat) :
    ∃ pm', rollbackAll (crashAfter pm ws k) (ws.map ElemWrite.record).reverse = .ok pm' ∧
      (∀ u, u ∉ ws.map ElemWrite.record → pm' u = pm u) ∧
      ∀ r ∈ ws.map ElemWrite.record, (pm' r).recordType = .Padding := by
  induction hb generalizing pm k with
  | nil xs => exact ⟨pm, by simp [rollbackAll], fun _ _ => rfl, by simp⟩
  | @cons xs ys w ws hw _ ih =>
    obtain ⟨hnd0, hoff, hinv, hnull⟩ := hf
    simp only [List.map_cons, List.nodup_cons, List.forall_mem_cons, List.reverse_cons]
      at hnd0 hoff hinv hnull ⊢
    obtain ⟨hrs, hnd_rs⟩ := hnd0
    obtain ⟨hr, hoff⟩ := hoff
    obtain ⟨hrv, hinv⟩ := hinv
    have hnx : kNullPMemOffset ∉ xs := fun e => hnull (List.mem_append_left _ e)
    have hnrs : kNullPMemOffset ∉ ws.map ElemWrite.record := fun e =>
      hnull (List.mem_append_right _ (List.mem_cons_of_mem _ e))
    obtain ⟨a, b, hwa, ha, hb, hold, hl', hnd', hsub⟩ := hw.spec hl hnd hr hnx
    have hra : w.record ≠ a := fun e => hr (e ▸ ha)
    have hrb : w.record ≠ b := fun e => hr (e ▸ hb)
    have hrn : w.record ≠ kNullPMemOffset := fun e => hnull (by simp [e])
    have hrold : w.record ≠ w.oldVersion := by
      rcases hold with e | e
      · rw [e]; exact hrn
      · exact fun e' => hr (List.mem_cons_of_mem _ (e' ▸ e))
    have hE : ∀ u ∈ (ws.map ElemWrite.record).reverse,
        u ≠ w.record ∧ u ≠ a ∧ u ≠ b ∧ u ≠ w.oldVersion := by
      intro u hu
      rw [List.mem_reverse] at hu
      have hux : u ∉ h :: xs := hoff u hu
      refine ⟨fun e => hrs (e ▸ hu), fun e => hux (e ▸ ha), fun e => hux (e ▸ hb), fun e => ?_⟩
      rcases hold with e' | e'
      · exact hnrs (e' ▸ e ▸ hu)
      · exact hux (List.mem_cons_of_mem _ (e ▸ e'))
    -- the rolled-back store after the later writes, and the undo of this one
    suffices hlater : ∃ cur, rollbackAll (crashAfter pm (w :: ws) k)
        (ws.map ElemWrite.record).reverse = .ok cur ∧
        (∀ u ∈ (ws.map ElemWrite.record).reverse, (cur u).recordType = .Padding) ∧
        ∃ t ≤ 3, ∀ u, u ∉ (ws.map ElemWrite.record).reverse →
          cur u = runSteps (w.steps.take t) pm u by
      obtain ⟨cur, hcur, hpad, t, ht, hagree⟩ := hlater
      obtain ⟨pm', hroll, hout, hpadr, htypes⟩ :=
        hwa.rollback_partial hra hrb hrn hrold hrv hE ht hagree
      refine ⟨pm', rollbackAll_append hcur (by simp [rollbackAll, hroll]), fun u hu => ?_,
        hpadr, fun r hr' => ?_⟩
      · simp only [List.mem_cons, not_or] at hu
        exact hout u (by simpa using hu.2) hu.1
      · rw [htypes r (List.mem_reverse.2 hr')]; exact hpad r (List.mem_reverse.2 hr')
    rcases le_or_lt k 3 with hk | hk
    · -- the crash cuts this write: the later records were never written
      rw [crashAfter_cons_of_le _ _ _ hk]
      obtain ⟨cur, hcur, hout, hpad⟩ :=
        @rollbackAll_of_invalid (runSteps (w.steps.take k) pm) (ws.map ElemWrite.record).reverse
          fun u hu => by
            obtain ⟨h1, h2, h3, -⟩ := hE u hu
            rw [List.mem_reverse] at hu
            rw [hwa.partial_frame hra k h1 h2 h3]
            exact ⟨hinv u hu, fun e => hnrs (e ▸ hu)⟩
      exact ⟨cur, hcur, hpad, k, hk, hout⟩
    · -- the crash comes after this write
      rw [crashAfter_cons_of_ge _ _ _ hk.le]
      have hfresh : BatchFresh (runSteps w.steps pm) h ys ws := by
        refine ⟨hnd_rs, fun r hr' hm => ?_, fun r hr' => ?_, fun hm => ?_⟩
        · have hrx := hoff r hr'
          rcases List.mem_cons.1 hm with e | hm
          · exact hrx (e ▸ List.mem_cons_self _ _)
          · rcases hsub r hm with hx | e
            · exact hrx (List.mem_cons_of_mem _ hx)
            · exact hrs (e ▸ hr')
        · obtain ⟨h1, h2, h3, -⟩ := hE r (List.mem_reverse.2 hr')
          rw [show runSteps w.steps pm r = runSteps (w.steps.take 3) pm r from rfl,
            hwa.partial_frame hra 3 h1 h2 h3]
          exact hinv r hr'
        · rcases List.mem_append.1 hm with hm | hm
          · rcases hsub _ hm with hx | e
            · exact hnx hx
            · exact hrn e.symm
          · exact hnrs hm
      obtain ⟨cur, hcur, hout, hpad⟩ := ih hl' hnd' hfresh (k - 3)
      exact ⟨cur, hcur, fun u hu => hpad u (List.mem_reverse.1 hu), 3, le_refl 3,
        fun u hu => hout u (by simpa using hu)⟩

/-- An empty collection: the header `0`, self-linked; every other record unwritten. -/
def emptyCollection : PMem := fun o =>
  if o = 0 then
    { recordType := .SortedRecord, recordStatus := .Normal, key := "", value := .malformed,
      id := 0, timestamp := 0, prev := 0, next := 0, oldVersion := kNullPMemOffset,
      valid := true, expired := false }
  else default

/-- The torn batch on the empty collection, rolled back last write first. -/
theorem rollbackAll_reverse_torn :
    ∃ pm', rollbackAll (crashAfter emptyCollection [.insert 1 0, .insert 2 0] 5)
        ([ElemWrite.insert 1 0, .insert 2 0].map ElemWrite.record).reverse = .ok pm' ∧
      (∀ u, u ∉ [ElemWrite.insert 1 0, .insert 2 0].map ElemWrite.record →
        pm' u = emptyCollection u) ∧
      ∀ r ∈ [ElemWrite.insert 1 0, .insert 2 0].map ElemWrite.record,
        (pm' r).recordType = .Padding :=
  rollbackAll_reverse_restores
    (.cons (.insert [] [] 1 0 rfl) (.cons (.insert [] [1] 2 0 rfl) (.nil _)))
    (by simp [PMem.Link, emptyCollection]) (by decide) ⟨by decide, by decide, by decide, by decide⟩ 5

/-- **Rollback in the order of the writes can leave the list torn.**  On the empty collection, a
batch inserts record `1` after the header and then record `2` after the header, in front of `1`;
the crash comes after `2`'s `prev.next` and before its `next.prev`.  Rolling back `1` first finds
its `prev` (the header) pointing to `2`, so `1` is only destroyed; rolling back `2` then takes it
off the list, which relinks the header to the destroyed `1`. -/
theorem rollbackAll_forward_tears :
    BatchOn 0 [] [.insert 1 0, .insert 2 0] ∧ Links emptyCollection 0 [] 0 ∧
      BatchFresh emptyCollection 0 [] [.insert 1 0, .insert 2 0] ∧
      ∃ pm', rollbackAll (crashAfter emptyCollection [.insert 1 0, .insert 2 0] 5) [1, 2] =
          .ok pm' ∧ ¬ Links pm' 0 [] 0 ∧ (pm' 0).next = 1 ∧ (pm' 1).recordType = .Padding :=
  ⟨.cons (.insert [] [] 1 0 rfl) (.cons (.insert [] [1] 2 0 rfl) (.nil _)),
    by simp [PMem.Link, emptyCollection],
    ⟨by decide, by decide, by decide, by decide⟩,
    _, rfl, by simp [PMem.Link]; decide, rfl, rfl⟩

end Kvdk
