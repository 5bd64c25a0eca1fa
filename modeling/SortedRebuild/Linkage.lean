import SortedRebuild.Record
import Mathlib.Data.List.Chain
import Mathlib.Data.List.Nodup

/-
  Linkage of the on-media doubly-linked lists.

  A sorted collection is a circular list through its header record: `next` goes forward,
  `prev` mirrors it.  `Links pm p xs q` says that, from `p`, `next` visits the records `xs` and
  then reaches `q`, each step mirrored by `prev`; a collection with header `h` and elements `xs`
  is `Links pm h xs h`, and the empty collection is the self-linked header `Links pm h [] h`.

  The rebuilder reaches the lists through the recovery utilities (`CheckPrevLinkage`,
  `CheckNextLinkage`, `CheckLinkage`, `CheckAndRepairLinkage`) and through `Skiplist::Remove`
  and `Skiplist::Replace`; all of them live outside src/ and are modelled from the spec.  The
  two list operations come with their effect on `Links`:

  * `links_remove`  — `Remove x` takes `x` out of `ys ++ x :: zs`;
  * `links_replace` — `Replace x v` puts a fresh `v` in the place of `x`;
  * `links_replace_header` — replacing the header `h` of a collection by a fresh `v` makes `v`
    the header of the same elements (a self-linked `h` leaves `v` self-linked).

  Every list lemma rests on `chain'_link_congr`: a chain of links only reads the `next` field of
  its sources and the `prev` field of its targets.
-/

namespace Kvdk

/-! ## Links -/

/-- `pm.Link u v`: `u.next` is `v` and `v.prev` is `u`. -/
def PMem.Link (pm : PMem) (u v : PMemOffsetType) : Prop :=
  (pm u).next = v ∧ (pm v).prev = u

/-- `Links pm p xs q`: from `p`, `next` visits `xs` and then `q`, each step mirrored by
`prev`. -/
def Links (pm : PMem) (p : PMemOffsetType) (xs : List PMemOffsetType) (q : PMemOffsetType) :
    Prop :=
  (p :: (xs ++ [q])).Chain' pm.Link

@[simp] theorem links_nil {pm : PMem} {p q : PMemOffsetType} :
    Links pm p [] q ↔ pm.Link p q := by
  simp [Links]

@[simp] theorem links_cons {pm : PMem} {p x q : PMemOffsetType} {xs : List PMemOffsetType} :
    Links pm p (x :: xs) q ↔ pm.Link p x ∧ Links pm x xs q := by
  simp [Links]

/-- Splitting a list of links at one of its records. -/
theorem links_append_cons {pm : PMem} {p x q : PMemOffsetType} :
    ∀ {ys zs : List PMemOffsetType},
      Links pm p (ys ++ x :: zs) q ↔ Links pm p ys x ∧ Links pm x zs q
  | [], _ => by simp
  | y :: ys, _ => by simp [links_append_cons, and_assoc]

/-- A chain of links reads only `next` of its sources (all but the last record) and `prev` of
its targets (all but the first). -/
theorem chain'_link_congr {pm pm' : PMem} :
    ∀ {l : List PMemOffsetType}, (∀ u ∈ l.dropLast, (pm' u).next = (pm u).next) →
      (∀ v ∈ l.tail, (pm' v).prev = (pm v).prev) → l.Chain' pm.Link → l.Chain' pm'.Link
  | [], _, _, _ => List.chain'_nil
  | [_], _, _, _ => List.chain'_singleton _
  | u :: v :: l, hn, hp, h => by
    rw [List.chain'_cons] at h ⊢
    refine ⟨⟨?_, ?_⟩, chain'_link_congr (fun w hw => hn w ?_) (fun w hw => hp w ?_) h.2⟩
    · rw [hn u (by simp)]; exact h.1.1
    · rw [hp v (by simp)]; exact h.1.2
    · simp only [List.dropLast_cons₂, List.mem_cons] at hw ⊢; exact Or.inr hw
    · simp only [List.tail_cons, List.mem_cons] at hw ⊢; exact Or.inr hw

theorem links_congr {pm pm' : PMem} {p q : PMemOffsetType} {xs : List PMemOffsetType}
    (hn : ∀ u ∈ p :: xs, (pm' u).next = (pm u).next)
    (hp : ∀ v ∈ xs ++ [q], (pm' v).prev = (pm v).prev) (h : Links pm p xs q) :
    Links pm' p xs q := by
  have hd : (p :: (xs ++ [q])).dropLast = p :: xs := by
    rw [← List.cons_append, List.dropLast_concat]
  exact chain'_link_congr (by rw [hd]; exact hn) (by simpa using hp) h

/-- The last record of a list of links, `p` when it is empty, is linked to `q`. -/
theorem links_last {pm : PMem} {p q : PMemOffsetType} :
    ∀ {ys : List PMemOffsetType}, Links pm p ys q → pm.Link ((ys.getLast?).getD p) q
  | [], h => by simpa using h
  | _ :: _, h => by simpa [List.getLast?_cons] using links_last (links_cons.1 h).2

/-- The record after the first of a list of links is the next one of the list, or `q`. -/
theorem links_next_mem {pm : PMem} {p q : PMemOffsetType} {ys : List PMemOffsetType}
    (h : Links pm p ys q) : (pm p).next ∈ ys ++ [q] := by
  cases ys with
  | nil => simp [(links_nil.1 h).1]
  | cons y ys => simp [(links_cons.1 h).1.1]

/-- A cycle through `h` read from its first element instead. -/
theorem links_rotate {pm : PMem} {h x : PMemOffsetType} {xs : List PMemOffsetType} :
    Links pm h (x :: xs) h ↔ Links pm x (xs ++ [h]) x := by
  simp only [Links, List.cons_append, List.chain'_cons]
  rw [show x :: (xs ++ [h] ++ [x]) = (x :: (xs ++ [h])) ++ [x] from rfl, List.chain'_append]
  have hl : (x :: (xs ++ [h])).getLast? = some h := by
    rw [← List.cons_append, List.getLast?_concat]
  simp [hl, and_comm]

/-! ## The recovery utilities -/

/-- Modelled from the spec: `RecoveryUtils::CheckPrevLinkage`, the record's `prev` points back
to it.  The null offset never stands in the `prev` or `next` of a linked record, so the model
reads through it like any other offset. -/
def checkPrevLinkage (pm : PMem) (r : PMemOffsetType) : Bool :=
  (pm (pm r).prev).next = r

/-- Modelled from the spec: `RecoveryUtils::CheckNextLinkage`, the record's `next` points back
to it. -/
def checkNextLinkage (pm : PMem) (r : PMemOffsetType) : Bool :=
  (pm (pm r).next).prev = r

/-- Modelled from the spec: `RecoveryUtils::CheckLinkage`, both sides point back. -/
def checkLinkage (pm : PMem) (r : PMemOffsetType) : Bool :=
  checkPrevLinkage pm r && checkNextLinkage pm r

/-- Modelled from the spec: `RecoveryUtils::CheckAndRepairLinkage`.  The `prev` side decides
whether the record is linked (the write path persists `prev.next` before `next.prev`, which is
what `Rollback` relies on at line 100); a torn `next` side is then repaired by persisting
`next.prev`. -/
def checkAndRepairLinkage (pm : PMem) (r : PMemOffsetType) : Bool × PMem :=
  if checkPrevLinkage pm r then
    if checkNextLinkage pm r then (true, pm) else (true, pm.persistPrevNT (pm r).next r)
  else (false, pm)

/-- A record inside a list of links is linked on both sides. -/
theorem checkLinkage_of_links {pm : PMem} {p u q : PMemOffsetType} {ys zs : List PMemOffsetType}
    (h : Links pm p (ys ++ u :: zs) q) : checkLinkage pm u = true := by
  obtain ⟨h1, h2⟩ := links_append_cons.1 h
  have hprev := links_last h1
  have hnext : pm.Link u (zs.head?.getD q) := by
    cases zs with
    | nil => exact links_nil.1 h2
    | cons z zs => exact (links_cons.1 h2).1
  simp [checkLinkage, checkPrevLinkage, checkNextLinkage, hprev.1, hprev.2, hnext.1, hnext.2]

/-- Every record of a cycle is linked on both sides. -/
theorem checkLinkage_of_cycle {pm : PMem} {h u : PMemOffsetType} {xs : List PMemOffsetType}
    (hl : Links pm h xs h) (hu : u ∈ h :: xs) : checkLinkage pm u = true := by
  rcases List.mem_cons.1 hu with rfl | hu
  · cases xs with
    | nil =>
      have := links_nil.1 hl
      simp [checkLinkage, checkPrevLinkage, checkNextLinkage, this.1, this.2]
    | cons x xs => exact checkLinkage_of_links (show Links pm x (xs ++ u :: []) x from links_rotate.1 hl)
  · obtain ⟨ys, zs, rfl⟩ := List.append_of_mem hu
    exact checkLinkage_of_links hl

/-- `Destroy` writes no link, so it keeps every linkage check. -/
@[simp] theorem checkLinkage_destroy (pm : PMem) (r u : PMemOffsetType) :
    checkLinkage (pm.destroy r) u = checkLinkage pm u := by
  simp [checkLinkage, checkPrevLinkage, checkNextLinkage]

/-! ## `Skiplist::Remove` and `Skiplist::Replace` -/

/-- Modelled from the spec: `Skiplist::Remove(record, ...)`.  When the record's `prev` points back
to it, its two neighbours are linked to each other; the result says whether it was on a list. -/
def Skiplist.remove (pm : PMem) (r : PMemOffsetType) : Bool × PMem :=
  if checkPrevLinkage pm r then
    (true, (pm.persistNextNT (pm r).prev (pm r).next).persistPrevNT (pm r).next (pm r).prev)
  else (false, pm)

/-- Modelled from the spec: `Skiplist::Replace(old, new, ...)` swaps `new` into the place of `old`
on its list, when `old`'s `prev` points back to it.  The place of a self-linked `old` (the header
of an empty collection) is its own neighbour, so `new` becomes self-linked. -/
def Skiplist.replace (pm : PMem) (old new : PMemOffsetType) : Bool × PMem :=
  if checkPrevLinkage pm old then
    let p := if (pm old).prev = old then new else (pm old).prev
    let n := if (pm old).next = old then new else (pm old).next
    (true, (((pm.persistPrevNT new p).persistNextNT new n).persistNextNT p new).persistPrevNT n new)
  else (false, pm)

@[simp] theorem remove_fst (pm : PMem) (r : PMemOffsetType) :
    (Skiplist.remove pm r).1 = checkPrevLinkage pm r := by
  unfold Skiplist.remove; split_ifs with h <;> simp [h]

@[simp] theorem replace_fst (pm : PMem) (r v : PMemOffsetType) :
    (Skiplist.replace pm r v).1 = checkPrevLinkage pm r := by
  unfold Skiplist.replace; split_ifs with h <;> simp [h]

/-- `Remove x` where `x` sits after `a` and before `b`: `a.next = b`, then `b.prev = a`.  Only the
`prev` side of `x` has to point back to it. -/
theorem remove_eq {pm : PMem} {a x b : PMemOffsetType} (hax : pm.Link a x)
    (hxb : (pm x).next = b) :
    Skiplist.remove pm x = (true, (pm.persistNextNT a b).persistPrevNT b a) := by
  simp [Skiplist.remove, checkPrevLinkage, hax.1, hax.2, hxb]

/-- `Remove x` on the links `A ++ a :: x :: b :: B` leaves `A ++ a :: b :: B`. -/
theorem chain'_remove {pm : PMem} {A B : List PMemOffsetType} {a x b : PMemOffsetType}
    (h : (A ++ a :: x :: b :: B).Chain' pm.Link) (ha : a ∉ A) (ha' : a ∉ (b :: B).dropLast)
    (hb : b ∉ (A ++ [a]).tail) (hb' : b ∉ B) :
    Skiplist.remove pm x = (true, (pm.persistNextNT a b).persistPrevNT b a) ∧
      (A ++ a :: b :: B).Chain' ((pm.persistNextNT a b).persistPrevNT b a).Link := by
  simp only [List.chain'_append_cons_cons, List.chain'_cons] at h ⊢
  obtain ⟨hA, hax, hxb, hB⟩ := h
  refine ⟨remove_eq hax hxb.1, chain'_link_congr ?_ ?_ hA, ⟨by simp, by simp⟩,
    chain'_link_congr ?_ ?_ hB⟩
  · intro u hu
    rw [List.dropLast_concat] at hu
    simp [show u ≠ a from fun e => ha (e ▸ hu)]
  · intro u hu; simp [show u ≠ b from fun e => hb (e ▸ hu)]
  · intro u hu; simp [show u ≠ a from fun e => ha' (e ▸ hu)]
  · intro u hu; simp [show u ≠ b from fun e => hb' (e ▸ hu)]

/-- `pm.splice a v b`: the writes that put `v` between `a` and `b`, in the order
`Skiplist::Replace` and the write path persist them: `v.prev`, `v.next`, then `a.next` and
`b.prev`. -/
def PMem.splice (pm : PMem) (a v b : PMemOffsetType) : PMem :=
  (((pm.persistPrevNT v a).persistNextNT v b).persistNextNT a v).persistPrevNT b v

@[simp] theorem splice_next (pm : PMem) (a v b u : PMemOffsetType) :
    (pm.splice a v b u).next = if u = a then v else if u = v then b else (pm u).next := by
  by_cases hua : u = a <;> by_cases huv : u = v <;> simp [PMem.splice, hua, huv]

@[simp] theorem splice_prev (pm : PMem) (a v b u : PMemOffsetType) :
    (pm.splice a v b u).prev = if u = b then v else if u = v then a else (pm u).prev := by
  by_cases hub : u = b <;> by_cases huv : u = v <;> simp [PMem.splice, hub, huv]

@[simp] theorem splice_body (pm : PMem) (a v b u : PMemOffsetType) :
    (pm.splice a v b u).body = (pm u).body := by
  simp [PMem.splice]

@[simp] theorem splice_recordType (pm : PMem) (a v b u : PMemOffsetType) :
    (pm.splice a v b u).recordType = (pm u).recordType := by
  simp [PMem.splice]

@[simp] theorem splice_core (pm : PMem) (a v b u : PMemOffsetType) :
    (pm.splice a v b u).core = (pm u).core := by
  simp [PMem.splice]

@[simp] theorem splice_oldVersion (pm : PMem) (a v b u : PMemOffsetType) :
    (pm.splice a v b u).oldVersion = (pm u).oldVersion := by
  simp [PMem.splice]

/-- A splice writes only the two neighbours and the record spliced in. -/
theorem splice_of_ne (pm : PMem) {a v b u : PMemOffsetType} (hua : u ≠ a) (huv : u ≠ v)
    (hub : u ≠ b) : pm.splice a v b u = pm u := by
  simp [PMem.splice, PMem.persistPrevNT, PMem.persistNextNT, hua, huv, hub]

@[simp] theorem replace_snd_core (pm : PMem) (r v u : PMemOffsetType) :
    ((Skiplist.replace pm r v).2 u).core = (pm u).core := by
  unfold Skiplist.replace; split_ifs <;> simp

@[simp] theorem remove_snd_core (pm : PMem) (r u : PMemOffsetType) :
    ((Skiplist.remove pm r).2 u).core = (pm u).core := by
  unfold Skiplist.remove; split_ifs <;> simp

@[simp] theorem replace_snd_recordType (pm : PMem) (r v u : PMemOffsetType) :
    ((Skiplist.replace pm r v).2 u).recordType = (pm u).recordType := by
  unfold Skiplist.replace; split_ifs <;> simp

@[simp] theorem remove_snd_recordType (pm : PMem) (r u : PMemOffsetType) :
    ((Skiplist.remove pm r).2 u).recordType = (pm u).recordType := by
  unfold Skiplist.remove; split_ifs <;> simp

@[simp] theorem replace_snd_oldVersion (pm : PMem) (r v u : PMemOffsetType) :
    ((Skiplist.replace pm r v).2 u).oldVersion = (pm u).oldVersion := by
  unfold Skiplist.replace; split_ifs <;> simp

@[simp] theorem remove_snd_oldVersion (pm : PMem) (r u : PMemOffsetType) :
    ((Skiplist.remove pm r).2 u).oldVersion = (pm u).oldVersion := by
  unfold Skiplist.remove; split_ifs <;> simp

/-- `Remove r` writes only the two neighbours of `r`. -/
theorem remove_snd_of_ne (pm : PMem) {r u : PMemOffsetType} (hp : u ≠ (pm r).prev)
    (hn : u ≠ (pm r).next) : (Skiplist.remove pm r).2 u = pm u := by
  unfold Skiplist.remove; split_ifs <;> simp [PMem.persistPrevNT, PMem.persistNextNT, hp, hn]

/-- `Replace r v` writes only `v` and the two neighbours of `r`. -/
theorem replace_snd_of_ne (pm : PMem) {r v u : PMemOffsetType} (hp : u ≠ (pm r).prev)
    (hn : u ≠ (pm r).next) (hv : u ≠ v) : (Skiplist.replace pm r v).2 u = pm u := by
  unfold Skiplist.replace
  split_ifs <;> simp [PMem.persistPrevNT, PMem.persistNextNT, hp, hn, hv]

/-- `Replace x v` of a record whose `prev` points back to it splices `v` into the place of `x`:
between its neighbours, or, for a self-linked `x`, onto itself. -/
theorem replace_of_check {pm : PMem} {x v : PMemOffsetType} (hc : checkPrevLinkage pm x = true) :
    Skiplist.replace pm x v = (true, pm.splice (if (pm x).prev = x then v else (pm x).prev) v
      (if (pm x).next = x then v else (pm x).next)) := by
  simp [Skiplist.replace, hc, PMem.splice]

/-- `Replace x v` where `x` sits after `a` and before `b`, neither of them `x` itself: `v` is
spliced between them.  Only the `prev` side of `x` has to point back to it. -/
theorem replace_eq_splice {pm : PMem} {a x b v : PMemOffsetType} (hax : pm.Link a x)
    (hxb : (pm x).next = b) (ha : a ≠ x) (hb : b ≠ x) :
    Skiplist.replace pm x v = (true, pm.splice a v b) := by
  simp [Skiplist.replace, checkPrevLinkage, PMem.splice, hax.1, hax.2, hxb, ha, hb]

/-- Splicing a fresh `v` between the ends `a` and `b` of two chains of links joins them through
`v`. -/
theorem chain'_splice {pm : PMem} {A B : List PMemOffsetType} {a b v : PMemOffsetType}
    (hA : (A ++ [a]).Chain' pm.Link) (hB : (b :: B).Chain' pm.Link)
    (ha : a ∉ A) (ha' : a ∉ (b :: B).dropLast) (hb : b ∉ (A ++ [a]).tail) (hb' : b ∉ B)
    (hvA : v ∉ A ++ [a]) (hvB : v ∉ b :: B) :
    (A ++ a :: v :: b :: B).Chain' (pm.splice a v b).Link := by
  have hav : a ≠ v := fun e => hvA (by simp [e])
  have hbv : b ≠ v := fun e => hvB (by simp [e])
  simp only [List.chain'_append_cons_cons, List.chain'_cons]
  refine ⟨chain'_link_congr ?_ ?_ hA, ⟨by simp, by simp [hbv.symm, hav.symm]⟩,
    ⟨by simp [hav.symm], by simp⟩, chain'_link_congr ?_ ?_ hB⟩
  · intro u hu
    rw [List.dropLast_concat] at hu
    have : u ≠ v := fun e => hvA (by simp [← e, hu])
    simp [show u ≠ a from fun e => ha (e ▸ hu), this]
  · intro u hu
    have : u ≠ v := fun e => hvA (e ▸ List.mem_of_mem_tail hu)
    simp [show u ≠ b from fun e => hb (e ▸ hu), this]
  · intro u hu
    have : u ≠ v := fun e => hvB (e ▸ (List.dropLast_subset _) hu)
    simp [show u ≠ a from fun e => ha' (e ▸ hu), this]
  · intro u hu
    have : u ≠ v := fun e => hvB (List.mem_cons_of_mem _ (e ▸ hu))
    simp [show u ≠ b from fun e => hb' (e ▸ hu), this]

/-- Around a record `x` of a list of links from `p` to `q`: the record `a` before it, the record
`b` after it, and the distinctness `Remove` and `Replace` need. -/
theorem links_around {p x q : PMemOffsetType} {ys zs : List PMemOffsetType}
    (hs : (p :: (ys ++ x :: zs)).Nodup) (ht : (ys ++ x :: zs ++ [q]).Nodup) :
    ∃ A a b B, p :: ys = A ++ [a] ∧ zs ++ [q] = b :: B ∧ a ∉ A ∧ a ∉ zs ∧ b ∉ ys ∧ b ∉ B ∧
      a ≠ x ∧ b ≠ x := by
  obtain ⟨A, a, hA⟩ := (List.eq_nil_or_concat (p :: ys)).resolve_left (List.cons_ne_nil _ _)
  rw [List.concat_eq_append] at hA
  obtain ⟨b, B, hB⟩ : ∃ b B, zs ++ [q] = b :: B := by cases zs <;> simp
  have hs' : (A ++ [a] ++ x :: zs).Nodup := by rw [← hA, List.cons_append]; exact hs
  have ht' : (ys ++ x :: b :: B).Nodup := by rw [← hB]; simpa using ht
  obtain ⟨hAa, -, hd⟩ := List.nodup_append.1 hs'
  obtain ⟨-, hxbB, hd'⟩ := List.nodup_append.1 ht'
  have ha : a ∈ A ++ [a] := by simp
  refine ⟨A, a, b, B, hA, hB, fun h => ?_, fun h => hd ha (by simp [h]), fun h => hd' h (by simp),
    (List.nodup_cons.1 (List.nodup_cons.1 hxbB).2).1, fun h => hd ha (by simp [h]),
    fun h => (List.nodup_cons.1 hxbB).1 (by simp [h])⟩
  exact (List.nodup_append.1 hAa).2.2 h (List.mem_singleton_self a)

/-- **`Remove` takes a record out of its list.** -/
theorem links_remove {pm : PMem} {p x q : PMemOffsetType} {ys zs : List PMemOffsetType}
    (h : Links pm p (ys ++ x :: zs) q) (hs : (p :: (ys ++ x :: zs)).Nodup)
    (ht : (ys ++ x :: zs ++ [q]).Nodup) :
    (Skiplist.remove pm x).1 = true ∧ Links (Skiplist.remove pm x).2 p (ys ++ zs) q := by
  obtain ⟨A, a, b, B, hA, hB, haA, hazs, hbys, hbB, -, -⟩ := links_around hs ht
  have hx : p :: (ys ++ x :: zs ++ [q]) = A ++ a :: x :: b :: B := by
    rw [← hB, show A ++ a :: x :: (zs ++ [q]) = A ++ [a] ++ x :: (zs ++ [q]) by simp, ← hA]
    simp
  have h0 : p :: (ys ++ zs ++ [q]) = A ++ a :: b :: B := by
    rw [← hB, show A ++ a :: (zs ++ [q]) = A ++ [a] ++ (zs ++ [q]) by simp, ← hA]
    simp
  have hd : (b :: B).dropLast = zs := by rw [← hB, List.dropLast_concat]
  have ht' : (A ++ [a]).tail = ys := by rw [← hA]; rfl
  have hc := chain'_remove (x := x) (hx ▸ (show (p :: (ys ++ x :: zs ++ [q])).Chain' _ from h)) haA (hd ▸ hazs) (ht' ▸ hbys) hbB
  rw [hc.1]
  exact ⟨rfl, show (p :: (ys ++ zs ++ [q])).Chain' _ from h0 ▸ hc.2⟩

/-- Between two parts `ys` and `zs` of a list of links from `p` to `q`: the record `a` that ends
`p :: ys`, the record `b` that starts `zs ++ [q]`, and the distinctness a splice needs. -/
theorem links_gap {p q : PMemOffsetType} {ys zs : List PMemOffsetType}
    (hs : (p :: (ys ++ zs)).Nodup) (ht : (ys ++ zs ++ [q]).Nodup) :
    ∃ A a b B, p :: ys = A ++ [a] ∧ zs ++ [q] = b :: B ∧ a ∉ A ∧ a ∉ zs ∧ b ∉ ys ∧ b ∉ B := by
  obtain ⟨A, a, hA⟩ := (List.eq_nil_or_concat (p :: ys)).resolve_left (List.cons_ne_nil _ _)
  rw [List.concat_eq_append] at hA
  obtain ⟨b, B, hB⟩ : ∃ b B, zs ++ [q] = b :: B := by cases zs <;> simp
  have hs' : (A ++ [a] ++ zs).Nodup := by rw [← hA, List.cons_append]; exact hs
  have ht' : (ys ++ b :: B).Nodup := by rw [← hB, ← List.append_assoc]; exact ht
  obtain ⟨hAa, -, hd⟩ := List.nodup_append.1 hs'
  obtain ⟨-, hbB, hd'⟩ := List.nodup_append.1 ht'
  exact ⟨A, a, b, B, hA, hB, fun h => (List.nodup_append.1 hAa).2.2 h (List.mem_singleton_self a),
    fun h => hd (by simp) h, fun h => hd' h (by simp), (List.nodup_cons.1 hbB).1⟩

/-- **Splicing a fresh record between two parts of a list of links** (the write of an insert):
the records `a` and `b` it goes between, linked before, and the links through it after. -/
theorem links_splice_insert {pm : PMem} {p q v : PMemOffsetType} {ys zs : List PMemOffsetType}
    (h : Links pm p (ys ++ zs) q) (hs : (p :: (ys ++ zs)).Nodup) (ht : (ys ++ zs ++ [q]).Nodup)
    (hv : v ∉ p :: (ys ++ zs ++ [q])) :
    ∃ a b, (p :: ys).getLast? = some a ∧ pm.Link a b ∧ b ∈ zs ++ [q] ∧
      Links (pm.splice a v b) p (ys ++ v :: zs) q := by
  obtain ⟨A, a, b, B, hA, hB, haA, hazs, hbys, hbB⟩ := links_gap hs ht
  have h0 : p :: (ys ++ zs ++ [q]) = A ++ a :: b :: B := by
    rw [← hB, show A ++ a :: (zs ++ [q]) = A ++ [a] ++ (zs ++ [q]) by simp, ← hA]
    simp
  have h1 : p :: (ys ++ v :: zs ++ [q]) = A ++ a :: v :: b :: B := by
    rw [← hB, show A ++ a :: v :: (zs ++ [q]) = A ++ [a] ++ v :: (zs ++ [q]) by simp, ← hA]
    simp
  have hd : (b :: B).dropLast = zs := by rw [← hB, List.dropLast_concat]
  have ht' : (A ++ [a]).tail = ys := by rw [← hA]; rfl
  have hvA : v ∉ A ++ [a] := by
    rw [← hA]
    exact fun hm => hv ((((List.sublist_append_left ys zs).trans
      (List.sublist_append_left _ _)).cons₂ p).subset hm)
  have hvB : v ∉ b :: B := by
    rw [← hB]
    exact fun hm => hv ((((List.sublist_append_right ys zs).append_right [q]).cons p).subset hm)
  have hc : (A ++ a :: b :: B).Chain' pm.Link :=
    h0 ▸ (show (p :: (ys ++ zs ++ [q])).Chain' _ from h)
  rw [List.chain'_append_cons_cons] at hc
  obtain ⟨hAc, hl, hBc⟩ := hc
  refine ⟨a, b, by rw [hA, List.getLast?_concat], hl, by rw [hB]; simp, ?_⟩
  exact show (p :: (ys ++ v :: zs ++ [q])).Chain' _ from
    h1 ▸ chain'_splice hAc hBc haA (hd ▸ hazs) (ht' ▸ hbys) hbB hvA hvB

/-- **Splicing a fresh record in the place of one on a list of links** (the write of an update, or
`Replace`): the neighbours `a` and `b` of the record, and the links through the new one after. -/
theorem links_splice_replace {pm : PMem} {p x q v : PMemOffsetType} {ys zs : List PMemOffsetType}
    (h : Links pm p (ys ++ x :: zs) q) (hs : (p :: (ys ++ x :: zs)).Nodup)
    (ht : (ys ++ x :: zs ++ [q]).Nodup) (hv : v ∉ p :: (ys ++ x :: zs ++ [q])) :
    ∃ a b, pm.Link a x ∧ pm.Link x b ∧ a ≠ x ∧ b ≠ x ∧ a ∈ p :: ys ∧ b ∈ zs ++ [q] ∧
      Links (pm.splice a v b) p (ys ++ v :: zs) q := by
  obtain ⟨A, a, b, B, hA, hB, haA, hazs, hbys, hbB, hax, hbx⟩ := links_around hs ht
  have hx : ∀ y, p :: (ys ++ y :: zs ++ [q]) = A ++ a :: y :: b :: B := by
    intro y
    rw [← hB, show A ++ a :: y :: (zs ++ [q]) = A ++ [a] ++ y :: (zs ++ [q]) by simp, ← hA]
    simp
  have hd : (b :: B).dropLast = zs := by rw [← hB, List.dropLast_concat]
  have ht' : (A ++ [a]).tail = ys := by rw [← hA]; rfl
  have hvA : v ∉ A ++ [a] := by
    rw [← hA]
    exact fun hm => hv ((((List.sublist_append_left ys (x :: zs)).trans
      (List.sublist_append_left _ _)).cons₂ p).subset hm)
  have hvB : v ∉ b :: B := by
    rw [← hB]
    exact fun hm => hv (((((List.sublist_cons_self x zs).trans
      (List.sublist_append_right ys _)).append_right [q]).cons p).subset hm)
  have hc : (A ++ a :: x :: b :: B).Chain' pm.Link :=
    hx x ▸ (show (p :: (ys ++ x :: zs ++ [q])).Chain' _ from h)
  simp only [List.chain'_append_cons_cons, List.chain'_cons] at hc
  obtain ⟨hAc, hl, hr, hBc⟩ := hc
  refine ⟨a, b, hl, hr, hax, hbx, by rw [hA]; simp, by rw [hB]; simp, ?_⟩
  exact show (p :: (ys ++ v :: zs ++ [q])).Chain' _ from
    (hx v) ▸ chain'_splice hAc hBc haA (hd ▸ hazs) (ht' ▸ hbys) hbB hvA hvB

/-- **`Replace` puts a fresh record in the place of one on its list.** -/
theorem links_replace {pm : PMem} {p x q v : PMemOffsetType} {ys zs : List PMemOffsetType}
    (h : Links pm p (ys ++ x :: zs) q) (hs : (p :: (ys ++ x :: zs)).Nodup)
    (ht : (ys ++ x :: zs ++ [q]).Nodup) (hv : v ∉ p :: (ys ++ x :: zs ++ [q])) :
    (Skiplist.replace pm x v).1 = true ∧ Links (Skiplist.replace pm x v).2 p (ys ++ v :: zs) q := by
  obtain ⟨a, b, hl, hr, hax, hbx, -, -, hs⟩ := links_splice_replace h hs ht hv
  rw [replace_eq_splice hl hr.1 hax hbx]
  exact ⟨rfl, hs⟩

/-- **Replacing the header of a collection** by a fresh record makes that record the header of
the same elements; a self-linked header leaves a self-linked record. -/
theorem links_replace_header {pm : PMem} {h v : PMemOffsetType} {xs : List PMemOffsetType}
    (hl : Links pm h xs h) (hn : (h :: xs).Nodup) (hv : v ∉ h :: xs) :
    (Skiplist.replace pm h v).1 = true ∧ Links (Skiplist.replace pm h v).2 v xs v := by
  cases xs with
  | nil =>
    simp only [links_nil, PMem.Link] at hl
    simp [Skiplist.replace, checkPrevLinkage, PMem.Link, hl.1, hl.2]
  | cons x xs =>
    rw [links_rotate] at hl ⊢
    have h1 : (x :: (xs ++ [h])).Nodup :=
      (List.perm_append_singleton h (x :: xs)).nodup_iff.2 hn
    have h2 : (xs ++ [h] ++ [x]).Nodup :=
      (List.perm_append_singleton x (xs ++ [h])).nodup_iff.2 h1
    have hl' : Links pm x (xs ++ h :: []) x := hl
    simpa using links_replace hl' (by simpa using h1) (by simpa using h2) (by simp_all)

end Kvdk
