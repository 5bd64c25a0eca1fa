import SortedRebuild.Record
import Mathlib.Data.List.Basic

/-
  The batched task loops of the rebuilder: `listBasedIndexRebuild` (rebuilder.cpp, lines
  567-586) and the second phase of `segmentBasedIndexRebuild` (lines 297-311) launch one
  `std::async` task per skiplist and, after every `num_rebuild_threads_`-th launch and after the
  last one, read the futures of the batch in order, returning the first status that is not
  `Ok`.

  A future returned by `std::async` blocks in its destructor until its task is done, so a
  `return` in the middle of a batch still waits for the tasks of that batch whose futures were
  not read.  The loop is modelled with the events of the thread that runs it (a task launched;
  a task waited for, with the status it returned) and with the state the tasks leave: the tasks
  of a batch run in their launch order, each to its end.

  `launchInBatches_spec`: the events are the batches of the loop in order, each launched and
  then waited for in full; the batches cut a prefix of the tasks into runs of the batch size
  (the last one possibly shorter); the state is that of running the launched tasks in order;
  and the status is the first non-`Ok` status of a launched task, or `Ok` when every task was
  launched and returned `Ok`.  The proof cuts the loop at the batch boundaries
  (`launchInBatches_fill`, `launchInBatches_batch`) and inducts on the number of tasks left.
-/

namespace Kvdk

/-- What the thread that runs a batched loop does: launch a task, or wait for one (by
`future::get`, or in the destructor of a future it did not read) and learn its status. -/
inductive TaskEvent (α : Type) where
  | launch (x : α)
  | wait (x : α) (s : Status)
  deriving DecidableEq, Repr

section Futures

variable {σ α : Type} (task : α → σ → Except Fault (Status × σ))

/-- The tasks `xs` run to their ends in order, each on the state the previous one left, with
the status each returned. -/
def runTasks : List α → σ → Except Fault (List (α × Status) × σ)
  | [], s => .ok ([], s)
  | x :: xs, s => do
    let (r, s) ← task x s
    let (rs, s) ← runTasks xs s
    pure ((x, r) :: rs, s)

/-- `for (auto& f : fs) { Status s = f.get(); if (s != Status::Ok) return s; }`: the first
status that is not `Ok`, in launch order. -/
def firstFailure : List (α × Status) → Status
  | [] => .Ok
  | (_, s) :: rs => if s = .Ok then firstFailure rs else s

/-- The launch events of the tasks `xs`, in order. -/
def launches (xs : List α) : List (TaskEvent α) := xs.map .launch

/-- The wait events of tasks that returned `rs`, in order. -/
def waits (rs : List (α × Status)) : List (TaskEvent α) := rs.map fun p => .wait p.1 p.2

/-- The loop of `listBasedIndexRebuild`, with `n = num_rebuild_threads_` and `size` the number
of skiplists: `i` tasks launched so far and `fs` the tasks of the batch being filled.  After the
`for` loop the vector of futures goes out of scope, and its destructors wait for any task left
in it. -/
def launchInBatches (n size : Nat) :
    Nat → List α → List α → σ → Except Fault (Status × List (TaskEvent α) × σ)
  | _, fs, [], s => do
    let (rs, s) ← runTasks task fs s
    pure (.Ok, waits rs, s)
  | i, fs, x :: xs, s =>
    if (i + 1) % n = 0 ∨ i + 1 = size then do
      let (rs, s) ← runTasks task (fs ++ [x]) s
      if firstFailure rs = .Ok then do
        let (r, es, s) ← launchInBatches n size (i + 1) [] xs s
        pure (r, .launch x :: waits rs ++ es, s)
      else pure (firstFailure rs, .launch x :: waits rs, s)
    else do
      let (r, es, s) ← launchInBatches n size (i + 1) (fs ++ [x]) xs s
      pure (r, .launch x :: es, s)

/-- The events of running the batches `bs` one after the other: the tasks of a batch launched,
then each waited for. -/
def batchEvents (bs : List (List (α × Status))) : List (TaskEvent α) :=
  (bs.map fun b => launches (b.map Prod.fst) ++ waits b).flatten

/-- `bs` cuts a prefix of the tasks `xs` into batches of at most `n` tasks, each with the status
its task returned, all but the last batch of exactly `n` tasks. -/
structure Batches (n : Nat) (xs : List α) (bs : List (List (α × Status))) : Prop where
  nonempty : ∀ b ∈ bs, b ≠ []
  length_le : ∀ b ∈ bs, b.length ≤ n
  length_full : ∀ b ∈ bs.dropLast, b.length = n
  isPrefix : bs.flatten.map Prod.fst <+: xs

/-! ## Running tasks -/

variable {task}

@[simp] theorem launches_append (xs ys : List α) :
    launches (xs ++ ys) = launches xs ++ launches ys := List.map_append _ _ _

@[simp] theorem waits_append (rs qs : List (α × Status)) :
    waits (rs ++ qs) = waits rs ++ waits qs := List.map_append _ _ _

/-- Running two lists of tasks one after the other runs their concatenation. -/
theorem runTasks_append_ok : ∀ {xs ys : List α} {s s1 s2 : σ} {rs qs : List (α × Status)},
    runTasks task xs s = .ok (rs, s1) → runTasks task ys s1 = .ok (qs, s2) →
    runTasks task (xs ++ ys) s = .ok (rs ++ qs, s2)
  | [], _, _, _, _, _, _, h1, h2 => by cases h1; exact h2
  | x :: xs, ys, s, s1, s2, rs, qs, h1, h2 => by
    simp only [runTasks, except_bind_eq_ok, except_pure_eq_ok] at h1
    obtain ⟨⟨r, s0⟩, hx, ⟨rs', s1'⟩, hxs, he⟩ := h1
    cases he
    simp [runTasks, hx, runTasks_append_ok hxs h2]

/-- A run of two lists of tasks one after the other, taken apart. -/
theorem runTasks_append_of_ok : ∀ {xs ys : List α} {s s2 : σ} {rs : List (α × Status)},
    runTasks task (xs ++ ys) s = .ok (rs, s2) →
    ∃ rs1 s1 rs2, runTasks task xs s = .ok (rs1, s1) ∧ runTasks task ys s1 = .ok (rs2, s2) ∧
      rs = rs1 ++ rs2
  | [], _, s, _, rs, h => ⟨[], s, rs, rfl, h, rfl⟩
  | x :: xs, ys, s, s2, rs, h => by
    simp only [List.cons_append, runTasks, except_bind_eq_ok, except_pure_eq_ok] at h
    obtain ⟨⟨r, s0⟩, hx, ⟨rs', s1'⟩, hxs, he⟩ := h
    cases he
    obtain ⟨rs1, s1, rs2, h1, h2, rfl⟩ := runTasks_append_of_ok hxs
    exact ⟨(x, r) :: rs1, s1, rs2, by simp [runTasks, hx, h1], h2, rfl⟩

/-- The statuses come back for the tasks in the order they ran. -/
theorem runTasks_fst : ∀ {xs : List α} {s s' : σ} {rs : List (α × Status)},
    runTasks task xs s = .ok (rs, s') → rs.map Prod.fst = xs
  | [], _, _, _, h => by cases h; rfl
  | x :: xs, s, s', rs, h => by
    simp only [runTasks, except_bind_eq_ok, except_pure_eq_ok] at h
    obtain ⟨_, _, ⟨rs', _⟩, hxs, he⟩ := h
    cases he
    simp [runTasks_fst hxs]

/-- Where no task faults, the tasks run to their ends. -/
theorem runTasks_ok (htask : ∀ x s, ∃ r s', task x s = .ok (r, s')) :
    ∀ (xs : List α) (s : σ), ∃ rs s', runTasks task xs s = .ok (rs, s')
  | [], s => ⟨[], s, rfl⟩
  | x :: xs, s => by
    obtain ⟨r, s1, h1⟩ := htask x s
    obtain ⟨rs, s2, h2⟩ := runTasks_ok htask xs s1
    exact ⟨(x, r) :: rs, s2, by simp [runTasks, h1, h2]⟩

@[simp] theorem firstFailure_eq_ok_iff :
    ∀ {rs : List (α × Status)}, firstFailure rs = .Ok ↔ ∀ p ∈ rs, p.2 = .Ok
  | [] => by simp [firstFailure]
  | (_, s) :: rs => by
    by_cases h : s = .Ok <;> simp [firstFailure, h, firstFailure_eq_ok_iff]

/-- A failure that `firstFailure` reports is the status of one of the tasks. -/
theorem firstFailure_mem : ∀ {rs : List (α × Status)}, firstFailure rs ≠ .Ok →
    ∃ p ∈ rs, p.2 = firstFailure rs
  | [], h => absurd rfl h
  | (x, s) :: rs, h => by
    by_cases hs : s = .Ok
    · simp only [firstFailure, hs, if_true] at h ⊢
      obtain ⟨p, hp, hp'⟩ := firstFailure_mem h
      exact ⟨p, List.mem_cons_of_mem _ hp, hp'⟩
    · exact ⟨(x, s), List.mem_cons_self _ _, by simp [firstFailure, hs]⟩

theorem firstFailure_append_of_ok {rs : List (α × Status)} (h : firstFailure rs = .Ok)
    (qs : List (α × Status)) : firstFailure (rs ++ qs) = firstFailure qs := by
  induction rs with
  | nil => rfl
  | cons p rs ih =>
    obtain ⟨x, s⟩ := p
    have hs : s = .Ok := (firstFailure_eq_ok_iff.1 h) _ (List.mem_cons_self _ _)
    subst hs
    exact ih h

/-! ## The batching loop -/

variable {n size : Nat}

/-- Inside a batch: launching the tasks `ys`, none of which closes the batch, only adds their
launch events. -/
theorem launchInBatches_fill : ∀ (ys : List α) {zs : List α} {i : Nat} {fs : List α} {s : σ}
    {r : Status} {es : List (TaskEvent α)} {s' : σ},
    (∀ j < ys.length, ¬((i + j + 1) % n = 0 ∨ i + j + 1 = size)) →
    launchInBatches task n size i fs (ys ++ zs) s = .ok (r, es, s') →
    ∃ es', launchInBatches task n size (i + ys.length) (fs ++ ys) zs s = .ok (r, es', s') ∧
      es = launches ys ++ es'
  | [], _, _, _, _, _, _, _, _, h => ⟨_, by simpa using h, rfl⟩
  | y :: ys, zs, i, fs, s, r, es, s', hy, h => by
    have h0 := hy 0 (by simp)
    simp only [List.cons_append, launchInBatches, Nat.add_zero, if_neg h0, except_bind_eq_ok,
      except_pure_eq_ok] at h
    obtain ⟨⟨r', es'', s''⟩, hq, he⟩ := h
    cases he
    have hy' : ∀ j < ys.length, ¬((i + 1 + j + 1) % n = 0 ∨ i + 1 + j + 1 = size) := fun j hj => by
      have := hy (j + 1) (by simp; omega)
      rwa [show i + (j + 1) = i + 1 + j by omega] at this
    obtain ⟨es', h', rfl⟩ := launchInBatches_fill ys hy' hq
    exact ⟨es', by simpa [Nat.add_assoc, Nat.add_comm 1] using h', by simp [launches]⟩

@[simp] theorem launchInBatches_nil (i : Nat) (s : σ) :
    launchInBatches task n size i [] [] s = .ok (.Ok, [], s) := rfl

/-- Within the first `n` tasks after a batch boundary, no launch but the `n`-th or the last
closes the batch. -/
theorem not_closes_batch {i : Nat} (hi : i % n = 0) (len : Nat) {j : Nat}
    (hjn : j + 1 < n) (hjl : j + 1 < len) (hsize : size = i + len) :
    ¬((i + j + 1) % n = 0 ∨ i + j + 1 = size) := by
  have hm : (i + j + 1) % n = j + 1 := by
    rw [Nat.add_assoc, Nat.add_mod, hi, Nat.zero_add, Nat.mod_mod,
      Nat.mod_eq_of_lt (by omega)]
  omega

/-- **One batch** from a batch boundary: the next `k = min n |xs|` tasks are launched, run to
their ends and waited for; the loop then goes on from the next boundary, unless one of them
failed. -/
theorem launchInBatches_batch (hn : 0 < n) {xs : List α} (hxs : xs ≠ []) {i k : Nat}
    (hi : i % n = 0)
    (hk : k = min n xs.length) (hsize : size = i + xs.length) {s s' : σ} {r : Status}
    {es : List (TaskEvent α)} (h : launchInBatches task n size i [] xs s = .ok (r, es, s')) :
    ∃ rs s1, runTasks task (xs.take k) s = .ok (rs, s1) ∧
      ((firstFailure rs = .Ok ∧ ∃ es', launchInBatches task n size (i + k) [] (xs.drop k) s1 =
          .ok (r, es', s') ∧ es = launches (xs.take k) ++ waits rs ++ es') ∨
       (firstFailure rs ≠ .Ok ∧ r = firstFailure rs ∧ es = launches (xs.take k) ++ waits rs ∧
          s' = s1)) := by
  have hlen := List.length_pos.2 hxs
  have hkn : k ≤ n := hk ▸ Nat.min_le_left _ _
  have hkl : k ≤ xs.length := hk ▸ Nat.min_le_right _ _
  have hk1 : 1 ≤ k := hk ▸ Nat.le_min.2 ⟨hn, hlen⟩
  have hd : xs.drop (k - 1) = xs[k - 1] :: xs.drop k := by
    rw [List.drop_eq_getElem_cons (by omega), Nat.sub_add_cancel (by omega)]
  have htake : xs.take (k - 1) ++ [xs[k - 1]] = xs.take k := by
    rw [← List.concat_eq_append, List.take_concat_get, Nat.sub_add_cancel (by omega)]
  have hlt : (xs.take (k - 1)).length = k - 1 := by simp; omega
  have hik : i + (k - 1) + 1 = i + k := by omega
  have hclose : (i + (k - 1) + 1) % n = 0 ∨ i + (k - 1) + 1 = size := by
    rw [hik]
    rcases Nat.le_total n xs.length with hnl | hln
    · left; rw [hk, Nat.min_eq_left hnl, Nat.add_mod_right, hi]
    · right; rw [hk, Nat.min_eq_right hln, hsize]
  rw [← List.take_append_drop (k - 1) xs, hd] at h
  obtain ⟨es1, h1, rfl⟩ := launchInBatches_fill _
    (fun j hj => not_closes_batch hi xs.length (by omega) (by omega) hsize) h
  rw [hlt] at h1
  simp only [launchInBatches, if_pos hclose, List.nil_append, htake, except_bind_eq_ok,
    except_pure_eq_ok] at h1
  obtain ⟨⟨rs, s1⟩, hrun, h1⟩ := h1
  refine ⟨rs, s1, hrun, ?_⟩
  by_cases hf : firstFailure rs = .Ok
  · simp only [if_pos hf, except_bind_eq_ok, except_pure_eq_ok] at h1
    obtain ⟨⟨r', es', s''⟩, hrec, he⟩ := h1
    cases he
    exact .inl ⟨hf, es', hik ▸ hrec, by
      rw [← htake, launches_append]
      simp only [launches, List.map_cons, List.map_nil, List.append_assoc, List.singleton_append,
        List.cons_append, List.nil_append]⟩
  · simp only [if_neg hf, except_pure_eq_ok, Prod.mk.injEq] at h1
    obtain ⟨rfl, rfl, rfl⟩ := h1
    exact .inr ⟨hf, rfl, by
      rw [← htake, launches_append]
      simp only [launches, List.map_cons, List.map_nil, List.append_assoc, List.singleton_append,
        List.cons_append, List.nil_append], rfl⟩

/-- A last batch `rs`: the loop ends after it, whatever it returned. -/
theorem Batches.last {xs : List α} {k : Nat} {rs : List (α × Status)} (hk : 0 < k) (hkn : k ≤ n)
    (hxs : xs ≠ []) (hrs : rs.map Prod.fst = xs.take k) : Batches n xs [rs] where
  nonempty b hb := by
    rw [List.mem_singleton.1 hb]; rintro rfl
    simp [List.take_eq_nil_iff, hxs] at hrs; omega
  length_le b hb := by
    rw [List.mem_singleton.1 hb, ← List.length_map _ Prod.fst, hrs]; simp; omega
  length_full b hb := by simp at hb
  isPrefix := by simp [hrs, List.take_prefix]

/-- A full batch `rs` of `n` tasks in front of the batches `bs` of the tasks after it. -/
theorem Batches.cons {xs : List α} {rs : List (α × Status)} {bs : List (List (α × Status))}
    (hn : 0 < n) (hxs : n ≤ xs.length) (hrs : rs.map Prod.fst = xs.take n)
    (hbs : Batches n (xs.drop n) bs) : Batches n xs (rs :: bs) where
  nonempty b hb := by
    rcases List.mem_cons.1 hb with rfl | hb
    · rintro rfl
      have := congrArg List.length hrs
      simp [Nat.min_eq_left hxs] at this; omega
    · exact hbs.nonempty b hb
  length_le b hb := by
    rcases List.mem_cons.1 hb with rfl | hb
    · rw [← List.length_map _ Prod.fst, hrs]; simp [Nat.min_le_left]
    · exact hbs.length_le b hb
  length_full b hb := by
    have hlen : rs.length = n := by rw [← List.length_map _ Prod.fst, hrs]; simp; omega
    cases bs with
    | nil => simp at hb
    | cons b' bs =>
      rw [List.dropLast_cons₂] at hb
      rcases List.mem_cons.1 hb with rfl | hb
      · exact hlen
      · exact hbs.length_full b hb
  isPrefix := by
    rw [List.flatten_cons, List.map_append, hrs]
    conv_rhs => rw [← List.take_append_drop n xs]
    exact (List.prefix_append_right_inj _).2 hbs.isPrefix

/-- **The batching loop.**  A run of the loop from a batch boundary that returns cuts a prefix
of the remaining tasks into batches of at most `n`, all but the last of exactly `n`; its events
are those batches, each launched and then waited for in full; its state is that of running the
launched tasks in order; its status is the first non-`Ok` status among them; and when that is
`Ok`, every task was launched. -/
theorem launchInBatches_spec (hn : 0 < n) (xs : List α) {i : Nat} (hi : i % n = 0)
    (hsize : size = i + xs.length) {s s' : σ} {r : Status} {es : List (TaskEvent α)}
    (h : launchInBatches task n size i [] xs s = .ok (r, es, s')) :
    ∃ bs, Batches n xs bs ∧ es = batchEvents bs ∧
      runTasks task (bs.flatten.map Prod.fst) s = .ok (bs.flatten, s') ∧
      r = firstFailure bs.flatten ∧ (r = .Ok → bs.flatten.map Prod.fst = xs) := by
  obtain rfl | hxs := eq_or_ne xs []
  · rw [launchInBatches_nil] at h
    obtain ⟨rfl, rfl, rfl⟩ : Status.Ok = r ∧ [] = es ∧ s = s' := by simpa using h
    exact ⟨[], ⟨by simp, by simp, by simp, by simp⟩, rfl, rfl, rfl, fun _ => rfl⟩
  have hk0 : 0 < min n xs.length := Nat.lt_min.2 ⟨hn, List.length_pos.2 hxs⟩
  obtain ⟨rs, s1, hrun, hcase⟩ := launchInBatches_batch hn hxs hi rfl hsize h
  have hfst := runTasks_fst hrun
  have hlast : Batches n xs [rs] := Batches.last hk0 (Nat.min_le_left _ _) hxs hfst
  rcases hcase with ⟨hf, es', hrec, rfl⟩ | ⟨hf, rfl, rfl, rfl⟩
  · by_cases hnl : n < xs.length
    · -- a full batch, and the loop goes on from the next boundary
      rw [Nat.min_eq_left hnl.le] at hrun hrec hfst ⊢
      obtain ⟨bs, hbs, rfl, hrun', rfl, hall⟩ := launchInBatches_spec hn (xs.drop n)
        (by rw [Nat.add_mod_right, hi]) (by simp; omega) hrec
      exact ⟨rs :: bs, Batches.cons hn hnl.le hfst hbs, by simp [batchEvents, hfst],
        by simpa [hfst] using runTasks_append_ok hrun hrun',
        by simp [firstFailure_append_of_ok hf], fun hr => by simp [hfst, hall hr]⟩
    · -- the last batch
      have hlen : min n xs.length = xs.length := Nat.min_eq_right (Nat.le_of_not_lt hnl)
      rw [hlen, List.drop_length, launchInBatches_nil] at hrec
      obtain ⟨rfl, rfl, rfl⟩ : Status.Ok = r ∧ [] = es' ∧ s1 = s' := by simpa using hrec
      exact ⟨[rs], hlast, by simp [batchEvents, hfst], by simpa [hfst] using hrun,
        by simp [hf], fun _ => by simpa [hlen] using hfst⟩
  · -- a batch with a failure ends the loop
    exact ⟨[rs], hlast, by simp [batchEvents, hfst], by simpa [hfst] using hrun, by simp,
      fun hr => absurd hr hf⟩
termination_by xs.length
decreasing_by simp_wf; omega

/-- **The batching loop over a whole list of tasks**, started as the source starts it: what
`launchInBatches_spec` says, and the status is `Ok` exactly when every task was launched and
returned `Ok`, and otherwise one that a launched task returned. -/
theorem launchInBatches_all (hn : 0 < n) {xs : List α} {s s' : σ} {r : Status}
    {es : List (TaskEvent α)} (h : launchInBatches task n xs.length 0 [] xs s = .ok (r, es, s')) :
    ∃ bs, Batches n xs bs ∧ es = batchEvents bs ∧
      runTasks task (bs.flatten.map Prod.fst) s = .ok (bs.flatten, s') ∧
      (r = .Ok ↔ bs.flatten.map Prod.fst = xs ∧ ∀ p ∈ bs.flatten, p.2 = .Ok) ∧
      (r ≠ .Ok → ∃ x, (x, r) ∈ bs.flatten) := by
  obtain ⟨bs, hb, hes, hrun, rfl, hall⟩ :=
    launchInBatches_spec hn xs (Nat.zero_mod n) (Nat.zero_add _).symm h
  refine ⟨bs, hb, hes, hrun, ⟨fun h0 => ⟨hall h0, firstFailure_eq_ok_iff.1 h0⟩,
    fun h0 => firstFailure_eq_ok_iff.2 h0.2⟩, fun hne => ?_⟩
  obtain ⟨p, hp, hp'⟩ := firstFailure_mem hne
  exact ⟨p.1, hp' ▸ hp⟩

/-- **The loop where every task returns `Ok`**: when the tasks, run to their ends in order,
all return `Ok`, the loop returns `Ok` in the state the last of them left. -/
theorem launchInBatches_of_runTasks : ∀ {xs fs : List α} {i : Nat} {s s' : σ}
    {rs : List (α × Status)}, runTasks task (fs ++ xs) s = .ok (rs, s') → (∀ p ∈ rs, p.2 = .Ok) →
    ∃ es, launchInBatches task n size i fs xs s = .ok (.Ok, es, s')
  | [], fs, i, s, s', rs, h, _ => by
    rw [List.append_nil] at h
    exact ⟨waits rs, by simp [launchInBatches, h]⟩
  | x :: xs, fs, i, s, s', rs, h, hok => by
    by_cases hc : (i + 1) % n = 0 ∨ i + 1 = size
    · rw [show fs ++ x :: xs = (fs ++ [x]) ++ xs by simp] at h
      obtain ⟨rs1, s1, rs2, h1, h2, rfl⟩ := runTasks_append_of_ok h
      have hf : firstFailure rs1 = .Ok :=
        firstFailure_eq_ok_iff.2 fun p hp => hok p (List.mem_append_left _ hp)
      obtain ⟨es, hes⟩ : ∃ es, launchInBatches task n size (i + 1) [] xs s1 = .ok (.Ok, es, s') :=
        launchInBatches_of_runTasks (show runTasks task ([] ++ xs) s1 = _ from h2)
          (fun p hp => hok p (List.mem_append_right _ hp))
      exact ⟨.launch x :: waits rs1 ++ es, by
        rw [launchInBatches, if_pos hc]
        simp only [bind, Except.bind, h1, hf, if_true, hes, pure, Except.pure]⟩
    · obtain ⟨es, hes⟩ : ∃ es, launchInBatches task n size (i + 1) (fs ++ [x]) xs s =
          .ok (.Ok, es, s') :=
        launchInBatches_of_runTasks (show runTasks task ((fs ++ [x]) ++ xs) s = _ by simpa using h) hok
      exact ⟨.launch x :: es, by
        rw [launchInBatches, if_neg hc]
        simp only [bind, Except.bind, hes, pure, Except.pure]⟩

/-- The loop itself never faults: where no task faults, it returns. -/
theorem launchInBatches_ok (htask : ∀ x s, ∃ r s', task x s = .ok (r, s')) :
    ∀ (xs : List α) (i : Nat) (fs : List α) (s : σ),
      ∃ r es s', launchInBatches task n size i fs xs s = .ok (r, es, s')
  | [], _, fs, s => by
    obtain ⟨rs, s', h⟩ := runTasks_ok htask fs s
    exact ⟨.Ok, waits rs, s', by simp [launchInBatches, h]⟩
  | x :: xs, i, fs, s => by
    obtain ⟨rs, s1, h⟩ := runTasks_ok htask (fs ++ [x]) s
    by_cases hc : (i + 1) % n = 0 ∨ i + 1 = size
    · by_cases hf : firstFailure rs = .Ok
      · obtain ⟨r, es, s', h'⟩ := launchInBatches_ok htask xs (i + 1) [] s1
        exact ⟨r, .launch x :: waits rs ++ es, s', by
          rw [launchInBatches, if_pos hc]
          simp only [bind, Except.bind, h, hf, if_true, h', pure, Except.pure]⟩
      · exact ⟨firstFailure rs, .launch x :: waits rs, s1, by
          rw [launchInBatches, if_pos hc]
          simp only [bind, Except.bind, h, hf, if_false, pure, Except.pure]⟩
    · obtain ⟨r, es, s', h'⟩ := launchInBatches_ok htask xs (i + 1) (fs ++ [x]) s
      exact ⟨r, .launch x :: es, s', by
        rw [launchInBatches, if_neg hc]
        simp only [bind, Except.bind, h', pure, Except.pure]⟩

end Futures

end Kvdk
