import SortedRebuild.Record
import Mathlib.Data.List.Range
import Mathlib.Data.List.Nodup

/-
  The DRAM side of a skiplist: towers of `SkiplistNode`s, and the second phase of the
  segment-based rebuild, `SortedCollectionRebuilder::linkHighDramNodes` (rebuilder.cpp,
  lines 462-487).

  A node indexes one persistent record, has a tower `height`, and a `next` pointer at each level
  of its tower.  Node addresses are numbers; `Dram` maps each to its node.  Writing a pointer at a
  level outside the node's tower (`RelaxedSetNext(l, ...)` with `l > Height()`) would write past
  the node: the model's `Dram.setNext` fails there with `Fault.badLevel`, so a run of the model
  that returns `ok` is a run that never did.

  `NodeChain d l a ns` says that from node `a` the level-`l` pointers visit `ns` and then reach
  null.  `linkHighDramNodes` walks level 1 from the header node with one cursor `prevs[i]` per
  level and links every node into each level of its tower.  The result
  (`linkHighDramNodes_correct`): on a finite level-1 chain of distinct nodes, the walk
  terminates, never writes outside a tower, leaves level 1 as it was, and leaves at each level
  `i ≥ 2` the chain of the level-1 nodes whose tower reaches `i`.  The loop invariant
  (`LinkInv`) keeps, for every level, the nodes linked so far as a path from the header that ends
  at the cursor of that level.
-/

namespace Kvdk

/-! ## Nodes -/

/-- A DRAM `SkiplistNode`: the record it indexes, its tower height, and its `next` pointer at
each level (`none` is `nullptr`). -/
structure SkiplistNode where
  record : PMemOffsetType
  height : Nat
  next : Nat → Option Nat

/-- The DRAM nodes: the node at every address, and the number of addresses handed out so far. -/
structure Dram where
  nodes : Nat → SkiplistNode
  nodeCount : Nat

/-- The DRAM before the first node is built: every address unused. -/
def Dram.empty : Dram := ⟨fun _ => ⟨0, 0, fun _ => none⟩, 0⟩

/-- `SkiplistNode::NewNode`: a fresh node at the next address, indexing `record`, with a tower
of `height` null pointers. -/
def Dram.newNode (d : Dram) (record height : Nat) : Nat × Dram :=
  (d.nodeCount, { nodes := Function.update d.nodes d.nodeCount ⟨record, height, fun _ => none⟩,
                  nodeCount := d.nodeCount + 1 })

/-- Write the level-`l` pointer of node `n`. -/
def Dram.writeNext (d : Dram) (n l : Nat) (v : Option Nat) : Dram :=
  let node := d.nodes n
  { d with nodes := Function.update d.nodes n { node with next := Function.update node.next l v } }

/-- `SkiplistNode::RelaxedSetNext(l, v)`: defined only for a level of the node's tower. -/
def Dram.setNext (d : Dram) (n l : Nat) (v : Option Nat) : Except Fault Dram :=
  if 1 ≤ l ∧ l ≤ (d.nodes n).height then .ok (d.writeNext n l v) else .error .badLevel

section WriteNext

variable (d : Dram) (n l : Nat) (v : Option Nat) (m k : Nat)

@[simp] theorem writeNext_height : ((d.writeNext n l v).nodes m).height = (d.nodes m).height := by
  by_cases h : m = n <;> simp [Dram.writeNext, h]

@[simp] theorem writeNext_record : ((d.writeNext n l v).nodes m).record = (d.nodes m).record := by
  by_cases h : m = n <;> simp [Dram.writeNext, h]

@[simp] theorem writeNext_next :
    ((d.writeNext n l v).nodes m).next k = if m = n ∧ k = l then v else (d.nodes m).next k := by
  by_cases h : m = n
  · subst h; by_cases hk : k = l <;> simp [Dram.writeNext, hk]
  · simp [Dram.writeNext, h]

@[simp] theorem writeNext_nodeCount : (d.writeNext n l v).nodeCount = d.nodeCount := rfl

theorem writeNext_next_self : ((d.writeNext n l v).nodes n).next l = v := by simp

end WriteNext

theorem writeNext_next_of_ne {d : Dram} {n m : Nat} (h : m ≠ n) (l : Nat) (v : Option Nat)
    (k : Nat) : ((d.writeNext n l v).nodes m).next k = (d.nodes m).next k := by
  simp [h]

theorem setNext_eq {d : Dram} {n l : Nat} (v : Option Nat) (h1 : 1 ≤ l)
    (h2 : l ≤ (d.nodes n).height) : d.setNext n l v = .ok (d.writeNext n l v) := by
  simp [Dram.setNext, h1, h2]

/-- `NodePath d l a ns b`: from node `a`, the level-`l` pointers visit `ns`, the last of them
being `b` (`b = a` when `ns` is empty). -/
def NodePath (d : Dram) (l : Nat) : Nat → List Nat → Nat → Prop
  | a, [], b => a = b
  | a, n :: ns, b => (d.nodes a).next l = some n ∧ NodePath d l n ns b

/-- `NodeChain d l a ns`: from node `a`, the level-`l` pointers visit `ns` and then reach null. -/
def NodeChain (d : Dram) (l : Nat) : Nat → List Nat → Prop
  | a, [] => (d.nodes a).next l = none
  | a, n :: ns => (d.nodes a).next l = some n ∧ NodeChain d l n ns

theorem nodePath_snoc {d : Dram} {l : Nat} :
    ∀ {a : Nat} {ns : List Nat} {b n : Nat}, NodePath d l a ns b → (d.nodes b).next l = some n →
      NodePath d l a (ns ++ [n]) n
  | _, [], _, _, h, hn => by cases h; exact ⟨hn, rfl⟩
  | _, _ :: _, _, _, h, hn => ⟨h.1, nodePath_snoc h.2 hn⟩

theorem nodeChain_of_path {d : Dram} {l : Nat} :
    ∀ {a : Nat} {ns : List Nat} {b : Nat}, NodePath d l a ns b → (d.nodes b).next l = none →
      NodeChain d l a ns
  | _, [], _, h, hn => by cases h; exact hn
  | _, _ :: _, _, h, hn => ⟨h.1, nodeChain_of_path h.2 hn⟩

theorem nodePath_mem {d : Dram} {l : Nat} :
    ∀ {a n : Nat} {ns : List Nat} {b : Nat}, NodePath d l a (n :: ns) b → b ∈ n :: ns
  | _, _, [], _, h => by cases h.2; simp
  | _, _, _ :: _, _, h => List.mem_cons_of_mem _ (nodePath_mem h.2)

/-- A path of distinct nodes reads only the level-`l` pointers of its sources: all its nodes
but the last. -/
theorem nodePath_congr {d d' : Dram} {l : Nat} :
    ∀ {a : Nat} {ns : List Nat} {b : Nat}, (a :: ns).Nodup →
      (∀ u ∈ a :: ns, u ≠ b → (d'.nodes u).next l = (d.nodes u).next l) →
      NodePath d l a ns b → NodePath d' l a ns b
  | _, [], _, _, _, h => h
  | a, n :: ns, b, hnd, hs, h => by
    have hab : a ≠ b := fun e => (List.nodup_cons.1 hnd).1 (e ▸ nodePath_mem h)
    exact ⟨(hs a (by simp) hab).trans h.1,
      nodePath_congr (List.nodup_cons.1 hnd).2 (fun u hu => hs u (List.mem_cons_of_mem _ hu)) h.2⟩

theorem nodePath_end {d : Dram} {l : Nat} :
    ∀ {a : Nat} {ns : List Nat} {b : Nat}, NodePath d l a ns b → b = a ∨ b ∈ ns
  | _, [], _, h => .inl h.symm
  | _, _ :: _, _, h => .inr (nodePath_mem h)

/-- Where a path through `xs` ends, the chain through `xs ++ ys` goes on through `ys`. -/
theorem nodeChain_of_append {d : Dram} {l : Nat} :
    ∀ {a : Nat} {xs ys : List Nat} {b : Nat}, NodeChain d l a (xs ++ ys) → NodePath d l a xs b →
      NodeChain d l b ys
  | _, [], _, _, h, hp => by cases hp; exact h
  | _, _ :: _, _, _, h, hp => by
    obtain ⟨h1, h2⟩ := h
    obtain ⟨h1', h2'⟩ := hp
    rw [h1] at h1'; cases h1'
    exact nodeChain_of_append h2 h2'

theorem nodeChain_next {d : Dram} {l a : Nat} {ns : List Nat} (h : NodeChain d l a ns) :
    (d.nodes a).next l = ns.head? := by
  cases ns with
  | nil => exact h
  | cons n ns => exact h.1

/-- The chain from a node of a chain is the rest of that chain. -/
theorem nodeChain_suffix {d : Dram} {l s : Nat} {Q : List Nat} :
    ∀ {P : List Nat} {a : Nat} {ns : List Nat}, NodeChain d l a ns → a :: ns = P ++ s :: Q →
      NodeChain d l s Q
  | [], _, _, h, e => by
    obtain ⟨rfl, rfl⟩ := List.cons.inj e
    exact h
  | _ :: P, _, ns, h, e => by
    obtain ⟨-, e⟩ := List.cons.inj e
    cases ns with
    | nil => cases P <;> cases e
    | cons n ns => exact nodeChain_suffix h.2 e

/-- A chain stays where the nodes on it are unchanged. -/
theorem nodeChain_congr {d d' : Dram} {l : Nat} :
    ∀ {a : Nat} {ns : List Nat}, (∀ u ∈ a :: ns, d'.nodes u = d.nodes u) →
      NodeChain d l a ns → NodeChain d' l a ns
  | _, [], he, h => by
    show (d'.nodes _).next l = none
    rw [he _ (List.mem_cons_self _ _)]; exact h
  | a, n :: ns, he, h => ⟨by rw [he a (List.mem_cons_self _ _)]; exact h.1,
      nodeChain_congr (fun u hu => he u (List.mem_cons_of_mem _ hu)) h.2⟩

/-! ## `linkHighDramNodes` -/

/-- `prevs[i]->RelaxedSetNext(i, v)` for each level `i` of `levels`, in order. -/
def setLevels (prevs : Nat → Nat) (v : Option Nat) : List Nat → Dram → Except Fault Dram
  | [], d => .ok d
  | i :: is, d => do setLevels prevs v is (← d.setNext (prevs i) i v)

/-- The inner `for` loop of `linkHighDramNodes` (lines 475-478): link `node` after the cursor of
each level of `levels` and make it that level's cursor. -/
def linkTower (node : Nat) : List Nat → Dram → (Nat → Nat) → Except Fault (Dram × (Nat → Nat))
  | [], d, prevs => .ok (d, prevs)
  | i :: is, d, prevs => do
    let d ← d.setNext (prevs i) i (some node)
    linkTower node is d (Function.update prevs i node)

/-- The `while` loop of `linkHighDramNodes` (lines 471-481), at the level-1 node `next`.  A node
of height 1 gets the empty range of higher levels, as the `if` at line 474 skips it. -/
def linkHighLoop : Nat → Dram → (Nat → Nat) → Option Nat → Except Fault (Dram × (Nat → Nat))
  | _, d, prevs, none => .ok (d, prevs)
  | 0, _, _, some _ => .error .outOfFuel
  | fuel + 1, d, prevs, some n => do
    kvdkAssert ((d.nodes (prevs 1)).next 1 = some n)
      "splice.prevs[1]->RelaxedNext(1).RawPointer() == next_node"
    let (d, prevs) ←
      linkTower n (List.range' 2 ((d.nodes n).height - 1)) d (Function.update prevs 1 n)
    linkHighLoop fuel d prevs ((d.nodes n).next 1)

/-- `SortedCollectionRebuilder::linkHighDramNodes` on the skiplist whose header node is `header`:
the `while` loop from the header's level-1 successor, then the closing `for` loop (lines
482-484) ending every level at its cursor.  `fuel` bounds the `while` loop. -/
def linkHighDramNodes (kMaxHeight fuel : Nat) (d : Dram) (header : Nat) :
    Except Fault (Status × Dram) := do
  let (d, prevs) ← linkHighLoop fuel d (fun _ => header) ((d.nodes header).next 1)
  let d ← setLevels prevs none (List.range' 1 kMaxHeight) d
  pure (.Ok, d)

/-- The writes of `setLevels`: at each level of `levels`, the pointer of that level's cursor. -/
theorem setLevels_spec (prevs : Nat → Nat) (v : Option Nat) :
    ∀ (is : List Nat) (d : Dram), is.Nodup → (∀ i ∈ is, 1 ≤ i ∧ i ≤ (d.nodes (prevs i)).height) →
      ∃ d', setLevels prevs v is d = .ok d' ∧ (∀ m, (d'.nodes m).height = (d.nodes m).height) ∧
        ∀ m k, (d'.nodes m).next k = if k ∈ is ∧ m = prevs k then v else (d.nodes m).next k
  | [], d, _, _ => ⟨d, rfl, fun _ => rfl, fun _ _ => by simp⟩
  | i :: is, d, hnd, hlv => by
    obtain ⟨h1, h2⟩ := hlv i (by simp)
    obtain ⟨d', hd', hh, hn⟩ := setLevels_spec prevs v is (d.writeNext (prevs i) i v)
      (List.nodup_cons.1 hnd).2 (fun j hj => by simpa using hlv j (by simp [hj]))
    refine ⟨d', by simp only [setLevels, setNext_eq v h1 h2]; exact hd', fun m => by simp [hh], ?_⟩
    intro m k
    have hi : i ∉ is := (List.nodup_cons.1 hnd).1
    rw [hn]
    by_cases hk : k = i
    · subst hk; by_cases hm : m = prevs k <;> simp [hi, hm]
    · by_cases hm : k ∈ is ∧ m = prevs k <;> simp [hk, hm]

/-- `linkTower` writes what `setLevels` writes and moves the cursors of its levels to the node. -/
theorem linkTower_eq (node : Nat) :
    ∀ (is : List Nat) (d : Dram) (prevs : Nat → Nat), is.Nodup →
      linkTower node is d prevs =
        (setLevels prevs (some node) is d).map fun d => (d, fun k => if k ∈ is then node else prevs k)
  | [], d, prevs, _ => by simp [linkTower, setLevels, Except.map]
  | i :: is, d, prevs, hnd => by
    have hi : i ∉ is := (List.nodup_cons.1 hnd).1
    have hsame : ∀ d', setLevels (Function.update prevs i node) (some node) is d' =
        setLevels prevs (some node) is d' := by
      clear hnd
      induction is with
      | nil => intro d'; rfl
      | cons j js ih =>
        intro d'
        have hj : j ≠ i := fun e => hi (by simp [e])
        simp only [setLevels, Function.update_noteq hj]
        cases d'.setNext (prevs j) j (some node) <;> simp [ih (fun h => hi (by simp [h]))]
    simp only [linkTower, setLevels]
    cases d.setNext (prevs i) i (some node) with
    | error e => rfl
    | ok d1 =>
      simp only [bind, Except.bind]
      rw [linkTower_eq node is d1 _ (List.nodup_cons.1 hnd).2, hsame]
      cases setLevels prevs (some node) is d1 <;> simp only [Except.map]
      congr 2; funext k
      by_cases hk : k = i
      · subst hk; simp
      · simp [hk]

/-- **The invariant of the `while` loop of `linkHighDramNodes`** once it has passed the level-1
nodes `done`: towers and level 1 are as they were in `d0`, the level-1 cursor ends the path
through `done`, and every higher level `i` holds the path through the nodes of `done` whose tower
reaches `i`, ending at the cursor of level `i`. -/
structure LinkInv (kMaxHeight : Nat) (d0 : Dram) (header : Nat) (done : List Nat) (d : Dram)
    (prevs : Nat → Nat) : Prop where
  height : ∀ m, (d.nodes m).height = (d0.nodes m).height
  level1 : ∀ m, (d.nodes m).next 1 = (d0.nodes m).next 1
  path1 : NodePath d0 1 header done (prevs 1)
  paths : ∀ i, 2 ≤ i → i ≤ kMaxHeight →
    NodePath d i header (done.filter fun n => i ≤ (d0.nodes n).height) (prevs i)

section LinkHigh

variable {kMaxHeight : Nat} {d0 : Dram} {header : Nat}

/-- Every cursor sits on a node whose tower reaches its level: the header, or a node linked at
that level. -/
theorem LinkInv.cursor_height {done : List Nat} {d : Dram} {prevs : Nat → Nat}
    (hinv : LinkInv kMaxHeight d0 header done d prevs) (hh : (d0.nodes header).height = kMaxHeight)
    (hdone : ∀ m ∈ done, 1 ≤ (d0.nodes m).height) {i : Nat} (h1 : 1 ≤ i) (hi : i ≤ kMaxHeight) :
    i ≤ (d.nodes (prevs i)).height := by
  rw [hinv.height]
  by_cases h2 : 2 ≤ i
  · rcases nodePath_end (hinv.paths i h2 hi) with he | he
    · rw [he, hh]; exact hi
    · exact (List.mem_filter.1 he).2 |> of_decide_eq_true
  · obtain rfl : i = 1 := by omega
    rcases nodePath_end hinv.path1 with he | he
    · rw [he, hh]; exact hi
    · exact hdone _ he

/-- **One turn of the `while` loop** links the next level-1 node `n` into every level of its
tower and keeps the invariant. -/
theorem LinkInv.step {done : List Nat} {d : Dram} {prevs : Nat → Nat} {n : Nat}
    (hinv : LinkInv kMaxHeight d0 header done d prevs) (hh : (d0.nodes header).height = kMaxHeight)
    (hnd : (header :: (done ++ [n])).Nodup) (hn : (d0.nodes (prevs 1)).next 1 = some n)
    (hhn : (d0.nodes n).height ≤ kMaxHeight) (hdone : ∀ m ∈ done, 1 ≤ (d0.nodes m).height) :
    ∃ d' prevs', linkTower n (List.range' 2 ((d.nodes n).height - 1)) d
        (Function.update prevs 1 n) = .ok (d', prevs') ∧ prevs' 1 = n ∧
      LinkInv kMaxHeight d0 header (done ++ [n]) d' prevs' := by
  set levels := List.range' 2 ((d.nodes n).height - 1) with hlevels
  have hmem : ∀ i, i ∈ levels ↔ 2 ≤ i ∧ i ≤ (d0.nodes n).height := by
    intro i; simp only [hlevels, List.mem_range'_1, hinv.height]; omega
  have hcur : ∀ i ∈ levels, 1 ≤ i ∧ i ≤ (d.nodes (Function.update prevs 1 n i)).height := by
    intro i hi
    have := (hmem i).1 hi
    rw [Function.update_noteq (by omega)]
    exact ⟨by omega, hinv.cursor_height hh hdone (by omega) (by omega)⟩
  obtain ⟨d', hd', hht, hnx⟩ := setLevels_spec _ (some n) levels d (List.nodup_range' _ _) hcur
  have h1 : (1 : Nat) ∉ levels := fun h => by have := (hmem 1).1 h; omega
  refine ⟨d', _, by rw [linkTower_eq _ _ _ _ (List.nodup_range' _ _), hd']; rfl,
    by simp [h1], ?_⟩
  have hndone : (header :: done).Nodup :=
    hnd.sublist (List.Sublist.cons₂ _ (List.sublist_append_left _ _))
  refine ⟨fun m => (hht m).trans (hinv.height m), fun m => ?_, ?_, fun i h2 hi => ?_⟩
  · rw [hnx, if_neg (fun h => h1 h.1), hinv.level1]
  · simp only [h1, if_false, Function.update_same]
    exact nodePath_snoc hinv.path1 hn
  · have hfilter_nd : (header :: done.filter fun m => i ≤ (d0.nodes m).height).Nodup :=
      List.Nodup.sublist (List.Sublist.cons₂ _ (List.filter_sublist _)) hndone
    have hpath := nodePath_congr hfilter_nd (fun u _ hu => by
      rw [hnx]; simp only [Function.update_noteq (show i ≠ 1 by omega)]
      simp [hu]) (hinv.paths i h2 hi)
    by_cases hin : i ≤ (d0.nodes n).height
    · have hi' : i ∈ levels := (hmem i).2 ⟨h2, hin⟩
      rw [show (done ++ [n]).filter (fun m => i ≤ (d0.nodes m).height) =
        done.filter (fun m => i ≤ (d0.nodes m).height) ++ [n] by simp [hin], if_pos hi']
      exact nodePath_snoc hpath (by
        rw [hnx, Function.update_noteq (show i ≠ 1 by omega)]; simp [hi'])
    · have hi' : i ∉ levels := fun h => hin ((hmem i).1 h).2
      rw [show (done ++ [n]).filter (fun m => i ≤ (d0.nodes m).height) =
        done.filter (fun m => i ≤ (d0.nodes m).height) by simp [hin], if_neg hi',
        Function.update_noteq (show i ≠ 1 by omega)]
      exact hpath

/-- **The `while` loop of `linkHighDramNodes`** over the rest of a finite level-1 chain of
distinct nodes keeps the invariant to the end of the chain, with one unit of fuel per node. -/
theorem linkHighLoop_spec (hh : (d0.nodes header).height = kMaxHeight) :
    ∀ (rest done : List Nat) (d : Dram) (prevs : Nat → Nat) (fuel : Nat),
      NodeChain d0 1 header (done ++ rest) → (header :: (done ++ rest)).Nodup →
      (∀ m ∈ done ++ rest, 1 ≤ (d0.nodes m).height ∧ (d0.nodes m).height ≤ kMaxHeight) →
      LinkInv kMaxHeight d0 header done d prevs → rest.length ≤ fuel →
      ∃ d' prevs', linkHighLoop fuel d prevs ((d0.nodes (prevs 1)).next 1) = .ok (d', prevs') ∧
        LinkInv kMaxHeight d0 header (done ++ rest) d' prevs'
  | [], done, d, prevs, fuel, hc, _, _, hinv, _ => by
    have hend : (d0.nodes (prevs 1)).next 1 = none :=
      nodeChain_of_append hc hinv.path1
    exact ⟨d, prevs, by rw [hend]; cases fuel <;> rfl, by simpa using hinv⟩
  | n :: rest, done, d, prevs, fuel, hc, hnd, hhs, hinv, hf => by
    obtain ⟨fuel, rfl⟩ : ∃ f, fuel = f + 1 := ⟨fuel - 1, by simp at hf; omega⟩
    have hn : (d0.nodes (prevs 1)).next 1 = some n := (nodeChain_of_append hc hinv.path1).1
    have hnd' : (header :: (done ++ [n])).Nodup :=
      hnd.sublist (List.Sublist.cons₂ _ (by simp))
    obtain ⟨d', prevs', htower, hp1, hinv'⟩ := hinv.step hh hnd' hn (hhs n (by simp)).2
      (fun m hm => (hhs m (by simp [hm])).1)
    obtain ⟨d'', prevs'', hloop, hinv''⟩ := linkHighLoop_spec hh rest (done ++ [n]) d' prevs' fuel
      (by simpa using hc) (by simpa using hnd) (fun m hm => hhs m (by simpa using hm)) hinv'
      (by simp at hf; omega)
    refine ⟨d'', prevs'', ?_, by simpa using hinv''⟩
    rw [hn, linkHighLoop, kvdkAssert_of_true (by rw [hinv.level1]; exact hn)]
    simp only [bind, Except.bind, pure, Except.pure, htower]
    rw [hinv'.level1, ← hp1]
    exact hloop

end LinkHigh

/-- **`linkHighDramNodes`.**  On a skiplist whose header node is as tall as `kMaxHeight` and whose
level-1 chain is a finite null-terminated sequence of distinct nodes of heights in
`1..kMaxHeight`, the walk terminates (with as much fuel as the chain is long) and returns `Ok`
without writing a pointer outside a node's tower; it leaves level 1 and every tower as they were,
and leaves at every level `i` in `2..kMaxHeight` the null-terminated chain of the level-1 nodes
whose tower reaches `i`, in level-1 order. -/
theorem linkHighDramNodes_correct (kMaxHeight : Nat) (d : Dram) (header : Nat) (ns : List Nat)
    (hh : (d.nodes header).height = kMaxHeight) (hc : NodeChain d 1 header ns)
    (hnd : (header :: ns).Nodup)
    (hns : ∀ n ∈ ns, 1 ≤ (d.nodes n).height ∧ (d.nodes n).height ≤ kMaxHeight)
    (fuel : Nat) (hf : ns.length ≤ fuel) :
    ∃ d', linkHighDramNodes kMaxHeight fuel d header = .ok (.Ok, d') ∧
      (∀ m, (d'.nodes m).next 1 = (d.nodes m).next 1) ∧
      (∀ m, (d'.nodes m).height = (d.nodes m).height) ∧
      ∀ i, 2 ≤ i → i ≤ kMaxHeight →
        NodeChain d' i header (ns.filter fun n => i ≤ (d.nodes n).height) := by
  have hinit : LinkInv kMaxHeight d header [] d fun _ => header :=
    ⟨fun _ => rfl, fun _ => rfl, rfl, fun _ _ _ => rfl⟩
  obtain ⟨d1, prevs, hloop, hinv⟩ := linkHighLoop_spec hh ns [] d _ fuel (by simpa using hc)
    (by simpa using hnd) (by simpa using hns) hinit hf
  simp only [List.nil_append] at hinv
  have hcur : ∀ i ∈ List.range' 1 kMaxHeight, 1 ≤ i ∧ i ≤ (d1.nodes (prevs i)).height := by
    intro i hi
    rw [List.mem_range'_1] at hi
    exact ⟨hi.1, hinv.cursor_height hh (fun m hm => (hns m hm).1) hi.1 (by omega)⟩
  obtain ⟨d2, hd2, hh2, hn2⟩ := setLevels_spec prevs none _ d1 (List.nodup_range' _ _) hcur
  have hend : (d.nodes (prevs 1)).next 1 = none :=
    nodeChain_of_append (by simpa using hc : NodeChain d 1 header (ns ++ [])) hinv.path1
  refine ⟨d2, by rw [linkHighDramNodes, hloop]; simp only [bind, Except.bind, hd2]; rfl, fun m => ?_,
    fun m => (hh2 m).trans (hinv.height m), fun i h2 hi => ?_⟩
  · rw [hn2]
    split_ifs with hm
    · rw [hm.2, hend]
    · exact hinv.level1 m
  · have hfilter_nd : (header :: ns.filter fun m => i ≤ (d.nodes m).height).Nodup :=
      hnd.sublist (List.Sublist.cons₂ _ (List.filter_sublist _))
    have hi' : i ∈ List.range' 1 kMaxHeight := by rw [List.mem_range'_1]; omega
    refine nodeChain_of_path (b := prevs i) (nodePath_congr hfilter_nd (fun u _ hu => ?_)
      (hinv.paths i h2 hi)) (by rw [hn2]; simp [hi'])
    rw [hn2]; simp [hu]

/-- A skiplist with header `0` of height 2 and the level-1 chain `1`, `2` of heights 1 and 2,
before any pointer above level 1 is set. -/
def threeNodes : Dram where
  nodes n :=
    { record := n, height := if n = 1 then 1 else 2,
      next := fun l => if l = 1 ∧ n < 2 then some (n + 1) else none }
  nodeCount := 3

theorem linkHighDramNodes_threeNodes :
    ∃ d', linkHighDramNodes 2 2 threeNodes 0 = .ok (.Ok, d') ∧ NodeChain d' 2 0 [2] := by
  obtain ⟨d', h, -, -, hc⟩ := linkHighDramNodes_correct 2 threeNodes 0 [1, 2] rfl ⟨rfl, rfl, rfl⟩
    (by decide) (by decide) 2 (Nat.le_refl _)
  exact ⟨d', h, hc 2 (Nat.le_refl _) (Nat.le_refl _)⟩

end Kvdk
