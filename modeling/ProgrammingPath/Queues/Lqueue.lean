import ProgrammingPath.Lib.Links
import ProgrammingPath.Lib.Simulation
import Mathlib.Data.List.ReduceOption

/-!
# `lqueue`

An intrusive queue: a node carries its own links, and the header of the queue closes the ring. `Represents`
connects the ring to the list of its nodes, and one lemma for each operation says which list comes out. A node
has one pair of links, so it can be in the queue once: `dequeStep` appends only a node that is not in it.
-/

namespace ProgrammingPath.Lqueue

open ProgrammingPath.Lib

/-! ## The queue -/

/-- A `struct lqueue_node *`. The header of the queue passes for a node. -/
inductive Addr (ν : Type)
  | queue
  | node (n : ν)
  deriving DecidableEq

/-- The memory: `next` and `priv` of the header and of the nodes, whether the `queue` of a node points to the
queue, and the length. -/
structure Queue (ν : Type) where
  links : Links (Addr ν)
  nodeQueue : ν → Bool
  lqlen : Int

/-- The calls, and `lqueue_node_del`. -/
inductive Op (ν : Type)
  | appendHead (newnode : ν)
  | appendTail (newnode : ν)
  | pop
  | dequeue
  | nolockDequeue
  | nodeDel (node : ν)

variable {ν : Type} [DecidableEq ν]

/-- `lqueue_init`. -/
def init (q : Queue ν) : Queue ν :=
  { q with links := q.links.reset .queue (some .queue) (some .queue), lqlen := 0 }

/-- `lqueue_insert`. -/
def Queue.insert (q : Queue ν) (newnode : ν) (prev next : Addr ν) : Queue ν where
  links := q.links.insert (.node newnode) prev next
  nodeQueue := Function.update q.nodeQueue newnode true
  lqlen := q.lqlen + 1

/-- The neighbours of a node become each other's neighbours, and its own links are cleared; `none` when a null
pointer is followed. -/
def Queue.unlink (q : Queue ν) (node : Addr ν) : Option (Queue ν) :=
  match q.links.prev node, q.links.next node with
  | some priv, some next =>
    some { q with links := (q.links.join priv next).reset node none none, lqlen := q.lqlen - 1 }
  | _, _ => none

/-- `lqueue_node_del`, which finds the length through the node. -/
def Queue.nodeDel (q : Queue ν) (node : ν) : Option (Queue ν) :=
  if q.nodeQueue node then q.unlink (.node node) else none

/-- `lqueue_pop`: the last node. -/
def Queue.pop (q : Queue ν) : Option (Queue ν × Option ν) :=
  match q.links.prev .queue with
  | none => none
  | some .queue => some (q, none)
  | some (.node n) =>
    (q.unlink (.node n)).map fun q => ({ q with nodeQueue := Function.update q.nodeQueue n false }, some n)

/-- `lqueue_dequeue` and `lqueue_nolock_dequeue`: the first node. -/
def Queue.dequeue (q : Queue ν) : Option (Queue ν × Option ν) :=
  match q.links.next .queue with
  | none => none
  | some .queue => some (q, none)
  | some (.node n) => (q.nodeDel n).map fun q => (q, some n)

/-- One operation, and the node it returns. -/
def step (q : Queue ν) : Op ν → Option (Queue ν × Option ν)
  | .appendHead newnode =>
    (q.links.next .queue).map fun next => (q.insert newnode .queue next, none)
  | .appendTail newnode =>
    (q.links.prev .queue).map fun priv => (q.insert newnode priv .queue, none)
  | .pop => q.pop
  | .dequeue => q.dequeue
  | .nolockDequeue => q.dequeue
  | .nodeDel node => (q.nodeDel node).map fun q => (q, none)

/-- A traversal of the nodes along one of the pointers, for as many steps as there is fuel. -/
def traverse (ptr : Addr ν → Option (Addr ν)) (fuel : Nat) : Option (List (Addr ν)) :=
  Links.follow ptr .queue fuel .queue

/-! ## A deque of nodes -/

/-- What an operation does to a list of nodes. -/
def deque (xs : List ν) : Op ν → List ν × Option ν
  | .appendHead newnode => (newnode :: xs, none)
  | .appendTail newnode => (xs ++ [newnode], none)
  | .pop => (xs.dropLast, xs.getLast?)
  | .dequeue | .nolockDequeue => (xs.tail, xs.head?)
  | .nodeDel node => (xs.erase node, none)

/-- A node that is appended is not in the queue, and one that is deleted is. -/
def Allowed (xs : List ν) : Op ν → Prop
  | .appendHead newnode | .appendTail newnode => newnode ∉ xs
  | .pop | .dequeue | .nolockDequeue => True
  | .nodeDel node => node ∈ xs

instance Allowed.decidable (xs : List ν) : (op : Op ν) → Decidable (Allowed xs op)
  | .appendHead newnode | .appendTail newnode => inferInstanceAs (Decidable (newnode ∉ xs))
  | .pop | .dequeue | .nolockDequeue => isTrue trivial
  | .nodeDel node => inferInstanceAs (Decidable (node ∈ xs))

/-- An operation on the list. -/
def dequeStep (xs : List ν) (op : Op ν) : Option (List ν × Option ν) :=
  if Allowed xs op then some (deque xs op) else none

/-- The node that is appended. -/
def Op.appended : Op ν → Option ν
  | .appendHead newnode | .appendTail newnode => some newnode
  | .pop | .dequeue | .nolockDequeue | .nodeDel _ => none

/-- The node that is deleted. -/
def Op.deleted : Op ν → Option ν
  | .nodeDel node => some node
  | .appendHead _ | .appendTail _ | .pop | .dequeue | .nolockDequeue => none

/-! ## The ring stands for the list -/

/-- The nodes of the list hang on the header, each of them points to the queue, and they are counted. -/
structure Represents (q : Queue ν) (xs : List ν) : Prop where
  ring : q.links.Ring .queue (xs.map .node)
  nodeQueue : ∀ n ∈ xs, q.nodeQueue n = true
  lqlen : q.lqlen = xs.length

variable {q : Queue ν} {xs ys : List ν} {n : ν}

omit [DecidableEq ν] in
theorem Represents.nodup (h : Represents q xs) : xs.Nodup :=
  List.Nodup.of_map Addr.node (List.nodup_cons.mp h.ring.nodup).2

omit [DecidableEq ν] in
theorem node_not_mem (h : n ∉ xs) : Addr.node n ∉ Addr.queue :: xs.map Addr.node := by
  rintro hmem
  rcases List.mem_cons.mp hmem with heq | hmem
  · cases heq
  · obtain ⟨m, hm, heq⟩ := List.mem_map.mp hmem
    cases heq
    exact h hm

theorem represents_init (q : Queue ν) : Represents (init q) [] := by
  refine ⟨⟨⟨?_, ?_⟩, List.nodup_singleton _⟩, fun n hn => absurd hn List.not_mem_nil, rfl⟩
  · exact Function.update_self Addr.queue (some Addr.queue) q.links.next
  · exact Function.update_self Addr.queue (some Addr.queue) q.links.prev

/-- A node that is put into the ring points to the queue, and so do the others. -/
theorem Represents.insert_nodeQueue (h : ∀ m ∈ xs, q.nodeQueue m = true) :
    ∀ m ∈ n :: xs, Function.update q.nodeQueue n true m = true := by
  intro m hm
  by_cases hmn : m = n
  · rw [hmn, Function.update_self]
  · rw [Function.update_of_ne hmn]
    exact h m (List.mem_of_ne_of_mem hmn hm)

theorem Represents.appendHead (h : Represents q xs) (hn : n ∉ xs) :
    ∃ q', step q (.appendHead n) = some (q', none) ∧ Represents q' (n :: xs) := by
  rw [step, h.ring.chain.next_eq]
  refine ⟨_, rfl, ⟨h.ring.insert_head (node_not_mem hn), Represents.insert_nodeQueue h.nodeQueue, ?_⟩⟩
  show q.lqlen + 1 = _
  rw [h.lqlen, List.length_cons]
  rfl

theorem Represents.appendTail (h : Represents q xs) (hn : n ∉ xs) :
    ∃ q', step q (.appendTail n) = some (q', none) ∧ Represents q' (xs ++ [n]) := by
  rw [step, h.ring.chain.prev_eq]
  refine ⟨_, rfl, ⟨?_, ?_, ?_⟩⟩
  · rw [List.map_append]
    exact h.ring.insert_last (node_not_mem hn)
  · intro m hm
    apply Represents.insert_nodeQueue h.nodeQueue
    rcases List.mem_append.mp hm with hm | hm
    · exact List.mem_cons_of_mem n hm
    · exact List.mem_cons.mpr (.inl (List.mem_singleton.mp hm))
  · show q.lqlen + 1 = _
    rw [h.lqlen, List.length_append, List.length_singleton]
    rfl

/-- A node of the ring is taken out. -/
theorem Represents.unlink (h : Represents q (xs ++ n :: ys)) :
    ∃ q', q.unlink (.node n) = some q' ∧ Represents q' (xs ++ ys) ∧ q'.nodeQueue = q.nodeQueue := by
  have hring := h.ring
  rw [List.map_append, List.map_cons] at hring
  obtain ⟨hnext, hprev⟩ := hring.neighbours
  simp only [Queue.unlink, hnext, hprev]
  -- its links are cleared, which no node of the ring notices
  have hnotin : n ∉ xs ++ ys := (List.nodup_middle.mp h.nodup).notMem
  refine ⟨_, rfl, ⟨?_, ?_, ?_⟩, rfl⟩
  · rw [List.map_append]
    apply hring.join.reset
    rw [← List.map_append]
    exact node_not_mem hnotin
  · intro m hm
    apply h.nodeQueue m
    exact (List.Sublist.append_left (List.sublist_cons_self n ys) xs).mem hm
  · show q.lqlen - 1 = _
    rw [h.lqlen, List.length_append, List.length_append, List.length_cons]
    omega

theorem Represents.nodeDel (h : Represents q (xs ++ n :: ys)) :
    ∃ q', q.nodeDel n = some q' ∧ Represents q' (xs ++ ys) := by
  obtain ⟨q', hq', hrep, -⟩ := h.unlink
  refine ⟨q', ?_, hrep⟩
  rw [Queue.nodeDel, if_pos (h.nodeQueue n (by simp)), hq']

theorem Represents.dequeue (h : Represents q xs) :
    ∃ q', q.dequeue = some (q', xs.head?) ∧ Represents q' xs.tail := by
  have hnext := h.ring.chain.next_eq
  cases xs with
  | nil =>
    simp only [Queue.dequeue, hnext, List.map_nil, List.headD_nil]
    exact ⟨q, rfl, h⟩
  | cons n xs =>
    have happ : Represents q ([] ++ n :: xs) := h
    obtain ⟨q', hq', hrep⟩ := happ.nodeDel
    simp only [Queue.dequeue, hnext, List.map_cons, List.headD_cons, hq', Option.map_some]
    exact ⟨q', rfl, hrep⟩

theorem Represents.pop (h : Represents q xs) :
    ∃ q', q.pop = some (q', xs.getLast?) ∧ Represents q' xs.dropLast := by
  have hprev := h.ring.chain.prev_eq
  rcases List.eq_nil_or_concat xs with rfl | ⟨xs, n, rfl⟩
  · simp only [Queue.pop, hprev, List.map_nil, List.getLastD_nil]
    exact ⟨q, rfl, h⟩
  · rw [List.concat_eq_append] at h hprev ⊢
    -- the header points back to the last node
    obtain ⟨q', hq', hrep, hqueue⟩ := h.unlink
    have hlast : ((xs ++ [n]).map Addr.node).getLastD .queue = .node n := by simp
    rw [hlast] at hprev
    have hnotin : n ∉ xs := fun hmem => (List.nodup_middle.mp h.nodup).notMem (by simpa using hmem)
    rw [List.append_nil] at hrep
    simp only [Queue.pop, hprev, hq', Option.map_some]
    refine ⟨_, by rw [List.getLast?_concat], ?_⟩
    rw [List.dropLast_concat]
    refine ⟨hrep.ring, fun m hm => ?_, hrep.lqlen⟩
    have hmn : m ≠ n := fun heq => hnotin (heq ▸ hm)
    exact (Function.update_of_ne hmn ..).trans (hrep.nodeQueue m hm)

/-- An operation on the ring is the operation on the list. -/
theorem Represents.step {op : Op ν} {r : Option ν} (h : Represents q xs)
    (hstep : dequeStep xs op = some (ys, r)) :
    ∃ q', Lqueue.step q op = some (q', r) ∧ Represents q' ys := by
  rw [dequeStep] at hstep
  split at hstep
  · next hallowed =>
    cases op with
    | appendHead newnode =>
      cases hstep
      exact h.appendHead hallowed
    | appendTail newnode =>
      cases hstep
      exact h.appendTail hallowed
    | pop =>
      cases hstep
      exact h.pop
    | dequeue =>
      cases hstep
      exact h.dequeue
    | nolockDequeue =>
      cases hstep
      exact h.dequeue
    | nodeDel node =>
      -- the place of the node in the list
      obtain ⟨left, right, hnotin, rfl, herase⟩ := List.exists_erase_eq hallowed
      cases hstep
      obtain ⟨q', hq', hrep⟩ := h.nodeDel
      rw [herase]
      exact ⟨q', by rw [Lqueue.step, hq', Option.map_some], hrep⟩
  · cases hstep

/-- Both traversals. -/
theorem Represents.traverse (h : Represents q xs) :
    traverse q.links.next (xs.length + 1) = some (xs.map .node) ∧
      traverse q.links.prev (xs.length + 1) = some (xs.reverse.map .node) := by
  rw [List.map_reverse]
  exact h.ring.follow (by rw [List.length_map]; exact Nat.lt_succ_self _)

/-! ## Where the nodes go -/

/-- A node that is appended is in the list until it is returned or deleted. -/
theorem count_step {op : Op ν} {r : Option ν} (h : dequeStep xs op = some (ys, r)) (n : ν) :
    xs.count n + op.appended.toList.count n = r.toList.count n + op.deleted.toList.count n + ys.count n := by
  rw [dequeStep] at h
  split at h
  · next hallowed =>
    cases op with
    | appendHead newnode =>
      cases h
      simp [Op.appended, Op.deleted, List.count_cons]
    | appendTail newnode =>
      cases h
      simp [Op.appended, Op.deleted, List.count_append, List.count_cons]
    | pop =>
      cases h
      rcases List.eq_nil_or_concat xs with rfl | ⟨xs, m, rfl⟩
      · simp [Op.appended, Op.deleted]
      · simp [Op.appended, Op.deleted, List.count_cons, Nat.add_comm]
    | dequeue | nolockDequeue =>
      cases h
      cases xs with
      | nil => simp [Op.appended, Op.deleted]
      | cons m xs => simp [Op.appended, Op.deleted, List.count_cons, Nat.add_comm]
    | nodeDel node =>
      cases h
      have hperm := (List.perm_cons_erase hallowed).count_eq n
      rw [List.count_cons] at hperm
      simp only [Op.appended, Op.deleted, Option.toList_none, Option.toList_some, List.count_nil,
        List.count_cons]
      omega
  · cases h

theorem count_outputs {ops : List (Op ν)} {out : List (Option ν)}
    (h : outputs dequeStep xs ops = some (ys, out)) (n : ν) :
    xs.count n + (ops.filterMap Op.appended).count n =
      out.reduceOption.count n + (ops.filterMap Op.deleted).count n + ys.count n := by
  -- on the calls: what a node is counted for, one call after the other
  induction ops generalizing xs out with
  | nil =>
    cases h
    simp
  | cons op ops ih =>
    obtain ⟨zs, r, rs, hstep, hrest, rfl⟩ := outputs_cons_eq_some.mp h
    have hfirst := count_step hstep n
    have hlast := ih hrest
    have hcons (o : Option ν) (l : List ν) (f : Op ν → Option ν) (hf : f op = o)
        (hl : l = ops.filterMap f) :
        ((op :: ops).filterMap f).count n = o.toList.count n + l.count n := by
      subst hf hl
      cases hop : f op <;> simp [hop, List.count_cons, Nat.add_comm]
    have hr : (r :: rs).reduceOption.count n = r.toList.count n + rs.reduceOption.count n := by
      cases r <;> simp [List.reduceOption_cons_of_some, List.reduceOption_cons_of_none,
        List.count_cons, Nat.add_comm]
    rw [hcons _ _ Op.appended rfl rfl, hcons _ _ Op.deleted rfl rfl, hr]
    omega

/-- **The queue is a deque.** It returns what the deque of nodes returns, the traversals are the deque and its
reverse, the length is its length, and every node that was appended was returned once, was deleted once, or is in
the queue once. -/
theorem outputs_eq_deque (q₀ : Queue ν) {ops : List (Op ν)} {xs : List ν} {out : List (Option ν)}
    (h : outputs dequeStep [] ops = some (xs, out)) :
    ∃ q, outputs step (init q₀) ops = some (q, out) ∧
      traverse q.links.next (xs.length + 1) = some (xs.map .node) ∧
      traverse q.links.prev (xs.length + 1) = some (xs.reverse.map .node) ∧
      q.lqlen = xs.length ∧ xs.Nodup ∧
      ∀ n, (ops.filterMap Op.appended).count n =
        out.reduceOption.count n + (ops.filterMap Op.deleted).count n + xs.count n := by
  have hsim : ∀ (q : Queue ν) xs op ys r, Represents q xs → dequeStep xs op = some (ys, r) →
      ∃ q', step q op = some (q', r) ∧ Represents q' ys := fun _ _ _ _ _ hrep hstep => hrep.step hstep
  obtain ⟨q, hq, hrep⟩ := outputs_of_simulation hsim (represents_init q₀) h
  refine ⟨q, hq, hrep.traverse.1, hrep.traverse.2, hrep.lqlen, hrep.nodup, fun n => ?_⟩
  have hcount := count_outputs h n
  rwa [List.count_nil, Nat.zero_add] at hcount

/-- Memory with nothing in it. -/
def blank : Queue Nat := ⟨⟨fun _ => none, fun _ => none⟩, fun _ => false, 0⟩

/-- Three nodes, the one in the middle is deleted, and the others leave at both ends. -/
theorem outputs_eq_deque_three :
    ∃ q, outputs step (init blank)
        [.appendTail 1, .appendTail 2, .appendHead 0, .nodeDel 1, .pop, .dequeue] =
          some (q, [none, none, none, none, some 2, some 0]) ∧
      traverse q.links.next 1 = some [] ∧ traverse q.links.prev 1 = some [] ∧
      q.lqlen = (0 : Nat) ∧ ([] : List Nat).Nodup ∧
      ∀ n, [1, 2, 0].count n = [2, 0].count n + [1].count n + ([] : List Nat).count n :=
  @outputs_eq_deque Nat _ blank _ [] _ rfl

/-- A node that is appended twice points to itself, and the traversal never ends. -/
theorem append_twice :
    ∃ q, outputs step (init blank) [.appendTail 0, .appendTail 0] = some (q, [none, none]) ∧
      (deque (deque [] (.appendTail 0)).1 (.appendTail 0)).1 = [0, 0] ∧
      q.lqlen = 2 ∧ ∀ fuel, traverse q.links.next fuel = none := by
  refine ⟨_, rfl, rfl, rfl, fun fuel => ?_⟩
  cases fuel with
  | zero => rfl
  | succ fuel =>
    show Option.map _ (Links.follow _ Addr.queue fuel (Addr.node 0)) = none
    have hne : Addr.node 0 ≠ Addr.queue := nofun
    rw [Links.follow_eq_none_of_self ?_ hne, Option.map_none]
    rfl

end ProgrammingPath.Lqueue
