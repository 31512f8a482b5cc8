import PhpZookeeper.Lock.Queue
import PhpZookeeper.Theory.Sorting

/-!
# The order of the queue

`vstrcmp` compares two names of lock nodes as their sequence numbers compare, whatever the sessions
are, so `sort_children` puts the names in the order of the numbers. That is the order in which the
nodes were made (`Created`): the first name of a sorted listing is that of the oldest node.
-/

namespace PhpZookeeper

open Theory

/-- A node of a lock: the session that made it, and a sequence number of 0 .. 2³¹ − 1. -/
@[ext]
structure LockNode where
  session : Sid
  number : ℕ
  lt : number < 2 ^ 31
  deriving DecidableEq

namespace LockNode

/-- The name that `zkr_lock_operation` and the service give the node. -/
def name (n : LockNode) : CString := lockName n.session n.number

/-- `vstrcmp` does not find the name of `a` greater than that of `b`. -/
def Le (a b : LockNode) : Prop := vstrcmpLe a.name b.name = true

/-- The node is there. -/
def Present (n : LockNode) (p : CString) (t : Nodes) : Prop := t (childOf p n.name) ≠ none

end LockNode

/-- `Created p t order`: requests have led from a lock directory `p` that did not exist to the nodes
`t`; `order` are the lock's nodes that are there, in the order in which they were made. -/
inductive Created (p : CString) : Nodes → List LockNode → Prop where
  | start {t : Nodes} : t p = none → ¬ t.HasChild p → Created p t []
  /-- A request that makes no node of the lock. -/
  | keep {t t' : Nodes} {order : List LockNode} {session : Sid} {r : Req} {a : Reply} :
      Created p t order → Answers session r t a t' → QueueReq session p r →
      (∀ d, t' p = some d → d.cseq ≤ 2 ^ 31) → (∀ n : LockNode, n.Present p t' → n.Present p t) →
      Created p t' (order.filter fun n => (t' (childOf p n.name)).isSome)
  /-- A request that makes the node `n`. -/
  | make {t t' : Nodes} {order : List LockNode} {session : Sid} {r : Req} {a : Reply}
      {n : LockNode} :
      Created p t order → Answers session r t a t' → QueueReq session p r →
      (∀ d, t' p = some d → d.cseq ≤ 2 ^ 31) → ¬ n.Present p t → n.Present p t' →
      Created p t' (order ++ [n])

variable {p : CString} {t : Nodes} {order nodes : List LockNode} {queue : List CString}

/-! ### Names -/

/-- Names are compared as their numbers are. -/
theorem LockNode.vstrcmp_name (a b : LockNode) :
    vstrcmp a.name b.name = some (compare a.number b.number) :=
  vstrcmp_lockName a.lt b.lt

theorem LockNode.le_iff (a b : LockNode) : a.Le b ↔ a.number ≤ b.number := by
  simp [Le, vstrcmpLe, vstrcmp_name, Nat.compare_ne_gt]

instance instTotalLe : Std.Total LockNode.Le where
  total a b := by
    rw [LockNode.le_iff, LockNode.le_iff]
    exact Nat.le_total _ _

instance instTransLe : IsTrans LockNode LockNode.Le where
  trans a b c := by
    rw [LockNode.le_iff, LockNode.le_iff, LockNode.le_iff]
    exact Nat.le_trans

/-- A sorted list of names is in the order of the numbers. -/
theorem sorted_numbers
    (h : SortedBy (fun x y => vstrcmpLe x y = true) (nodes.map LockNode.name) queue) :
    ∃ sorted, SortedBy (fun a b : LockNode => a.number ≤ b.number) nodes sorted ∧
      queue = sorted.map LockNode.name :=
  h.of_map LockNode.le_iff

/-- `sort_children` is a sorting function on such lists. -/
theorem sortedBy_sortChildren (nodes : List LockNode) :
    ∃ queue, sortChildren (nodes.map LockNode.name) = some queue ∧
      SortedBy (fun x y => vstrcmpLe x y = true) (nodes.map LockNode.name) queue := by
  have hsorted := sortedBy_insertionSort LockNode.number nodes
  refine ⟨_, sortChildren_map fun a _ b _ => a.vstrcmp_name b, hsorted.perm.map _, ?_⟩
  rw [List.pairwise_map]
  exact hsorted.pairwise.imp fun h => (LockNode.le_iff _ _).mpr h

/-! ### Creation -/

/-- The nodes made are the tickets of the queue, and their numbers increase. -/
structure Increasing (p : CString) (t : Nodes) (order : List LockNode) (q : TicketQueue Sid) :
    Prop where
  queue : IsQueue t p q
  mem_iff : ∀ n : LockNode, n ∈ order ↔ n.Present p t
  pairwise : order.Pairwise fun a b => a.number < b.number

theorem LockNode.present_iff {q : TicketQueue Sid} (n : LockNode) (h : IsQueue t p q) :
    n.Present p t ↔ (n.session, n.number) ∈ q.waiting := by
  rw [h.mem_waiting, and_iff_right n.lt]
  rfl

/-- A request keeps the numbers of the nodes increasing. -/
theorem Created.increasing (h : Created p t order) : ∃ q, Increasing p t order q := by
  induction h with
  | start hp hchild =>
    refine ⟨.empty, .empty hp hchild, fun n => ?_, .nil⟩
    simp only [List.not_mem_nil, false_iff]
    exact fun hn => hchild ⟨_, (ownName_lockName n.session n.number).2, hn⟩
  | @keep t t' order _ _ _ _ hanswer hreq hbound hold ih =>
    obtain ⟨q, hq⟩ := ih
    obtain ⟨q', -, hq'⟩ := hq.queue.step hanswer hreq hbound
    refine ⟨q', hq', fun n => ?_, hq.pairwise.filter _⟩
    rw [List.mem_filter, hq.mem_iff, Option.isSome_iff_ne_none]
    exact ⟨fun hn => hn.2, fun hn => ⟨hold n hn, hn⟩⟩
  | @make t t' order _ _ _ n _ hanswer hreq hbound hfresh hpresent ih =>
    obtain ⟨q, hq⟩ := ih
    obtain ⟨q', hstep, hq'⟩ := hq.queue.step hanswer hreq hbound
    rw [n.present_iff hq.queue] at hfresh
    obtain ⟨hsession, hwaiting, hlarger⟩ := hstep.taken ((n.present_iff hq').mp hpresent) hfresh
    have hmem : ∀ m : LockNode, m ∈ order ↔ (m.session, m.number) ∈ q.waiting := fun m => by
      rw [hq.mem_iff, m.present_iff hq.queue]
    refine ⟨q', hq', fun m => ?_, ?_⟩
    · rw [List.mem_append, List.mem_singleton, hmem, m.present_iff hq', hwaiting, ← hsession,
        Set.mem_insert_iff, or_comm, Prod.mk.injEq, LockNode.ext_iff]
    · rw [List.pairwise_append]
      refine ⟨hq.pairwise, List.pairwise_singleton .., fun m hm m' hm' => ?_⟩
      rw [List.mem_singleton.mp hm']
      exact hlarger _ _ ((hmem m).mp hm)

/-! ### The queue -/

/-- **The order of the queue is the order of creation.** `vstrcmp` compares the names of any lock
nodes as their numbers compare, and is a total preorder of them; `sort_children` leaves a list that
it allows; and any such list is in ascending order of the numbers, begins with the least, and is
the list of the nodes in the order in which they were made. -/
theorem queue_order :
    (∀ a b : LockNode, vstrcmp a.name b.name = some (compare a.number b.number)) ∧
    Std.Total LockNode.Le ∧ IsTrans LockNode LockNode.Le ∧
    ∀ nodes : List LockNode,
      (∃ queue, sortChildren (nodes.map LockNode.name) = some queue ∧
        SortedBy (fun x y => vstrcmpLe x y = true) (nodes.map LockNode.name) queue) ∧
      ∀ queue, SortedBy (fun x y => vstrcmpLe x y = true) (nodes.map LockNode.name) queue →
        (∃ sorted : List LockNode, sorted.Perm nodes ∧ queue = sorted.map LockNode.name ∧
          sorted.Pairwise (fun a b => a.number ≤ b.number) ∧
          ∀ first ∈ sorted.head?, ∀ n ∈ nodes, first.number ≤ n.number) ∧
        ∀ p t order, Created p t order → order.Perm nodes → queue = order.map LockNode.name := by
  refine ⟨LockNode.vstrcmp_name, inferInstance, inferInstance, fun nodes =>
    ⟨sortedBy_sortChildren nodes, fun queue hqueue => ?_⟩⟩
  obtain ⟨sorted, hsorted, rfl⟩ := sorted_numbers hqueue
  refine ⟨⟨sorted, hsorted.perm, rfl, hsorted.pairwise, fun _ hfirst _ hn =>
    hsorted.head_le hfirst hn⟩, fun p t order hcreated hperm => ?_⟩
  obtain ⟨q, hincreasing⟩ := hcreated.increasing
  have horder : SortedBy (fun a b : LockNode => a.number ≤ b.number) order sorted :=
    ⟨hsorted.perm.trans hperm.symm, hsorted.pairwise⟩
  rw [horder.eq_of_lt hincreasing.pairwise]

/-- The ids of the sessions do not matter. -/
example : sortChildren ["x-0000000000000001-0000000010".toList,
    "x-ffffffffffffffff-0000000009".toList] = some ["x-ffffffffffffffff-0000000009".toList,
    "x-0000000000000001-0000000010".toList] := by decide

end PhpZookeeper
