import PhpZookeeper.Theory.Tickets
import PhpZookeeper.Lock.Names

/-!
# The lock directory is a ticket queue

The children of a lock directory are the tickets of the clients whose names they have: a client
takes a ticket when it makes a sequence node, and hands it in when it deletes the node. The numbers
start again when the directory has been deleted, which it can be when nobody waits.
-/

namespace PhpZookeeper

open Theory Status

/-- The tickets that the children of `p` stand for. -/
def Nodes.tickets (t : Nodes) (p : CString) : Set (Sid × ℕ) :=
  {x | x.2 < 2 ^ 31 ∧ t (childOf p (lockName x.1 x.2)) ≠ none}

/-- The children of `p` are those of a lock directory, and stand for the queue `q`. -/
structure IsQueue (t : Nodes) (p : CString) (q : TicketQueue Sid) : Prop where
  waiting : q.waiting = t.tickets p
  named : ∀ x, '/' ∉ x → t (childOf p x) ≠ none → ∃ s n, n < 2 ^ 31 ∧ x = lockName s n
  next : ∀ d, t p = some d → d.cseq = q.next
  gone : t p = none → q.waiting = ∅

/-- The requests that change the children of `p` only as its lock does: the client makes a sequence
node with its prefix, or deletes a node of its own. -/
def QueueReq (session : Sid) (p : CString) : Req → Prop
  | .zooCreate p' _ _ flags _ =>
    (p' = childOf p (lockPrefix session) ∧ flags.sequence = true) ∨
      (parentOf p' ≠ p ∧ flags.sequence = false)
  | .zooDelete p' _ => (∃ x, p' = childOf p x ∧ OwnName session x) ∨ parentOf p' ≠ p
  | _ => True

/-! ### Nodes -/

theorem Nodes.bump_ne_none (t : Nodes) (p : CString) (k : ℕ) (p' : CString) :
    t.bump p k p' ≠ none ↔ t p' ≠ none := by
  by_cases h : p' = p
  · subst h
    simp [bump]
  · rw [t.bump_of_ne k h]

theorem Nodes.bump_self {t : Nodes} {p : CString} {d : Znode} (k : ℕ) (h : t p = some d) :
    t.bump p k p = some { d with cseq := d.cseq + k } := by
  simp [bump, h]

theorem childOf_lockName_inj {p : CString} {s s' : Sid} {m n : ℕ} (hm : m < 2 ^ 31)
    (hn : n < 2 ^ 31) (h : childOf p (lockName s m) = childOf p (lockName s' n)) :
    s = s' ∧ m = n := by
  obtain ⟨-, hname⟩ := (childOf_inj (ownName_lockName s m).2 (ownName_lockName s' n).2).mp h
  have hown : OwnName s' (lockName s m) := by
    rw [hname]
    exact ownName_lockName s' n
  exact ⟨(ownName_lockName s m).unique hown, lockName_inj hm hn hname⟩

variable {session : Sid} {p : CString} {t t' : Nodes} {q : TicketQueue Sid}

/-- The tickets are the children, when these have not changed. -/
theorem IsQueue.congr (hq : IsQueue t p q)
    (hchild : ∀ x, '/' ∉ x → (t' (childOf p x) ≠ none ↔ t (childOf p x) ≠ none))
    {q' : TicketQueue Sid} (hw : q'.waiting = q.waiting)
    (hnext : ∀ d, t' p = some d → d.cseq = q'.next) (hgone : t' p = none → q.waiting = ∅) :
    IsQueue t' p q' where
  waiting := by
    rw [hw, hq.waiting]
    ext x
    exact and_congr_right fun _ => (hchild _ (ownName_lockName x.1 x.2).2).symm
  named x hx hx' := hq.named x hx ((hchild x hx).mp hx')
  next := hnext
  gone h := hw ▸ hgone h

theorem IsQueue.mem_waiting (hq : IsQueue t p q) {s : Sid} {n : ℕ} :
    (s, n) ∈ q.waiting ↔ n < 2 ^ 31 ∧ t (childOf p (lockName s n)) ≠ none := by
  rw [hq.waiting]
  rfl

/-- A directory that does not exist is a queue in which nobody waits. -/
theorem IsQueue.empty (hp : t p = none) (hchild : ¬ t.HasChild p) : IsQueue t p .empty where
  waiting := by
    refine (Set.eq_empty_iff_forall_notMem.mpr fun x hx => ?_).symm
    exact hchild ⟨_, (ownName_lockName x.1 x.2).2, hx.2⟩
  named x hx hx' := absurd ⟨x, hx, hx'⟩ hchild
  next d hd := by simp [hp] at hd
  gone _ := rfl

/-- A ticket that is taken. -/
theorem IsQueue.create (hq : IsQueue t p q) {d v : Znode} {k : ℕ} (hd : t p = some d)
    (hbound : d.cseq + (k + 1) ≤ 2 ^ 31) :
    ∃ q', TicketQueue.Step session q q' ∧ IsQueue (Function.update (t.bump p (k + 1))
      (childOf p (lockName session (d.cseq + k))) (some v)) p q' := by
  have hn : d.cseq + k < 2 ^ 31 := by omega
  have hnext := hq.next d hd
  let q' : TicketQueue Sid := {
    next := d.cseq + k + 1
    waiting := insert (session, d.cseq + k) q.waiting
    lt_next := by
      intro c m hm
      rcases Set.mem_insert_iff.mp hm with h | h
      · obtain ⟨-, rfl⟩ := Prod.mk.inj h
        exact Nat.lt_succ_self _
      · have := q.lt_next h
        omega
    unique := by
      have hfresh : ∀ c, (c, d.cseq + k) ∉ q.waiting := fun c hc => by
        have := q.lt_next hc
        omega
      intro c c' m hm hm'
      rcases Set.mem_insert_iff.mp hm with h | h <;> rcases Set.mem_insert_iff.mp hm' with h' | h'
      · rw [(Prod.mk.inj h).1, (Prod.mk.inj h').1]
      · exact absurd ((Prod.mk.inj h).2 ▸ h') (hfresh c')
      · exact absurd ((Prod.mk.inj h').2 ▸ h) (hfresh c)
      · exact q.unique h h' }
  refine ⟨q', .take (d.cseq + k) (by omega) rfl, ?_, ?_, ?_, ?_⟩
  · ext ⟨s, m⟩
    simp only [q', Set.mem_insert_iff, Nodes.tickets, Set.mem_ofPred_eq, hq.mem_waiting,
      Prod.mk.injEq]
    by_cases h : childOf p (lockName s m) = childOf p (lockName session (d.cseq + k))
    · rw [h, Function.update_self]
      constructor
      · rintro (⟨rfl, rfl⟩ | ⟨hm, -⟩)
        · exact ⟨hn, by simp⟩
        · exact ⟨hm, by simp⟩
      · rintro ⟨hm, -⟩
        exact .inl (childOf_lockName_inj hm hn h)
    · rw [Function.update_of_ne h, Nodes.bump_ne_none]
      refine or_iff_right ?_
      rintro ⟨rfl, rfl⟩
      exact h rfl
  · intro x hx hx'
    by_cases h : childOf p x = childOf p (lockName session (d.cseq + k))
    · exact ⟨session, _, hn, ((childOf_inj hx (ownName_lockName ..).2).mp h).2⟩
    · rw [Function.update_of_ne h, Nodes.bump_ne_none] at hx'
      exact hq.named x hx hx'
  · intro d' hd'
    rw [Function.update_of_ne (childOf_ne_self _ _).symm, Nodes.bump_self _ hd,
      Option.some.injEq] at hd'
    rw [← hd']
    exact (Nat.add_assoc ..).symm
  · intro hnone
    rw [Function.update_of_ne (childOf_ne_self _ _).symm, Nodes.bump_self _ hd] at hnone
    cases hnone

/-- A ticket that is handed in. -/
theorem IsQueue.delete (hq : IsQueue t p q) {k : ℕ} {x : CString} (hx : OwnName session x)
    (hpresent : t (childOf p x) ≠ none) :
    ∃ q', TicketQueue.Step session q q' ∧
      IsQueue (Function.update (t.bump p k) (childOf p x) none) p q' := by
  obtain ⟨s, n, hn, rfl⟩ := hq.named x hx.2 hpresent
  obtain rfl := hx.unique (ownName_lockName s n)
  let q' : TicketQueue Sid := {
    next := q.next + k
    waiting := q.waiting \ {(session, n)}
    lt_next := fun hm => (q.lt_next hm.1).trans_le (Nat.le_add_right ..)
    unique := fun hm hm' => q.unique hm.1 hm'.1 }
  refine ⟨q', .leave n rfl, ?_, ?_, ?_, ?_⟩
  · ext ⟨s, m⟩
    simp only [q', Set.mem_sdiff, Set.mem_singleton_iff, Nodes.tickets, Set.mem_ofPred_eq,
      hq.mem_waiting, Prod.mk.injEq]
    by_cases h : childOf p (lockName s m) = childOf p (lockName session n)
    · rw [h, Function.update_self]
      constructor
      · rintro ⟨⟨hm, -⟩, hne⟩
        exact absurd (childOf_lockName_inj hm hn h) hne
      · rintro ⟨-, hne⟩
        exact absurd rfl hne
    · rw [Function.update_of_ne h, Nodes.bump_ne_none]
      refine and_iff_left ?_
      rintro ⟨rfl, rfl⟩
      exact h rfl
  · intro y hy hy'
    by_cases h : childOf p y = childOf p (lockName session n)
    · rw [h, Function.update_self] at hy'
      exact absurd rfl hy'
    · rw [Function.update_of_ne h, Nodes.bump_ne_none] at hy'
      exact hq.named y hy hy'
  · intro d' hd'
    rw [Function.update_of_ne (childOf_ne_self _ _).symm] at hd'
    cases hd : t p with
    | none => simp [Nodes.bump, hd] at hd'
    | some d =>
      rw [Nodes.bump_self _ hd, Option.some.injEq] at hd'
      rw [← hd']
      exact congrArg (· + k) (hq.next d hd)
  · intro hnone
    rw [Function.update_of_ne (childOf_ne_self _ _).symm] at hnone
    have : t p = none := not_not.mp fun h => (t.bump_ne_none p k p).mpr h hnone
    simp only [q', hq.gone this, Set.empty_sdiff]

/-- **A request is a step of the queue**, while the numbers are below 2³¹. -/
theorem IsQueue.step {r : Req} {a : Reply} (hq : IsQueue t p q) (h : Answers session r t a t')
    (hr : QueueReq session p r) (hbound : ∀ d, t' p = some d → d.cseq ≤ 2 ^ 31) :
    ∃ q', TicketQueue.Step session q q' ∧ IsQueue t' p q' := by
  have hidle : TicketQueue.Step session q q := .idle rfl (.inl le_rfl)
  cases h with
  | @createOk p' _ d v value acl flags len k path _ hd hdir hpath hnew _ _ hcseq =>
    rcases hr with ⟨rfl, hseq⟩ | ⟨hparent, hseq⟩
    · rw [parentOf_childOf p (slash_notMem_lockPrefix session)] at hd hbound ⊢
      rw [if_pos hseq] at hpath
      have hname : path = childOf p (lockName session (d.cseq + k)) := by
        rw [hpath]
        simp [childOf, lockName]
      subst hname
      refine hq.create hd (hbound { d with cseq := d.cseq + (k + 1) } ?_)
      rw [Function.update_of_ne (childOf_ne_self _ _).symm, Nodes.bump_self _ hd]
    · rw [hseq, if_neg (by decide)] at hpath
      subst path
      have hchild : ∀ x, '/' ∉ x → (Function.update (t.bump (parentOf p') (k + 1)) p' (some v)
          (childOf p x) ≠ none ↔ t (childOf p x) ≠ none) := by
        intro x hx
        rw [Function.update_of_ne, Nodes.bump_ne_none]
        rintro rfl
        exact hparent (parentOf_childOf p hx)
      by_cases hp : p' = p
      · subst hp
        have hempty := hq.gone hnew
        refine ⟨.empty, .idle hempty.symm (.inr hempty), hq.congr hchild hempty.symm ?_ ?_⟩
        · intro d' hd'
          rw [Function.update_self, Option.some.injEq] at hd'
          rw [← hd', hcseq]
          rfl
        · simp
      · have hsame : Function.update (t.bump (parentOf p') (k + 1)) p' (some v) p = t p := by
          rw [Function.update_of_ne (Ne.symm hp), t.bump_of_ne _ (Ne.symm hparent)]
        exact ⟨q, hidle, hq.congr hchild rfl (by rw [hsame]; exact hq.next)
          (by rw [hsame]; exact hq.gone)⟩
  | @setOk p' _ v buffer version mtime _ hv _ =>
    have hnone : ∀ p'', Function.update t p'
        (some { v with data := some buffer, mtime := mtime, version := v.version + 1 }) p'' ≠ none ↔
          t p'' ≠ none := by
      intro p''
      by_cases h : p'' = p'
      · simp [h, hv]
      · rw [Function.update_of_ne h]
    refine ⟨q, hidle, hq.congr (fun x _ => hnone _) rfl ?_ ?_⟩
    · intro d hd
      by_cases h : p = p'
      · subst h
        rw [Function.update_self, Option.some.injEq] at hd
        rw [← hd]
        exact hq.next v hv
      · rw [Function.update_of_ne h] at hd
        exact hq.next d hd
    · intro h
      exact hq.gone (not_not.mp fun h' => (hnone p).mpr h' h)
  | @deleteOk p' _ v version k _ hv _ hchildless =>
    by_cases hown : ∃ x, p' = childOf p x ∧ OwnName session x
    · obtain ⟨x, rfl, hx⟩ := hown
      rw [parentOf_childOf p hx.2]
      exact hq.delete hx (by simp [hv])
    · have hparent := hr.resolve_left hown
      have hchild : ∀ x, '/' ∉ x → (Function.update (t.bump (parentOf p') k) p' none
          (childOf p x) ≠ none ↔ t (childOf p x) ≠ none) := by
        intro x hx
        rw [Function.update_of_ne, Nodes.bump_ne_none]
        rintro rfl
        exact hparent (parentOf_childOf p hx)
      by_cases hp : p' = p
      · subst hp
        refine ⟨q, hidle, hq.congr hchild rfl (by simp) fun _ => ?_⟩
        rw [hq.waiting, Set.eq_empty_iff_forall_notMem]
        intro x hx
        exact hchildless ⟨_, (ownName_lockName x.1 x.2).2, hx.2⟩
      · have hsame : Function.update (t.bump (parentOf p') k) p' none p = t p := by
          rw [Function.update_of_ne (Ne.symm hp), t.bump_of_ne _ (Ne.symm hparent)]
        exact ⟨q, hidle, hq.congr hchild rfl (by rw [hsame]; exact hq.next)
          (by rw [hsame]; exact hq.gone)⟩
  | _ => exact ⟨q, hidle, hq⟩

/-- The first of the sorted children is served. -/
theorem IsQueue.served_first (hq : IsQueue t p q) {names rest : List CString} {x : CString}
    (hnames : ∀ y, y ∈ names ↔ '/' ∉ y ∧ t (childOf p y) ≠ none)
    (h : sortChildren names = some (x :: rest)) :
    ∃ s n, n < 2 ^ 31 ∧ x = lockName s n ∧ q.Served s n := by
  have hname : ∀ y ∈ names, ∃ s n, n < 2 ^ 31 ∧ y = lockName s n := fun y hy =>
    hq.named y ((hnames y).mp hy).1 ((hnames y).mp hy).2
  have hdash : ∀ y ∈ names, afterLast '-' y ≠ none := by
    intro y hy
    obtain ⟨s, n, hn, rfl⟩ := hname y hy
    simp [afterLast_lockName hn]
  obtain ⟨hx, hfirst⟩ := first_of_sortChildren h hdash
  obtain ⟨s, n, hn, rfl⟩ := hname x hx
  refine ⟨s, n, hn, rfl, hq.mem_waiting.mpr ⟨hn, ((hnames _).mp hx).2⟩, fun c m hm => ?_⟩
  obtain ⟨hm', hpresent⟩ := hq.mem_waiting.mp hm
  have hle := hfirst _ ((hnames _).mpr ⟨(ownName_lockName c m).2, hpresent⟩)
  rw [vstrcmp_lockName hn hm', ne_eq, Option.some.injEq, compare_gt_iff_gt] at hle
  exact not_lt.mp hle

end PhpZookeeper
