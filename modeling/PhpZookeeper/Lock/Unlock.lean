import PhpZookeeper.Lock.Call
import PhpZookeeper.Theory.Ends
import PhpZookeeper.Theory.RelyGuarantee
import PhpZookeeper.Theory.Rounds

/-!
# `zkr_lock_unlock`

A `delete` whose reply is lost may have been applied, so `zkr_lock_unlock` makes it again and takes
both `ZOK` and `ZNONODE` for success. `unlocksFrom` says what it leaves on each way out: everything
done, or nothing, so that it can be called again.
-/

namespace PhpZookeeper

open Theory Prog Status

/-- The reply says that there is no node any more. -/
def SaysGone (rc : Status) : Prop := rc = ZOK ∨ rc = ZNONODE

/-- The operations of a call of the client `sid`, when others may act but nobody else makes the
node at `q`: a request is answered, or its reply is lost, after the service has applied it or
before. -/
def unlockSem (th : Thread) (sid : Sid) (q : CString) :
    (o : Op) → LockCall × Nodes → o.Res → LockCall × Nodes → Prop
  | .zoo r, s, a, s' => s'.1 = s.1.say r a ∧ ∃ t b t', (s.2 q = none → t q = none) ∧
      Answers sid r t b t' ∧
      (a = b.received r ∧ s'.2 = t' ∨ a = { rc := ZCONNECTIONLOSS } ∧ (s'.2 = t' ∨ s'.2 = t))
  | o, s, a, s' => callSem th anyReply o s.1 a s'.1 ∧ s'.2 = s.2

/-- What a call of `zkr_lock_unlock` that returns `ret` has done, when the client's node is `x` in
the directory `p`. -/
structure Unlocks (p x : CString) (s : LockCall × Nodes) (ret : Status) (s' : LockCall × Nodes) :
    Prop where
  /-- One to three requests, all of them to delete the node; the call returns 0 when one of them is
  answered by `ZOK` or `ZNONODE`. -/
  deletes : ∃ L, s'.1.talk = s.1.talk ++ L ∧ L ≠ [] ∧ L.length ≤ 3 ∧
    (∀ y ∈ L, y.1 = .zooDelete (childOf p x) (-1)) ∧ (ret = ZOK ↔ ∃ y ∈ L, SaysGone y.2.rc)
  released : s'.1.memory.lock.pmutex = none
  /-- Everything is done. -/
  all : ret = ZOK → s'.2 (childOf p x) = none ∧ s'.1.memory.lock.id = none ∧
    s'.1.memory.lock.isowner = false ∧
    s'.1.completed = s.1.completed ++ if s.1.memory.lock.completion then [1] else []
  /-- Nothing is done. -/
  nothing : ret ≠ ZOK → s'.1.memory = s.1.memory ∧ s'.1.completed = s.1.completed

/-- From `s`, `zkr_lock_unlock` returns, whatever the replies are, with 0 if the first of them says
that there is no node any more, and `Unlocks`. -/
def UnlocksFrom (th : Thread) (sid : Sid) (p x : CString) (s : LockCall × Nodes) : Prop :=
  (∀ ρ, ∃ ret c, Returns (callSem th (replyOf ρ)) zkrLockUnlock s.1 ret c ∧
      (SaysGone (ρ s.1.talk (.zooDelete (childOf p x) (-1))).rc → ret = ZOK)) ∧
    ∀ ret s', Returns (unlockSem th sid (childOf p x)) zkrLockUnlock s ret s' →
      Unlocks p x s ret s'

/-- The client has the node `x` in the directory `p`, and nobody holds the mutex. -/
structure HasNode (p x : CString) (m : PhpZookeeperSession) : Prop where
  id : m.lock.id = some x
  path : m.lock.path = some p
  free : m.lock.pmutex = none

/-! ### The loop -/

section Loop

variable {th : Thread} {sid : Sid} {q p x : CString} {s s' : LockCall × Nodes}

/-- At most `n` deletes of the node at `q` have been made, one at least if `n` is not 0, and `rc` is
the last reply. -/
structure Deleted (q : CString) (s : LockCall × Nodes) (n : ℕ) (rc : Status)
    (s' : LockCall × Nodes) : Prop where
  memory : s'.1.memory = s.1.memory
  completed : s'.1.completed = s.1.completed
  deletes : ∃ L, s'.1.talk = s.1.talk ++ L ∧ (L = [] → n = 0) ∧ L.length ≤ n ∧
    (∀ y ∈ L, y.1 = .zooDelete q (-1)) ∧ (SaysGone rc ↔ ∃ y ∈ L, SaysGone y.2.rc)
  absent : SaysGone rc → s'.2 q = none

/-- A `delete` that says so has left no node. -/
theorem absent_of_delete {a : Reply} (h : unlockSem th sid q (.zoo (.zooDelete q (-1))) s a s')
    (ha : SaysGone a.rc) : s'.2 q = none := by
  obtain ⟨-, t, b, t', -, hans, ⟨rfl, ht⟩ | ⟨rfl, -⟩⟩ := h
  · rw [ht]
    rcases hans.zooDelete with ⟨n, k, -, -, -, -, rfl⟩ | ⟨rfl, ⟨-, hrc⟩ | ⟨hp, -⟩ | ⟨-, hrc⟩⟩
    · simp
    · simp [SaysGone, hrc] at ha
    · exact hp
    · simp [SaysGone, hrc] at ha
  · simp [SaysGone] at ha

/-- One more `delete`, after none that said the node was gone. -/
theorem Deleted.delete {n : ℕ} {rc : Status} {t : LockCall × Nodes} {a : Reply}
    (h : Deleted q s n rc t) (hrc : rc = ZCONNECTIONLOSS)
    (hsem : unlockSem th sid q (.zoo (.zooDelete q (-1))) t a s') :
    Deleted q s (n + 1) a.rc s' := by
  obtain ⟨L, htalk, -, hlen, hL, hgone⟩ := h.deletes
  have hnone : ¬ ∃ y ∈ L, SaysGone y.2.rc := by
    rw [← hgone, hrc]
    simp [SaysGone]
  refine ⟨?_, ?_, ⟨L ++ [(.zooDelete q (-1), a)], ?_, by simp, by simpa using hlen, ?_, ?_⟩,
    absent_of_delete hsem⟩
  · rw [hsem.1, ← h.memory]
    rfl
  · rw [hsem.1, ← h.completed]
    rfl
  · rw [hsem.1, LockCall.say, htalk, List.append_assoc]
  · intro y hy
    rcases List.mem_append.mp hy with hy | hy
    · exact hL y hy
    · rw [List.mem_singleton.mp hy]
  · constructor
    · exact fun ha => ⟨_, List.mem_append_right _ List.mem_cons_self, ha⟩
    · rintro ⟨y, hy, ha⟩
      rcases List.mem_append.mp hy with hy | hy
      · exact absurd ⟨y, hy, ha⟩ hnone
      · rwa [List.mem_singleton.mp hy] at ha

/-- The loop makes three deletes at most. -/
theorem returns_unlockDelete {rc : Status}
    (h : Returns (unlockSem th sid q) (unlockDelete q) s rc s') : Deleted q s 3 rc s' := by
  let I : Status × ℕ → LockCall × Nodes → Prop := fun x t => x.2 ≤ 3 ∧
    Deleted q s (if x.1 = ZCONNECTIONLOSS then x.2 else 3) x.1 t
  have hloop : Triple (.alone (unlockSem th sid q)) (fun t => t = s) (unlockDelete q)
      fun rc t => Deleted q s 3 rc t := by
    refine ((Triple.whileLoop (I := I) (fun _ _ => Contract.stable_alone _ _) fun x hx => ?_).pre
      ?_).bind fun x => .ret fun t hx => ?_
    · have hlost : x.1 = ZCONNECTIONLOSS := by simpa using (Bool.and_eq_true_iff.mp hx).1
      have hlt : x.2 < 3 := by simpa using (Bool.and_eq_true_iff.mp hx).2
      refine .act (fun a t => Deleted q s (x.2 + 1) a.rc t) ?_ fun a => ?_
      · rintro t a t' ⟨-, hI⟩ hsem
        rw [if_pos hlost] at hI
        exact hI.delete hlost hsem
      · split_ifs with ha
        · refine .act (fun _ t => Deleted q s (x.2 + 1) a.rc t) ?_ fun _ => .ret fun t ht => ?_
          · rintro t _ t' ht ⟨hcall, hnodes⟩
            obtain rfl : t' = t := Prod.ext hcall hnodes
            exact ht
          · exact ⟨hlt, by simpa only [ha, if_true] using ht⟩
        · refine .ret fun t ht => ⟨hlt.le, ?_⟩
          obtain ⟨L, htalk, hmade, hlen, hL⟩ := ht.deletes
          simp only [ha, if_false]
          exact ⟨ht.memory, ht.completed, ⟨L, htalk, fun hnil => absurd (hmade hnil) (by omega),
            by omega, hL⟩, ht.absent⟩
    · rintro t rfl
      exact ⟨Nat.zero_le 3, rfl, rfl, ⟨[], by simp, by simp, by simp, by simp, by simp [SaysGone]⟩,
        by simp [SaysGone]⟩
    · obtain ⟨⟨hle, hx⟩, hleft⟩ := hx
      obtain ⟨L, htalk, hmade, hlen, hL⟩ := hx.deletes
      refine ⟨hx.memory, hx.completed, ⟨L, htalk, fun hnil => ?_, ?_, hL⟩, hx.absent⟩
      · by_cases hrc : x.1 = ZCONNECTIONLOSS
        · have hnone : x.2 = 0 := by simpa [hrc] using hmade hnil
          simp [hrc, hnone] at hleft
        · simpa [hrc] using hmade hnil
      · split_ifs at hlen <;> omega
  exact hloop.returns rfl h

/-! ### The call -/

/-- The completion is called, if there is one. -/
theorem returns_callCompletion {rc : ℕ} {u : Unit}
    (h : Returns (unlockSem th sid q) (callCompletion rc) s u s') :
    s' = ({ s.1 with
      completed := s.1.completed ++ if s.1.memory.lock.completion then [rc] else [] },
      s.2) := by
  simp only [callCompletion, bind_eq, perform_bind, returns_op_iff] at h
  obtain ⟨m, s₁, ⟨⟨rfl, h₁⟩, hn₁⟩, h⟩ := h
  obtain rfl : s₁ = s := Prod.ext h₁ hn₁
  split_ifs at h ⊢
  · obtain ⟨u, s₂, ⟨h₂, hn₂⟩, hret⟩ := returns_op_iff.mp h
    obtain ⟨-, rfl⟩ := returns_ret_iff.mp hret
    exact Prod.ext h₂ hn₂
  · obtain ⟨-, rfl⟩ := returns_ret_iff.mp h
    simp

/-- **All or nothing.** -/
theorem unlocks_of_returns (hnode : HasNode p x s.1.memory) {ret : Status}
    (h : Returns (unlockSem th sid (childOf p x)) zkrLockUnlock s ret s') :
    Unlocks p x s ret s' := by
  simp only [zkrLockUnlock, bind_eq, perform_bind, returns_op_iff] at h
  obtain ⟨u, s₁, ⟨⟨-, h₁⟩, hn₁⟩, m, s₂, ⟨⟨rfl, h₂⟩, hn₂⟩, h⟩ := h
  obtain rfl : s₂ = s₁ := Prod.ext h₂ hn₂
  have hid : s₂.1.memory.lock.id = some x := by rw [h₁, ← hnode.id]; rfl
  have hpath : s₂.1.memory.lock.path = some p := by rw [h₁, ← hnode.path]; rfl
  simp only [hid, hpath, returns_bind_iff] at h
  obtain ⟨rc, s₃, hloop, h⟩ := h
  have hdeleted := returns_unlockDelete hloop
  obtain ⟨L, htalk, hmade, hlen, hL, hgone⟩ := hdeleted.deletes
  have hsome : L ≠ [] := fun hnil => absurd (hmade hnil) (by decide)
  have htalk₂ : s₂.1.talk = s.1.talk := by rw [h₁]
  have hcompleted₂ : s₂.1.completed = s.1.completed := by rw [h₁]
  rw [htalk₂] at htalk
  split_ifs at h with hrc
  · obtain ⟨u, s₄, hcompletion, h⟩ := returns_bind_iff.mp h
    obtain rfl := returns_callCompletion hcompletion
    simp only [returns_op_iff] at h
    obtain ⟨u, s₅, ⟨h₅, hn₅⟩, u', s₆, ⟨h₆, hn₆⟩, hret⟩ := h
    obtain ⟨rfl, rfl⟩ := returns_ret_iff.mp hret
    refine ⟨⟨L, by rw [h₆, h₅, ← htalk], hsome, hlen, hL, by simpa using hgone.mp hrc⟩,
      by rw [h₆]; rfl, fun _ => ⟨?_, by rw [h₆, h₅]; rfl, by rw [h₆, h₅]; rfl, ?_⟩,
      fun hne => absurd rfl hne⟩
    · rw [hn₆, hn₅]
      exact hdeleted.absent hrc
    · rw [h₆, h₅]
      simp only [hdeleted.completed, hdeleted.memory, h₁]
      rfl
  · simp only [returns_op_iff] at h
    obtain ⟨u, s₄, ⟨h₄, hn₄⟩, hret⟩ := h
    obtain ⟨rfl, rfl⟩ := returns_ret_iff.mp hret
    have hnot : ¬ ∃ y ∈ L, SaysGone y.2.rc := fun hy => hrc (hgone.mpr hy)
    refine ⟨⟨L, by rw [h₄, ← htalk], hsome, hlen, hL, by simpa using hnot⟩, by rw [h₄]; rfl,
      fun hok => by simp at hok, fun _ => ⟨?_, by rw [h₄, hdeleted.completed, hcompleted₂]⟩⟩
    -- the mutex is as free as before
    rw [h₄, hdeleted.memory, h₁]
    simp only [Op.effect, ← hnode.free]

/-- The loop ends, after its first round if there is no node any more. -/
theorem endsWithin_unlockDelete (ρ : Talk → Req → Reply) (c : LockCall) :
    EndsWithin (callSem th (replyOf ρ)) (fun _ => 0) (fun _ => False) (unlockDelete q) c 0
      fun rc _ => SaysGone (ρ c.talk (.zooDelete q (-1))).rc → SaysGone rc := by
  let first : Reply := ρ c.talk (.zooDelete q (-1))
  refine EndsWithin.bind_free (EndsWithin.whileLoop_free
    (I := fun x c' => x = (ZCONNECTIONLOSS, 0) ∧ c' = c ∨ (SaysGone first.rc → SaysGone x.1))
    (fun x : Status × ℕ => 3 - x.2) (fun x hx => ?_) (fun x c₁ hx hI => ?_) (.inl ⟨rfl, rfl⟩))
    fun x c' hx => .ret ?_
  · have hlt : x.2 < 3 := by simpa using (Bool.and_eq_true_iff.mp hx).2
    omega
  · have hlost : x.1 = ZCONNECTIONLOSS := by simpa using (Bool.and_eq_true_iff.mp hx).1
    have hlt : x.2 < 3 := by simpa using (Bool.and_eq_true_iff.mp hx).2
    let r : Req := .zooDelete q (-1)
    let c₂ : LockCall := c₁.say r (ρ c₁.talk r)
    have hsem : callSem th (replyOf ρ) (.zoo r) c₁ (ρ c₁.talk r) c₂ := ⟨rfl, rfl⟩
    -- no round follows a first one that finds no node
    have hround : SaysGone first.rc → SaysGone (ρ c₁.talk r).rc := by
      rcases hI with ⟨-, rfl⟩ | hI
      · exact id
      · intro hgone
        have hfalse := hI hgone
        simp [hlost, SaysGone] at hfalse
    refine .free hsem rfl ?_
    simp only [ret_bind]
    split_ifs with hrc
    · have hsleep : callSem th (replyOf ρ) .nanosleep c₂ () c₂ := rfl
      refine .free hsleep rfl (.ret ⟨.inr hround, fun _ => ?_⟩)
      simp only
      omega
    · refine .ret ⟨.inr hround, fun hcond => ?_⟩
      simp [hrc] at hcond
  · obtain ⟨⟨rfl, -⟩ | hI, hleft⟩ := hx
    · simp at hleft
    · exact hI

/-- `zkr_lock_unlock` returns when nobody holds the mutex, with 0 if there is no node any more. -/
theorem exists_returns_zkrLockUnlock (ρ : Talk → Req → Reply) {c : LockCall}
    (hnode : HasNode p x c.memory) :
    ∃ ret c', Returns (callSem th (replyOf ρ)) zkrLockUnlock c ret c' ∧
      (SaysGone (ρ c.talk (.zooDelete (childOf p x) (-1))).rc → ret = ZOK) := by
  let c₁ : LockCall := { c with memory := Op.effect th .pthreadMutexLock c.memory }
  have hlock : callSem th (replyOf ρ) .pthreadMutexLock c () c₁ := ⟨hnode.free, rfl⟩
  have hload : ∀ c : LockCall, callSem th (replyOf ρ) .load c c.memory c := fun c => ⟨rfl, rfl⟩
  have hid : c₁.memory.lock.id = some x := hnode.id
  have hpath : c₁.memory.lock.path = some p := hnode.path
  let Q : Status → LockCall → Prop := fun ret _ =>
    SaysGone (ρ c.talk (.zooDelete (childOf p x) (-1))).rc → ret = ZOK
  have hends : EndsWithin (callSem th (replyOf ρ)) (fun _ => 0) (fun _ => False) zkrLockUnlock c 0
      Q := by
    refine .free hlock rfl (.free (hload c₁) rfl ?_)
    simp only [ret_bind, hid, hpath]
    refine EndsWithin.bind_free (endsWithin_unlockDelete ρ c₁) fun rc c₂ hrc => ?_
    have hunlock : ∀ c : LockCall, callSem th (replyOf ρ) .pthreadMutexUnlock c ()
        { c with memory := Op.effect th .pthreadMutexUnlock c.memory } := fun _ => rfl
    split_ifs with hgone
    · have hdone : ∀ c : LockCall, EndsWithin (callSem th (replyOf ρ)) (fun _ => 0)
          (fun _ => False) (do
            store (.lockId none)
            act .pthreadMutexUnlock
            return ZOK) c 0 Q := fun c => by
        have hstore : callSem th (replyOf ρ) (.store (.lockId none)) c ()
          { c with memory := Assign.apply (.lockId none) c.memory } := rfl
        exact .free hstore rfl (.free (hunlock _) rfl (.ret fun _ => rfl))
      refine .free (hload c₂) rfl ?_
      simp only [ret_bind]
      split_ifs
      · have hcompletion : callSem th (replyOf ρ) (.completion 1) c₂ ()
          { c₂ with completed := c₂.completed ++ [1] } := rfl
        exact .free hcompletion rfl (hdone _)
      · exact hdone _
    · exact .free (hunlock _) rfl (.ret fun hfirst => absurd (hrc hfirst) hgone)
  obtain ⟨ret, c', hends, -, hret⟩ := hends
  cases ret with
  | none => exact hret.elim
  | some ret => exact ⟨ret, c', hends.returns, hret⟩

/-- **Unlock is all or nothing, and can be repeated.** It returns after one to three deletes, with
everything done when the node is gone and with nothing done else; then the next call does the same,
whatever has become of the nodes, and returns 0 when its delete is answered. -/
theorem unlocksFrom (th : Thread) (sid : Sid) (p x : CString) (s : LockCall × Nodes)
    (hnode : HasNode p x s.1.memory) :
    UnlocksFrom th sid p x s ∧ ∀ ret s',
      Returns (unlockSem th sid (childOf p x)) zkrLockUnlock s ret s' → ret ≠ ZOK →
        ∀ t, UnlocksFrom th sid p x (s'.1, t) := by
  have hfrom : ∀ s : LockCall × Nodes, HasNode p x s.1.memory → UnlocksFrom th sid p x s :=
    fun s hnode => ⟨fun ρ => exists_returns_zkrLockUnlock ρ hnode,
      fun ret s' h => unlocks_of_returns hnode h⟩
  refine ⟨hfrom s hnode, fun ret s' h hret t => hfrom (s'.1, t) ?_⟩
  have hmemory := ((unlocks_of_returns hnode h).nothing hret).1
  exact ⟨hmemory ▸ hnode.id, hmemory ▸ hnode.path, hmemory ▸ hnode.free⟩

end Loop

/-- The owner of the lock, when the node is there and the connection breaks after its first `delete`
has been applied: the second one finds no node, and the call returns 0. -/
theorem unlocksFrom_lost :
    let p := "/l".toList
    let x := "x-0000000000000001-0000000007".toList
    let lock : ZkrLockMutex :=
      { path := some p, id := some x, ownerid := some x, completion := true }
    let s : LockCall × Nodes := ({ memory := { lock := lock } }, fun q =>
      if q = childOf p x then some { ephemeralOwner := some 1 } else none)
    let delete : Req := .zooDelete (childOf p x) (-1)
    UnlocksFrom .main 1 p x s ∧ (∀ ret s', Returns (unlockSem .main 1 (childOf p x)) zkrLockUnlock s
      ret s' → ret ≠ ZOK → ∀ t, UnlocksFrom .main 1 p x (s'.1, t)) ∧
    ∃ s', Returns (unlockSem .main 1 (childOf p x)) zkrLockUnlock s ZOK s' ∧
      s'.1.talk = [(delete, { rc := ZCONNECTIONLOSS }), (delete, { rc := ZNONODE })] ∧
      s'.1.completed = [1] := by
  intro p x lock s delete
  have hfrom := unlocksFrom .main 1 p x s ⟨rfl, rfl, rfl⟩
  let lost : Reply := { rc := ZCONNECTIONLOSS }
  let gone : Reply := { rc := ZNONODE }
  let nodes : Nodes := Function.update (s.2.bump p 0) (childOf p x) none
  let begun : LockCall := { s.1 with memory := Op.effect .main .pthreadMutexLock s.1.memory }
  have hvalid : validPath (childOf p x) false = true := by decide
  have hthere : s.2 (childOf p x) = some { ephemeralOwner := some 1 } := by simp [s]
  have hchild : ¬ s.2.HasChild (childOf p x) := by
    rintro ⟨y, -, hy⟩
    exact hy (by simp [s, childOf_ne_self])
  have hlost : unlockSem .main 1 (childOf p x) (.zoo delete) (begun, s.2) lost
      (begun.say delete lost, nodes) :=
    ⟨rfl, s.2, { rc := ZOK }, nodes, id, .deleteOk hvalid hthere (.inl rfl) hchild,
      .inr ⟨rfl, .inl rfl⟩⟩
  have hgone : unlockSem .main 1 (childOf p x) (.zoo delete) (begun.say delete lost, nodes) gone
      ((begun.say delete lost).say delete gone, nodes) :=
    ⟨rfl, nodes, gone, nodes, id, .deleteNoNode hvalid (by simp [nodes]), .inl ⟨rfl, rfl⟩⟩
  have hsleep : unlockSem .main 1 (childOf p x) .nanosleep (begun.say delete lost, nodes) ()
      (begun.say delete lost, nodes) := ⟨rfl, rfl⟩
  have hloop : Returns (unlockSem .main 1 (childOf p x)) (unlockDelete (childOf p x))
      (begun, s.2) ZNONODE ((begun.say delete lost).say delete gone, nodes) := by
    refine returns_bind_iff.mpr ⟨(ZNONODE, 1), _, ?_, returns_ret_iff.mpr ⟨rfl, rfl⟩⟩
    refine returns_loop_iff.mpr ⟨2, .next (?_ : Returns _ _ _ (Sum.inl (ZCONNECTIONLOSS, 1))
      (begun.say delete lost, nodes)) (.last ?_)⟩
    · exact returns_op_iff.mpr ⟨lost, _, hlost, returns_op_iff.mpr
        ⟨(), _, hsleep, returns_ret_iff.mpr ⟨rfl, rfl⟩⟩⟩
    · exact returns_op_iff.mpr ⟨gone, _, hgone, returns_ret_iff.mpr ⟨rfl, rfl⟩⟩
  let ended : LockCall := { begun.say delete lost |>.say delete gone with completed := [1] }
  have hcompletion : Returns (unlockSem .main 1 (childOf p x)) (callCompletion 1)
      ((begun.say delete lost).say delete gone, nodes) () (ended, nodes) :=
    returns_op_iff.mpr ⟨_, _, ⟨⟨rfl, rfl⟩, rfl⟩, returns_op_iff.mpr
      ⟨(), (ended, nodes), ⟨rfl, rfl⟩, returns_ret_iff.mpr ⟨rfl, rfl⟩⟩⟩
  let forgotten : LockCall := { ended with memory := Assign.apply (.lockId none) ended.memory }
  let done : LockCall :=
    { forgotten with memory := Op.effect .main .pthreadMutexUnlock forgotten.memory }
  have hend : Returns (unlockSem .main 1 (childOf p x))
      (do store (.lockId none); act .pthreadMutexUnlock; return ZOK) (ended, nodes) ZOK
      (done, nodes) :=
    returns_op_iff.mpr ⟨(), (forgotten, nodes), ⟨rfl, rfl⟩, returns_op_iff.mpr
      ⟨(), (done, nodes), ⟨rfl, rfl⟩, returns_ret_iff.mpr ⟨rfl, rfl⟩⟩⟩
  refine ⟨hfrom.1, hfrom.2, (done, nodes), ?_, rfl, rfl⟩
  simp only [zkrLockUnlock, bind_eq, perform_bind, returns_op_iff]
  refine ⟨(), (begun, s.2), ⟨⟨rfl, rfl⟩, rfl⟩, begun.memory, (begun, s.2), ⟨⟨rfl, rfl⟩, rfl⟩, ?_⟩
  exact returns_bind_iff.mpr ⟨ZNONODE, _, hloop, returns_bind_iff.mpr ⟨(), _, hcompletion, hend⟩⟩

end PhpZookeeper
