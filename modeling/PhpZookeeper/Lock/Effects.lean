import PhpZookeeper.Theory.Effects
import PhpZookeeper.Lock.Names

/-!
# What the lock does to its world

The effects of the functions of `zoo_lock.c`, as a matter of their text: which requests they
make, in terms of the path in the record they have read, and what they put into the record.
`UnlockEffects`, `QueueEffects`, `LockEffects` and `CloseEffects` are lists of operations and of
what is known of their results; each function performs only operations of its list, whatever the
list is used for.
-/

namespace PhpZookeeper

open Theory Prog Status

/-- What `createNode` asks for: the buffers hold the whole path. -/
theorem createNode_some (session : Sid) (path : CString) :
    createNode session (some path) = do
      let s ← load
      let a ← zoo (.zooCreate (childOf path (lockPrefix session)) none s.lock.acl
        { ephemeral := true, sequence := true } (path.length + 41))
      if a.rc ≠ ZOK then
        return a.rc
      else
        store (.lockId (getName a.realPath))
        return ZOK := by
  have hbuf : (childOf path (lockPrefix session)).take (path.length + 19 + 2 - 1) =
      childOf path (lockPrefix session) :=
    List.take_of_length_le (by simp [childOf, length_lockPrefix])
  simp only [createNode, length_lockPrefix, hbuf]

/-- `p` is a path that a record the code has read may have. -/
def KnownPath (post : (o : Op) → o.Res → Prop) (p : CString) : Prop :=
  ∃ m : PhpZookeeperSession, post .load m ∧ m.lock.path = some p

/-- The operations that any part of the lock may perform. -/
structure BaseEffects (pre : Op → Prop) : Prop where
  load : pre .load
  fault : pre .fault
  nanosleep : pre .nanosleep
  completion : ∀ rc, pre (.completion rc)
  clearId : pre (.store (.lockId none))

/-- The operations of `zkr_lock_unlock`, and what is known of their results. -/
structure UnlockEffects (pre : Op → Prop) (post : (o : Op) → o.Res → Prop) : Prop
    extends BaseEffects pre where
  mutexLock : pre .pthreadMutexLock
  mutexUnlock : pre .pthreadMutexUnlock
  dequeue : ∀ (m : PhpZookeeperSession) p x, post .load m → m.lock.path = some p →
    m.lock.id = some x → pre (.zoo (.zooDelete (childOf p x) (-1)))

/-- The operations of `zkr_lock_lock` that neither make the client's node nor take its name. -/
structure VisitEffects (pre : Op → Prop) (post : (o : Op) → o.Res → Prop) : Prop
    extends BaseEffects pre where
  setIsOwner : ∀ b, pre (.store (.lockIsOwner b))
  exists_ : ∀ p, KnownPath post p → pre (.zoo (.zooExists p))
  mkdir : ∀ p acl, KnownPath post p → pre (.zoo (.zooCreate p none acl {} 0))
  list : ∀ p, KnownPath post p → pre (.zoo (.zooGetChildren p))
  watch : ∀ p x, KnownPath post p → '/' ∉ x → pre (.zoo (.zooWexists (childOf p x)))
  names : ∀ p a, post (.zoo (.zooGetChildren p)) a → ∀ x ∈ a.strings, '/' ∉ x

/-- The operations of `zkr_lock_operation` but for `zkr_lock_unlock` and the assignment of
`ownerid`. -/
structure QueueEffects (session : Sid) (pre : Op → Prop) (post : (o : Op) → o.Res → Prop) :
    Prop extends BaseEffects pre where
  setId : ∀ x, OwnName session x → pre (.store (.lockId (some x)))
  setIsOwner : ∀ b, pre (.store (.lockIsOwner b))
  exists_ : ∀ p, KnownPath post p → pre (.zoo (.zooExists p))
  mkdir : ∀ p acl, KnownPath post p → pre (.zoo (.zooCreate p none acl {} 0))
  list : ∀ p, KnownPath post p → pre (.zoo (.zooGetChildren p))
  enqueue : ∀ p acl len, KnownPath post p → pre (.zoo (.zooCreate (childOf p (lockPrefix session))
    none acl { ephemeral := true, sequence := true } len))
  enqueued : ∀ p acl len a, post (.zoo (.zooCreate p none acl
    { ephemeral := true, sequence := true } len)) a → a.rc = ZOK →
      ∃ n, a.realPath = (p ++ sprintf010d n).take (len - 1)
  watch : ∀ p x, KnownPath post p → '/' ∉ x → pre (.zoo (.zooWexists (childOf p x)))
  names : ∀ p a, post (.zoo (.zooGetChildren p)) a → ∀ x ∈ a.strings, '/' ∉ x

/-- The operations of `zkr_lock_lock`, which may call `zkr_lock_unlock`. -/
structure LockEffects (session : Sid) (pre : Op → Prop) (post : (o : Op) → o.Res → Prop) :
    Prop extends QueueEffects session pre post, UnlockEffects pre post where
  setOwnerid : ∀ ownerid, pre (.store (.lockOwnerid ownerid))

/-- The operations with which `PS_CLOSE` ends a lock, those of `zkr_lock_destroy` among them. -/
structure CloseEffects (pre : Op → Prop) (post : (o : Op) → o.Res → Prop) : Prop extends
    UnlockEffects pre post where
  efreePath : pre .efreePath
  lockDestroy : pre (.store .lockDestroy)
  mutexDestroy : pre .pthreadMutexDestroy
  clearIsOwner : pre (.store (.lockIsOwner false))
  clearIsLocked : pre (.store (.isLocked false))

/-- The results of a request, or of one with a `NULL` path. -/
def PathReply (post : (o : Op) → o.Res → Prop) (path : Option CString) (r : CString → Req)
    (a : Reply) : Prop :=
  a.strings = [] ∨ ∃ p ∈ path, post (.zoo (r p)) a

variable {session : Sid} {pre : Op → Prop} {post : (o : Op) → o.Res → Prop}

theorem performs_zooPath {path : Option CString} {r : CString → Req}
    (hr : ∀ p ∈ path, pre (.zoo (r p))) :
    Performs pre post (zooPath path r) (PathReply post path r) := by
  cases path with
  | none => exact .ret (.inl rfl)
  | some p => exact (Performs.perform (hr p rfl)).mono fun a ha => .inr ⟨p, rfl, ha⟩

namespace BaseEffects

variable (h : BaseEffects pre)
include h

theorem retryRequest (path : Option CString) (r : CString → Req) {retry : ℕ}
    (hr : ∀ p ∈ path, pre (.zoo (r p))) :
    Performs pre post (retryRequest path r retry) (PathReply post path r) := by
  refine (Performs.whileLoop (I := fun s : Reply × ℕ => PathReply post path r s.1) (.inl rfl)
    fun s _ => (performs_zooPath hr).bind fun a ha => ?_).bind fun s hs => .ret hs
  split_ifs
  · exact .step h.nanosleep fun _ _ => .ret ha
  · exact .ret ha

theorem callCompletion (rc : ℕ) : Performs pre post (callCompletion rc) fun _ => True := by
  refine .step h.load fun m _ => ?_
  split_ifs
  · exact (Performs.perform (h.completion rc)).mono fun _ _ => trivial
  · exact .ret trivial

theorem undefined {α : Type} {Q : α → Prop} : Performs pre post (PhpZookeeper.fault : Code α) Q :=
  .op h.fault fun r => nomatch r

theorem unlockDelete {buf : CString} (hbuf : pre (.zoo (.zooDelete buf (-1)))) :
    Performs pre post (unlockDelete buf) fun _ => True := by
  refine (Performs.whileLoop (I := fun _ => True) trivial
    fun s _ => .step hbuf fun a _ => ?_).bind fun s _ => .ret trivial
  split_ifs
  · exact .step h.nanosleep fun _ _ => .ret trivial
  · exact .ret trivial

end BaseEffects

namespace UnlockEffects

variable (h : UnlockEffects pre post)
include h

theorem zkrLockUnlock : Performs pre post zkrLockUnlock fun _ => True := by
  refine .step h.mutexLock fun _ _ => .step h.load fun m hm => ?_
  cases hid : m.lock.id with
  | none => exact .step h.mutexUnlock fun _ _ => .ret trivial
  | some id =>
    cases hpath : m.lock.path with
    | none => exact h.undefined
    | some path =>
      refine (h.unlockDelete (h.dequeue m path id hm hpath hid)).bind fun ret _ => ?_
      split_ifs
      · exact (h.callCompletion 1).bind fun _ _ => .step h.clearId fun _ _ =>
          .step h.mutexUnlock fun _ _ => .ret trivial
      · exact .step h.mutexUnlock fun _ _ => .ret trivial

theorem giveUp : Performs pre post giveUp fun _ => True := by
  refine h.zkrLockUnlock.bind fun ret _ =>
    Performs.loop (I := fun _ => True) (J := fun _ => True) trivial fun ret _ => ?_
  split_ifs
  · exact h.zkrLockUnlock.bind fun _ _ => .ret trivial
  · exact .ret trivial

end UnlockEffects

theorem CloseEffects.zkrLockDestroy (h : CloseEffects pre post) :
    Performs pre post zkrLockDestroy fun _ => True :=
  .step h.lockDestroy fun _ _ => .step h.mutexDestroy fun _ _ =>
    .step h.clearIsOwner fun _ _ => .ret trivial

namespace VisitEffects

variable (h : VisitEffects pre post)
include h

theorem retryGetchildren {path : Option CString} {retry : ℕ}
    (hp : ∀ p ∈ path, KnownPath post p) :
    Performs pre post (retryGetchildren path retry) fun a => ∀ x ∈ a.strings, '/' ∉ x := by
  refine (h.retryRequest _ .zooGetChildren fun p hmem => h.list p (hp p hmem)).mono fun a ha => ?_
  rcases ha with ha | ⟨p, -, ha⟩
  · simp [ha]
  · exact h.names p a ha

theorem makeDirectory {path : Option CString} (hp : ∀ p ∈ path, KnownPath post p) :
    Performs pre post (makeDirectory path) fun _ => True := by
  have hexists : Performs pre post (zooPath path .zooExists) fun _ => True :=
    (performs_zooPath fun p hmem => h.exists_ p (hp p hmem)).mono fun _ _ => trivial
  have hagain : ∀ st, Performs pre post (retryDirectory path st) fun _ => True := by
    intro st
    unfold retryDirectory
    split_ifs
    · exact hexists
    · exact .step h.load fun m _ =>
        (performs_zooPath fun p hmem => h.mkdir p _ (hp p hmem)).mono fun _ _ => trivial
  exact hexists.bind fun a _ =>
    (Performs.whileLoop (I := fun _ => True) trivial fun s _ =>
      (hagain s.1).bind fun _ _ => .step h.nanosleep fun _ _ => .ret trivial).bind
        fun _ _ => .ret trivial

end VisitEffects

theorem QueueEffects.toVisitEffects (h : QueueEffects session pre post) : VisitEffects pre post :=
  { h with }

namespace QueueEffects

variable (h : QueueEffects session pre post)
include h

theorem setId' {id : Option CString} (hid : ∀ x ∈ id, OwnName session x) :
    pre (.store (.lockId id)) := by
  cases id with
  | none => exact h.clearId
  | some x => exact h.setId x (hid x rfl)

theorem createNode {path : Option CString} (hp : ∀ p ∈ path, KnownPath post p) :
    Performs pre post (createNode session path) fun _ => True := by
  cases path with
  | none => exact h.undefined
  | some path =>
    rw [createNode_some]
    refine .step h.load fun m _ => .step (h.enqueue path _ _ (hp path rfl)) fun a ha => ?_
    split_ifs with hrc
    · exact .ret trivial
    · obtain ⟨n, hn⟩ := h.enqueued _ _ _ a ha (not_not.mp hrc)
      refine .step (h.setId' fun x hx => ?_) fun _ _ => .ret trivial
      rw [hn, getName_enqueued, Option.mem_some] at hx
      exact hx ▸ ownName_lockName session n

theorem lookupOrCreate {path : Option CString} {vector : List CString}
    (hp : ∀ p ∈ path, KnownPath post p) (hv : ∀ x ∈ vector, '/' ∉ x) :
    Performs pre post (lookupOrCreate session path vector) fun _ => True := by
  refine .step (h.setId' fun x hx => (ownName_of_lookupnode hx hv).2) fun _ _ =>
    .step h.load fun m _ => ?_
  split_ifs
  · exact .ret trivial
  · exact h.createNode hp

end QueueEffects

namespace LockEffects

variable (h : LockEffects session pre post)
include h

theorem takePlace {sorted : List CString} (hs : ∀ x ∈ sorted, '/' ∉ x) (ownerId : CString) :
    Performs pre post (takePlace sorted ownerId) fun _ => True := by
  refine .step h.load fun m hm => ?_
  cases hid : m.lock.id with
  | none => exact h.undefined
  | some id =>
    dsimp only
    cases hfloor : childFloor sorted id with
    | none =>
      dsimp only
      split_ifs
      · exact .step (h.setIsOwner true) fun _ _ =>
          (h.callCompletion 0).bind fun _ _ => .ret trivial
      · exact .ret trivial
    | some lessthanme =>
      cases hpath : m.lock.path with
      | none => exact h.undefined
      | some path =>
        refine (h.retryRequest (some (childOf path lessthanme)) .zooWexists
          fun p hp => ?_).bind fun a _ => ?_
        · obtain rfl := Option.mem_some.mp hp
          exact h.watch _ _ ⟨m, hm, hpath⟩ (hs _ (mem_of_childFloor hfloor))
        · split_ifs
          · exact h.toUnlockEffects.giveUp
          · exact .step (h.setIsOwner false) fun _ _ => .ret trivial

theorem findPlace {vector : List CString} (hv : ∀ x ∈ vector, '/' ∉ x) :
    Performs pre post (findPlace vector) fun _ => True := by
  unfold PhpZookeeper.findPlace
  cases hs : sortChildren vector with
  | none => exact h.undefined
  | some sorted =>
    cases sorted with
    | nil => exact h.undefined
    | cons ownerId rest =>
      have hsorted : ∀ x ∈ ownerId :: rest, '/' ∉ x := fun x hx =>
        hv x ((mem_sortChildren hs x).mp hx)
      exact .step (h.setOwnerid _) fun _ _ => h.takePlace hsorted _

theorem zkrLockRound {path : Option CString} (hp : ∀ p ∈ path, KnownPath post p) :
    Performs pre post (zkrLockRound session path) fun _ => True := by
  refine (h.toVisitEffects.retryGetchildren hp).bind fun a ha => ?_
  split_ifs
  · exact .ret trivial
  · refine (h.lookupOrCreate hp ha).bind fun ret _ => ?_
    split_ifs
    · exact .ret trivial
    · refine .step h.load fun m _ => ?_
      split_ifs
      · refine (h.toVisitEffects.retryGetchildren hp).bind fun b hb => ?_
        split_ifs
        · exact .ret trivial
        · exact (h.findPlace hb).bind fun _ _ => .ret trivial
      · exact .ret trivial

theorem zkrLockOperation : Performs pre post (zkrLockOperation session) fun _ => True := by
  refine .step h.load fun m hm => Performs.loop (I := fun _ => True) (J := fun _ => True) trivial
    fun _ _ => (h.zkrLockRound fun p hp => ⟨m, hm, hp⟩).mono fun x _ => ?_
  cases x <;> trivial

theorem tryOperation : Performs pre post (tryOperation session) fun _ => True := by
  refine (Performs.whileLoop (I := fun _ => True) trivial fun s _ =>
    h.zkrLockOperation.bind fun ret _ => ?_).bind fun _ _ => .ret trivial
  split_ifs
  · exact .step h.nanosleep fun _ _ => .ret trivial
  · exact .ret trivial

theorem zkrLockLock : Performs pre post (zkrLockLock session) fun _ => True :=
  .step h.mutexLock fun _ _ => .step h.load fun m hm =>
    (h.toVisitEffects.makeDirectory fun _ hp => ⟨m, hm, hp⟩).bind fun _ _ =>
      h.tryOperation.bind fun _ _ =>
        .step h.mutexUnlock fun _ _ => .step h.load fun _ _ => .ret trivial

theorem lockWatcherFn : Performs pre post (lockWatcherFn session) fun _ => True :=
  h.zkrLockLock.bind fun _ _ => .ret trivial

end LockEffects

end PhpZookeeper
