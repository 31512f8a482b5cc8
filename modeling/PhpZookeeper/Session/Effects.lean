import PhpZookeeper.Lock.Effects
import PhpZookeeper.Session.Retry
import PhpZookeeper.System.Workers

/-!
# What the callbacks do to their world

The effects of the callbacks of one session key, as a matter of their text: the lock's, on the
lock directory of the key, and requests for the path in the record they have read, which is the
key's when a read of that key has put it there.
-/

namespace PhpZookeeper

open Theory Prog Status

/-- What is known of a reply: listed names have no `/`, and the path of a sequence node ends in its
number. -/
def KnownReply (r : Req) (a : Reply) : Prop :=
  (∀ x ∈ a.strings, '/' ∉ x) ∧
    match r with
    | .zooCreate p _ _ flags len =>
      flags.sequence → a.rc = ZOK → ∃ n, a.realPath = (p ++ sprintf010d n).take (len - 1)
    | _ => True

/-- What is known of the results of operations: of the record, that it satisfies `J`, and of
replies what is known of all replies. -/
def KnownResults (J : PhpZookeeperSession → Prop) : (o : Op) → o.Res → Prop
  | .load, m => J m
  | .zoo r, a => KnownReply r a
  | _, _ => True

/-- The operations of `php_zookeeper_sess_lock`, after `zkr_lock_init`. -/
structure AttemptEffects (session : Sid) (pre : Op → Prop) (post : (o : Op) → o.Res → Prop) :
    Prop extends LockEffects session pre post where
  usleep : ∀ usec, pre (.usleep usec)
  isLocked : ∀ b, pre (.store (.isLocked b))

/-- The requests for a session's data, by the path in the record. -/
structure DataEffects (pre : Op → Prop) (post : (o : Op) → o.Res → Prop) : Prop where
  load : pre .load
  dataExists : ∀ m : PhpZookeeperSession, post .load m → pre (.zoo (.zooExists m.path))
  dataGet : ∀ (m : PhpZookeeperSession) len, post .load m → pre (.zoo (.zooGet m.path len))
  dataCreate : ∀ (m : PhpZookeeperSession) val, post .load m →
    pre (.zoo (.zooCreate m.path (some val) (some .zooOpenAclUnsafe) {} 0))
  dataSet : ∀ (m : PhpZookeeperSession) val, post .load m → pre (.zoo (.zooSet m.path val (-1)))
  dataDelete : ∀ m : PhpZookeeperSession, post .load m → pre (.zoo (.zooDelete m.path (-1)))

/-- The operations of the callbacks for `key`, `PS_GC` apart, and what is known of their
results. -/
structure HandlerEffects (session : Sid) (key : CString) (pre : Op → Prop)
    (post : (o : Op) → o.Res → Prop) : Prop
    extends AttemptEffects session pre post, DataEffects pre post where
  mutexInit : pre .pthreadMutexInit
  mutexDestroy : pre .pthreadMutexDestroy
  efreePath : pre .efreePath
  lockInit : pre (.store (.lockInit (lockPath key) (some .zooOpenAclUnsafe)))
  lockDestroy : pre (.store .lockDestroy)
  setPath : pre (.store (.path (sessionPath key)))

/-- The operations of `PS_GC`, and what is known of their results. -/
structure GcEffects (pre : Op → Prop) (post : (o : Op) → o.Res → Prop) : Prop where
  gcList : pre (.zoo (.zooGetChildren phpZkParentNode))
  gcExists : ∀ x, '/' ∉ x → pre (.zoo (.zooExists (sessionPath x)))
  gcDelete : ∀ x, '/' ∉ x → pre (.zoo (.zooDelete (sessionPath x) (-1)))
  gcNames : ∀ a, post (.zoo (.zooGetChildren phpZkParentNode)) a → ∀ x ∈ a.strings, '/' ∉ x

theorem knownReply_received {sid : Sid} {r : Req} {t t' : Nodes} {a : Reply}
    (h : Answers sid r t a t') : KnownReply r (a.received r) := by
  refine ⟨by simpa using h.slash_notMem, ?_⟩
  cases r with
  | zooCreate p value acl flags len =>
    intro hseq hrc
    rw [Reply.received_rc] at hrc
    rcases h.zooCreate with ⟨d, n, q, k, -, hq, -, -, rfl, -⟩ | ⟨-, hne, -⟩
    · exact ⟨d.cseq + k, by simp [Reply.received, hq, hseq]⟩
    · exact absurd hrc hne
  | _ => trivial

theorem knownReply_failed (r : Req) (why : Failure) : KnownReply r { rc := why.status } := by
  refine ⟨by simp, ?_⟩
  cases r with
  | zooCreate p value acl flags len => exact fun _ hrc => absurd hrc why.status_ne.1
  | _ => trivial

/-- What is known of all replies. -/
theorem knownReply_of_perform {srv : Server} {W : Type} [DecidableEq W] {s s' : World srv W} {w : W}
    {sid : Sid} {th : Thread} {d : Decision srv} {r : Req} {a : Reply}
    (h : s.perform w sid th d (.zoo r) = some (a, s')) : KnownReply r a := by
  have hreq : s.request w sid d r = (a, s') := Option.some.inj h
  unfold World.request at hreq
  split at hreq
  · unfold World.look at hreq
    cases hf : d.fate with
    | answered =>
      rw [hf] at hreq
      obtain ⟨rfl, -⟩ := Prod.mk.inj hreq
      exact knownReply_received (srv.documented d.choice sid r (s.seen w d.lag))
    | failed why applied =>
      rw [hf] at hreq
      obtain ⟨rfl, -⟩ := Prod.mk.inj hreq
      exact knownReply_failed r why
  · cases hf : d.fate with
    | answered =>
      rw [hf] at hreq
      obtain ⟨rfl, -⟩ := Prod.mk.inj hreq
      exact knownReply_received (srv.documented d.choice sid r s.tree)
    | failed why applied =>
      rw [hf] at hreq
      obtain rfl : { rc := why.status } = a := by
        cases applied <;> exact (Prod.mk.inj hreq).1
      exact knownReply_failed r why

variable {session : Sid} {key : CString} {pre : Op → Prop} {post : (o : Op) → o.Res → Prop}

/-- A retry loop makes only its own requests. -/
theorem performs_retryLoop {request : Status → Req} {status : Status}
    (hr : ∀ st, pre (.zoo (request st))) :
    Performs pre post (retryLoop request status) fun a => ∃ st, post (.zoo (request st)) a := by
  refine Performs.loop (I := fun _ => True) trivial fun s _ => .step (hr s.1) fun a ha => ?_
  dsimp only
  split_ifs
  · exact .ret trivial
  · exact .ret ⟨s.1, ha⟩

namespace GcEffects

theorem psGc (h : GcEffects pre post) (g : Globals) :
    Performs pre post (psGc g) fun _ => True := by
  have hnode : ∀ x, '/' ∉ x → Performs pre post (gcNode g.expirationTime x) fun _ => True := by
    intro x hx
    refine .step (h.gcExists x hx) fun a _ => ?_
    split_ifs
    · exact .step (h.gcDelete x hx) fun _ _ => .ret trivial
    · exact .ret trivial
    · exact .ret trivial
  have hnodes : ∀ names : List CString, (∀ x ∈ names, '/' ∉ x) →
      Performs pre post (gcNodes g.expirationTime names) fun _ => True := by
    intro names
    induction names with
    | nil => exact fun _ => .ret trivial
    | cons x names ih =>
      intro hx
      exact (hnode x (hx x (by simp))).bind fun _ _ => ih fun y hy => hx y (by simp [hy])
  refine .step h.gcList fun a ha => ?_
  split_ifs
  · exact (hnodes _ (h.gcNames a ha)).bind fun _ _ => .ret trivial
  · exact .ret trivial

end GcEffects

/-- The loop of `php_zookeeper_sess_lock`. -/
theorem AttemptEffects.lockAttempts (h : AttemptEffects session pre post)
    (lockWait attempts : ℤ) :
    Performs pre post (lockAttempts session lockWait attempts) fun _ => True := by
  refine Performs.loop (I := fun _ => True) (J := fun _ => True) trivial fun _ _ =>
    h.zkrLockLock.bind fun owner _ => ?_
  split_ifs
  · exact .step (h.isLocked true) fun _ _ => .ret trivial
  · exact .step (h.usleep _) fun _ _ => .ret trivial
  · exact .step (h.usleep _) fun _ _ => .ret trivial
  · exact .ret trivial
  · exact .ret trivial

/-- `PS_CLOSE` -/
theorem CloseEffects.psClose (h : CloseEffects pre post) :
    Performs pre post psClose fun _ => True := by
  refine .step h.load fun m _ => ?_
  split_ifs
  · exact h.zkrLockUnlock.bind fun _ _ => .step h.efreePath fun _ _ =>
      h.zkrLockDestroy.bind fun _ _ => .step h.clearIsLocked fun _ _ => .ret trivial
  · exact .ret trivial

namespace DataEffects

variable (h : DataEffects pre post)
include h

theorem psReadData (hpath : pre (.store (.path (sessionPath key)))) (g : Globals) :
    Performs pre post (psReadData g key) fun _ => True := by
  refine .step hpath fun _ _ => .step h.load fun m hm =>
    (performs_retryLoop fun _ => h.dataExists m hm).bind fun a _ => ?_
  split_ifs
  · exact .ret trivial
  · exact .step h.load fun m hm =>
      (performs_retryLoop fun _ => h.dataDelete m hm).bind fun _ _ => .ret trivial
  · refine .step h.load fun m hm =>
      (performs_retryLoop fun _ => h.dataGet m _ hm).bind fun b _ => ?_
    split_ifs
    · exact .ret trivial
    · exact .ret trivial

theorem psWrite (key' : CString) (val : Bytes) :
    Performs pre post (psWrite key' val) fun _ => True := by
  refine .step h.load fun m hm => (performs_retryLoop fun _ => h.dataExists m hm).bind fun a _ =>
    (performs_retryLoop fun st => ?_).bind fun b _ => ?_
  · split_ifs
    · exact h.dataCreate m val hm
    · exact h.dataSet m val hm
  · split_ifs
    · exact .ret trivial
    · exact .ret trivial

theorem psDestroy (key' : CString) : Performs pre post (psDestroy key') fun _ => True := by
  refine .step h.load fun m hm =>
    (performs_retryLoop fun _ => h.dataDelete m hm).bind fun a _ => ?_
  split_ifs
  · exact .ret trivial
  · exact .ret trivial

end DataEffects

namespace HandlerEffects

theorem toCloseEffects (h : HandlerEffects session key pre post) : CloseEffects pre post :=
  { h.toUnlockEffects with
    efreePath := h.efreePath
    lockDestroy := h.lockDestroy
    mutexDestroy := h.mutexDestroy
    clearIsOwner := h.setIsOwner false
    clearIsLocked := h.isLocked false }

variable (h : HandlerEffects session key pre post)
include h

theorem phpZookeeperSessLock (g : Globals) :
    Performs pre post (phpZookeeperSessLock session g key) fun _ => True := by
  have hinit : Performs pre post (zkrLockInit (lockPath key) (some .zooOpenAclUnsafe))
      fun _ => True :=
    .step h.lockInit fun _ _ => .step h.mutexInit fun _ _ => .ret trivial
  refine hinit.bind fun ret _ => ?_
  split_ifs
  · exact .ret trivial
  · exact h.lockAttempts _ _

theorem psRead (g : Globals) : Performs pre post (psRead session g key) fun _ => True := by
  unfold PhpZookeeper.psRead
  split_ifs
  · refine (h.phpZookeeperSessLock g).bind fun locked _ => ?_
    split_ifs
    · exact .ret trivial
    · exact h.toDataEffects.psReadData h.setPath g
  · exact h.toDataEffects.psReadData h.setPath g

end HandlerEffects

/-- The callback is one for `key`, or for no key; `PS_WRITE` and `PS_DESTROY` do not look at
theirs. -/
def Callback.IsFor (key : CString) : Callback → Prop
  | .psRead _ k => k = key
  | .psWrite k _ => k = key
  | .psDestroy k => k = key
  | _ => True

/-- The callbacks for one key perform the operations of that key, and those of `PS_GC`. -/
theorem performs_callback (h : HandlerEffects session key pre post) {cb : Callback}
    (hcb : cb.IsFor key) (hgc : ∀ g, cb = .psGc g → GcEffects pre post) :
    Performs pre post (cb.code session) fun _ => True := by
  cases cb with
  | psOpen => exact .ret trivial
  | psRead g k =>
    obtain rfl : k = key := hcb
    exact h.psRead g
  | psWrite k val => exact (h.toDataEffects.psWrite k val).bind fun _ _ => .ret trivial
  | psDestroy k => exact (h.toDataEffects.psDestroy k).bind fun _ _ => .ret trivial
  | psGc g => exact ((hgc g rfl).psGc g).bind fun _ _ => .ret trivial
  | psClose => exact h.toCloseEffects.psClose.bind fun _ _ => .ret trivial

end PhpZookeeper
