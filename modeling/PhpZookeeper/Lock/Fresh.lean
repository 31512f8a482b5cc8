import PhpZookeeper.Lock.ZooLock
import PhpZookeeper.Lock.Names
import PhpZookeeper.Lock.Call
import PhpZookeeper.Lock.Rules

/-!
# What a client knows when it claims the lock

`zkr_lock_lock` answers with a comparison of `id` and `ownerid`, whether or not the call itself has
found out who the owner is. Two threads call it, the main one and that of `lock_watcher_fn`, with
any replies to their requests. `owner_listed` says that a call which claims the lock has listed its
own node as the first, in the runs in which no failing call is left with the `ownerid` of an earlier
one for its own name, and no other call changes a name between `pthread_mutex_unlock` and
`zkr_lock_isowner`. `claims_unlisted` is a run that claims the lock without any reply.
-/

namespace PhpZookeeper

open Theory Prog Status

/-! ### Listings -/

/-- The name of a node ends in the number `n`. -/
def Numbered (x : CString) (n : ℕ) : Prop :=
  n < 10 ^ 10 ∧ afterLast '-' x = some (fixedDigits 10 10 n)

/-- The reply lists the name `x`, and none with a smaller number. -/
structure ShowsFirst (a : Reply) (x : CString) : Prop where
  answered : a.rc = ZOK
  mem : x ∈ a.strings
  /-- No name comes before it in the order of `vstrcmp`. -/
  first : ∀ y ∈ a.strings, vstrcmpLe x y = true
  least : ∀ y ∈ a.strings, ∀ m n, Numbered x m → Numbered y n → m ≤ n

theorem le_of_vstrcmpLe {x y : CString} {m n : ℕ} (hx : Numbered x m) (hy : Numbered y n)
    (h : vstrcmpLe x y = true) : m ≤ n := by
  have hcmp := strcmp_fixedDigits (by decide) (by decide) hx.1 hy.1
  rw [vstrcmpLe, vstrcmp, hx.2, hy.2] at h
  simp only [hcmp, bne_iff_ne, ne_eq, Option.some.injEq] at h
  exact Nat.compare_ne_gt.mp h

/-- The first name of the sorted list is the first one. -/
theorem showsFirst_of_sortChildren {a : Reply} {x : CString} {rest : List CString}
    (hrc : a.rc = ZOK) (h : sortChildren a.strings = some (x :: rest)) : ShowsFirst a x := by
  have hfirst : x ∈ a.strings ∧ ∀ y ∈ a.strings, vstrcmpLe x y = true := by
    by_cases hdash : ∀ y ∈ a.strings, afterLast '-' y ≠ none
    · obtain ⟨hmem, hle⟩ := first_of_sortChildren h hdash
      exact ⟨hmem, fun y hy => by simpa [vstrcmpLe] using hle y hy⟩
    · -- a single name is not compared
      push Not at hdash
      obtain ⟨z, hz, hnone⟩ := hdash
      have hany : a.strings.any (fun x => (afterLast '-' x).isNone) = true :=
        List.any_eq_true.mpr ⟨z, hz, by rw [hnone]; rfl⟩
      rw [sortChildren, hany, Bool.and_true] at h
      split at h
      · cases h
      · next hlen =>
        have hlen' : a.strings.length = 1 := by
          have := List.length_pos_of_mem hz
          simp only [decide_eq_true_eq] at hlen
          omega
        obtain ⟨y, hy⟩ := List.length_eq_one_iff.mp hlen'
        rw [hy] at h ⊢
        obtain ⟨rfl, -⟩ := List.cons.inj (Option.some.inj h)
        have hself : vstrcmp y y ≠ some .gt := by
          unfold vstrcmp
          cases afterLast '-' y <;> simp
        exact ⟨List.mem_singleton_self y, fun u hu => by
          rw [List.mem_singleton.mp hu]
          simpa [vstrcmpLe] using hself⟩
  exact ⟨hrc, hfirst.1, hfirst.2,
    fun y hy m n hm hn => le_of_vstrcmpLe hm hn (hfirst.2 y hy)⟩

/-! ### Replies -/

/-- The name that a reply gives the client's node, which had the name `id` before: the one it lists,
or the one it has made. -/
def nameGiven (session : Sid) (id : Option CString) (x : Req × Reply) : Option CString :=
  match x.1 with
  | .zooGetChildren _ => if x.2.rc = ZOK then lookupnode x.2.strings (lockPrefix session) else id
  | .zooCreate _ _ _ flags _ =>
    if flags.sequence = true ∧ x.2.rc = ZOK then getName x.2.realPath else id
  | _ => id

/-- The name that some replies give the client's node, one after the other. -/
def Talk.named (session : Sid) (id : Option CString) (L : Talk) : Option CString :=
  L.foldl (nameGiven session) id

/-- The last request has been answered with `ZOK`. -/
def Talk.LastOk (L : Talk) : Prop := ∃ x ∈ L.getLast?, x.2.rc = ZOK

instance decidableLastOk (L : Talk) : Decidable L.LastOk :=
  decidable_of_iff (L.getLast?.any fun x => x.2.rc = ZOK) (by
    cases h : L.getLast? <;> simp [Talk.LastOk, h])

@[simp] theorem Talk.named_append (session : Sid) (id : Option CString) (L : Talk)
    (x : Req × Reply) :
    Talk.named session id (L ++ [x]) = nameGiven session (Talk.named session id L) x := by
  simp [Talk.named]

@[simp] theorem Talk.lastOk_append (L : Talk) (x : Req × Reply) :
    Talk.LastOk (L ++ [x]) ↔ x.2.rc = ZOK := by
  simp [Talk.LastOk]

/-! ### Calls -/

/-- What is known of a thread's call. -/
structure CallLog where
  /-- Its requests and their replies. -/
  talk : Talk := []
  /-- The record, when it took the mutex. -/
  taken : PhpZookeeperSession := {}
  /-- It has released the mutex. -/
  released : Bool := false
  /-- The record, when it last read it. -/
  loaded : PhpZookeeperSession := {}
  deriving DecidableEq

/-- An operation has given `r`, with the record `m`. -/
def CallLog.after (g : CallLog) (m : PhpZookeeperSession) : (o : Op) → o.Res → CallLog
  | .zoo q, a => { g with talk := g.talk ++ [(q, a)] }
  | .load, m' => { g with loaded := m' }
  | .pthreadMutexLock, _ => { g with taken := m }
  | .pthreadMutexUnlock, _ => { g with released := true }
  | _, _ => g

/-- The call has listed the name `x` as the first one in the lock directory. -/
def CallLog.Shown (g : CallLog) (x : CString) : Prop :=
  ∃ p a, g.taken.lock.path = some p ∧ (Req.zooGetChildren p, a) ∈ g.talk ∧ ShowsFirst a x

/-- The call has ended well, or the `ownerid` that it has found is not the name that its replies
give the client's node. -/
def CallLog.Settled (session : Sid) (g : CallLog) : Prop :=
  g.talk.LastOk ∨ g.taken.lock.ownerid = none ∨
    g.talk.named session g.taken.lock.id ≠ g.taken.lock.ownerid

/-- What a thread sees: the record, which it shares, and its own log. -/
structure LockView where
  memory : PhpZookeeperSession
  log : CallLog
  deriving DecidableEq

/-- What an operation gives, when the reply to a request is `a`. A `pthread_mutex_lock` is not
performed while the mutex is held, and nothing follows a `fault`. -/
def opResult (a : Reply) (m : PhpZookeeperSession) : (o : Op) → Option o.Res
  | .zoo _ => some a
  | .load => some m
  | .pthreadMutexLock => if m.lock.pmutex = none then some () else none
  | .fault => none
  | .store _ | .pthreadMutexInit | .pthreadMutexUnlock | .pthreadMutexDestroy | .nanosleep
  | .usleep _ | .efreePath | .completion _ => some ()

/-- The thread `th` has performed an operation. -/
def LockView.after (v : LockView) (th : Thread) (o : Op) (r : o.Res) : LockView where
  memory := o.effect th v.memory
  log := v.log.after v.memory o r

/-- What an operation of the thread `th` may do, whatever the reply is. -/
def viewSem (th : Thread) (o : Op) (v : LockView) (r : o.Res) (v' : LockView) : Prop :=
  ∃ a, opResult a v.memory o = some r ∧ v' = v.after th o r

/-- The functions that are called. -/
inductive LockFunction where
  | lock
  | unlock
  deriving DecidableEq

/-- A call, which returns the result of `zkr_lock_lock`. -/
def LockFunction.code (session : Sid) : LockFunction → Code (Option Bool)
  | .lock => (zkrLockLock session).bind fun owner => .ret (some owner)
  | .unlock => zkrLockUnlock.bind fun _ => .ret none

/-- Two threads and the record they share. -/
structure LockThreads where
  memory : PhpZookeeperSession
  code : Thread → Code (Option Bool) := fun _ => .ret none
  log : Thread → CallLog := fun _ => {}

/-- A step: a thread calls a function, or goes on, with the reply `a` if it makes a request. -/
inductive LockStep where
  | call (th : Thread) (f : LockFunction)
  | go (th : Thread) (a : Reply)
  deriving DecidableEq

namespace LockThreads

/-- What the thread sees. -/
def view (c : LockThreads) (th : Thread) : LockView := ⟨c.memory, c.log th⟩

/-- One step. `lock_watcher_fn` only calls `zkr_lock_lock`. -/
def step (session : Sid) (c : LockThreads) : LockStep → Option LockThreads
  | .call th f =>
    match c.code th with
    | .ret _ =>
      if th = .watcher ∧ f = .unlock then none
      else some { c with
        code := Function.update c.code th (f.code session)
        log := Function.update c.log th {} }
    | _ => none
  | .go th a =>
    match c.code th with
    | .ret _ => none
    | .op o k => (opResult a c.memory o).map fun r => {
        memory := ((c.view th).after th o r).memory
        code := Function.update c.code th (k r)
        log := Function.update c.log th ((c.view th).after th o r).log }
    | .iter body b k =>
      some { c with code := Function.update c.code th ((body b).bind (again body k)) }

/-- The thread has released the mutex, and is about to read the record for `zkr_lock_isowner`. -/
def Reading (c : LockThreads) (th : Thread) : Prop :=
  (c.log th).released = true ∧ (c.code th).next = some .load

/-- A call that reads the record for `zkr_lock_isowner` is settled, and no name is assigned while
another is about to read it. -/
structure Orderly (session : Sid) (c : LockThreads) (l : LockStep) : Prop where
  settled : ∀ th a, l = .go th a → c.Reading th → (c.log th).Settled session
  undisturbed : ∀ th a x, l = .go th a → (c.code th).next = some (.store (.lockId x)) ∨
    (c.code th).next = some (.store (.lockOwnerid x)) → ∀ th', th' ≠ th → ¬ c.Reading th'

/-- `Reaches session ok c₀ c`: a run from `c₀` to `c` whose steps are `ok`. -/
inductive Reaches (session : Sid) (ok : LockThreads → LockStep → Prop) (c₀ : LockThreads) :
    LockThreads → Prop where
  | refl : Reaches session ok c₀ c₀
  | step {c c' : LockThreads} {l : LockStep} : Reaches session ok c₀ c → ok c l →
      c.step session l = some c' → Reaches session ok c₀ c'

/-- The thread's call, if it claims the lock, has listed the client's own node as the first one. -/
def ClaimsListed (c : LockThreads) (th : Thread) : Prop :=
  c.code th = .ret (some true) →
    ∃ x, (c.log th).loaded.lock.id = some x ∧ (c.log th).Shown x

end LockThreads

/-! ### Inside the mutex -/

namespace FreshLock

variable {session : Sid} {th : Thread} {path : Option CString}

/-- The thread holds the mutex. -/
def Held (th : Thread) (v : LockView) : Prop := v.memory.lock.pmutex = some th

/-- An operation that neither takes nor releases the mutex, nor initialises the lock. -/
def InsideOp : Op → Prop
  | .pthreadMutexInit | .pthreadMutexLock | .pthreadMutexUnlock | .store (.lockInit _ _) => False
  | _ => True

/-- What a thread does while it holds the mutex, and nobody else changes the record. -/
def inside (th : Thread) : Contract Op.Res LockView where
  sem o v r v' := Held th v ∧ viewSem th o v r v'
  rely _ v v' := v' = v
  guar o _ _ v' := InsideOp o ∧ Held th v'

/-- The replies name the client's node `x`, and the rest of the lock is as the call has found it. -/
structure Pending (session : Sid) (path x : Option CString) (v : LockView) : Prop where
  named : v.log.talk.named session v.log.taken.lock.id = x
  ownerid : v.memory.lock.ownerid = v.log.taken.lock.ownerid
  lockPath : v.memory.lock.path = path
  taken : v.log.taken.lock.path = path
  /-- No request is made of a `NULL` path. -/
  silent : path = none → v.log.talk = []

/-- The client's node has the name that the replies give it, and the rest is as the call has found
it. -/
def Kept (session : Sid) (path : Option CString) (v : LockView) : Prop :=
  Pending session path v.memory.lock.id v

/-- `Kept`, and the last request has failed. -/
def Failed (session : Sid) (path : Option CString) (v : LockView) : Prop :=
  Kept session path v ∧ ¬ v.log.talk.LastOk

/-- The call has listed the `ownerid` as the first name. -/
def Fresh (v : LockView) : Prop := ∀ x ∈ v.memory.lock.ownerid, v.log.Shown x

/-- The reply `a` is that of a listing, which names the client's node. -/
def Listed (session : Sid) (path : Option CString) (a : Reply) (v : LockView) : Prop :=
  Pending session path (lookupnode a.strings (lockPrefix session)) v ∧ a.rc = ZOK ∧
    ∃ p, path = some p ∧ (Req.zooGetChildren p, a) ∈ v.log.talk

theorem held_effect {v : LockView} {o : Op} (ho : InsideOp o) (h : Held th v) (r : o.Res) :
    Held th (v.after th o r) := by
  cases o with
  | store a =>
    cases a with
    | lockInit p acl => exact ho.elim
    | _ => exact h
  | pthreadMutexInit => exact ho.elim
  | pthreadMutexLock => exact ho.elim
  | pthreadMutexUnlock => exact ho.elim
  | _ => exact h

theorem stable (o : Option Op) (P : LockView → Prop) : (inside th).Stable o P :=
  fun v v' hr h => by rwa [hr]

section Rules

variable {α : Type} {P : LockView → Prop} {Q : α → LockView → Prop}

/-- One operation, and what follows it. -/
theorem act {o : Op} {f : o.Res → Code α} (M : o.Res → LockView → Prop) (ho : InsideOp o)
    (hM : ∀ v a r, P v → opResult a v.memory o = some r → M r (v.after th o r))
    (hf : ∀ r, Triple (inside th) (M r) (f r) Q) :
    Triple (inside th) P ((perform o).bind f) Q := by
  refine .step M (fun _ h => h) (stable _ _) (fun v r v' hP hsem => ?_) hf
  obtain ⟨hheld, a, hr, rfl⟩ := hsem
  exact ⟨⟨ho, held_effect ho hheld r⟩, hM v a r hP hr⟩

/-- An operation that keeps `P`. -/
theorem silent {o : Op} {f : o.Res → Code α} (ho : InsideOp o)
    (hP : ∀ v r, P v → P (v.after th o r)) (hf : ∀ r, Triple (inside th) P (f r) Q) :
    Triple (inside th) P ((perform o).bind f) Q :=
  act (fun _ => P) ho (fun v _ r h _ => hP v r h) hf

/-- The record is read. -/
theorem load {f : PhpZookeeperSession → Code α} (hP : ∀ v m, P v → P (v.after th .load m))
    (hf : ∀ m, Triple (inside th) (fun v => P v ∧ v.memory = m) (f m) Q) :
    Triple (inside th) P ((perform .load).bind f) Q := by
  refine act (o := .load) (fun m v => P v ∧ v.memory = m) trivial (fun v a m h hm => ?_) hf
  exact ⟨hP v m h, Option.some.inj hm⟩

theorem undefined : Triple (inside th) P (PhpZookeeper.fault : Code α) Q := by
  refine .op (o := Op.fault) (K := P) (M := fun _ _ => False) (fun _ h => h) (stable _ _)
    (fun v r v' _ _ => Empty.elim r) fun r => Empty.elim r

/-- Nothing follows a `pthread_mutex_lock`. -/
theorem giveUp : Triple (inside th) P giveUp fun _ _ => False := by
  refine .op (o := .pthreadMutexLock) (K := P) (M := fun _ _ => False) (fun _ h => h)
    (stable _ _) (fun v r v' _ hsem => ?_) fun r => Triple.of_false fun _ h => h
  obtain ⟨hheld, a, hr, -⟩ := hsem
  rw [Held] at hheld
  simp [opResult, hheld] at hr

/-- A request with retries, the first of which is made: `M` is what the last reply leaves. -/
theorem retryRequest {r : CString → Req} {n : ℕ} {M : Reply → LockView → Prop} (hn : 0 < n)
    (hloss : ∀ a v, a.rc = ZCONNECTIONLOSS → M a v → P v)
    (hM : ∀ a v, M a v → M a (v.after th .nanosleep ()))
    (hreq : Triple (inside th) P (zooPath path r) M) :
    Triple (inside th) P (retryRequest path r n) M := by
  refine Triple.bind (Triple.whileLoop_entered (I := fun b : Reply × ℕ => M b.1) ?_ (stable _ _)
    (fun b v hb => hloss b.1 v ?_) fun b => ?_) fun b => .ret fun _ h => h.1
  · simp [hn]
  · simp only [Bool.and_eq_true, decide_eq_true_eq] at hb
    exact hb.1
  · refine hreq.bind fun a => ?_
    split_ifs
    · exact silent (o := .nanosleep) trivial (fun v _ => hM a v) fun _ => .ret fun _ h => h
    · exact .ret fun _ h => h

end Rules

/-! ### The functions of `zkr_lock_lock` -/

section Functions

/-- Only the record's other fields, and what has been read, differ. -/
structure SameLock (v v' : LockView) : Prop where
  id : v'.memory.lock.id = v.memory.lock.id
  ownerid : v'.memory.lock.ownerid = v.memory.lock.ownerid
  path : v'.memory.lock.path = v.memory.lock.path
  talk : v'.log.talk = v.log.talk
  taken : v'.log.taken = v.log.taken

variable {v v' : LockView} {x : Option CString} {a : Reply}

theorem Pending.same (h : Pending session path x v) (hs : SameLock v v') :
    Pending session path x v' where
  named := by rw [hs.talk, hs.taken]; exact h.named
  ownerid := by rw [hs.ownerid, hs.taken]; exact h.ownerid
  lockPath := by rw [hs.path]; exact h.lockPath
  taken := by rw [hs.taken]; exact h.taken
  silent := by rw [hs.talk]; exact h.silent

theorem Kept.same (h : Kept session path v) (hs : SameLock v v') : Kept session path v' := by
  rw [Kept, hs.id]
  exact Pending.same h hs

theorem Failed.same (h : Failed session path v) (hs : SameLock v v') : Failed session path v' := by
  refine ⟨h.1.same hs, ?_⟩
  rw [hs.talk]
  exact h.2

theorem Fresh.same (h : Fresh v) (hs : SameLock v v') : Fresh v' := by
  intro x hx
  rw [hs.ownerid] at hx
  obtain ⟨p, a, hp, ha, hfirst⟩ := h x hx
  exact ⟨p, a, by rw [hs.taken]; exact hp, by rw [hs.talk]; exact ha, hfirst⟩

theorem Listed.same (h : Listed session path a v) (hs : SameLock v v') :
    Listed session path a v' := by
  obtain ⟨hp, hrc, p, hpath, hmem⟩ := h
  exact ⟨hp.same hs, hrc, p, hpath, by rw [hs.talk]; exact hmem⟩

/-- A request that does not name the client's node. -/
theorem Pending.request {q : Req} (h : Pending session path x v) (hpath : path ≠ none)
    (hq : nameGiven session x (q, a) = x) : Pending session path x (v.after th (.zoo q) a) where
  named := by
    rw [← hq]
    change Talk.named session v.log.taken.lock.id (v.log.talk ++ [(q, a)]) = _
    rw [Talk.named_append, h.named]
  ownerid := h.ownerid
  lockPath := h.lockPath
  taken := h.taken
  silent := fun hnone => absurd hnone hpath

/-- A request that may name the client's node. -/
theorem Kept.request {q : Req} (h : Kept session path v) (hpath : path ≠ none) :
    Pending session path (nameGiven session v.memory.lock.id (q, a))
      (v.after th (.zoo q) a) where
  named := by
    change Talk.named session v.log.taken.lock.id (v.log.talk ++ [(q, a)]) = _
    rw [Talk.named_append, h.named]
  ownerid := h.ownerid
  lockPath := h.lockPath
  taken := h.taken
  silent := fun hnone => absurd hnone hpath

/-- A failed request. -/
theorem Kept.failed {q : Req} (h : Kept session path v) (hpath : path ≠ none) (ha : a.rc ≠ ZOK) :
    Failed session path (v.after th (.zoo q) a) := by
  have hname : nameGiven session v.memory.lock.id (q, a) = v.memory.lock.id := by
    cases q <;> simp [nameGiven, ha]
  refine ⟨?_, fun hlast => ha ((Talk.lastOk_append v.log.talk (q, a)).mp hlast)⟩
  have hpending : Pending session path _ (v.after th (.zoo q) a) := h.request hpath
  rwa [hname] at hpending

/-- The name is assigned to `id`. -/
theorem Pending.store (h : Pending session path x v) :
    Kept session path (v.after th (.store (.lockId x)) ()) where
  named := h.named
  ownerid := h.ownerid
  lockPath := h.lockPath
  taken := h.taken
  silent := h.silent

/-- More requests are made. -/
theorem Fresh.request {q : Req} (h : Fresh v) : Fresh (v.after th (.zoo q) a) := by
  intro x hx
  obtain ⟨p, b, hp, hb, hfirst⟩ := h x hx
  exact ⟨p, b, hp, List.mem_append_left _ hb, hfirst⟩

theorem sameLock_load (v : LockView) (m : PhpZookeeperSession) : SameLock v (v.after th .load m) :=
  ⟨rfl, rfl, rfl, rfl, rfl⟩

theorem sameLock_nanosleep (v : LockView) : SameLock v (v.after th .nanosleep ()) :=
  ⟨rfl, rfl, rfl, rfl, rfl⟩

theorem sameLock_completion (v : LockView) (rc : ℕ) :
    SameLock v (v.after th (.completion rc) ()) :=
  ⟨rfl, rfl, rfl, rfl, rfl⟩

theorem sameLock_isOwner (v : LockView) (b : Bool) :
    SameLock v (v.after th (.store (.lockIsOwner b)) ()) :=
  ⟨rfl, rfl, rfl, rfl, rfl⟩

/-- A request for the lock directory that is neither a listing nor makes the client's node. -/
theorem zooPath_kept {r : CString → Req}
    (hr : ∀ p id a, nameGiven session id (r p, a) = id) :
    Triple (inside th) (Kept session path) (zooPath path r) fun _ => Kept session path := by
  cases hp : path with
  | none => exact .ret fun _ h => h
  | some p =>
    refine act (o := .zoo (r p)) (fun _ => Kept session (some p)) trivial (fun v a b h hb => ?_)
      fun _ => .ret fun _ h => h
    have hpending : Pending session (some p) _ (v.after th (.zoo (r p)) b) :=
      Kept.request h (by simp)
    rwa [hr] at hpending

/-- The first loop of `zkr_lock_lock`. -/
theorem makeDirectory :
    Triple (inside th) (Kept session path) (makeDirectory path) fun _ => Kept session path := by
  have hexists : ∀ p id a, nameGiven session id (Req.zooExists p, a) = id := fun _ _ _ => rfl
  refine (zooPath_kept hexists).bind fun a => ?_
  refine Triple.bind (Triple.whileLoop (I := fun _ => Kept session path)
    (fun _ _ => stable none _) fun b _ => ?_) fun _ => .ret fun _ h => h.1
  have hretry : Triple (inside th) (Kept session path) (retryDirectory path b.1)
      fun _ => Kept session path := by
    unfold retryDirectory
    split_ifs
    · exact zooPath_kept hexists
    · refine load (fun v m h => Kept.same h (sameLock_load v m)) fun m => ?_
      refine (zooPath_kept fun p id a => ?_).pre fun _ h => h.1
      simp [nameGiven]
  exact hretry.bind fun a => silent (o := .nanosleep) trivial
    (fun v _ h => Kept.same h (sameLock_nanosleep v)) fun _ => .ret fun _ h => h

/-- A listing with retries. -/
theorem retryGetchildren :
    Triple (inside th) (Kept session path) (retryGetchildren path 3) fun a v =>
      Listed session path a v ∨ a.rc ≠ ZOK ∧ Failed session path v := by
  refine retryRequest (by decide) (fun a v ha h => ?_) (fun a v h => ?_) ?_
  · rcases h with h | h
    · exact absurd (ha.symm.trans h.2.1) (by decide)
    · exact h.2.1
  · exact h.imp (fun h => h.same (sameLock_nanosleep v))
      fun h => ⟨h.1, h.2.same (sameLock_nanosleep v)⟩
  · cases hp : path with
    | none =>
      refine .ret fun v h => .inr ⟨by decide, h, ?_⟩
      rw [h.silent rfl]
      decide
    | some p =>
      refine act (o := .zoo (.zooGetChildren p)) _ trivial (fun v b a h _ => ?_)
        fun _ => .ret fun _ h => h
      have hpending : Pending session (some p) _ (v.after th (.zoo (.zooGetChildren p)) a) :=
        Kept.request h (by simp)
      by_cases ha : a.rc = ZOK
      · simp only [nameGiven, ha, if_true] at hpending
        exact .inl ⟨hpending, ha, p, rfl, List.mem_append_right _ (List.mem_singleton_self _)⟩
      · exact .inr ⟨ha, h.failed (by simp) ha⟩

/-- The client's node, named by a listing or by the reply to its `create`. -/
theorem lookupOrCreate (a : Reply) :
    Triple (inside th) (Listed session path a) (lookupOrCreate session path a.strings)
      fun ret v => ret = ZOK ∧ Kept session path v ∨ ret ≠ ZOK ∧ Failed session path v := by
  refine act (o := .store (.lockId (lookupnode a.strings (lockPrefix session))))
    (fun _ => Kept session path) trivial (fun v b u h hu => h.1.store) fun _ => ?_
  refine load (fun v m h => Kept.same h (sameLock_load v m)) fun m => ?_
  split_ifs
  · exact .ret fun _ h => .inl ⟨rfl, h.1⟩
  · unfold createNode
    cases hp : path with
    | none => exact undefined
    | some p =>
      refine (load (P := Kept session (some p)) (fun v m h => Kept.same h (sameLock_load v m))
        fun m => ?_).pre fun _ h => h.1
      refine act (o := .zoo _) (fun a v => a.rc ≠ ZOK ∧ Failed session (some p) v ∨
        a.rc = ZOK ∧ Pending session (some p) (getName a.realPath) v) trivial
        (fun v b a h _ => ?_) fun a => ?_
      · by_cases ha : a.rc = ZOK
        · have hpending : Pending session (some p) _ (v.after th (.zoo _) a) :=
            Kept.request h.1 (by simp)
          simp only [nameGiven, ha, and_self, if_true] at hpending
          exact .inr ⟨ha, hpending⟩
        · exact .inl ⟨ha, h.1.failed (by simp) ha⟩
      · split_ifs with ha
        · exact .ret fun v h => .inr ⟨ha, (h.resolve_right fun h => ha h.1).2⟩
        · refine act (o := .store (.lockId (getName a.realPath))) (fun _ => Kept session (some p))
            trivial (fun v b u h _ => ?_) fun _ => .ret fun _ h => .inl ⟨rfl, h⟩
          exact (h.resolve_left fun h => ha h.1).2.store

theorem callCompletion (rc : ℕ) :
    Triple (inside th) Fresh (callCompletion rc) fun _ => Fresh := by
  refine load (fun v m h => Fresh.same h (sameLock_load v m)) fun m => ?_
  split_ifs
  · exact (silent (o := .completion rc) trivial (fun v _ h => Fresh.same h
      (sameLock_completion v rc)) fun _ => .ret fun _ h => h).pre fun _ h => h.1
  · exact .ret fun _ h => h.1

theorem takePlace (sorted : List CString) (ownerId : CString) :
    Triple (inside th) Fresh (takePlace sorted ownerId) fun ret v => ret = ZOK ∧ Fresh v := by
  refine load (fun v m h => Fresh.same h (sameLock_load v m)) fun m => ?_
  refine Triple.pre ?_ fun v (h : Fresh v ∧ v.memory = m) => h.1
  cases m.lock.id with
  | none => exact undefined
  | some id =>
    dsimp only
    cases childFloor sorted id with
    | none =>
      dsimp only
      split_ifs
      · refine silent (o := .store (.lockIsOwner true)) trivial
          (fun v _ h => Fresh.same h (sameLock_isOwner v true)) fun _ => ?_
        exact (callCompletion 0).bind fun _ => .ret fun _ h => ⟨rfl, h⟩
      · exact .ret fun _ h => ⟨rfl, h⟩
    | some lessthanme =>
      cases m.lock.path with
      | none => exact undefined
      | some p =>
        have hwatch : Triple (inside th) Fresh (retryZoowexists (childOf p lessthanme) 3)
            fun _ => Fresh := by
          refine retryRequest (by decide) (fun a v _ h => h)
            (fun a v h => h.same (sameLock_nanosleep v)) ?_
          exact act (o := .zoo (.zooWexists (childOf p lessthanme))) (fun _ => Fresh) trivial
            (fun v b a h _ => Fresh.request h) fun _ => .ret fun _ h => h
        refine hwatch.bind fun a => ?_
        split_ifs
        · exact giveUp.post fun _ _ h => h.elim
        · exact silent (o := .store (.lockIsOwner false)) trivial
            (fun v _ h => Fresh.same h (sameLock_isOwner v false)) fun _ =>
              .ret fun _ h => ⟨rfl, h⟩

/-- The second listing, once it has been answered, tells who the owner is. -/
theorem findPlace (a : Reply) :
    Triple (inside th) (Listed session path a) (findPlace a.strings)
      fun ret v => ret = ZOK ∧ Fresh v := by
  unfold PhpZookeeper.findPlace
  cases hsort : sortChildren a.strings with
  | none => exact undefined
  | some sorted =>
    cases sorted with
    | nil => exact undefined
    | cons ownerId rest =>
      refine act (o := .store (.lockOwnerid (some ownerId))) (fun _ => Fresh) trivial
        (fun v b u h _ => ?_) fun _ => takePlace _ _
      obtain ⟨hpending, hrc, p, hpath, hmem⟩ := h
      intro x hx
      obtain rfl := Option.mem_some.mp hx
      exact ⟨p, a, hpending.taken.trans hpath, hmem, showsFirst_of_sortChildren hrc hsort⟩

/-- How `zkr_lock_operation` ends. -/
def Tried (session : Sid) (path : Option CString) (ret : Status) (v : LockView) : Prop :=
  ret = ZOK ∧ Fresh v ∨ ret ≠ ZOK ∧ Failed session path v

theorem zkrLockRound :
    Triple (inside th) (Kept session path) (zkrLockRound session path) fun x v =>
      Sum.elim (fun _ => Kept session path v) (fun ret => Tried session path ret v) x := by
  refine retryGetchildren.bind fun a => ?_
  split_ifs with ha
  · exact .ret fun v h => .inr ⟨ha, (h.resolve_left fun h => ha h.2.1).2⟩
  · refine ((lookupOrCreate a).pre fun v h => h.resolve_right fun h => ha h.1).bind fun ret => ?_
    split_ifs with hret
    · exact .ret fun v h => .inr ⟨hret, (h.resolve_left fun h => hret h.1).2⟩
    · refine (load (P := Kept session path) (fun v m h => Kept.same h (sameLock_load v m))
        fun m => ?_).pre fun v h => (h.resolve_right fun h => hret h.1).2
      split_ifs
      · refine (retryGetchildren.pre fun v h => h.1).bind fun b => ?_
        split_ifs with hb
        · exact .ret fun v h => .inr ⟨hb, (h.resolve_left fun h => hb h.2.1).2⟩
        · exact ((findPlace b).pre fun v h => h.resolve_right fun h => hb h.1).bind fun ret =>
            .ret fun v h => .inl h
      · exact .ret fun v h => h.1

theorem zkrLockOperation :
    Triple (inside th) (Kept session path) (zkrLockOperation session) (Tried session path) := by
  refine load (fun v m h => Kept.same h (sameLock_load v m)) fun m => ?_
  by_cases hm : m.lock.path = path
  · refine Triple.pre ?_ fun v (h : Kept session path v ∧ v.memory = m) => h.1
    rw [hm]
    exact .iter (I := fun _ => Kept session path) (J := Tried session path) (fun _ h => h)
      (fun _ => stable none _) (fun _ => zkrLockRound) fun _ => .ret fun _ h => h
  · exact Triple.of_false fun v h => hm (by rw [← h.2]; exact h.1.lockPath)

/-- The second loop of `zkr_lock_lock`. -/
theorem tryOperation :
    Triple (inside th) (Kept session path) (tryOperation session) fun _ v =>
      Fresh v ∨ Failed session path v := by
  refine Triple.bind (Triple.whileLoop_entered (I := fun b : Status × ℕ => Tried session path b.1)
    (by decide) (stable _ _) (fun b v hb h => ?_) fun b => ?_) fun b => .ret fun v h => ?_
  · simp only [ne_eq, Bool.and_eq_true, decide_eq_true_eq] at hb
    exact (h.resolve_left fun h => hb.1 h.1).2.1
  · refine zkrLockOperation.bind fun ret => ?_
    split_ifs
    · refine silent (o := .nanosleep) trivial (fun v _ h => ?_) fun _ => .ret fun _ h => h
      exact h.imp (fun h => ⟨h.1, h.2.same (sameLock_nanosleep v)⟩)
        fun h => ⟨h.1, h.2.same (sameLock_nanosleep v)⟩
    · exact .ret fun _ h => h
  · exact h.1.imp And.right And.right

end Functions

/-! ### Between the threads -/

/-- What a thread does in any call, in a run whose steps are orderly. -/
def thread (session : Sid) (th : Thread) : Contract Op.Res LockView where
  sem o v r v' := viewSem th o v r v' ∧
    (o = .load → v.log.released = true → v.log.Settled session)
  rely o v v' := v'.log = v.log ∧ (Held th v → v'.memory = v.memory) ∧
    (o = some .load → v.log.released = true → v'.memory.lock.id = v.memory.lock.id ∧
      v'.memory.lock.ownerid = v.memory.lock.ownerid)
  guar o v _ v' := (Held th v ∨ o = .pthreadMutexLock ∨ v'.memory = v.memory) ∧
    ∀ p acl, o ≠ .store (.lockInit p acl)

/-- What a call that claims the lock has found out. -/
def Claims (b : Option Bool) (v : LockView) : Prop :=
  b = some true → ∃ x, v.log.loaded.lock.id = some x ∧ v.log.Shown x

/-- The mutex is released, and the names in the record tell whether the client owns the lock. -/
def Released (session : Sid) (v : LockView) : Prop :=
  v.log.released = true ∧ (v.log.Settled session → ∀ x, v.memory.lock.id = some x →
    v.memory.lock.ownerid = some x → v.log.Shown x)

theorem stable_held : ∀ o, (thread session th).Stable o (Held th) := by
  intro o v v' hr h
  rw [Held, hr.2.1 h]
  exact h

theorem stable_claims (b : Option Bool) : (thread session th).Stable none (Claims b) := by
  intro v v' hr h hb
  rw [hr.1]
  exact h hb

theorem stable_released : (thread session th).Stable (some .load) (Released session) := by
  rintro v v' ⟨hlog, -, hnames⟩ ⟨hreleased, h⟩
  obtain ⟨hid, hownerid⟩ := hnames rfl hreleased
  refine ⟨by rw [hlog]; exact hreleased, ?_⟩
  rw [hlog, hid, hownerid]
  exact h

/-- What holds inside the mutex is stable. -/
theorem stable_inside (o : Option Op) (P : LockView → Prop) :
    (thread session th).Stable o fun v => Held th v ∧ P v := by
  rintro v v' hr ⟨hheld, hP⟩
  have hheld' := stable_held o v v' hr hheld
  obtain ⟨hlog, hmemory, -⟩ := hr
  cases v'
  cases hlog
  cases hmemory hheld
  exact ⟨hheld', hP⟩

/-- A critical section of the mutex. -/
theorem section_ {α : Type} {p : Code α} {P : LockView → Prop} {Q : α → LockView → Prop}
    (h : Triple (inside th) P p Q) :
    Triple (thread session th) (fun v => Held th v ∧ P v) p fun a v => Held th v ∧ Q a v := by
  refine h.within (fun o v v' hheld hr => ?_) fun o v r v' hheld hsem => ?_
  · obtain ⟨hheld', heq⟩ := stable_inside o (fun v' => v' = v) v v' hr ⟨hheld, rfl⟩
    exact ⟨hheld', heq⟩
  · refine ⟨⟨hheld, hsem.1⟩, fun hg => ⟨⟨.inl hheld, ?_⟩, hg.2⟩⟩
    rintro p acl rfl
    exact hg.1

/-- `pthread_mutex_lock`, and what follows it. -/
theorem mutexLock {α : Type} {f : Unit → Code α} {Q : α → LockView → Prop}
    (hf : Triple (thread session th) (fun v => Held th v ∧
      Kept session v.memory.lock.path v) (f ()) Q) :
    Triple (thread session th) (fun v => v.log = {}) ((perform Op.pthreadMutexLock).bind f) Q := by
  have hstable : (thread session th).Stable (some .pthreadMutexLock) fun v => v.log = {} :=
    fun v v' hr h => hr.1.trans h
  refine .step (fun _ v => Held th v ∧ Kept session v.memory.lock.path v) (fun _ h => h) hstable
    (fun v r v' hlog hsem => ?_) fun _ => hf
  obtain ⟨⟨a, -, rfl⟩, -⟩ := hsem
  refine ⟨⟨.inr (.inl rfl), fun p acl h => by cases h⟩, rfl, ?_⟩
  exact ⟨by simp [LockView.after, CallLog.after, hlog, Talk.named, Op.effect], rfl, rfl, rfl,
    fun _ => by simp [LockView.after, CallLog.after, hlog]⟩

/-- `pthread_mutex_unlock`, and what follows it. -/
theorem mutexUnlock {α : Type} {f : Unit → Code α} {P : LockView → Prop} {Q : α → LockView → Prop}
    (M : LockView → Prop) (hM : ∀ v, P v → M (v.after th .pthreadMutexUnlock ()))
    (hP : (thread session th).Stable (some .pthreadMutexUnlock) fun v => Held th v ∧ P v)
    (hf : Triple (thread session th) M (f ()) Q) :
    Triple (thread session th) (fun v => Held th v ∧ P v)
      ((perform Op.pthreadMutexUnlock).bind f) Q := by
  refine .step (o := .pthreadMutexUnlock) (fun _ => M) (fun _ h => h) hP
    (fun v r v' h hsem => ?_) fun _ => hf
  obtain ⟨⟨a, -, rfl⟩, -⟩ := hsem
  exact ⟨⟨.inl h.1, fun p acl h => by cases h⟩, hM v h.2⟩

/-- What is known of the names when the mutex is released. -/
theorem released_of_tried {path : Option CString} {v : LockView}
    (h : Fresh v ∨ Failed session path v) :
    Released session (v.after th .pthreadMutexUnlock ()) := by
  refine ⟨rfl, fun hsettled x hid hownerid => ?_⟩
  rcases h with h | ⟨hkept, hlast⟩
  · exact h x hownerid
  · rcases hsettled with hok | hnone | hne
    · exact absurd hok hlast
    · have heq : v.memory.lock.ownerid = none := hkept.ownerid.trans hnone
      exact absurd (heq.symm.trans hownerid) (by simp)
    · have hnamed : v.log.talk.named session v.log.taken.lock.id = some x :=
        hkept.named.trans hid
      exact absurd (hnamed.trans (hownerid.symm.trans hkept.ownerid)) hne

theorem isowner_eq_true {m : ZkrLockMutex} (h : m.isowner = true) :
    ∃ x, m.id = some x ∧ m.ownerid = some x := by
  unfold ZkrLockMutex.isowner at h
  split at h
  · next id ownerid hid hownerid =>
    have heq := (strcmp_eq_iff id ownerid).mp (by simpa using h)
    exact ⟨id, hid, by rw [hownerid, heq]⟩
  · cases h

/-- **A call of `zkr_lock_lock`.** -/
theorem zkrLockLock : Triple (thread session th) (fun v => v.log = {})
    (zkrLockLock session) fun b => Claims (some b) := by
  refine mutexLock ?_
  have hload : Triple (inside th) (fun v => Kept session v.memory.lock.path v)
      (perform Op.load) fun m v => Kept session m.lock.path v := by
    refine act (o := .load) (f := .ret) (fun m v => Kept session m.lock.path v) trivial
      (fun v a m h hm => ?_) fun m => .ret fun _ h => h
    obtain rfl := Option.some.inj hm
    exact Kept.same h (sameLock_load v _)
  refine (section_ hload).bind fun m => ?_
  refine (section_ makeDirectory).bind fun _ => ?_
  refine (section_ tryOperation).bind fun _ => ?_
  refine mutexUnlock (Released session) (fun v h => released_of_tried h) (stable_inside _ _) ?_
  refine Triple.step (o := Op.load) (f := fun m => .ret m.lock.isowner)
    (Q := fun b => Claims (some b)) (fun m => Claims (some m.lock.isowner)) (fun _ h => h)
    stable_released
    (fun v m v' h hsem => ?_) fun m => .ret fun _ h => h
  obtain ⟨⟨a, hm, rfl⟩, hsettled⟩ := hsem
  obtain rfl := Option.some.inj hm
  refine ⟨⟨.inr (.inr rfl), fun p acl h => by cases h⟩, fun howner => ?_⟩
  obtain ⟨x, hid, hownerid⟩ := isowner_eq_true (Option.some.inj howner)
  exact ⟨x, hid, h.2 (hsettled rfl h.1) x hid hownerid⟩

/-- The rules of the critical section for code of which nothing is to be known. -/
theorem criticalRules : CriticalRules (thread session th) InsideOp (fun _ _ => True) (Held th) where
  stableIn o := stable_held o
  inside o v r v' ho h hsem := by
    obtain ⟨⟨a, -, rfl⟩, -⟩ := hsem
    refine ⟨trivial, ⟨.inl h, ?_⟩, held_effect ho h r⟩
    rintro p acl rfl
    exact ho

theorem baseEffects : BaseEffects InsideOp where
  load := trivial
  fault := trivial
  nanosleep := trivial
  completion _ := trivial
  clearId := trivial

/-- A call of `zkr_lock_unlock`. -/
theorem zkrLockUnlock : Triple (thread session th) (fun v => v.log = {}) zkrLockUnlock
    fun _ _ => True := by
  have hunlock : ∀ ret : Status, Triple (thread session th) (Held th)
      ((perform Op.pthreadMutexUnlock).bind fun _ => .ret ret) fun _ _ => True := fun ret =>
    (mutexUnlock (f := fun _ => .ret ret) (fun _ => True) (fun _ _ => trivial)
      (stable_inside _ fun _ => True) (.ret fun _ _ => trivial)).pre fun _ h => ⟨h, trivial⟩
  have hundefined : Triple (thread session th) (Held th) (PhpZookeeper.fault : Code Status)
      fun _ _ => True := (criticalRules.undefined baseEffects).post fun _ _ _ => trivial
  refine mutexLock (Triple.pre ?_ fun _ h => h.1)
  refine criticalRules.step (o := .load) trivial fun m _ => ?_
  cases m.lock.id with
  | none => exact hunlock ZSYSTEMERROR
  | some id =>
    cases m.lock.path with
    | none => exact hundefined
    | some path =>
      refine (criticalRules.triple (baseEffects.unlockDelete trivial)).bind fun ret => ?_
      refine Triple.pre ?_ fun _ h => h.2
      split_ifs
      · refine (criticalRules.triple (baseEffects.callCompletion 1)).bind fun _ => ?_
        refine Triple.pre ?_ fun _ h => h.2
        exact criticalRules.step (o := .store (.lockId none)) trivial fun _ _ => hunlock ZOK
      · exact hunlock ZCONNECTIONLOSS

/-- Any call. -/
theorem code_claims (f : LockFunction) :
    Triple (thread session th) (fun v => v.log = {}) (f.code session) Claims := by
  cases f with
  | lock => exact zkrLockLock.bind fun b => .ret fun _ h => h
  | unlock => exact zkrLockUnlock.bind fun _ => .ret fun _ _ h => by cases h

/-! ### Runs -/

/-- Both threads keep their contracts. -/
def Holds (session : Sid) (c : LockThreads) : Prop :=
  ∀ th, Safe (thread session th) (c.code th) Claims (c.view th)

/-- What one thread has done is what the other relies on. -/
theorem rely_of_guar {c : LockThreads} {th th' : Thread} (hne : th' ≠ th) {o : Op}
    {k : o.Res → Code (Option Bool)} (hcode : c.code th = .op o k) {a : Reply}
    (hok : c.Orderly session (.go th a)) {r : o.Res}
    (hr : opResult a c.memory o = some r)
    (hg : (thread session th).guar o (c.view th) r ((c.view th).after th o r)) :
    (thread session th').rely (c.code th').next (c.view th')
      ⟨((c.view th).after th o r).memory, c.log th'⟩ := by
  obtain ⟨hmemory, hinit⟩ := hg
  refine ⟨rfl, fun hheld => ?_, fun hnext hreleased => ?_⟩
  · rcases hmemory with hheld' | rfl | hsame
    · exact absurd (Option.some.inj (hheld.symm.trans hheld')) hne
    · have hfree : c.memory.lock.pmutex = some th' := hheld
      simp [opResult, hfree] at hr
    · exact hsame
  · have hreading : c.Reading th' := ⟨hreleased, hnext⟩
    have hnames : ∀ x, o ≠ .store (.lockId x) ∧ o ≠ .store (.lockOwnerid x) := by
      intro x
      constructor
      · rintro rfl
        exact hok.undisturbed th a x rfl (.inl (by rw [hcode]; rfl)) th' hne hreading
      · rintro rfl
        exact hok.undisturbed th a x rfl (.inr (by rw [hcode]; rfl)) th' hne hreading
    cases o with
    | store b =>
      cases b with
      | lockId x => exact absurd rfl (hnames x).1
      | lockOwnerid x => exact absurd rfl (hnames x).2
      | lockInit p acl => exact absurd rfl (hinit p acl)
      | _ => exact ⟨rfl, rfl⟩
    | _ => exact ⟨rfl, rfl⟩

/-- **One step.** -/
theorem holds_step {c c' : LockThreads} {l : LockStep} (h : Holds session c)
    (hok : c.Orderly session l) (hstep : c.step session l = some c') : Holds session c' := by
  cases l with
  | call th f =>
    simp only [LockThreads.step] at hstep
    split at hstep
    · next b hb =>
      split at hstep
      · cases hstep
      · obtain rfl := Option.some.inj hstep
        intro th'
        by_cases hth : th' = th
        · subst hth
          simpa [LockThreads.view] using (code_claims f).safe stable_claims rfl
        · simpa [LockThreads.view, hth] using h th'
    · cases hstep
  | go th a =>
    simp only [LockThreads.step] at hstep
    have hsafe := h th
    split at hstep
    · cases hstep
    · next o k hcode =>
      obtain ⟨r, hr, rfl⟩ := Option.map_eq_some_iff.mp hstep
      rw [hcode] at hsafe
      have hsem : (thread session th).sem o (c.view th) r ((c.view th).after th o r) := by
        refine ⟨⟨a, hr, rfl⟩, ?_⟩
        rintro rfl hreleased
        exact hok.settled th a rfl ⟨hreleased, by rw [hcode]; rfl⟩
      obtain ⟨hg, hsafe'⟩ := hsafe.op stable_claims hsem
      intro th'
      by_cases hth : th' = th
      · subst hth
        simpa [LockThreads.view] using hsafe'
      · simpa [LockThreads.view, hth] using (h th').rely (rely_of_guar hth hcode hok hr hg)
    · next body b k hcode =>
      obtain rfl := Option.some.inj hstep
      rw [hcode] at hsafe
      intro th'
      by_cases hth : th' = th
      · subst hth
        simpa [LockThreads.view] using hsafe.iter stable_claims
      · simpa [LockThreads.view, hth] using h th'

end FreshLock

/-- **A call that claims the lock has listed the client's own node as the first one**, in every
state that an orderly run reaches, from any record, with any replies. -/
theorem owner_listed (session : Sid) (m : PhpZookeeperSession) {c : LockThreads}
    (h : LockThreads.Reaches session (LockThreads.Orderly session) { memory := m } c)
    (th : Thread) : c.ClaimsListed th := by
  have hholds : FreshLock.Holds session c := by
    induction h with
    | refl =>
      intro th
      exact (Triple.ret (P := fun _ => True) fun v _ hb => by cases hb).safe
        FreshLock.stable_claims trivial
    | step _ hok hstep ih => exact FreshLock.holds_step ih hok hstep
  intro hcode
  have hsafe := hholds th
  rw [hcode] at hsafe
  exact hsafe.ret rfl

/-! ### Two runs -/

namespace LockThreads

/-- What the thread's call has returned. -/
def returned (c : LockThreads) (th : Thread) : Option (Option Bool) :=
  match c.code th with
  | .ret b => some b
  | _ => none

/-- The state after some steps, each of which is checked. -/
def follow (session : Sid) (check : LockThreads → LockStep → Bool) :
    List LockStep → LockThreads → Option LockThreads
  | [], c => some c
  | l :: ls, c => if check c l then (c.step session l).bind (follow session check ls) else none

variable {session : Sid} {check : LockThreads → LockStep → Bool} {c₀ c c' : LockThreads}

theorem code_of_returned {th : Thread} {b : Option Bool} (h : c.returned th = some b) :
    c.code th = .ret b := by
  unfold returned at h
  split at h
  · next b' hb =>
    rw [hb, Option.some.inj h]
  · cases h

theorem reaches_of_follow {ok : LockThreads → LockStep → Prop}
    (hcheck : ∀ c l, check c l = true → ok c l) {ls : List LockStep}
    (h : Reaches session ok c₀ c) (hf : follow session check ls c = some c') :
    Reaches session ok c₀ c' := by
  induction ls generalizing c with
  | nil =>
    obtain rfl := Option.some.inj hf
    exact h
  | cons l ls ih =>
    simp only [follow] at hf
    split_ifs at hf with hc
    obtain ⟨c₁, hstep, hrest⟩ := Option.bind_eq_some_iff.mp hf
    exact ih (h.step (hcheck c l hc) hstep) hrest

/-- The main thread goes on, and the other one has never called. -/
def mainAlone (session : Sid) (c : LockThreads) : LockStep → Bool
  | .call _ _ => true
  | .go th _ => th = .main && !(c.log .watcher).released &&
    (!(c.log .main).released || ((c.log .main).talk.LastOk ||
      ((c.log .main).taken.lock.ownerid = none || (c.log .main).talk.named session
        (c.log .main).taken.lock.id ≠ (c.log .main).taken.lock.ownerid)))

theorem orderly_of_mainAlone (c : LockThreads) (l : LockStep)
    (h : c.mainAlone session l = true) : c.Orderly session l := by
  cases l with
  | call th f => exact ⟨fun _ _ h => (by cases h), fun _ _ _ h => (by cases h)⟩
  | go th a =>
    simp only [mainAlone, Bool.and_eq_true, decide_eq_true_eq, Bool.not_eq_true',
      Bool.or_eq_true] at h
    obtain ⟨⟨rfl, hwatcher⟩, hsettled⟩ := h
    refine ⟨fun th b heq hreading => ?_, fun th b x heq _ th' hne hreading => ?_⟩
    · cases heq
      exact hsettled.resolve_left (by simp [hreading.1])
    · cases heq
      cases th' with
      | main => exact hne rfl
      | watcher => exact absurd hreading.1 (by simp [hwatcher])

end LockThreads

/-- A record with a lock that has not been used. -/
def unusedLock : PhpZookeeperSession := { lock := { path := some "/l".toList } }

/-- The reply to any request while the client's node is alone in the directory. -/
def aloneReply : Reply :=
  { rc := ZOK, strings := ["x-0000000000000000-0000000000".toList] }

/-- The reply while another client waits in the directory. -/
def otherReply : Reply :=
  { rc := ZOK, strings := ["x-0000000000000001-0000000002".toList] }

/-- The reply when the client has queued up again, in front of the other one. -/
def bothReply : Reply :=
  { rc := ZOK, strings := ["x-0000000000000001-0000000002".toList,
      "x-0000000000000000-0000000001".toList] }

/-- A call of `f` by the main thread, with each reply for so many steps. -/
def callWith (f : LockFunction) (as : List (ℕ × Reply)) : List LockStep :=
  .call .main f :: as.flatMap fun x => List.replicate x.1 (.go .main x.2)

/-- The client takes the lock and gives it back, where the first delete is lost. Then it queues up
again, after a lost request, and claims the lock from in front of another client. -/
def lockAgain : List LockStep :=
  callWith .lock [(19, aloneReply)] ++
    callWith .unlock [(6, { rc := ZCONNECTIONLOSS }), (4, { rc := ZOK })] ++
      callWith .lock [(4, { rc := ZCONNECTIONLOSS }), (9, otherReply), (18, bothReply)]

theorem owner_listed_again :
    ∃ c : LockThreads, c.returned .main = some (some true) ∧
      c.memory.lock.id = some "x-0000000000000000-0000000001".toList ∧ c.ClaimsListed .main := by
  have hend : ((LockThreads.follow 0 (LockThreads.mainAlone 0) lockAgain
      { memory := unusedLock }).map fun c => (c.returned .main, c.memory.lock.id)) =
      some (some (some true), some "x-0000000000000000-0000000001".toList) := by
    decide +kernel
  obtain ⟨c, hfollow, heq⟩ := Option.map_eq_some_iff.mp hend
  obtain ⟨hreturned, hid⟩ := Prod.mk.inj heq
  exact ⟨c, hreturned, hid, owner_listed 0 unusedLock
    (LockThreads.reaches_of_follow LockThreads.orderly_of_mainAlone .refl hfollow) .main⟩

/-- A client that has the lock calls `zkr_lock_lock` again after its session has expired: every
request fails, and the call claims the lock. -/
theorem claims_unlisted : ∃ c, LockThreads.Reaches 0 (fun _ _ => True) { memory := unusedLock } c ∧
    ¬ c.ClaimsListed .main := by
  have hend : ((LockThreads.follow 0 (fun _ _ => true)
      (callWith .lock [(19, aloneReply)] ++ callWith .lock [(29, { rc := ZSESSIONEXPIRED })])
      { memory := unusedLock }).map fun c =>
        (c.returned .main, (c.log .main).talk.all fun y => y.2.rc ≠ ZOK)) =
      some (some (some true), true) := by
    decide +kernel
  obtain ⟨c, hfollow, heq⟩ := Option.map_eq_some_iff.mp hend
  obtain ⟨hreturned, hfailed⟩ := Prod.mk.inj heq
  refine ⟨c, LockThreads.reaches_of_follow (fun _ _ _ => trivial) .refl hfollow, fun h => ?_⟩
  obtain ⟨x, -, p, a, -, hmem, hfirst⟩ := h (LockThreads.code_of_returned hreturned)
  have hrc := List.all_eq_true.mp hfailed _ hmem
  exact absurd hfirst.answered (by simpa using hrc)

end PhpZookeeper
