import PhpZookeeper.Session.Rules
import PhpZookeeper.System.Places

/-!
# What requests leave in the queues

The callbacks of one worker and its `lock_watcher_fn`, for the locks of any sessions. While a
session is locked the record has the path of its lock directory, and the connection's node is
nowhere else; while none is, the record has no path, and `zkr_lock_operation` does not come to its
`create`. `keepContract` says what each thread relies on for that. The main thread needs more than
`pmutex` in one place: between the `zkr_lock_unlock` and the `zkr_lock_destroy` of `PS_CLOSE`.
-/

namespace PhpZookeeper

open Theory Prog Status

variable {srv : Server}

/-! ### The invariant -/

/-- The connection has no node in the queue of any session. -/
def NoPlace (session : Sid) (t : Nodes) : Prop := ∀ key x, ¬ OwnNode session (lockPath key) t x

/-- The connection has no new node in a queue. -/
def NoNewPlace (session : Sid) (t t' : Nodes) : Prop :=
  ∀ key x, OwnNode session (lockPath key) t' x → OwnNode session (lockPath key) t x

/-- What is asked of an operation of a thread: it makes `pmutex` anew only when `lock_watcher_fn`
does not hold it; `PS_CLOSE` finds the name of the node in the record, if there is one, and has
removed it when it destroys the lock; and no data node or lock directory has the name of a node of
the connection. -/
structure OpOrderly (session : Sid) (th : Thread) (o : Op) (s : World srv Unit) : Prop where
  named : ∀ req, o = .zoo req → ¬ req.Sequence → ∀ key x, OwnName session x →
    ¬ req.MayMake (childOf (lockPath key) x)
  init : o.Inits → s.pmutex () ≠ some .watcher
  closes : th = .main → o = .pthreadMutexLock → (s.memory ()).isLocked = true →
    (s.memory ()).lock.id = none → NoPlace session s.nodes
  destroys : o = .store .lockDestroy → (s.memory ()).lock.id = none

/-- What the record says of the connection's nodes: they are in the directory whose path it has,
and it has their name or none. -/
structure PlaceRecord (session : Sid) (t : Nodes) (m : ZkrLockMutex) : Prop where
  path : ∀ p ∈ m.path, ∃ key, p = lockPath key
  only : ∀ key x, OwnNode session (lockPath key) t x →
    m.path = some (lockPath key) ∧ (m.id = none ∨ m.id = some x)
  closed : m.path = none → m.id = none

/-- What is true whoever acts: there is at most one node of the connection, in each state that it
may still see, and the record is right about it. -/
structure KeepInv (session : Sid) (s : World srv Unit) : Prop where
  one : ∀ T ∈ s.tree :: s.views (), ∀ key x y, OwnNode session (lockPath key) (srv.nodes T) x →
    OwnNode session (lockPath key) (srv.nodes T) y → x = y
  seen : ∀ T ∈ s.views (), NoNewPlace session (srv.nodes T) s.nodes
  record : PlaceRecord session s.nodes (s.memory ()).lock

/-- The worker is not inside a locked request, or the record has no path. -/
def Idle (s : World srv Unit) : Prop :=
  (s.memory ()).isLocked = false → (s.memory ()).lock.path = none

section Operations

variable {session : Sid} {th : Thread} {s s' : World srv Unit} {d : Decision srv} {o : Op}
  {r : o.Res}

theorem PlaceRecord.mono {t t' : Nodes} {m : ZkrLockMutex} (h : PlaceRecord session t m)
    (ht : NoNewPlace session t t') : PlaceRecord session t' m :=
  ⟨h.path, fun key x hx => h.only key x (ht key x hx), h.closed⟩

/-- Only the path and the name matter. -/
theorem PlaceRecord.congr {t : Nodes} {m m' : ZkrLockMutex} (h : PlaceRecord session t m)
    (hpath : m'.path = m.path) (hid : m'.id = m.id) : PlaceRecord session t m' := by
  obtain ⟨hdir, honly, hclosed⟩ := h
  exact ⟨by rwa [hpath], by rwa [hpath, hid], by rwa [hpath, hid]⟩

/-- An operation keeps the invariant, when it leaves one node at most and a record that is
right. -/
theorem KeepInv.perform (h : KeepInv session s)
    (hperf : s.perform () session th d o = some (r, s'))
    (hone : ∀ key x y, OwnNode session (lockPath key) s'.nodes x →
      OwnNode session (lockPath key) s'.nodes y → x = y)
    (hrecord : PlaceRecord session s'.nodes (o.effect th (s.memory ())).lock) :
    KeepInv session s' := by
  rw [← memory_of_perform hperf] at hrecord
  refine ⟨fun T hT => ?_, fun T hT key x hx => ?_, hrecord⟩
  · rcases List.mem_cons.mp hT with rfl | hT
    · exact hone
    · exact h.one T (List.mem_cons_of_mem _ (views_of_perform hperf hT).1)
  · obtain ⟨hview, hnodes⟩ := views_of_perform hperf hT
    rw [hnodes] at hx
    exact h.seen T hview key x hx

/-- An operation other than the `create` of `zkr_lock_operation` makes no node in a queue. -/
theorem noNewPlace_of_perform (hperf : s.perform () session th d o = some (r, s'))
    (hok : OpOrderly session th o s) (ho : ∀ req, o = .zoo req → ¬ req.Sequence) :
    NoNewPlace session s.nodes s'.nodes := fun key _ =>
  ownNode_of_perform hperf fun req hreq y hy => hok.named req hreq (ho req hreq) key y hy

/-- Such an operation keeps the invariant, when the record stays right about the nodes. -/
theorem KeepInv.quiet (h : KeepInv session s)
    (hperf : s.perform () session th d o = some (r, s')) (hok : OpOrderly session th o s)
    (ho : ∀ req, o = .zoo req → ¬ req.Sequence)
    (hrecord : PlaceRecord session s.nodes (o.effect th (s.memory ())).lock) :
    KeepInv session s' := by
  have hnew := noNewPlace_of_perform hperf hok ho
  exact h.perform hperf (fun key x y hx hy => h.one s.tree List.mem_cons_self key x y
    (hnew key x hx) (hnew key y hy)) (hrecord.mono hnew)

end Operations

/-! ### What the threads rely on -/

/-- What a thread does for the lock: the main thread runs a callback that uses it or one that does
not, the other thread runs `lock_watcher_fn`. -/
inductive Role where
  | locking
  | plain
  | watcher
  deriving DecidableEq

/-- The thread that has the role. -/
def Role.thread : Role → Thread
  | .locking | .plain => .main
  | .watcher => .watcher

/-- The record of the lock stays as it is, and the connection has no new node. -/
structure Apart (session : Sid) (s s' : World srv Unit) : Prop where
  pmutex : s'.pmutex () = s.pmutex ()
  id : (s'.memory ()).lock.id = (s.memory ()).lock.id
  path : (s'.memory ()).lock.path = (s.memory ()).lock.path
  nodes : NoNewPlace session s.nodes s'.nodes

/-- The lock keeps its directory, and the session is locked or not as before. -/
structure Steady (s s' : World srv Unit) : Prop where
  path : (s'.memory ()).lock.path = (s.memory ()).lock.path
  isLocked : (s'.memory ()).isLocked = (s.memory ()).isLocked

/-- A thread that holds `pmutex` is left alone. -/
def LeftAlone (session : Sid) (th : Thread) (s s' : World srv Unit) : Prop :=
  s.pmutex () = some th → Apart session s s'

/-- What a thread relies on, and what it promises. Between the `zkr_lock_unlock` and the
`zkr_lock_destroy` of `PS_CLOSE` the main thread is left alone without `pmutex`. -/
def keepContract (session : Sid) (role : Role) : Contract Op.Res (World srv Unit) where
  sem o s r s' := KeepInv session s ∧ OpOrderly session role.thread o s ∧
    ∃ d, s.perform () session role.thread d o = some (r, s')
  rely o s s' := LeftAlone session role.thread s s' ∧ (role ≠ .watcher → Steady s s' ∧
    (∀ o' ∈ o, o'.EndsLock → s.pmutex () ≠ some .watcher → Apart session s s'))
  guar o s _ s' := KeepInv session s' ∧
    (∀ th, th ≠ role.thread → LeftAlone session th s s') ∧ (role ≠ .locking → Steady s s') ∧
    (role = .watcher → o ≠ .pthreadMutexLock → s.pmutex () ≠ some .watcher → Apart session s s')

theorem Apart.refl (session : Sid) (s : World srv Unit) : Apart session s s :=
  ⟨rfl, rfl, rfl, fun _ _ h => h⟩

theorem Steady.refl (s : World srv Unit) : Steady s s := ⟨rfl, rfl⟩

theorem Idle.steady {s s' : World srv Unit} (h : Idle s) (hs : Steady s s') : Idle s' := by
  intro hlocked
  rw [hs.path]
  exact h (hs.isLocked ▸ hlocked)

theorem NoPlace.mono {session : Sid} {t t' : Nodes} (h : NoPlace session t)
    (ht : NoNewPlace session t t') : NoPlace session t' := fun key x hx => h key x (ht key x hx)

section Contract

variable {session : Sid} {role : Role} {s s' : World srv Unit} {d : Decision srv} {o : Op}
  {r : o.Res}

/-- The holder of `pmutex` disturbs nobody. -/
theorem guar_keep_of_holding (h : s.pmutex () = some role.thread) (hinv : KeepInv session s')
    (hsteady : role ≠ .locking → Steady s s') :
    (keepContract session role : Contract Op.Res (World srv Unit)).guar o s r s' := by
  refine ⟨hinv, fun th hne hth => ?_, hsteady, fun hrole _ hfree => ?_⟩
  · rw [h, Option.some.injEq] at hth
    exact absurd hth.symm hne
  · subst hrole
    exact absurd h hfree

/-- An operation that leaves the lock as it is disturbs nobody. -/
theorem guar_keep_of_apart (h : Apart session s s') (hinv : KeepInv session s')
    (hsteady : role ≠ .locking → Steady s s') :
    (keepContract session role : Contract Op.Res (World srv Unit)).guar o s r s' :=
  ⟨hinv, fun _ _ _ => h, hsteady, fun _ _ _ => h⟩

/-- The main thread may do with the lock what it likes when the other one does not hold `pmutex`. -/
theorem guar_keep_of_free (h : s.pmutex () ≠ some .watcher) (hinv : KeepInv session s') :
    (keepContract session .locking : Contract Op.Res (World srv Unit)).guar o s r s' := by
  refine ⟨hinv, fun th hne hth => ?_, fun hrole => absurd rfl hrole, fun hrole => by cases hrole⟩
  cases th with
  | main => exact absurd rfl hne
  | watcher => exact absurd hth h

/-- The operations that leave the lock as it is. -/
def AsideOp : Op → Prop
  | .zoo r => ¬ r.Sequence
  | .store (.path _) | .store (.isLocked _) | .store (.lockIsOwner _) => True
  | .load | .pthreadMutexDestroy | .nanosleep | .usleep _ | .efreePath | .completion _ => True
  | _ => False

theorem effect_asideOp (ho : AsideOp o) (th : Thread) (m : PhpZookeeperSession) :
    (o.effect th m).lock.pmutex = m.lock.pmutex ∧ (o.effect th m).lock.id = m.lock.id ∧
      (o.effect th m).lock.path = m.lock.path := by
  cases o with
  | store a =>
    cases a with
    | path p => exact ⟨rfl, rfl, rfl⟩
    | isLocked b => exact ⟨rfl, rfl, rfl⟩
    | lockIsOwner b => exact ⟨rfl, rfl, rfl⟩
    | _ => exact ho.elim
  | pthreadMutexInit => exact ho.elim
  | pthreadMutexLock => exact ho.elim
  | pthreadMutexUnlock => exact ho.elim
  | _ => exact ⟨rfl, rfl, rfl⟩

/-- What such an operation leaves. -/
theorem apart_of_aside (ho : AsideOp o)
    (hsem : (keepContract session role : Contract Op.Res (World srv Unit)).sem o s r s') :
    Apart session s s' ∧ KeepInv session s' := by
  obtain ⟨hinv, hok, d, hperf⟩ := hsem
  obtain ⟨hpmutex, hid, hpath⟩ := effect_asideOp ho role.thread (s.memory ())
  have hmem := memory_of_perform hperf
  have hplain : ∀ req, o = .zoo req → ¬ req.Sequence := fun req hreq => by
    subst hreq
    exact ho
  refine ⟨⟨?_, by rw [hmem, hid], by rw [hmem, hpath], noNewPlace_of_perform hperf hok hplain⟩,
    hinv.quiet hperf hok hplain (hinv.record.congr hpath hid)⟩
  unfold World.pmutex
  rw [hmem, hpmutex]

end Contract

/-! ### The critical section -/

/-- The thread holds `pmutex`, and the lock has the path. -/
def InSection (role : Role) (path : Option CString) (s : World srv Unit) : Prop :=
  s.pmutex () = some role.thread ∧ (s.memory ()).lock.path = path

section Section

variable {session : Sid} {role : Role} {p : CString} {s s' : World srv Unit} {d : Decision srv}
  {o : Op} {r : o.Res}

/-- The connection's nodes are in the directory of the lock. -/
theorem KeepInv.placeInv (h : KeepInv session s) (hp : (s.memory ()).lock.path = some p) :
    PlaceInv session p s := by
  obtain ⟨key, rfl⟩ := h.record.path p hp
  refine ⟨fun T hT => h.one T hT key, fun T hT => h.seen T hT key,
    fun x hx => (h.record.only key x hx).2, fun p' hp' => ?_⟩
  rw [hp] at hp'
  exact (Option.mem_some.mp hp').symm

/-- A round of `zkr_lock_operation` makes no node in another directory than that of the lock. -/
theorem noNewPlace_of_round (ho : RoundOp session p o) (hok : OpOrderly session role.thread o s)
    (hperf : s.perform () session role.thread d o = some (r, s')) {key x : CString}
    (hkey : lockPath key ≠ p) (hx : OwnNode session (lockPath key) s'.nodes x) :
    OwnNode session (lockPath key) s.nodes x := by
  refine ownNode_of_perform hperf (fun req hreq y hy => ?_) hx
  rcases ho with ho | ⟨id, rfl⟩ | ⟨acl, rfl⟩
  · subst hreq
    exact hok.named req rfl ho.1 key y hy
  · cases hreq
  · obtain rfl := Op.zoo.inj hreq
    rintro ⟨n, hn⟩
    rw [show childOf p (lockPrefix session) ++ sprintf010d n = childOf p (lockName session n) by
      simp [childOf, lockName]] at hn
    exact hkey ((childOf_inj hy.2 (ownName_lockName session n).2).mp hn).1

/-- What a round does to the record. -/
theorem effect_roundOp (ho : RoundOp session p o) (th : Thread) (m : PhpZookeeperSession) :
    (o.effect th m).lock.pmutex = m.lock.pmutex ∧ (o.effect th m).lock.path = m.lock.path ∧
      (o.effect th m).isLocked = m.isLocked := by
  rcases ho with ho | ⟨id, rfl⟩ | ⟨acl, rfl⟩
  · obtain ⟨hpmutex, hpath, -⟩ := PlaceInv.effect_visitOp ho.visitOp th m
    refine ⟨hpmutex, hpath, ?_⟩
    have hvisit := ho.visitOp
    cases o with
    | store a =>
      cases a with
      | isLocked b => exact hvisit.elim
      | _ => rfl
    | _ => rfl
  · exact ⟨rfl, rfl, rfl⟩
  · exact ⟨rfl, rfl, rfl⟩

/-- What a round leaves: at most one node in the directory of the lock, and none in another. -/
theorem KeepInv.round (h : KeepInv session s) (hp : (s.memory ()).lock.path = some p)
    (ho : RoundOp session p o) (hok : OpOrderly session role.thread o s)
    (hperf : s.perform () session role.thread d o = some (r, s'))
    (hplace : PlaceInv session p s') : KeepInv session s' := by
  have hdir : ∀ key x, OwnNode session (lockPath key) s'.nodes x → lockPath key = p := by
    intro key x hx
    by_contra hne
    have hold := noNewPlace_of_round ho hok hperf hne hx
    have hpath := (h.record.only key x hold).1
    rw [hp, Option.some.injEq] at hpath
    exact hne hpath.symm
  have hpath := (effect_roundOp ho role.thread (s.memory ())).2.1
  refine h.perform hperf (fun key x y hx hy => ?_) ⟨?_, fun key x hx => ?_, fun hnone => ?_⟩
  · obtain rfl := hdir key x hx
    exact hplace.one _ List.mem_cons_self x y hx hy
  · rw [hpath]
    exact h.record.path
  · obtain rfl := hdir key x hx
    rw [hpath, ← memory_of_perform hperf]
    exact ⟨hp, hplace.id x hx⟩
  · rw [hpath, hp] at hnone
    cases hnone

/-- The critical section of a lock that has a path. -/
theorem roundContract_keep (key : CString) : RoundContract session (lockPath key) role.thread
    (keepContract session role : Contract Op.Res (World srv Unit))
    (InSection role (some (lockPath key))) where
  pmutex _ hs := hs.1
  stable _ _ _ hr hs := by
    obtain ⟨hpmutex, -, hpath, -⟩ := hr.1 hs.1
    exact ⟨hpmutex.trans hs.1, hpath.trans hs.2⟩
  rely _ _ _ hs hr _ := by
    obtain ⟨hpmutex, hid, -, hnodes⟩ := hr.1 hs.1
    exact ⟨hpmutex.trans hs.1, hid, hnodes key⟩
  sem _ _ _ _ hs hsem := ⟨hsem.1.placeInv hs.2, hsem.2.2⟩
  guar o s r s' ho hs hsem hplace := by
    obtain ⟨hinv, hok, d, hperf⟩ := hsem
    obtain ⟨hpmutex, hpath, hlocked⟩ := effect_roundOp ho role.thread (s.memory ())
    have hmem := memory_of_perform hperf
    refine ⟨guar_keep_of_holding hs.1 (hinv.round hs.2 ho hok hperf hplace) fun _ => ?_, ?_, ?_⟩
    · exact ⟨by rw [hmem, hpath], by rw [hmem, hlocked]⟩
    · rw [PlaceInv.pmutex_of_perform hperf, hpmutex]
      exact hs.1
    · rw [hmem, hpath]
      exact hs.2

/-- Only `pmutex` changes. -/
structure MutexOnly (s s' : World srv Unit) : Prop extends Steady s s' where
  nodes : s'.nodes = s.nodes
  id : (s'.memory ()).lock.id = (s.memory ()).lock.id

/-- What the calls of the thread library for `pmutex` leave. -/
theorem mutexOnly_of_sem (ho : o = .pthreadMutexLock ∨ o = .pthreadMutexUnlock)
    (hsem : (keepContract session role : Contract Op.Res (World srv Unit)).sem o s r s') :
    MutexOnly s s' ∧ KeepInv session s' := by
  obtain ⟨hinv, hok, d, hperf⟩ := hsem
  have hmem := memory_of_perform hperf
  have hreq : ∀ req, o ≠ .zoo req := fun req h => by
    subst h
    rcases ho with ho | ho <;> cases ho
  have hnodes : s'.nodes = s.nodes := by
    rcases World.perform_nodes hperf with ⟨htree, -⟩ | ⟨req, a, h, -⟩
    · exact congrArg srv.nodes htree
    · exact absurd h (hreq req)
  have hlock : (o.effect role.thread (s.memory ())).lock.path = (s.memory ()).lock.path ∧
      (o.effect role.thread (s.memory ())).lock.id = (s.memory ()).lock.id ∧
      (o.effect role.thread (s.memory ())).isLocked = (s.memory ()).isLocked := by
    rcases ho with rfl | rfl <;> exact ⟨rfl, rfl, rfl⟩
  obtain ⟨hpath, hid, hlocked⟩ := hlock
  exact ⟨⟨⟨by rw [hmem, hpath], by rw [hmem, hlocked]⟩, hnodes, by rw [hmem, hid]⟩,
    hinv.quiet hperf hok (fun req h => absurd h (hreq req)) (hinv.record.congr hpath hid)⟩

/-- `pthread_mutex_lock`: nobody holds `pmutex` before. -/
theorem lock_keep {r : Unit} (hsem : (keepContract session role :
      Contract Op.Res (World srv Unit)).sem .pthreadMutexLock s r s') :
    (keepContract session role : Contract Op.Res (World srv Unit)).guar .pthreadMutexLock s r s' ∧
      s'.pmutex () = some role.thread ∧ MutexOnly s s' ∧ KeepInv session s' := by
  obtain ⟨honly, hinv⟩ := mutexOnly_of_sem (.inl rfl) hsem
  obtain ⟨-, -, d, hperf⟩ := hsem
  have hfree : s.pmutex () = none := by
    by_contra hne
    simp [World.perform, hne] at hperf
  refine ⟨⟨hinv, fun th _ hth => ?_, fun _ => honly.toSteady, fun _ hne => absurd rfl hne⟩,
    PlaceInv.pmutex_of_perform hperf, honly, hinv⟩
  rw [hfree] at hth
  cases hth

/-- `pthread_mutex_unlock`, by the thread that holds `pmutex`. -/
theorem unlock_keep {r : Unit} (hs : s.pmutex () = some role.thread)
    (hsem : (keepContract session role :
      Contract Op.Res (World srv Unit)).sem .pthreadMutexUnlock s r s') :
    (keepContract session role : Contract Op.Res (World srv Unit)).guar .pthreadMutexUnlock s r s' ∧
      s'.pmutex () = none ∧ MutexOnly s s' := by
  obtain ⟨honly, hinv⟩ := mutexOnly_of_sem (.inr rfl) hsem
  obtain ⟨-, -, d, hperf⟩ := hsem
  exact ⟨guar_keep_of_holding hs hinv fun _ => honly.toSteady, PlaceInv.pmutex_of_perform hperf,
    honly⟩

/-- `zkr_lock_isowner` reads the record. -/
theorem load_keep {m : PhpZookeeperSession} (hsem : (keepContract session role :
      Contract Op.Res (World srv Unit)).sem .load s m s') :
    (keepContract session role : Contract Op.Res (World srv Unit)).guar .load s m s' ∧
      s' = s ∧ m = s.memory () := by
  obtain ⟨hinv, -, d, hperf⟩ := hsem
  obtain ⟨rfl, rfl⟩ := Prod.mk.inj (Option.some.inj hperf)
  exact ⟨guar_keep_of_apart (.refl session s) hinv fun _ => .refl s, rfl, rfl⟩

end Section

/-! ### `PS_READ` -/

section Read

variable {session : Sid} {role : Role} {key : CString}

/-- The main thread's path is left alone. -/
theorem stable_steady {P : World srv Unit → Prop} (hrole : role ≠ .watcher)
    (hP : ∀ s s', Steady s s' → P s → P s') (o : Option Op) :
    (keepContract session role : Contract Op.Res (World srv Unit)).Stable o P :=
  fun s s' hr hs => hP s s' (hr.2 hrole).1 hs

theorem stable_path (hrole : role ≠ .watcher) (path : Option CString) (o : Option Op) :
    (keepContract session role : Contract Op.Res (World srv Unit)).Stable o
      fun s => (s.memory ()).lock.path = path :=
  stable_steady hrole (fun _ _ hsteady hs => hsteady.path.trans hs) o

theorem roundContract_locking (key : CString) : RoundContract session (lockPath key)
    Role.locking.thread (keepContract session .locking : Contract Op.Res (World srv Unit))
    (InSection .locking (some (lockPath key))) := roundContract_keep key

/-- The lock of `PS_READ` keeps its path. -/
theorem roundRules_keep (key : CString) :
    RoundRules (keepContract session .locking : Contract Op.Res (World srv Unit)) session
      (PlainOp session (lockPath key)) (KnownResults (PlaceInv.PathIs (lockPath key)))
      (fun s => (s.memory ()).lock.path = some (lockPath key))
      (InSection .locking (some (lockPath key))) fun _ => True where
  toCriticalRules := (roundContract_locking key).criticalRules
  visit := PlaceInv.visitEffects_plainOp
  stable := stable_path (by decide) _
  round _ hp := (roundContract_locking key).zkrLockRound hp
  lock s r s' hs hsem := by
    obtain ⟨hg, hpmutex, honly, -⟩ := lock_keep hsem
    exact ⟨hg, hpmutex, honly.path.trans hs⟩
  unlock s r s' hs hsem := by
    obtain ⟨hg, -, honly⟩ := unlock_keep hs.1 hsem
    exact ⟨hg, honly.path.trans hs.2⟩
  isowner s m s' hs hsem := by
    obtain ⟨hg, rfl, -⟩ := load_keep hsem
    exact ⟨hg, hs, fun _ => trivial⟩

/-- The operations of a callback that does not use the lock. -/
def DataOp : Op → Prop
  | .zoo r => ¬ r.Sequence
  | .store (.path _) | .load => True
  | _ => False

theorem DataOp.asideOp {o : Op} (ho : DataOp o) : AsideOp o := by
  cases o with
  | store a =>
    cases a with
    | path p => trivial
    | _ => exact ho.elim
  | zoo r => exact ho
  | load => trivial
  | _ => exact ho.elim

/-- Code that does not use the lock keeps the main thread as idle as it is. -/
theorem triple_data {α : Type} {p : Code α} {Q : α → Prop} (hrole : role ≠ .watcher)
    (hp : Performs DataOp (KnownResults fun _ => True) p Q) :
    Triple (keepContract session role : Contract Op.Res (World srv Unit)) Idle p
      fun a s => Q a ∧ Idle s := by
  refine hp.triple (stable_steady hrole fun s s' hsteady hs => hs.steady hsteady)
    fun o s r s' ho hs hsem => ?_
  obtain ⟨hapart, hinv⟩ := apart_of_aside ho.asideOp hsem
  obtain ⟨-, -, d, hperf⟩ := hsem
  have hsteady : Steady s s' := by
    refine ⟨hapart.path, ?_⟩
    rw [memory_of_perform hperf]
    cases o with
    | store a =>
      cases a with
      | path p => rfl
      | _ => exact ho.elim
    | zoo r => rfl
    | load => rfl
    | _ => exact ho.elim
  refine ⟨?_, guar_keep_of_apart hapart hinv fun _ => hsteady, hs.steady hsteady⟩
  cases o with
  | zoo req => exact knownReply_of_perform hperf
  | _ => trivial

theorem dataEffects_dataOp : DataEffects DataOp (KnownResults fun _ => True) where
  load := trivial
  dataExists _ _ := fun h => h
  dataGet _ _ _ := fun h => h
  dataCreate _ _ _ := Bool.false_ne_true
  dataSet _ _ _ := fun h => h
  dataDelete _ _ := fun h => h

theorem gcEffects_dataOp : GcEffects DataOp (KnownResults fun _ => True) where
  gcList := fun h => h
  gcExists _ _ := fun h => h
  gcDelete _ _ := fun h => h
  gcNames _ ha := ha.1

/-- `zkr_lock_init`, when no session is locked. -/
theorem triple_init (acl : Option Acl) :
    Triple (keepContract session .locking : Contract Op.Res (World srv Unit))
      (fun s => (s.memory ()).lock.path = none) (zkrLockInit (lockPath key) acl)
      fun _ s => (s.memory ()).lock.path = some (lockPath key) := by
  refine .step (o := Op.store (.lockInit (lockPath key) acl))
    (fun _ (s : World srv Unit) => (s.memory ()).lock.path = some (lockPath key))
    (fun _ hs => hs) (stable_path (by decide) _ _) (fun s r s' hs hsem => ?_) fun _ =>
    .step (o := Op.pthreadMutexInit)
      (fun _ (s : World srv Unit) => (s.memory ()).lock.path = some (lockPath key))
      (fun _ hs => hs) (stable_path (by decide) _ _) (fun s r s' hs hsem => ?_)
      fun _ => .ret fun _ hs => hs
  · obtain ⟨hinv, hok, d, hperf⟩ := hsem
    have hnone : NoPlace session s.nodes := fun key x hx => by
      have hpath := (hinv.record.only key x hx).1
      rw [hs] at hpath
      cases hpath
    have hinv' : KeepInv session s' := hinv.quiet hperf hok (fun req hreq => by cases hreq)
      ⟨fun p hp => ⟨key, (Option.mem_some.mp hp).symm⟩, fun key x hx => absurd hx (hnone key x),
        fun h => by cases h⟩
    refine ⟨guar_keep_of_free (hok.init trivial) hinv', ?_⟩
    rw [memory_of_perform hperf]
    rfl
  · obtain ⟨hinv, hok, d, hperf⟩ := hsem
    have hinv' : KeepInv session s' := hinv.quiet hperf hok (fun req hreq => by cases hreq)
      (hinv.record.congr rfl rfl)
    refine ⟨guar_keep_of_free (hok.init trivial) hinv', ?_⟩
    rw [memory_of_perform hperf]
    exact hs

/-- How a callback ends: it has given up, or the worker is idle. -/
def Ended (out : Outcome (Option Bytes)) (s : World srv Unit) : Prop :=
  (∃ message, out = .error message) ∨ Idle s

/-- `PS_READ` with the lock. -/
theorem triple_psRead_locked {g : Globals} (hg : g.sessionLock = true) :
    Triple (keepContract session .locking : Contract Op.Res (World srv Unit))
      (fun s => (s.memory ()).lock.path = none) (psRead session g key) Ended := by
  have hlock : Triple (keepContract session .locking : Contract Op.Res (World srv Unit))
      (fun s => (s.memory ()).lock.path = none) (phpZookeeperSessLock session g key)
      fun locked s => if locked then Idle s else True := by
    refine ((roundRules_keep key).phpZookeeperSessLock (Q := Idle) (triple_init _)
      (fun _ => Contract.Stable.true _) (fun s r s' hs _ hsem => ?_)
      (fun usec s r s' hs hsem => ?_) g).post fun locked s hs => ?_
    · obtain ⟨hapart, hinv⟩ := apart_of_aside (o := .store (.isLocked true)) trivial hsem
      obtain ⟨-, -, d, hperf⟩ := hsem
      refine ⟨guar_keep_of_apart hapart hinv fun h => absurd rfl h, fun hlocked => ?_⟩
      rw [memory_of_perform hperf] at hlocked
      cases hlocked
    · obtain ⟨hapart, hinv⟩ := apart_of_aside (o := .usleep usec) trivial hsem
      exact ⟨guar_keep_of_apart hapart hinv fun h => absurd rfl h, hapart.path.trans hs⟩
    · cases locked with
      | true => exact hs
      | false => trivial
  simp only [psRead, hg, if_true]
  refine hlock.bind fun locked => ?_
  cases locked with
  | true =>
    refine Triple.pre ?_ fun s (hs : if true then Idle s else True) => hs
    exact (triple_data (by decide) (dataEffects_dataOp.psReadData trivial g)).post
      fun _ _ hs => .inr hs.2
  | false => exact .ret fun _ _ => .inl ⟨_, rfl⟩

end Read

/-! ### `PS_CLOSE` -/

/-- A change is made from the last state of the nodes, whatever the worker has seen. -/
theorem World.perform_write {W : Type} [DecidableEq W] (s : World srv W) (w : W) (sid : Sid)
    (th : Thread) (d : Decision srv) {r : Req} (hr : r.isRead = false) :
    s.perform w sid th d (.zoo r) = s.perform w sid th { d with lag := 0 } (.zoo r) := by
  simp [perform, request, hr]

section Close

variable {session : Sid} {s s' : World srv Unit}

/-- The `delete` of `zkr_lock_unlock` has been answered: no node is left. -/
theorem noPlace_of_delete {th : Thread} {d : Decision srv} {p x : CString} {a : Reply}
    (h : KeepInv session s)
    (hperf : s.perform () session th d (.zoo (.zooDelete (childOf p x) (-1))) = some (a, s'))
    (hpath : (s.memory ()).lock.path = some p) (hid : (s.memory ()).lock.id = some x)
    (ha : a.rc = ZOK ∨ a.rc = ZNONODE) : NoPlace session s'.nodes := by
  intro key y hy
  have hold : OwnNode session (lockPath key) s.nodes y := ownNode_of_perform hperf
    (fun req hreq _ _ => by cases hreq; exact fun h => h) hy
  obtain ⟨hp, hname⟩ := h.record.only key y hold
  rw [hpath, Option.some.injEq] at hp
  subst hp
  obtain rfl : x = y := by
    rw [hid] at hname
    simpa using hname
  rw [World.perform_write s () session th d rfl] at hperf
  obtain ⟨b, hans, hab⟩ := World.answers_of_perform hperf rfl ha
  rw [hab, Reply.received_rc] at ha
  refine hy.2 ?_
  rcases hans.zooDelete with ⟨n, k, -, -, -, -, ht⟩ | ⟨ht, hno⟩
  · rw [ht, Function.update_self]
  · rw [ht]
    rcases hno with ⟨-, hrc⟩ | ⟨hnone, -⟩ | ⟨-, hrc⟩
    · simp [hrc] at ha
    · exact hnone
    · simp [hrc] at ha

/-- `PS_CLOSE` holds `pmutex` and has read the name and the path; there is no node left when it is
`done`. -/
structure Closing (session : Sid) (name path : Option CString) (done : Prop)
    (s : World srv Unit) : Prop where
  pmutex : s.pmutex () = some .main
  name : (s.memory ()).lock.id = name
  path : (s.memory ()).lock.path = path
  noPlace : done → NoPlace session s.nodes

/-- `PS_CLOSE` has released `pmutex`, and without a name there is no node. -/
def Released (session : Sid) (s : World srv Unit) : Prop :=
  s.pmutex () ≠ some .watcher ∧ ((s.memory ()).lock.id = none → NoPlace session s.nodes)

theorem Released.apart (h : Released session s) (hs : Apart session s s') : Released session s' :=
  ⟨hs.pmutex ▸ h.1, fun hid => (h.2 (hs.id ▸ hid)).mono hs.nodes⟩

variable {name path : Option CString} {done : Prop}

theorem Closing.apart (h : Closing session name path done s) (hs : Apart session s s') :
    Closing session name path done s' :=
  ⟨hs.pmutex.trans h.pmutex, hs.id.trans h.name, hs.path.trans h.path,
    fun hdone => (h.noPlace hdone).mono hs.nodes⟩

theorem stable_closing (o : Option Op) :
    (keepContract session .locking : Contract Op.Res (World srv Unit)).Stable o
      (Closing session name path done) := fun _ _ hr h => h.apart (hr.1 h.pmutex)

/-- An operation of `PS_CLOSE` that leaves the lock as it is. -/
theorem closing_aside {α : Type} {o : Op} {f : o.Res → Code α} {Q : α → World srv Unit → Prop}
    (ho : AsideOp o)
    (hf : ∀ r, Triple (keepContract session .locking) (Closing session name path done) (f r) Q) :
    Triple (keepContract session .locking) (Closing session name path done) ((act o).bind f) Q := by
  refine .step (fun _ => Closing session name path done) (fun _ h => h) (stable_closing _)
    (fun s r s' h hsem => ?_) hf
  obtain ⟨hapart, hinv⟩ := apart_of_aside ho hsem
  exact ⟨guar_keep_of_apart hapart hinv fun hne => absurd rfl hne, h.apart hapart⟩

/-- The loop of `zkr_lock_unlock`: when it succeeds no node is left. -/
theorem triple_unlockDelete {p x : CString} :
    Triple (keepContract session .locking : Contract Op.Res (World srv Unit))
      (Closing session (some x) (some p) False) (unlockDelete (childOf p x)) fun rc =>
        Closing session (some x) (some p) (rc = ZOK ∨ rc = ZNONODE) := by
  refine Triple.bind ((Triple.whileLoop (I := fun b : Status × ℕ =>
    Closing session (some x) (some p) (b.1 = ZOK ∨ b.1 = ZNONODE))
    (fun b _ => stable_closing none) fun b _ => ?_).pre fun s h => ?_)
    fun b => .ret fun _ h => h.1
  · refine .step (o := Op.zoo (.zooDelete (childOf p x) (-1))) (fun (a : Reply) =>
      Closing session (some x) (some p) (a.rc = ZOK ∨ a.rc = ZNONODE)) (fun _ h => h)
      (stable_closing _) (fun s a s' h hsem => ?_) fun a => ?_
    · obtain ⟨hapart, hinv⟩ := apart_of_aside (o := .zoo (.zooDelete (childOf p x) (-1))) id hsem
      obtain ⟨hinv₀, -, d, hperf⟩ := hsem
      obtain ⟨hpmutex, hname, hpath, -⟩ := h.apart hapart
      exact ⟨guar_keep_of_apart hapart hinv fun hne => absurd rfl hne, hpmutex, hname, hpath,
        noPlace_of_delete hinv₀ hperf h.path h.name⟩
    · split_ifs with ha
      · refine closing_aside (o := .nanosleep) trivial fun _ => ?_
        exact .ret fun _ h => h
      · exact .ret fun _ h => h
  · exact ⟨h.pmutex, h.name, h.path, by simp⟩

/-- The end of `zkr_lock_unlock`. -/
theorem triple_released (hname : name = none → done) (ret : Status) :
    Triple (keepContract session .locking : Contract Op.Res (World srv Unit))
      (Closing session name path done) ((act .pthreadMutexUnlock).bind fun _ => .ret ret)
      fun _ => Released session := by
  refine .step (fun _ => Released session) (fun _ h => h) (stable_closing _)
    (fun s r s' h hsem => ?_) fun _ => .ret fun _ h => h
  obtain ⟨hg, hpmutex, honly⟩ := unlock_keep h.pmutex hsem
  refine ⟨hg, by simp [hpmutex], fun hid => ?_⟩
  rw [honly.nodes]
  exact h.noPlace (hname (by rw [← h.name, ← honly.id, hid]))

/-- `zkr_lock_unlock` forgets the name, when no node is left. -/
theorem triple_clearId {p x : CString} :
    Triple (keepContract session .locking : Contract Op.Res (World srv Unit))
      (Closing session (some x) (some p) True) (do
        callCompletion 1
        store (.lockId none)
        act .pthreadMutexUnlock
        return ZOK) fun _ => Released session := by
  have hclear : Triple (keepContract session .locking : Contract Op.Res (World srv Unit))
      (Closing session (some x) (some p) True) ((act (.store (.lockId none))).bind fun _ =>
        (act .pthreadMutexUnlock).bind fun _ => .ret ZOK) fun _ => Released session := by
    refine .step (o := Op.store (.lockId none)) (fun _ => Closing session none (some p) True)
      (fun _ h => h) (stable_closing _) (fun s r s' h hsem => ?_) fun _ =>
      triple_released (fun _ => trivial) ZOK
    obtain ⟨hinv, hok, d, hperf⟩ := hsem
    have hmem := memory_of_perform hperf
    have hnodes := noNewPlace_of_perform hperf hok fun req hreq => by cases hreq
    have hinv' : KeepInv session s' := hinv.quiet hperf hok (fun req hreq => by cases hreq)
      ⟨hinv.record.path, fun key y hy => absurd hy (h.noPlace trivial key y), fun _ => rfl⟩
    refine ⟨guar_keep_of_holding h.pmutex hinv' fun hne => absurd rfl hne, ?_, ?_, ?_,
      fun _ => (h.noPlace trivial).mono hnodes⟩
    · rw [PlaceInv.pmutex_of_perform hperf]
      exact h.pmutex
    · rw [hmem]
      rfl
    · rw [hmem]
      exact h.path
  have hcall : Triple (keepContract session .locking : Contract Op.Res (World srv Unit))
      (Closing session (some x) (some p) True) (callCompletion 1)
      fun _ => Closing session (some x) (some p) True := by
    refine closing_aside (o := .load) trivial fun m => ?_
    split_ifs
    · exact closing_aside (o := .completion 1) trivial fun _ => .ret fun _ h => h
    · exact .ret fun _ h => h
  exact hcall.bind fun _ => hclear

/-- **`zkr_lock_unlock`**, of `PS_CLOSE`. -/
theorem triple_zkrLockUnlock_close :
    Triple (keepContract session .locking : Contract Op.Res (World srv Unit))
      (fun s => (s.memory ()).isLocked = true) zkrLockUnlock fun _ => Released session := by
  have hstable : (keepContract session .locking : Contract Op.Res (World srv Unit)).Stable
      (some .pthreadMutexLock) fun s => (s.memory ()).isLocked = true :=
    stable_steady (by decide) (fun s s' hsteady h => hsteady.isLocked.trans h) _
  refine .step (o := Op.pthreadMutexLock) (fun _ (s : World srv Unit) => s.pmutex () = some .main ∧
    ((s.memory ()).lock.id = none → NoPlace session s.nodes)) (fun _ h => h) hstable
    (fun s r s' h hsem => ?_) fun _ => ?_
  · obtain ⟨hg, hpmutex, honly, -⟩ := lock_keep hsem
    refine ⟨hg, hpmutex, fun hid => ?_⟩
    rw [honly.nodes]
    exact hsem.2.1.closes rfl rfl h (by rw [← honly.id, hid])
  refine .step (o := Op.load) (fun (m : PhpZookeeperSession) (s : World srv Unit) =>
    Closing session m.lock.id m.lock.path (m.lock.id = none) s) (fun _ h => h)
    (fun s s' hr h => ?_) (fun s m s' h hsem => ?_) fun m => ?_
  · obtain ⟨hpmutex, hid, -, hnodes⟩ := hr.1 h.1
    exact ⟨hpmutex.trans h.1, fun hnone => (h.2 (hid ▸ hnone)).mono hnodes⟩
  · obtain ⟨hg, rfl, rfl⟩ := load_keep hsem
    exact ⟨hg, h.1, rfl, rfl, h.2⟩
  cases m.lock.id with
  | none => exact triple_released (fun _ => rfl) _
  | some x =>
    cases m.lock.path with
    | none =>
      exact .op (K := Closing session (some x) none (some x = none)) (M := fun _ _ => False)
        (fun _ h => h) (stable_closing _) (fun _ r _ _ _ => r.elim) fun r => r.elim
    | some p =>
      refine (triple_unlockDelete.pre fun s h => ⟨h.pmutex, h.name, h.path, False.elim⟩).bind
        fun rc => ?_
      split_ifs with hrc
      · exact triple_clearId.pre fun s h => ⟨h.pmutex, h.name, h.path, fun _ => h.noPlace hrc⟩
      · exact triple_released (fun h => by cases h) _

/-- `zkr_lock_destroy`, of `PS_CLOSE`. -/
theorem triple_zkrLockDestroy :
    Triple (keepContract session .locking : Contract Op.Res (World srv Unit)) (Released session)
      zkrLockDestroy fun _ s => (s.memory ()).lock.path = none := by
  have haside : ∀ {α : Type} {o : Op} {f : o.Res → Code α} {Q : α → World srv Unit → Prop},
      AsideOp o → (∀ r, Triple (keepContract session .locking)
        (fun s => (s.memory ()).lock.path = none) (f r) Q) →
      Triple (keepContract session .locking) (fun s : World srv Unit =>
        (s.memory ()).lock.path = none) ((act o).bind f) Q := by
    intro α o f Q ho hf
    refine .step (fun _ s => (s.memory ()).lock.path = none) (fun _ h => h)
      (stable_path (by decide) _ _) (fun s r s' h hsem => ?_) hf
    obtain ⟨hapart, hinv⟩ := apart_of_aside ho hsem
    exact ⟨guar_keep_of_apart hapart hinv fun hne => absurd rfl hne, hapart.path.trans h⟩
  refine .step (o := Op.store .lockDestroy)
    (fun _ (s : World srv Unit) => (s.memory ()).lock.path = none) (fun _ h => h)
    (fun s s' hr h => ?_) (fun s r s' h hsem => ?_) fun _ =>
    haside (o := .pthreadMutexDestroy) trivial fun _ =>
      haside (o := .store (.lockIsOwner false)) trivial fun _ => .ret fun _ h => h
  · exact h.apart ((hr.2 (by decide)).2 _ rfl trivial h.1)
  · obtain ⟨hinv, hok, d, hperf⟩ := hsem
    have hid := hok.destroys rfl
    have hinv' : KeepInv session s' := hinv.quiet hperf hok (fun req hreq => by cases hreq)
      ⟨fun p hp => (by cases hp), fun key y hy => absurd hy (h.2 hid key y), fun _ => hid⟩
    refine ⟨guar_keep_of_free h.1 hinv', ?_⟩
    rw [memory_of_perform hperf]
    rfl

/-- **`PS_CLOSE`** leaves the worker idle. -/
theorem triple_psClose :
    Triple (keepContract session .locking : Contract Op.Res (World srv Unit)) Idle psClose
      fun _ => Idle := by
  refine .step (o := Op.load) (fun (m : PhpZookeeperSession) s =>
    Idle s ∧ (s.memory ()).isLocked = m.isLocked) (fun _ h => h)
    (stable_steady (by decide) (fun s s' hsteady h => h.steady hsteady) _)
    (fun s m s' h hsem => ?_) fun m => ?_
  · obtain ⟨hg, rfl, rfl⟩ := load_keep hsem
    exact ⟨hg, h, rfl⟩
  split_ifs with hlocked
  · refine (triple_zkrLockUnlock_close.pre fun s h => h.2.trans hlocked).bind fun _ => ?_
    refine .step (o := Op.efreePath) (fun _ => Released session) (fun _ h => h)
      (fun s s' hr h => h.apart ((hr.2 (by decide)).2 _ rfl trivial h.1))
      (fun s r s' h hsem => ?_) fun _ => triple_zkrLockDestroy.bind fun _ => ?_
    · obtain ⟨hapart, hinv⟩ := apart_of_aside (o := .efreePath) trivial hsem
      exact ⟨guar_keep_of_apart hapart hinv fun hne => absurd rfl hne, h.apart hapart⟩
    refine .step (o := Op.store (.isLocked false)) (fun _ => Idle) (fun _ h => h)
      (stable_path (by decide) none _) (fun s r s' h hsem => ?_) fun _ => .ret fun _ h => h
    obtain ⟨hapart, hinv⟩ := apart_of_aside (o := .store (.isLocked false)) trivial hsem
    exact ⟨guar_keep_of_apart hapart hinv fun hne => absurd rfl hne,
      fun _ => hapart.path.trans h⟩
  · exact .ret fun _ h => h.1

end Close

/-! ### The threads -/

/-- The callbacks that use the lock. -/
def Callback.Locks : Callback → Prop
  | .psRead g _ => g.sessionLock = true
  | .psClose => True
  | _ => False

instance instDecidableLocks (cb : Callback) : Decidable cb.Locks := by
  cases cb <;> unfold Callback.Locks <;> infer_instance

section Threads

variable {session : Sid}

/-- The role of the main thread. -/
def Callback.role (cb : Callback) : Role := if cb.Locks then .locking else .plain

/-- A callback that does not use the lock. -/
theorem triple_idle {cb : Callback} (hcb : ¬ cb.Locks) :
    Triple (keepContract session .plain : Contract Op.Res (World srv Unit)) Idle
      (cb.code session) fun _ => Idle := by
  have hdata : ∀ {α : Type} {p : Code α} {Q : α → Prop},
      Performs DataOp (KnownResults fun _ => True) p Q →
      Triple (keepContract session .plain : Contract Op.Res (World srv Unit)) Idle p
        fun _ => Idle := fun hp => (triple_data (by decide) hp).post fun _ _ h => h.2
  cases cb with
  | psOpen => exact .ret fun _ h => h
  | psRead g key =>
    have hg : g.sessionLock = false := Bool.eq_false_iff.mpr hcb
    simp only [Callback.code, psRead, hg, Bool.false_eq_true, if_false]
    exact hdata (dataEffects_dataOp.psReadData trivial g)
  | psWrite key val =>
    exact (hdata (dataEffects_dataOp.psWrite key val)).bind fun _ => .ret fun _ h => h
  | psDestroy key =>
    exact (hdata (dataEffects_dataOp.psDestroy key)).bind fun _ => .ret fun _ h => h
  | psGc g => exact (hdata (gcEffects_dataOp.psGc g)).bind fun _ => .ret fun _ h => h
  | psClose => exact absurd trivial hcb

/-- A callback that uses the lock: a session is only read when none is locked. -/
theorem triple_callback_locked {cb : Callback} (hcb : cb.Locks) :
    Triple (keepContract session .locking : Contract Op.Res (World srv Unit))
      (fun s => Idle s ∧ (∀ g key, cb = .psRead g key → (s.memory ()).isLocked = false))
      (cb.code session) Ended := by
  cases cb with
  | psRead g key => exact (triple_psRead_locked hcb).pre fun s h => h.1 (h.2 g key rfl)
  | psClose =>
    exact (triple_psClose.pre fun s h => h.1).bind fun _ => .ret fun _ h => .inr h
  | psOpen => exact hcb.elim
  | psWrite key val => exact hcb.elim
  | psDestroy key => exact hcb.elim
  | psGc g => exact hcb.elim

/-- What is known of a record without a path. -/
def Pathless : (o : Op) → o.Res → Prop := KnownResults fun m => m.lock.path = none

theorem not_knownPath_pathless (p : CString) : ¬ KnownPath Pathless p := by
  rintro ⟨m, hm, hpath⟩
  rw [show m.lock.path = none from hm] at hpath
  cases hpath

theorem visitEffects_pathless : VisitEffects (PlainOp session []) Pathless where
  load := trivial
  fault := trivial
  nanosleep := trivial
  completion _ := trivial
  clearId := trivial
  setIsOwner _ := trivial
  exists_ _ hp := absurd hp (not_knownPath_pathless _)
  mkdir _ _ hp := absurd hp (not_knownPath_pathless _)
  list _ hp := absurd hp (not_knownPath_pathless _)
  watch _ _ hp _ := absurd hp (not_knownPath_pathless _)
  names _ _ ha := ha.1

/-- The critical section of a lock that has no path. -/
theorem criticalRules_pathless :
    CriticalRules (keepContract session .watcher : Contract Op.Res (World srv Unit))
      (PlainOp session []) Pathless (InSection .watcher none) where
  stableIn _ _ _ hr hs := by
    obtain ⟨hpmutex, -, hpath, -⟩ := hr.1 hs.1
    exact ⟨hpmutex.trans hs.1, hpath.trans hs.2⟩
  inside o s r s' ho hs hsem := by
    obtain ⟨hinv, hok, d, hperf⟩ := hsem
    have hmem := memory_of_perform hperf
    have hround : RoundOp session [] o := .inl ho
    obtain ⟨hpmutex, hpath, hlocked⟩ := effect_roundOp hround Role.watcher.thread (s.memory ())
    have hid := (PlaceInv.effect_visitOp ho.visitOp Role.watcher.thread (s.memory ())).2.2
    have hinv' : KeepInv session s' := by
      refine hinv.quiet hperf hok (fun req hreq => ?_) ⟨?_, fun key x hx => ?_, fun _ => ?_⟩
      · subst hreq
        exact ho.1
      · rw [hpath]
        exact hinv.record.path
      · have hsome := (hinv.record.only key x hx).1
        rw [hs.2] at hsome
        cases hsome
      · rcases hid with hid | hid
        · exact hid
        · rw [hid]
          exact hinv.record.closed hs.2
    refine ⟨?_, guar_keep_of_holding hs.1 hinv' fun _ => ⟨by rw [hmem, hpath], by
      rw [hmem, hlocked]⟩, ?_, ?_⟩
    · cases o with
      | load =>
        obtain rfl := congrArg Prod.fst (Option.some.inj hperf)
        exact hs.2
      | zoo req => exact knownReply_of_perform hperf
      | _ => trivial
    · rw [PlaceInv.pmutex_of_perform hperf, hpmutex]
      exact hs.1
    · rw [hmem, hpath]
      exact hs.2

/-- Without a path `zkr_lock_operation` does not come to its `create`. -/
theorem zkrLockRound_pathless {path : Option CString} (hp : ∀ p ∈ path, KnownPath Pathless p) :
    Triple (keepContract session .watcher : Contract Op.Res (World srv Unit))
      (InSection .watcher none) (zkrLockRound session path) fun _ => InSection .watcher none := by
  cases path with
  | some p => exact absurd (hp p rfl) (not_knownPath_pathless p)
  | none =>
    have hlist : Triple (keepContract session .watcher : Contract Op.Res (World srv Unit))
        (InSection .watcher none) (retryGetchildren none 3) fun a s =>
          InSection .watcher none s ∧ a.rc ≠ ZOK :=
      criticalRules_pathless.retryRequest visitEffects_pathless.toBaseEffects
        (fun a s h => h.1) (fun a s ha h => ⟨h, by simp [ha]⟩) (.ret fun s h => ⟨h, by simp⟩)
    refine hlist.bind fun a => ?_
    by_cases ha : a.rc = ZOK
    · exact Triple.of_false fun s h => h.2 ha
    · rw [if_pos ha]
      exact .ret fun s h => h.1

/-- **`lock_watcher_fn`** -/
theorem triple_lockWatcherFn :
    Triple (keepContract session .watcher : Contract Op.Res (World srv Unit)) (fun _ => True)
      (lockWatcherFn session) fun _ _ => True := by
  have hend : ∀ path, Triple (keepContract session .watcher : Contract Op.Res (World srv Unit))
      (InSection .watcher path) ((act .pthreadMutexUnlock).bind fun _ => zkrLockIsowner)
      fun _ _ => True := by
    intro path
    refine .step (o := Op.pthreadMutexUnlock) (fun _ _ => True) (fun _ h => h) (fun s s' hr h => ?_)
      (fun s r s' h hsem => ⟨(unlock_keep h.1 hsem).1, trivial⟩) fun _ =>
      .step (o := Op.load) (fun _ _ => True) (fun _ _ => trivial) (Contract.Stable.true _)
        (fun s m s' _ hsem => ⟨(load_keep hsem).1, trivial⟩) fun _ => .ret fun _ _ => trivial
    obtain ⟨hpmutex, -, hpath, -⟩ := hr.1 h.1
    exact ⟨hpmutex.trans h.1, hpath.trans h.2⟩
  have hlock : Triple (keepContract session .watcher : Contract Op.Res (World srv Unit))
      (fun _ => True) (zkrLockLock session) fun _ _ => True := by
    refine .step (o := Op.pthreadMutexLock) (fun _ s => ∃ key : Option CString,
      InSection .watcher (key.map lockPath) s) (fun _ h => h) (Contract.Stable.true _)
      (fun s r s' _ hsem => ?_) fun _ => Triple.exists_pre fun key => ?_
    · obtain ⟨hg, hpmutex, -, hinv⟩ := lock_keep hsem
      refine ⟨hg, ?_⟩
      cases hpath : (s'.memory ()).lock.path with
      | none => exact ⟨none, hpmutex, hpath⟩
      | some p =>
        obtain ⟨key, rfl⟩ := hinv.record.path p hpath
        exact ⟨some key, hpmutex, hpath⟩
    · cases key with
      | none =>
        exact criticalRules_pathless.lockedPart visitEffects_pathless
          (fun _ hp => zkrLockRound_pathless hp) (hend none)
      | some key =>
        have hround : RoundContract session (lockPath key) Role.watcher.thread
            (keepContract session .watcher : Contract Op.Res (World srv Unit))
            (InSection .watcher (some (lockPath key))) := roundContract_keep key
        exact hround.criticalRules.lockedPart PlaceInv.visitEffects_plainOp
          (fun _ hp => hround.zkrLockRound hp) (hend (some (lockPath key)))
  exact hlock.bind fun _ => .ret fun _ _ => trivial

end Threads

end PhpZookeeper
