import PhpZookeeper.Theory.Interactive
import PhpZookeeper.Server.Service

/-!
# The memory of a worker, and what its threads do

A worker has one session record (`php_zookeeper_session`), in the persistent list of its PHP
process, with the lock of the session inside. Two threads use it: the main thread, which runs
the callbacks of PHP's session module, and the thread of the client library that runs
`lock_watcher_fn` when a watch fires. Each access of a thread to the record, each request to
the service and each call of the thread library is one operation (`Op`), between which the
other thread, and other workers, may act.

The handles `session->zk` and `mutex->zh` are the worker's one connection, and are left out.
-/

namespace PhpZookeeper

open Theory Prog

/-- The threads of a worker. -/
inductive Thread where
  | main
  /-- The thread that runs `lock_watcher_fn`. -/
  | watcher
  deriving DecidableEq, Repr

/-- `zkr_lock_mutex_t`: a `NULL` pointer is `none`. -/
structure ZkrLockMutex where
  path : Option CString := none
  acl : Option Acl := none
  /-- The name of the node this client has in the queue. -/
  id : Option CString := none
  /-- The name of the first node of the queue, when it was last listed. -/
  ownerid : Option CString := none
  isOwner : Bool := false
  /-- Whether there is a completion to call. -/
  completion : Bool := false
  /-- The thread that holds `pmutex`. -/
  pmutex : Option Thread := none
  deriving DecidableEq, Repr, Inhabited

/-- `php_zookeeper_session`, all zero when it is allocated. -/
structure PhpZookeeperSession where
  lock : ZkrLockMutex := {}
  isLocked : Bool := false
  path : CString := []
  deriving DecidableEq, Repr, Inhabited

/-- The assignments the code makes to the session record. -/
inductive Assign where
  /-- `session->path`, by `snprintf` -/
  | path (p : CString)
  /-- `session->is_locked = b` -/
  | isLocked (b : Bool)
  /-- `mutex->id = id` -/
  | lockId (id : Option CString)
  /-- `mutex->ownerid = ownerid` -/
  | lockOwnerid (ownerid : Option CString)
  /-- `mutex->isOwner = b` -/
  | lockIsOwner (b : Bool)
  /-- The assignments of `zkr_lock_init` -/
  | lockInit (path : CString) (acl : Option Acl)
  /-- The first assignments of `zkr_lock_destroy`: `path`, `acl` and `completion` to `NULL` -/
  | lockDestroy
  deriving DecidableEq, Repr

/-- The effect of an assignment. -/
def Assign.apply : Assign → PhpZookeeperSession → PhpZookeeperSession
  | .path p, m => { m with path := p }
  | .isLocked b, m => { m with isLocked := b }
  | .lockId id, m => { m with lock := { m.lock with id := id } }
  | .lockOwnerid o, m => { m with lock := { m.lock with ownerid := o } }
  | .lockIsOwner b, m => { m with lock := { m.lock with isOwner := b } }
  | .lockInit p acl, m =>
    { m with lock := { path := some p, acl := acl, pmutex := m.lock.pmutex } }
  | .lockDestroy, m =>
    { m with lock := { m.lock with path := none, acl := none, completion := false } }

/-- What a thread does between two moments at which others may act. -/
inductive Op where
  /-- A synchronous request to the service. -/
  | zoo (r : Req)
  /-- Reads the session record. -/
  | load
  /-- Writes the session record. -/
  | store (a : Assign)
  | pthreadMutexInit
  | pthreadMutexLock
  | pthreadMutexUnlock
  | pthreadMutexDestroy
  | nanosleep
  | usleep (usec : ℤ)
  /-- `efree(session->lock.path)`, which leaves the pointer in the record. -/
  | efreePath
  /-- `mutex->completion(rc, mutex->cbdata)` -/
  | completion (rc : ℕ)
  /-- An access outside the memory the code owns. -/
  | fault
  deriving DecidableEq, Repr

/-- The result of an operation; nothing is promised of a program that has made a `fault`. -/
abbrev Op.Res : Op → Type
  | .zoo _ => Reply
  | .load => PhpZookeeperSession
  | .fault => Empty
  | _ => Unit

/-- What an operation of the thread `th` does to its worker's record. -/
def Op.effect (th : Thread) : Op → PhpZookeeperSession → PhpZookeeperSession
  | .store a, m => a.apply m
  | .pthreadMutexInit, m => { m with lock := { m.lock with pmutex := none } }
  | .pthreadMutexLock, m => { m with lock := { m.lock with pmutex := some th } }
  | .pthreadMutexUnlock, m => { m with lock := { m.lock with pmutex := none } }
  | _, m => m

/-- The operations of `PS_CLOSE` with which the lock ends: its path is freed, and `zkr_lock_destroy`
runs. -/
def Op.EndsLock : Op → Prop
  | .efreePath | .store .lockDestroy => True
  | _ => False

instance : DecidablePred Op.EndsLock := fun o => by
  unfold Op.EndsLock
  split <;> infer_instance

/-- The code of a worker. -/
abbrev Code (α : Type) := Prog Op.Res α

/-- Ends in undefined behaviour. -/
def fault {α : Type} : Code α := .op .fault Empty.elim

/-- One operation. -/
abbrev act (o : Op) : Code o.Res := perform o

/-- A request. -/
abbrev zoo (r : Req) : Code Reply := act (.zoo r)

/-- Reads the session record. -/
abbrev load : Code PhpZookeeperSession := act .load

/-- An assignment to the session record. -/
abbrev store (a : Assign) : Code Unit := act (.store a)

/-- A request whose path may be `NULL`, which the client library answers itself. -/
def zooPath (path : Option CString) (r : CString → Req) : Code Reply :=
  match path with
  | none => .ret { rc := .ZBADARGUMENTS }
  | some p => zoo (r p)

end PhpZookeeper
