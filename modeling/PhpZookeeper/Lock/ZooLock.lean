import PhpZookeeper.Lock.Mutex
import Mathlib.Data.List.Sort

/-!
# `zoo_lock.c`

The lock recipe: a client makes an ephemeral sequence node in the lock directory, and owns the
lock when its node is the first of the queue. Each function is the source's, statement by
statement; a bounded `while` is a `whileLoop`, the others are `loop`s.
-/

namespace PhpZookeeper

open Theory Prog Status

/-! ### Lists of children -/

/-- `vstrcmp`: the part of each name after its last `-`, or `none` where `strrchr` gives
`NULL`. -/
def vstrcmp (a b : CString) : Option Ordering :=
  match afterLast '-' a, afterLast '-' b with
  | some x, some y => some (strcmp x y)
  | _, _ => none

/-- `a` may stand before `b` in a list that `sort_children` has sorted. -/
def vstrcmpLe (a b : CString) : Bool := vstrcmp a b != some .gt

/-- `sort_children`; `none` when it hands `vstrcmp` a name without `-`. -/
def sortChildren (vector : List CString) : Option (List CString) :=
  if 2 ≤ vector.length && vector.any (fun x => (afterLast '-' x).isNone) then none
  else some (vector.insertionSort fun a b => vstrcmpLe a b)

/-- `child_floor`: the last name that `strcmp` finds less than `element`. -/
def childFloor (sortedData : List CString) (element : CString) : Option CString :=
  (sortedData.filter fun x => strcmp x element == .lt).getLast?

/-- `getName`: the last name of the path. -/
def getName (str : CString) : Option CString := afterLast '/' str

/-- `lookupnode`: the first child whose name starts with `pre`. -/
def lookupnode (vector : List CString) (pre : CString) : Option CString :=
  vector.find? fun child => pre.isPrefixOf child

/-- `snprintf(prefix, 30, "x-%016lx-", session)` -/
def lockPrefix (session : Sid) : CString :=
  (['x', '-'] ++ fixedDigits 16 16 session.val ++ ['-']).take 29

/-! ### Requests with retries -/

/-- A request made again while the connection is lost, at most `retry` times; `nanosleep`
between. `retry_getchildren` and `retry_zoowexists` are this, with their own requests. -/
def retryRequest (path : Option CString) (r : CString → Req) (retry : ℕ) : Code Reply := do
  let s ← whileLoop (fun s : Reply × ℕ => s.1.rc = ZCONNECTIONLOSS && s.2 < retry)
    (fun s => do
      let a ← zooPath path r
      if a.rc = ZCONNECTIONLOSS then
        act .nanosleep
        return (a, s.2 + 1)
      else
        return (a, s.2))
    ({ rc := ZCONNECTIONLOSS }, 0)
  return s.1

/-- `retry_getchildren` -/
def retryGetchildren (path : Option CString) (retry : ℕ) : Code Reply :=
  retryRequest path .zooGetChildren retry

/-- `retry_zoowexists` -/
def retryZoowexists (path : CString) (retry : ℕ) : Code Reply :=
  retryRequest (some path) .zooWexists retry

/-! ### The lock -/

/-- `zkr_lock_init` -/
def zkrLockInit (path : CString) (acl : Option Acl) : Code ℤ := do
  store (.lockInit path acl)
  act .pthreadMutexInit
  return 0

/-- `zkr_lock_isowner`, of the record it reads. -/
def ZkrLockMutex.isowner (mutex : ZkrLockMutex) : Bool :=
  match mutex.id, mutex.ownerid with
  | some id, some ownerid => strcmp id ownerid == .eq
  | _, _ => false

/-- `zkr_lock_isowner` -/
def zkrLockIsowner : Code Bool := do
  let s ← load
  return s.lock.isowner

/-- `if (mutex->completion != NULL) mutex->completion(rc, mutex->cbdata)` -/
def callCompletion (rc : ℕ) : Code Unit := do
  let s ← load
  if s.lock.completion then act (.completion rc) else return ()

/-- The loop of `zkr_lock_unlock`: `delete` the node while the connection is lost, three times
at most. -/
def unlockDelete (buf : CString) : Code Status := do
  let s ← whileLoop (fun s : Status × ℕ => s.1 = ZCONNECTIONLOSS && s.2 < 3)
    (fun s => do
      let a ← zoo (.zooDelete buf (-1))
      if a.rc = ZCONNECTIONLOSS then
        act .nanosleep
        return (a.rc, s.2 + 1)
      else
        return (a.rc, s.2))
    (ZCONNECTIONLOSS, 0)
  return s.1

/-- `zkr_lock_unlock` -/
def zkrLockUnlock : Code Status := do
  act .pthreadMutexLock
  let s ← load
  match s.lock.id with
  | some id =>
    match s.lock.path with
    | some path =>
      let ret ← unlockDelete (childOf path id)
      if ret = ZOK ∨ ret = ZNONODE then
        callCompletion 1
        store (.lockId none)
        act .pthreadMutexUnlock
        return ZOK
      else
        act .pthreadMutexUnlock
        return ZCONNECTIONLOSS
    | none => fault
  | none =>
    act .pthreadMutexUnlock
    return ZSYSTEMERROR

/-- The way out of `zkr_lock_operation` when the predecessor cannot be watched. -/
def giveUp : Code Status := do
  let ret ← zkrLockUnlock
  loop (fun ret => if ret = ZOK then do
      let ret ← zkrLockUnlock
      return .inl ret
    else
      return .inr ret) ret

/-- The part of `zkr_lock_operation` after `ownerid` has been set: the client is first of the
queue, or behind the node it is to watch. -/
def takePlace (sorted : List CString) (ownerId : CString) : Code Status := do
  let s ← load
  match s.lock.id with
  | some id =>
    match childFloor sorted id with
    | some lessthanme =>
      match s.lock.path with
      | some path =>
        let a ← retryZoowexists (childOf path lessthanme) 3
        if a.rc ≠ ZOK then
          giveUp
        else
          store (.lockIsOwner false)
          return ZOK
      | none => fault
    | none =>
      if strcmp id ownerId = .eq then
        store (.lockIsOwner true)
        callCompletion 0
        return ZOK
      else
        return ZOK
  | none => fault

/-- The part of `zkr_lock_operation` that finds the client's place in the list of children. -/
def findPlace (vector : List CString) : Code Status := do
  match sortChildren vector with
  | some (ownerId :: rest) =>
    store (.lockOwnerid (some ownerId))
    takePlace (ownerId :: rest) ownerId
  -- no child at all, or a name without `-` in a list of several
  | _ => fault

/-- The part of `zkr_lock_operation` that makes the client's node, when it has none. The
`create` is not made again, so as not to make two. -/
def createNode (session : Sid) (path : Option CString) : Code Status := do
  match path with
  | some path =>
    let len := path.length + (lockPrefix session).length + 2
    let buf := (childOf path (lockPrefix session)).take (len - 1)
    let s ← load
    let a ← zoo (.zooCreate buf none s.lock.acl { ephemeral := true, sequence := true } (len + 20))
    if a.rc ≠ ZOK then
      return a.rc
    else
      store (.lockId (getName a.realPath))
      return ZOK
  | none => fault

/-- The client's node: the one in the list of children, or a new one. -/
def lookupOrCreate (session : Sid) (path : Option CString) (vector : List CString) :
    Code Status := do
  store (.lockId (lookupnode vector (lockPrefix session)))
  let s ← load
  if s.lock.id.isSome then return ZOK else createNode session path

/-- One round of `zkr_lock_operation`: `inl` when there is to be another, `inr` of what it
returns. The source reads `session` anew, by `zoo_client_id`: it is 0 until the handle has connected
for the first time, and stays the same from then on. -/
def zkrLockRound (session : Sid) (path : Option CString) : Code (Unit ⊕ Status) := do
  let a ← retryGetchildren path 3
  if a.rc ≠ ZOK then
    return .inr a.rc
  else
    let ret ← lookupOrCreate session path a.strings
    if ret ≠ ZOK then
      return .inr ret
    else
      let s ← load
      if s.lock.id.isSome then
        let a ← retryGetchildren path 3
        if a.rc ≠ ZOK then
          return .inr a.rc
        else
          let ret ← findPlace a.strings
          return .inr ret
      else
        return .inl ()

/-- `zkr_lock_operation` -/
def zkrLockOperation (session : Sid) : Code Status := do
  let s ← load
  loop (fun _ : Unit => zkrLockRound session s.lock.path) ()

/-- One more try of `zkr_lock_lock` for its directory: `exists` again, or `create` when there is
none. -/
def retryDirectory (path : Option CString) (status : Status) : Code Reply := do
  if status = ZCONNECTIONLOSS then
    zooPath path .zooExists
  else
    let s ← load
    zooPath path fun p => .zooCreate p none s.lock.acl {} 0

/-- The first loop of `zkr_lock_lock`: makes the lock directory, if there is none. -/
def makeDirectory (path : Option CString) : Code Unit := do
  let a ← zooPath path .zooExists
  let _ ← whileLoop
    (fun s : Status × ℕ => (s.1 = ZCONNECTIONLOSS || s.1 = ZNONODE) && s.2 < 4)
    (fun s => do
      let a ← retryDirectory path s.1
      act .nanosleep
      return (a.rc, s.2 + 1))
    (a.rc, 0)
  return ()

/-- The second loop of `zkr_lock_lock`: `zkr_lock_operation` until it succeeds, four times at
most. -/
def tryOperation (session : Sid) : Code Unit := do
  let _ ← whileLoop (fun s : Status × ℕ => s.1 ≠ ZOK && s.2 < 4)
    (fun s => do
      let ret ← zkrLockOperation session
      if ret ≠ ZOK then
        act .nanosleep
        return (ret, s.2 + 1)
      else
        return (ret, s.2))
    (ZCONNECTIONLOSS, 0)
  return ()

/-- `zkr_lock_lock` -/
def zkrLockLock (session : Sid) : Code Bool := do
  act .pthreadMutexLock
  let s ← load
  makeDirectory s.lock.path
  tryOperation session
  act .pthreadMutexUnlock
  zkrLockIsowner

/-- `lock_watcher_fn` -/
def lockWatcherFn (session : Sid) : Code Unit := do
  let _ ← zkrLockLock session
  return ()

/-- `zkr_lock_destroy` -/
def zkrLockDestroy : Code ℤ := do
  store .lockDestroy
  act .pthreadMutexDestroy
  store (.lockIsOwner false)
  return 0

end PhpZookeeper
