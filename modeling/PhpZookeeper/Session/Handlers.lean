import PhpZookeeper.Lock.ZooLock

/-!
# `php_zookeeper_session.c`

The callbacks of PHP's session module. The connection and the settings of a worker do not
change while it runs a callback; they are its arguments (`Globals`).
-/

namespace PhpZookeeper

open Theory Prog Status

/-- `PHP_ZK_PARENT_NODE` -/
def phpZkParentNode : CString := "/php-sessid".toList

/-- `PHP_ZK_SESS_DEFAULT_LOCK_WAIT`, in microseconds. -/
def phpZkSessDefaultLockWait : ℤ := 150000

/-- `PHP_ZK_SESS_LOCK_EXPIRATION`, in seconds. -/
def phpZkSessLockExpiration : ℤ := 30

/-- The settings the callbacks read. -/
structure Globals where
  /-- `ZK_G(session_lock)` -/
  sessionLock : Bool := true
  /-- `ZK_G(sess_lock_wait)` -/
  sessLockWait : ℤ := 150000
  /-- The setting `max_execution_time`. -/
  maxExecutionTime : ℤ := 30
  /-- `PS(gc_maxlifetime)` -/
  gcMaxlifetime : ℤ := 1440
  /-- `SG(global_request_time)` -/
  globalRequestTime : ℤ := 0
  deriving DecidableEq, Repr

/-- How a callback ends. -/
inductive Outcome (α : Type) where
  | success (a : α)
  | failure
  /-- `php_error_docref` with `E_ERROR`, which does not return. -/
  | error (message : String)
  deriving DecidableEq, Repr

/-- `snprintf(path, 512, "%s/%s", PHP_ZK_PARENT_NODE, key)` -/
def sessionPath (key : CString) : CString := (childOf phpZkParentNode key).take 511

/-- `spprintf(&lock_path, 512 + 5, "%s/%s-lock", PHP_ZK_PARENT_NODE, key)` -/
def lockPath (key : CString) : CString :=
  (childOf phpZkParentNode (key ++ "-lock".toList)).take 517

/-- `expiration_time`, in milliseconds. -/
def Globals.expirationTime (g : Globals) : ℤ := (g.globalRequestTime - g.gcMaxlifetime) * 1000

/-- The loops `do { status = …; retry_count++; } while (status == ZCONNECTIONLOSS &&
retry_count--)` that begin with `retry_count = 3`: `request` may depend on the last status. -/
def retryLoop (request : Status → Req) (status : Status) : Code Reply :=
  loop (fun s : Status × ℤ => do
    let a ← zoo (request s.1)
    let retryCount := s.2 + 1
    if a.rc = ZCONNECTIONLOSS ∧ retryCount ≠ 0 then
      return .inl (a.rc, retryCount - 1)
    else
      return .inr a) (status, 3)

/-- `php_zookeeper_session_init`, after `zookeeper_init` has given a handle or `NULL`. -/
def phpZookeeperSessionInit (zk : Bool) : Code (Outcome Unit) := do
  if !zk then
    return .failure
  else
    let a ← zoo (.zooExists phpZkParentNode)
    if a.rc = ZNONODE then
      let b ← retryLoop (fun _ => .zooCreate phpZkParentNode none (some .zooOpenAclUnsafe) {} 0)
        a.rc
      if b.rc ≠ ZOK then
        return .error "Failed to create parent node for sessions"
      else
        return .success ()
    else
      return .success ()

/-- The loop of `php_zookeeper_sess_lock`: `zkr_lock_lock` until it has the lock, `attempts`
times, `lock_wait` apart. -/
def lockAttempts (session : Sid) (lockWait attempts : ℤ) : Code Bool :=
  loop (fun attempts => do
    let owner ← zkrLockLock session
    if owner then
      store (.isLocked true)
      return .inr true
    else
      if lockWait > 0 then
        act (.usleep lockWait)
        return if attempts - 1 > 0 then .inl (attempts - 1) else .inr false
      else
        return if attempts - 1 > 0 then .inl (attempts - 1) else .inr false) attempts

/-- `lock_maxwait`, in seconds. -/
def Globals.lockMaxwait (g : Globals) : ℤ :=
  if g.maxExecutionTime ≤ 0 then phpZkSessLockExpiration else g.maxExecutionTime

/-- `lock_wait`, in microseconds. -/
def Globals.lockWait (g : Globals) : ℤ :=
  if g.sessLockWait = 0 then phpZkSessDefaultLockWait else g.sessLockWait

/-- `attempts`; a `long` has 64 bits. -/
def Globals.attempts (g : Globals) : ℤ :=
  (Int.bmod (g.lockMaxwait * 1000000) (2 ^ 64)).tdiv g.lockWait

/-- `php_zookeeper_sess_lock` -/
def phpZookeeperSessLock (session : Sid) (g : Globals) (key : CString) : Code Bool := do
  let ret ← zkrLockInit (lockPath key) (some .zooOpenAclUnsafe)
  if ret ≠ 0 then
    return false
  else
    lockAttempts session g.lockWait g.attempts

/-- `PS_OPEN`, when the connection is in the persistent list. -/
def psOpen : Code (Outcome Unit) := return .success ()

/-- `PS_READ`, after the lock. -/
def psReadData (g : Globals) (key : CString) : Code (Outcome (Option Bytes)) := do
  store (.path (sessionPath key))
  let s ← load
  let a ← retryLoop (fun _ => .zooExists s.path) ZOK
  if a.rc ≠ ZOK then
    return .failure
  else
    -- the session has expired
    if a.stat.mtime < g.expirationTime then
      let s ← load
      let _ ← retryLoop (fun _ => .zooDelete s.path (-1)) a.rc
      return .failure
    else
      let s ← load
      let b ← retryLoop (fun _ => .zooGet s.path a.stat.dataLength) a.rc
      if b.rc ≠ ZOK then
        return .failure
      else
        return .success b.value

/-- `PS_READ`: the data of the session, `none` for a length of -1. -/
def psRead (session : Sid) (g : Globals) (key : CString) : Code (Outcome (Option Bytes)) := do
  if g.sessionLock then
    let locked ← phpZookeeperSessLock session g key
    if !locked then
      return .error "Failed to create session mutex"
    else
      psReadData g key
  else
    psReadData g key

/-- `PS_WRITE`; it has a key, which it does not look at. -/
def psWrite (_key : CString) (val : Bytes) : Code (Outcome Unit) := do
  let s ← load
  let a ← retryLoop (fun _ => .zooExists s.path) ZOK
  let b ← retryLoop (fun status =>
    if status ≠ ZOK then .zooCreate s.path (some val) (some .zooOpenAclUnsafe) {} 0
    else .zooSet s.path val (-1)) a.rc
  if b.rc = ZOK then return .success () else return .failure

/-- `PS_DESTROY`; it has a key, which it does not look at. -/
def psDestroy (_key : CString) : Code (Outcome Unit) := do
  let s ← load
  let a ← retryLoop (fun _ => .zooDelete s.path (-1)) ZOK
  if a.rc = ZOK then return .success () else return .failure

/-- One child of the parent node, in `PS_GC`. -/
def gcNode (expirationTime : ℤ) (name : CString) : Code Unit := do
  let a ← zoo (.zooExists (sessionPath name))
  if a.rc = ZOK then
    if a.stat.mtime < expirationTime then
      let _ ← zoo (.zooDelete (sessionPath name) (-1))
      return ()
    else
      return ()
  else
    return ()

/-- The loop of `PS_GC` over the children of the parent node. -/
def gcNodes (expirationTime : ℤ) : List CString → Code Unit
  | [] => return ()
  | name :: names => do
    gcNode expirationTime name
    gcNodes expirationTime names

/-- `PS_GC` -/
def psGc (g : Globals) : Code (Outcome Unit) := do
  let a ← zoo (.zooGetChildren phpZkParentNode)
  if a.rc = ZOK then
    gcNodes g.expirationTime a.strings
    return .success ()
  else
    return .success ()

/-- `PS_CLOSE` -/
def psClose : Code (Outcome Unit) := do
  let s ← load
  if s.isLocked then
    let _ ← zkrLockUnlock
    act .efreePath
    let _ ← zkrLockDestroy
    store (.isLocked false)
    return .success ()
  else
    return .success ()

end PhpZookeeper
