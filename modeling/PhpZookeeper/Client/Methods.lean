import PhpZookeeper.Server.Service
import PhpZookeeper.Theory.Interactive

/-!
# `php_zookeeper.c`

The methods of the class `Zookeeper` that ask for a version, a length or a callback, the functions
that keep the callbacks, and the two that the client library calls. The arguments are those that
`zend_parse_parameters` has accepted: a callback that is not given is `none` (`fci.size == 0`), and
so is a `NULL` value. Each call of PHP, of the client library, and each access to a record that can
outlive the call is one operation (`ExtOp`).
-/

namespace PhpZookeeper

open Theory Prog Status

/-! ### Values -/

/-- A PHP callable: `zend_fcall_info` and its cache. -/
abbrev Callable := ℕ

/-- A PHP string: its length is an `int`. -/
abbrev PhpString := { s : Bytes // s.length < 2 ^ 31 }

/-- A `php_cb_data_t *`, a `zhandle_t *` and an object, by the order in which they are made. -/
abbrev Ptr := ℕ

/-- `php_cb_data_t` -/
structure CbData where
  fci : Callable
  oneshot : Bool
  h : ℕ
  deriving DecidableEq, Repr

/-- `php_zk_t` -/
structure ZkObject where
  zk : Option Ptr := none
  cbData : Option Ptr := none
  deriving DecidableEq, Repr, Inhabited

/-- `struct Stat` -/
structure FullStat where
  czxid : Int64 := 0
  mzxid : Int64 := 0
  ctime : Int64 := 0
  mtime : Int64 := 0
  version : Int32 := 0
  cversion : Int32 := 0
  aversion : Int32 := 0
  ephemeralOwner : Int64 := 0
  dataLength : Int32 := 0
  numChildren : Int32 := 0
  pzxid : Int64 := 0
  deriving DecidableEq, Repr, Inhabited

/-- An entry of an array that `php_stat_to_array` fills. -/
inductive StatValue where
  /-- `add_assoc_double_ex`: the number is converted to a `double`. -/
  | double (n : Int64)
  /-- `add_assoc_long_ex` -/
  | long (n : Int32)
  deriving DecidableEq, Repr

/-- `php_stat_to_array` -/
def phpStatToArray (stat : FullStat) : List (String × StatValue) :=
  [("czxid", .double stat.czxid), ("mzxid", .double stat.mzxid), ("ctime", .double stat.ctime),
    ("mtime", .double stat.mtime), ("version", .long stat.version),
    ("cversion", .long stat.cversion), ("aversion", .long stat.aversion),
    ("ephemeralOwner", .double stat.ephemeralOwner), ("dataLength", .long stat.dataLength),
    ("numChildren", .long stat.numChildren), ("pzxid", .double stat.pzxid)]

/-- What a method returns. -/
inductive Zval where
  | null
  | bool (b : Bool)
  | string (s : Bytes)
  /-- An array of strings. -/
  | strings (l : List CString)
  | stat (a : List (String × StatValue))
  deriving DecidableEq, Repr

/-- The return value of a method, and what it has stored in `stat_info`, if anything. -/
structure MethodResult where
  value : Zval
  statInfo : Option (List (String × StatValue)) := none
  deriving DecidableEq, Repr

/-- An entry of an access control list. -/
structure AclEntry where
  perms : Int32
  scheme : CString
  id : CString
  deriving DecidableEq, Repr

/-- The reply to a request that gives a `struct Stat`. -/
structure StatReply where
  rc : Status
  stat : FullStat := {}
  deriving DecidableEq, Repr

/-- What `zoo_wget` leaves in the variables of its caller. -/
structure GetReply where
  rc : Status
  /-- The bytes stored in the buffer. -/
  buffer : Bytes := []
  length : Int32
  stat : FullStat := {}
  deriving DecidableEq, Repr

/-- The reply to `zoo_wget_children`. -/
structure ChildrenReply where
  rc : Status
  strings : List CString := []
  deriving DecidableEq, Repr

/-! ### Operations -/

/-- What the extension does between two moments at which something else may happen. -/
inductive ExtOp where
  /-- `php_cb_data_new` -/
  | phpCbDataNew (fci : Callable) (oneshot : Bool)
  /-- `php_cb_data_destroy(&cb_data)` -/
  | phpCbDataDestroy (entry : Option Ptr)
  /-- `zend_hash_index_del(&ZK_G(callbacks), h)` -/
  | zendHashIndexDel (h : ℕ)
  /-- `zend_hash_clean(&ZK_G(callbacks))` -/
  | zendHashClean
  /-- Reads a callback record. -/
  | readCbData (p : Ptr)
  /-- `zend_call_function` -/
  | zendCallFunction (fci : Callable)
  /-- Reads the fields of an object. -/
  | readObject (object : Ptr)
  /-- `i_obj->zk = zk` -/
  | writeZk (object : Ptr) (zk : Ptr)
  /-- `i_obj->cb_data = cb_data` -/
  | writeCbData (object : Ptr) (cbData : Option Ptr)
  /-- `efree(i_obj)` -/
  | efreeObject (object : Ptr)
  /-- `zookeeper_init`, with `php_zk_watcher_marshal` or `NULL`, and a context. -/
  | zookeeperInit (watcher : Bool) (context : Option Ptr)
  | zookeeperClose (zk : Ptr)
  /-- `zoo_set_watcher(zk, php_zk_watcher_marshal)` -/
  | zooSetWatcher (zk : Ptr)
  /-- `zoo_exists(zk, path, 1, &stat)` -/
  | zooExists (zk : Ptr) (path : CString)
  /-- `zoo_wexists`; the watcher is `php_zk_watcher_marshal` when there is a context. -/
  | zooWexists (zk : Ptr) (path : CString) (context : Option Ptr)
  | zooWget (zk : Ptr) (path : CString) (context : Option Ptr) (length : Int32)
  | zooWgetChildren (zk : Ptr) (path : CString) (context : Option Ptr)
  /-- `zoo_set2`; a `NULL` value is `none`. -/
  | zooSet2 (zk : Ptr) (path : CString) (value : Option Bytes) (version : Int32)
  | zooDelete (zk : Ptr) (path : CString) (version : Int32)
  | zooSetAcl (zk : Ptr) (path : CString) (version : Int32) (acl : List AclEntry)
  | zooAddAuth (zk : Ptr) (scheme cert : Bytes) (context : Option Ptr)
  | emalloc (size : ℤ)
  /-- `buffer[i] = 0` -/
  | terminate (i : ℤ)
  /-- `ZVAL_NULL(object)`: the caller's variable is `NULL` from then on. -/
  | zvalNull (object : Ptr)
  /-- `php_error_docref` with `E_WARNING` -/
  | warning (message : String)
  /-- `php_error_docref(NULL, E_WARNING, "error: %s", zerror(status))` -/
  | warningStatus (status : Status)
  /-- `php_error_docref` with `E_ERROR`, which does not return. -/
  | error (message : String)
  deriving DecidableEq, Repr

/-- The result of an operation. -/
abbrev ExtOp.Res : ExtOp → Type
  | .phpCbDataNew _ _ => Ptr
  | .readCbData _ => CbData
  | .readObject _ => ZkObject
  | .zookeeperInit _ _ => Option Ptr
  | .zooExists _ _ | .zooWexists _ _ _ | .zooSet2 _ _ _ _ => StatReply
  | .zooWget _ _ _ _ => GetReply
  | .zooWgetChildren _ _ _ => ChildrenReply
  | .zooDelete _ _ _ | .zooSetAcl _ _ _ _ | .zooAddAuth _ _ _ _ => Status
  | .error _ => Empty
  | _ => Unit

/-- The code of the extension. -/
abbrev ExtCode (α : Type) := Prog ExtOp.Res α

/-- One operation. -/
abbrev extAct (o : ExtOp) : ExtCode o.Res := perform o

/-- `ZK_METHOD_FETCH_OBJECT`: goes on when the object has a handle. -/
def fetchObject (object : Ptr) (k : Ptr → ExtCode MethodResult) : ExtCode MethodResult := do
  let o ← extAct (.readObject object)
  match o.zk with
  | some zk => k zk
  | none =>
    extAct (.warning "Zookeeper connect was not called")
    return { value := .null }

/-- `if (fci.size != 0) cb_data = php_cb_data_new(&fci, &fcc, oneshot)` -/
def newCbData (fci : Option Callable) (oneshot : Bool) : ExtCode (Option Ptr) := do
  match fci with
  | some f =>
    let p ← extAct (.phpCbDataNew f oneshot)
    return some p
  | none => return none

/-- `if (stat_info) php_stat_to_array(&stat, stat_info)` -/
def fillStatInfo (statInfo : Bool) (stat : FullStat) : Option (List (String × StatValue)) :=
  if statInfo then some (phpStatToArray stat) else none

/-! ### Methods -/

/-- `php_zookeeper_connect_impl` -/
def phpZookeeperConnectImpl (object : Ptr) (fci : Option Callable) (recvTimeout : Int64) :
    ExtCode MethodResult := do
  if recvTimeout ≤ 0 then
    extAct (.warning "recv_timeout parameter has to be greater than 0")
    extAct (.zvalNull object)
    return { value := .null }
  else
    let cbData ← newCbData fci false
    let zk ← extAct (.zookeeperInit fci.isSome cbData)
    match zk with
    | none =>
      let e ← extAct (.error "could not init zookeeper instance")
      nomatch e
    | some zk =>
      extAct (.writeZk object zk)
      extAct (.writeCbData object cbData)
      return { value := .null }

/-- `Zookeeper::__construct`: connects when there is a host. -/
def Zookeeper.construct (object : Ptr) (host : CString) (fci : Option Callable)
    (recvTimeout : Int64) : ExtCode MethodResult := do
  if host.length > 0 then phpZookeeperConnectImpl object fci recvTimeout
  else return { value := .null }

/-- `Zookeeper::connect` -/
def Zookeeper.connect (object : Ptr) (fci : Option Callable) (recvTimeout : Int64) :
    ExtCode MethodResult :=
  phpZookeeperConnectImpl object fci recvTimeout

/-- `Zookeeper::delete` -/
def Zookeeper.delete (object : Ptr) (path : CString) (version : Int64) : ExtCode MethodResult :=
  fetchObject object fun zk => do
    let status ← extAct (.zooDelete zk path version.toInt32)
    if status ≠ ZOK then
      extAct (.warningStatus status)
      return { value := .null }
    else
      return { value := .bool true }

/-- `Zookeeper::getChildren` -/
def Zookeeper.getChildren (object : Ptr) (path : CString) (fci : Option Callable) :
    ExtCode MethodResult :=
  fetchObject object fun zk => do
    let cbData ← newCbData fci true
    let a ← extAct (.zooWgetChildren zk path cbData)
    if a.rc ≠ ZOK then
      extAct (.phpCbDataDestroy cbData)
      extAct (.warningStatus a.rc)
      return { value := .null }
    else
      return { value := .strings a.strings }

/-- The part of `Zookeeper::get` after the length has been found. -/
def Zookeeper.getLength (zk : Ptr) (path : CString) (cbData : Option Ptr) (statInfo : Bool)
    (length : Int32) : ExtCode MethodResult := do
  if length ≤ 0 then
    return { value := .null }
  else
    extAct (.emalloc (length + 1).toInt)
    let a ← extAct (.zooWget zk path cbData length)
    extAct (.terminate a.length.toInt)
    if a.rc ≠ ZOK then
      extAct (.phpCbDataDestroy cbData)
      extAct (.warningStatus a.rc)
      if a.rc = ZMARSHALLINGERROR then return { value := .bool false }
      else return { value := .null }
    else
      if a.length = -1 then
        return { value := .null, statInfo := fillStatInfo statInfo a.stat }
      else
        return { value := .string (a.buffer.take a.length.toInt.toNat)
                 statInfo := fillStatInfo statInfo a.stat }

/-- `Zookeeper::get` -/
def Zookeeper.get (object : Ptr) (path : CString) (fci : Option Callable) (statInfo : Bool)
    (maxSize : Int64) : ExtCode MethodResult :=
  fetchObject object fun zk => do
    let cbData ← newCbData fci true
    if maxSize ≤ 0 then
      let a ← extAct (.zooExists zk path)
      if a.rc ≠ ZOK then
        extAct (.phpCbDataDestroy cbData)
        extAct (.warningStatus a.rc)
        return { value := .null }
      else
        Zookeeper.getLength zk path cbData statInfo a.stat.dataLength
    else
      Zookeeper.getLength zk path cbData statInfo maxSize.toInt32

/-- `Zookeeper::exists` -/
def Zookeeper.exists (object : Ptr) (path : CString) (fci : Option Callable) :
    ExtCode MethodResult :=
  fetchObject object fun zk => do
    let cbData ← newCbData fci true
    let a ← extAct (.zooWexists zk path cbData)
    if a.rc ≠ ZOK ∧ a.rc ≠ ZNONODE then
      extAct (.phpCbDataDestroy cbData)
      extAct (.warningStatus a.rc)
      return { value := .null }
    else if a.rc = ZOK then
      return { value := .stat (phpStatToArray a.stat) }
    else
      return { value := .bool false }

/-- `Zookeeper::set` -/
def Zookeeper.set (object : Ptr) (path : CString) (value : Option PhpString) (version : Int64)
    (statInfo : Bool) : ExtCode MethodResult :=
  fetchObject object fun zk => do
    let a ← extAct (.zooSet2 zk path (value.map (·.val)) version.toInt32)
    if a.rc ≠ ZOK then
      extAct (.warningStatus a.rc)
      return { value := .null }
    else
      return { value := .bool true, statInfo := fillStatInfo statInfo a.stat }

/-- `Zookeeper::setAcl`, of a list that `php_parse_acl_list` has converted. -/
def Zookeeper.setAcl (object : Ptr) (path : CString) (version : Int64) (acl : List AclEntry) :
    ExtCode MethodResult :=
  fetchObject object fun zk => do
    let status ← extAct (.zooSetAcl zk path version.toInt32 acl)
    if status ≠ ZOK then
      extAct (.warningStatus status)
      return { value := .null }
    else
      return { value := .bool true }

/-- `Zookeeper::addAuth` -/
def Zookeeper.addAuth (object : Ptr) (scheme cert : Bytes) (fci : Option Callable) :
    ExtCode MethodResult :=
  fetchObject object fun zk => do
    let cbData ← newCbData fci false
    let status ← extAct (.zooAddAuth zk scheme cert cbData)
    if status ≠ ZOK then
      extAct (.warningStatus status)
      return { value := .null }
    else
      return { value := .bool true }

/-- Removes the record of an object's watcher, if it has one. -/
def removeCbData (o : ZkObject) : ExtCode Unit := do
  match o.cbData with
  | some p =>
    let cbData ← extAct (.readCbData p)
    extAct (.zendHashIndexDel cbData.h)
  | none => return ()

/-- `Zookeeper::setWatcher` -/
def Zookeeper.setWatcher (object : Ptr) (fci : Callable) : ExtCode MethodResult :=
  fetchObject object fun zk => do
    let o ← extAct (.readObject object)
    removeCbData o
    let cbData ← extAct (.phpCbDataNew fci false)
    extAct (.zooSetWatcher zk)
    extAct (.writeCbData object (some cbData))
    return { value := .bool true }

/-- `php_zk_destroy` -/
def phpZkDestroy (object : Ptr) : ExtCode Unit := do
  let o ← extAct (.readObject object)
  removeCbData o
  match o.zk with
  | some zk =>
    extAct (.zookeeperClose zk)
    extAct (.efreeObject object)
  | none => extAct (.efreeObject object)

/-- `php_zk_watcher_marshal`, and `php_zk_completion_marshal`: they differ in the parameters of the
callback. -/
def phpZkWatcherMarshal (context : Ptr) : ExtCode Unit := do
  let cbData ← extAct (.readCbData context)
  extAct (.zendCallFunction cbData.fci)
  let cbData ← extAct (.readCbData context)
  if cbData.oneshot then
    extAct (.zendHashIndexDel cbData.h)
  else
    return ()

/-- `PHP_RSHUTDOWN_FUNCTION(zookeeper)` -/
def phpRshutdown : ExtCode Unit := extAct .zendHashClean

end PhpZookeeper
