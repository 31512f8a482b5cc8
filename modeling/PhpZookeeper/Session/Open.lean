import PhpZookeeper.Client.Methods
import PhpZookeeper.Session.Retry

/-!
# How a session store is opened

`PS_OPEN` takes the session of its save path from the persistent list, or connects and registers a
new one there. What `php_zookeeper_session_init` gives is registered, and its `is_locked` is set,
before anybody looks whether it is `NULL`; `opensCleanly_iff` says which openings go well all the
same.
-/

namespace PhpZookeeper.SessionStore

open Theory Prog Status

/-! ### The persistent list -/

/-- The types of persistent resources. -/
inductive ResourceType where
  /-- `php_zookeeper_get_connection_le()` -/
  | zookeeperConnection
  /-- A type of another extension. -/
  | other (n : ℕ)
  deriving DecidableEq, Repr

/-- `zend_rsrc_list_entry`, whose `ptr` is a session's address when it has the session's type. -/
structure RsrcListEntry where
  type : ResourceType
  ptr : Option Ptr
  deriving DecidableEq, Repr

/-- What `PS_OPEN` sets in a `php_zookeeper_session`. -/
structure StoredSession where
  zk : Option Ptr := none
  isLocked : Bool := false
  deriving DecidableEq, Repr

/-- A PHP process, as far as `PS_OPEN` sees it. -/
structure Process where
  /-- `EG(persistent_list)` -/
  persistentList : CString → Option RsrcListEntry := fun _ => none
  /-- The sessions that are allocated. -/
  sessions : Ptr → Option StoredSession := fun _ => none
  /-- Where the next session is allocated. -/
  nextSession : Ptr := 0
  /-- The handles that `zookeeper_init` has returned and that have not been closed. -/
  handles : Ptr → Bool := fun _ => false
  nextHandle : Ptr := 0
  /-- `PS(mod_data)` -/
  modData : Option Ptr := none

/-- The outcome of connecting, and of registering the session. -/
structure Connecting where
  /-- `zookeeper_init` returns a handle. -/
  handle : Bool
  /-- The replies to the requests for the parent node. -/
  reply : ℕ → Reply
  /-- `zend_hash_update` succeeds. -/
  updated : Bool

/-! ### The code -/

/-- What `PS_OPEN` does to the process. -/
inductive OpenOp where
  /-- `pecalloc(1, sizeof(php_zookeeper_session), 1)` -/
  | pecalloc
  | zookeeperInit (host : CString)
  /-- `session->zk = zk` -/
  | writeZk (session : Ptr) (zk : Option Ptr)
  /-- The requests of `php_zookeeper_session_init`, which make the parent node. -/
  | makeParentNode (zk : Ptr)
  | zookeeperClose (zk : Ptr)
  /-- `efree(session)`, of memory that is not Zend's own; that it is given back is the best that can
  come of it. -/
  | efree (session : Ptr)
  | zendHashFind (key : CString)
  | zendHashUpdate (key : CString) (le : RsrcListEntry)
  /-- `session->is_locked = 0` -/
  | clearIsLocked (session : Option Ptr)
  /-- `PS_SET_MOD_DATA(data)` -/
  | psSetModData (data : Option Ptr)
  /-- `php_error_docref` with `E_ERROR`, which does not return. -/
  | error (message : String)
  deriving DecidableEq, Repr

/-- The result of an operation. -/
abbrev OpenOp.Res : OpenOp → Type
  | .pecalloc => Ptr
  | .zookeeperInit _ => Option Ptr
  | .makeParentNode _ => Outcome Unit
  | .zendHashFind _ => Option RsrcListEntry
  | .zendHashUpdate _ _ => Bool
  | .error _ => Empty
  | _ => Unit

/-- The code of `PS_OPEN`. -/
abbrev OpenCode (α : Type) := Prog OpenOp.Res α

/-- One operation. -/
abbrev openAct (o : OpenOp) : OpenCode o.Res := perform o

/-- `php_zookeeper_session_init` -/
def phpZookeeperSessionInit (savePath : CString) : OpenCode (Option Ptr) := do
  let session ← openAct .pecalloc
  let zk ← openAct (.zookeeperInit savePath)
  openAct (.writeZk session zk)
  match zk with
  | none =>
    openAct (.efree session)
    return none
  | some zk =>
    let out ← openAct (.makeParentNode zk)
    match out with
    | .error message =>
      openAct (.zookeeperClose zk)
      openAct (.efree session)
      let e ← openAct (.error message)
      nomatch e
    | _ => return some session

/-- `spprintf(&plist_key, 0, "zk-conn:[%s]", save_path)` -/
def plistKey (savePath : CString) : CString := "zk-conn:[".toList ++ savePath ++ "]".toList

/-- `php_zookeeper_session_get` -/
def phpZookeeperSessionGet (savePath : CString) : OpenCode (Option Ptr) := do
  let le ← openAct (.zendHashFind (plistKey savePath))
  match le.filter fun le => le.type = .zookeeperConnection with
  | some le => return le.ptr
  | none =>
    let session ← phpZookeeperSessionInit savePath
    let updated ← openAct (.zendHashUpdate (plistKey savePath) ⟨.zookeeperConnection, session⟩)
    if !updated then
      let e ← openAct (.error "Could not register persistent entry for the zk handle")
      nomatch e
    else
      openAct (.clearIsLocked session)
      return session

/-- `PS_OPEN` -/
def psOpenFunc (savePath : CString) : OpenCode (Outcome Unit) := do
  let session ← phpZookeeperSessionGet savePath
  match session with
  | none =>
    openAct (.psSetModData none)
    return .failure
  | some session =>
    openAct (.psSetModData (some session))
    return .success ()

/-- The operations of a process. A session that is not allocated, `NULL` for one, is not read or
written, and a closed handle is not used. -/
def openSem (env : Connecting) : (o : OpenOp) → Process → o.Res → Process → Prop
  | .pecalloc, s, p, s' => p = s.nextSession ∧ s' = { s with
      sessions := Function.update s.sessions s.nextSession (some {})
      nextSession := s.nextSession + 1 }
  | .zookeeperInit _, s, zk, s' =>
    if env.handle then
      zk = some s.nextHandle ∧ s' = { s with
        handles := Function.update s.handles s.nextHandle true
        nextHandle := s.nextHandle + 1 }
    else zk = none ∧ s' = s
  | .writeZk p zk, s, _, s' => ∃ r, s.sessions p = some r ∧ s' = { s with
      sessions := Function.update s.sessions p (some { r with zk := zk }) }
  | .makeParentNode zk, s, out, s' => s.handles zk = true ∧ s' = s ∧
      ∃ t, Returns (streamSem env.reply) (PhpZookeeper.phpZookeeperSessionInit true)
        { memory := {} } out t
  | .zookeeperClose zk, s, _, s' => s.handles zk = true ∧ s' = { s with
      handles := Function.update s.handles zk false }
  | .efree p, s, _, s' => s.sessions p ≠ none ∧ s' = { s with
      sessions := Function.update s.sessions p none }
  | .zendHashFind key, s, le, s' => le = s.persistentList key ∧ s' = s
  | .zendHashUpdate key le, s, ok, s' => ok = env.updated ∧
      s' = if env.updated then
        { s with persistentList := Function.update s.persistentList key (some le) } else s
  | .clearIsLocked p, s, _, s' => ∃ q r, p = some q ∧ s.sessions q = some r ∧ s' = { s with
      sessions := Function.update s.sessions q (some { r with isLocked := false }) }
  | .psSetModData d, s, _, s' => s' = { s with modData := d }
  | .error _, _, e, _ => e.elim

/-! ### What is to come of an opening -/

/-- What the persistent list has for a save path. -/
def Process.entry (s : Process) (savePath : CString) : Option (Option Ptr) :=
  ((s.persistentList (plistKey savePath)).filter fun le =>
    le.type = .zookeeperConnection).map (·.ptr)

/-- The session at `p` has a handle that is not closed. -/
def Process.Usable (s : Process) (p : Ptr) : Prop :=
  ∃ r zk, s.sessions p = some r ∧ r.zk = some zk ∧ s.handles zk = true

/-- The module data is a session with an open handle, which is registered for the save path. -/
def Process.Opened (s : Process) (savePath : CString) : Prop :=
  ∃ p, s.modData = some p ∧ s.Usable p ∧ s.entry savePath = some (some p)

/-- `PS_OPEN` returns, with an open session or with a failure; when `zookeeper_init` returns `NULL`,
with a failure that leaves the persistent list alone. -/
def OpensCleanly (env : Connecting) (savePath : CString) (s : Process) : Prop :=
  (∃ out s', Returns (openSem env) (psOpenFunc savePath) s out s') ∧
    ∀ out s', Returns (openSem env) (psOpenFunc savePath) s out s' →
      (out = .success () ∧ s'.Opened savePath ∨ out = .failure ∧ s'.modData = none) ∧
      (s.entry savePath = none → env.handle = false →
        out = .failure ∧ s'.persistentList = s.persistentList)

/-- The parent node is there or cannot be looked for, or it can be made. -/
def ParentReady (ρ : ℕ → Reply) : Prop :=
  (ρ 0).rc ≠ ZNONODE ∨ ∃ i, FirstAnswer ρ 1 i ∧ (ρ i).rc = ZOK

/-- There is a handle and a parent node, and the session can be registered. -/
def Connecting.Succeeds (env : Connecting) : Prop :=
  env.handle = true ∧ ParentReady env.reply ∧ env.updated = true

/-- The session that the list has for the save path is `NULL` or can be used; when there is none,
connecting succeeds. -/
def OpensWell (env : Connecting) (savePath : CString) (s : Process) : Prop :=
  match s.entry savePath with
  | some (some p) => s.Usable p
  | some none => True
  | none => env.Succeeds

/-- The process after a new session has been connected. -/
def Process.made (s : Process) : Process :=
  { s with
    sessions := Function.update s.sessions s.nextSession (some { zk := some s.nextHandle })
    nextSession := s.nextSession + 1
    handles := Function.update s.handles s.nextHandle true
    nextHandle := s.nextHandle + 1 }

/-- The process after the new session has been registered, too. -/
def Process.connected (s : Process) (savePath : CString) : Process :=
  { s.made with
    persistentList := Function.update s.persistentList (plistKey savePath)
      (some ⟨.zookeeperConnection, some s.nextSession⟩)
    modData := some s.nextSession }

theorem Process.opened_connected (s : Process) (savePath : CString) :
    (s.connected savePath).Opened savePath :=
  ⟨s.nextSession, rfl, ⟨{ zk := some s.nextHandle }, s.nextHandle, by simp [connected, made], rfl,
    by simp [connected, made]⟩, by simp [entry, connected]⟩

/-! ### The functions -/

variable {env : Connecting} {savePath : CString} {s s' : Process}

/-- The requests for the parent node succeed when it is ready, and raise an error when not. -/
theorem makeParentNode_iff {ρ : ℕ → Reply} {m : PhpZookeeperSession} {out : Outcome Unit} :
    (∃ t, Returns (streamSem ρ) (PhpZookeeper.phpZookeeperSessionInit true) { memory := m } out t) ↔
      out = .success () ∧ ParentReady ρ ∨
      out = .error "Failed to create parent node for sessions" ∧ (ρ 0).rc = ZNONODE ∧
        ∃ i, FirstAnswer ρ 1 i ∧ (ρ i).rc ≠ ZOK := by
  simp only [PhpZookeeper.phpZookeeperSessionInit, Bool.not_true, Bool.false_eq_true, if_false,
    bind_eq, perform_bind, returns_op_iff, streamSem]
  constructor
  · rintro ⟨t, _, _, ⟨rfl, rfl⟩, h⟩
    split_ifs at h with hrc
    · simp only [returns_bind_iff, returns_retryLoop_stream] at h
      obtain ⟨_, _, ⟨i, hi, rfl, rfl⟩, h⟩ := h
      split_ifs at h with hi'
      · exact .inr ⟨(returns_ret_iff.mp h).1, hrc, i, hi, hi'⟩
      · exact .inl ⟨(returns_ret_iff.mp h).1, .inr ⟨i, hi, not_not.mp hi'⟩⟩
    · exact .inl ⟨(returns_ret_iff.mp h).1, .inl hrc⟩
  · intro h
    have hloop : (ρ 0).rc = ZNONODE → ∀ i, FirstAnswer ρ 1 i → ∃ t, Returns (streamSem ρ)
        (retryLoop (fun _ => .zooCreate phpZkParentNode none (some .zooOpenAclUnsafe) {} 0)
          (ρ 0).rc) { memory := m, served := 1 } (ρ i) t := fun _ i hi =>
      ⟨_, returns_retryLoop_stream.mpr ⟨i, hi, rfl, rfl⟩⟩
    by_cases hrc : (ρ 0).rc = ZNONODE
    · have hend : ∃ i, FirstAnswer ρ 1 i ∧ out = if (ρ i).rc ≠ ZOK then
          .error "Failed to create parent node for sessions" else .success () := by
        rcases h with ⟨rfl, hno | ⟨i, hi, hok⟩⟩ | ⟨rfl, -, i, hi, hne⟩
        · exact absurd hrc hno
        · exact ⟨i, hi, by simp [hok]⟩
        · exact ⟨i, hi, by simp [hne]⟩
      obtain ⟨i, hi, rfl⟩ := hend
      obtain ⟨t, ht⟩ := hloop hrc i hi
      refine ⟨t, _, _, ⟨rfl, rfl⟩, ?_⟩
      rw [if_pos hrc, returns_bind_iff]
      refine ⟨_, t, ht, ?_⟩
      split_ifs <;> exact returns_ret_iff.mpr ⟨rfl, rfl⟩
    · have hout : out = .success () := by
        rcases h with ⟨rfl, -⟩ | ⟨-, hno, -⟩
        · rfl
        · exact absurd hno hrc
      refine ⟨{ memory := m, served := 1 }, _, _, ⟨rfl, rfl⟩, ?_⟩
      rw [if_neg hrc, hout]
      exact returns_ret_iff.mpr ⟨rfl, rfl⟩

/-- `php_zookeeper_session_init` gives a session, when connecting succeeds, and `NULL`, when there
is no handle. -/
theorem returns_phpZookeeperSessionInit_iff {session : Option Ptr} :
    Returns (openSem env) (phpZookeeperSessionInit savePath) s session s' ↔
      env.handle = true ∧ ParentReady env.reply ∧ session = some s.nextSession ∧ s' = s.made ∨
      env.handle = false ∧ session = none ∧ s' = { s with
        sessions := Function.update s.sessions s.nextSession none
        nextSession := s.nextSession + 1 } := by
  simp only [phpZookeeperSessionInit, bind_eq, perform_bind, returns_op_iff]
  cases hhandle : env.handle with
  | true =>
    constructor
    · rintro ⟨p, s₁, ⟨rfl, rfl⟩, zk, s₂, hzk, u, s₃, ⟨r, hr, rfl⟩, h⟩
      simp only [openSem, hhandle, if_true] at hzk
      obtain ⟨rfl, rfl⟩ := hzk
      simp only [returns_op_iff] at h
      obtain ⟨out, s₄, ⟨-, rfl, hout⟩, h⟩ := h
      rcases makeParentNode_iff.mp hout with ⟨rfl, hready⟩ | ⟨rfl, -⟩
      · obtain ⟨rfl, rfl⟩ := returns_ret_iff.mp h
        refine .inl ⟨rfl, hready, rfl, ?_⟩
        simp only [Function.update_self, Option.some.injEq] at hr
        simp [Process.made, ← hr]
      · simp only [returns_op_iff] at h
        obtain ⟨_, _, _, _, _, _, e, _⟩ := h
        exact e.elim
    · rintro (⟨-, hready, rfl, rfl⟩ | ⟨hno, -⟩)
      · refine ⟨_, _, ⟨rfl, rfl⟩, _, _, by simp [openSem, hhandle]; exact ⟨rfl, rfl⟩, (), _,
          ⟨{}, by simp, rfl⟩, ?_⟩
        simp only [returns_op_iff]
        refine ⟨.success (), _, ⟨by simp, rfl, makeParentNode_iff.mpr (.inl ⟨rfl, hready⟩)⟩, ?_⟩
        refine returns_ret_iff.mpr ⟨rfl, ?_⟩
        simp [Process.made]
      · cases hno
  | false =>
    constructor
    · rintro ⟨p, s₁, ⟨rfl, rfl⟩, zk, s₂, hzk, u, s₃, ⟨r, hr, rfl⟩, h⟩
      simp only [openSem, hhandle, Bool.false_eq_true, if_false] at hzk
      obtain ⟨rfl, rfl⟩ := hzk
      simp only [returns_op_iff] at h
      obtain ⟨u, s₄, ⟨-, rfl⟩, h⟩ := h
      obtain ⟨rfl, rfl⟩ := returns_ret_iff.mp h
      exact .inr ⟨rfl, rfl, by simp⟩
    · rintro (⟨hno, -⟩ | ⟨-, rfl, rfl⟩)
      · cases hno
      · refine ⟨_, _, ⟨rfl, rfl⟩, none, _, by simp [openSem, hhandle]; rfl, (), _,
          ⟨{}, by simp, rfl⟩, ?_⟩
        simp only [returns_op_iff]
        refine ⟨(), _, ⟨by simp, rfl⟩, returns_ret_iff.mpr ⟨rfl, by simp⟩⟩

/-- A `NULL` session is registered, and then written to. -/
theorem returns_phpZookeeperSessionGet_iff {session : Option Ptr} :
    Returns (openSem env) (phpZookeeperSessionGet savePath) s session s' ↔
      match s.entry savePath with
      | some p => session = p ∧ s' = s
      | none => env.Succeeds ∧ session = some s.nextSession ∧ s' = { s.made with
          persistentList := Function.update s.persistentList (plistKey savePath)
            (some ⟨.zookeeperConnection, some s.nextSession⟩) } := by
  simp only [phpZookeeperSessionGet, bind_eq, perform_bind, returns_op_iff, openSem]
  unfold Process.entry
  cases hfound : (s.persistentList (plistKey savePath)).filter fun le =>
    le.type = .zookeeperConnection with
  | some le =>
    simp only [Option.map_some]
    constructor
    · rintro ⟨_, _, ⟨rfl, rfl⟩, h⟩
      simp only [hfound] at h
      exact returns_ret_iff.mp h
    · rintro ⟨rfl, rfl⟩
      refine ⟨_, _, ⟨rfl, rfl⟩, ?_⟩
      simp only [hfound]
      exact returns_ret_iff.mpr ⟨rfl, rfl⟩
  | none =>
    simp only [Option.map_none]
    constructor
    · rintro ⟨_, _, ⟨rfl, rfl⟩, h⟩
      simp only [hfound, returns_bind_iff, returns_op_iff] at h
      obtain ⟨session', s₁, hinit, ok, s₂, ⟨rfl, rfl⟩, h⟩ := h
      cases hupdated : env.updated with
      | false =>
        simp only [hupdated, Bool.not_false, if_true, returns_op_iff] at h
        obtain ⟨e, -⟩ := h
        exact e.elim
      | true =>
        simp only [hupdated, Bool.not_true, Bool.false_eq_true, if_false, if_true,
          returns_op_iff] at h
        obtain ⟨u, s₃, ⟨q, r, rfl, hr, rfl⟩, hret⟩ := h
        obtain ⟨rfl, rfl⟩ := returns_ret_iff.mp hret
        rcases returns_phpZookeeperSessionInit_iff.mp hinit with ⟨hh, hready, hq, rfl⟩ | ⟨-, hq, -⟩
        · obtain rfl := Option.some.inj hq
          refine ⟨⟨hh, hready, hupdated⟩, rfl, ?_⟩
          simp only [Process.made, Function.update_self, Option.some.injEq] at hr
          simp [Process.made, ← hr]
        · cases hq
    · rintro ⟨⟨hh, hready, hupdated⟩, rfl, rfl⟩
      refine ⟨_, _, ⟨rfl, rfl⟩, ?_⟩
      simp only [hfound, returns_bind_iff, returns_op_iff]
      refine ⟨_, _, returns_phpZookeeperSessionInit_iff.mpr (.inl ⟨hh, hready, rfl, rfl⟩), true, _,
        ⟨hupdated.symm, rfl⟩, ?_⟩
      simp only [hupdated, Bool.not_true, Bool.false_eq_true, if_false, if_true, returns_op_iff]
      refine ⟨(), _, ⟨s.nextSession, { zk := some s.nextHandle }, rfl, by simp [Process.made], rfl⟩,
        returns_ret_iff.mpr ⟨rfl, ?_⟩⟩
      simp [Process.made]

/-- `PS_OPEN` returns with what the list has, or when connecting succeeds. -/
theorem returns_psOpenFunc_iff {out : Outcome Unit} :
    Returns (openSem env) (psOpenFunc savePath) s out s' ↔
      match s.entry savePath with
      | some p => s' = { s with modData := p } ∧
          out = if p.isSome then .success () else .failure
      | none => env.Succeeds ∧ out = .success () ∧ s' = s.connected savePath := by
  have hset : ∀ (p : Option Ptr) (t : Process), Returns (openSem env)
      (match p with
        | none => (Prog.op (.psSetModData none) fun _ => .ret .failure : OpenCode (Outcome Unit))
        | some q => .op (.psSetModData (some q)) fun _ => .ret (.success ())) t out s' ↔
      s' = { t with modData := p } ∧ out = if p.isSome then .success () else .failure := by
    intro p t
    cases p with
    | none =>
      simp only [returns_op_iff, openSem, returns_ret_iff]
      constructor
      · rintro ⟨_, _, rfl, rfl, rfl⟩
        exact ⟨rfl, rfl⟩
      · rintro ⟨rfl, rfl⟩
        exact ⟨(), _, rfl, rfl, rfl⟩
    | some q =>
      simp only [returns_op_iff, openSem, returns_ret_iff]
      constructor
      · rintro ⟨_, _, rfl, rfl, rfl⟩
        exact ⟨rfl, rfl⟩
      · rintro ⟨rfl, rfl⟩
        exact ⟨(), _, rfl, rfl, rfl⟩
  unfold psOpenFunc
  simp only [bind_eq, perform_bind, pure_eq, returns_bind_iff, returns_phpZookeeperSessionGet_iff,
    hset]
  cases s.entry savePath with
  | some p =>
    constructor
    · rintro ⟨_, _, ⟨rfl, rfl⟩, h⟩
      exact h
    · exact fun h => ⟨p, s, ⟨rfl, rfl⟩, h⟩
  | none =>
    constructor
    · rintro ⟨_, _, ⟨hsucceeds, rfl, rfl⟩, rfl, rfl⟩
      exact ⟨hsucceeds, rfl, rfl⟩
    · rintro ⟨hsucceeds, rfl, rfl⟩
      exact ⟨_, _, ⟨hsucceeds, rfl, rfl⟩, rfl, rfl⟩

/-- **Which openings go well.** `PS_OPEN` returns, and leaves an open session that is registered or
fails without one, exactly when the session that the persistent list has for the save path can be
used or is `NULL`, or there is none and connecting succeeds. -/
theorem opensCleanly_iff (env : Connecting) (savePath : CString) (s : Process) :
    OpensCleanly env savePath s ↔ OpensWell env savePath s := by
  unfold OpensCleanly OpensWell
  simp only [returns_psOpenFunc_iff]
  cases hentry : s.entry savePath with
  | some p =>
    simp only [reduceCtorEq, false_implies, and_true]
    constructor
    · rintro ⟨-, hall⟩
      cases p with
      | none => trivial
      | some q =>
        rcases hall _ _ ⟨rfl, rfl⟩ with ⟨-, q', hq', husable, -⟩ | ⟨hout, -⟩
        · obtain rfl := Option.some.inj hq'
          exact husable
        · cases hout
    · intro hwell
      refine ⟨⟨_, _, rfl, rfl⟩, ?_⟩
      rintro _ _ ⟨rfl, rfl⟩
      cases p with
      | none => exact .inr ⟨rfl, rfl⟩
      | some q => exact .inl ⟨rfl, q, rfl, hwell, hentry⟩
  | none =>
    constructor
    · rintro ⟨⟨out, s', hsucceeds, -⟩, -⟩
      exact hsucceeds
    · intro hsucceeds
      refine ⟨⟨_, _, hsucceeds, rfl, rfl⟩, ?_⟩
      rintro _ _ ⟨-, rfl, rfl⟩
      refine ⟨.inl ⟨rfl, s.opened_connected savePath⟩, fun _ hno => ?_⟩
      rw [hsucceeds.1] at hno
      cases hno

/-! ### Opening again and again -/

/-- The sessions in the persistent list can be used. -/
def Process.Registered (s : Process) : Prop :=
  ∀ savePath p, s.entry savePath = some p → ∃ q, p = some q ∧ s.Usable q

theorem Process.usable_made {p : Ptr} (h : s.Usable p) : s.made.Usable p := by
  obtain ⟨r, zk, hr, hzk, hopen⟩ := h
  by_cases hp : p = s.nextSession
  · subst hp
    exact ⟨{ zk := some s.nextHandle }, s.nextHandle, by simp [made], rfl, by simp [made]⟩
  · refine ⟨r, zk, by simpa [made, hp] using hr, hzk, ?_⟩
    by_cases hzk' : zk = s.nextHandle <;> simp [made, hzk', hopen]

/-- Only sessions that can be used are ever registered by an opening that returns. -/
theorem registered_of_returns {out : Outcome Unit} (h : s.Registered)
    (hret : Returns (openSem env) (psOpenFunc savePath) s out s') : s'.Registered := by
  rw [returns_psOpenFunc_iff] at hret
  cases hentry : s.entry savePath with
  | some p =>
    rw [hentry] at hret
    obtain ⟨rfl, -⟩ := hret
    exact h
  | none =>
    rw [hentry] at hret
    obtain ⟨-, -, rfl⟩ := hret
    intro savePath' p hp
    by_cases hkey : plistKey savePath' = plistKey savePath
    · obtain rfl : some s.nextSession = p := by
        simpa [Process.entry, Process.connected, hkey] using hp
      obtain ⟨q, hq, husable, -⟩ := s.opened_connected savePath
      exact ⟨s.nextSession, rfl, Option.some.inj hq ▸ husable⟩
    · have hp' : s.entry savePath' = some p := by
        simpa [Process.entry, Process.connected, hkey] using hp
      obtain ⟨q, rfl, hq⟩ := h savePath' p hp'
      exact ⟨q, rfl, Process.usable_made hq⟩

/-- Nothing is registered, and `zookeeper_init` returns `NULL`: the `NULL` session is written to. -/
theorem open_faults :
    ¬ ∀ (env : Connecting) (savePath : CString), OpensCleanly env savePath {} := by
  intro h
  have hwell := (opensCleanly_iff _ _ _).mp (h ⟨false, fun _ => { rc := ZOK }, true⟩ ['h'])
  exact absurd hwell.1 (by decide)

end PhpZookeeper.SessionStore
