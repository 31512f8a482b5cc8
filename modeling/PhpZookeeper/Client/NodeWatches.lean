import PhpZookeeper.Client.Registry
import PhpZookeeper.Theory.RelyGuarantee

/-!
# The watches on nodes

`get`, `exists` and `getChildren` make a record for a callback and give it to the client library
with a watch on a node. The library keeps the watch until an event of the node; the record is
freed by the first call of `php_zk_watcher_marshal`, whatever the event. As long as no event of a
session finds such a watch, and each `zend_hash_index_del` removes the record it is meant to, a
record has one owner at a time: the method that has made it, then the watch, then the call of
`php_zk_watcher_marshal`, which frees it. The `zoo_exists` of `get` leaves a watch that shares the
record of its handle instead, which nobody may remove as long as the watch, or a call for it, may
need it. So each call finds its record (`node_watch_live`); after an event of the session the second
call does not (`node_watch_freed`).
-/

namespace PhpZookeeper

open Theory Prog Status

/-! ### Calls that find their record -/

/-- **Each call for a node's watch finds its record.** -/
structure Process.WatchOk (c : Process) : Prop where
  /-- The context of a watch that an event can reach is a record that has not been freed. -/
  watches : ∀ w ∈ c.ext.watches, c.ext.listens w = true →
    ∃ p r, w.context = some p ∧ c.ext.IsLive p r
  /-- The call reads this record, which has not been freed yet. -/
  reads : ∀ f ∈ c.frames, ∀ p, f.watched = some p → ∀ q, f.code.next = some (.readCbData q) →
    q = p ∧ ∃ r, c.ext.IsLive p r
  /-- It calls the callback that the record was made with. -/
  calls : ∀ f ∈ c.frames, ∀ p, f.watched = some p → ∀ g, f.code.next = some (.zendCallFunction g) →
    ∃ r, c.ext.records[p]? = some r ∧ r.fci = g

/-- The request has not ended. -/
def Process.InRequest (_ : Process) : ExtLabel → Prop
  | .rshutdown => False
  | _ => True

/-! ### Who holds a record -/

namespace Ext

/-- The record is not freed by a call of its callback. -/
def Lasting (s : Ext) (p : Ptr) : Prop := ∃ r, s.records[p]? = some r ∧ r.oneshot = false

/-- The record is freed by the first call of its callback, and has not been freed. -/
def Pending (s : Ext) (p : Ptr) : Prop := ∃ r, s.IsLive p r ∧ r.oneshot = true

/-- The record is kept for more than one call: by a handle, by a watch that uses the handle's
context, by an object, or for a completion. -/
inductive Keeps (s : Ext) : Ptr → Prop where
  | handle {c : Handle} {p : Ptr} : c ∈ s.handles → c.context = some p → s.Keeps p
  | watch {w : NodeWatch} {p : Ptr} : w ∈ s.watches → w.own = false → w.context = some p → s.Keeps p
  | object {o p : Ptr} : (s.objects o).cbData = some p → s.Keeps p
  | auth {p : Ptr} : p ∈ s.auths → s.Keeps p

/-- The records that are kept for more than one call are lasting. -/
def Lasts (s : Ext) : Prop := ∀ p, s.Keeps p → s.Lasting p

variable {s s' : Ext} {p : Ptr}

/-- A record that is not pending has been freed, or is lasting. -/
theorem freed_or_lasting (hp : p < s.records.length) (hnot : ¬ s.Pending p) :
    p ∈ s.freed ∨ s.Lasting p := by
  have hrecord := List.getElem?_eq_getElem hp
  by_cases hfreed : p ∈ s.freed
  · exact .inl hfreed
  · refine .inr ⟨_, hrecord, ?_⟩
    by_contra htrue
    exact hnot ⟨_, ⟨hrecord, hfreed⟩, by simpa using htrue⟩

theorem Pending.not_lasting (h : s.Pending p) : ¬ s.Lasting p := by
  rintro ⟨t, ht, hfalse⟩
  obtain ⟨r, hr, htrue⟩ := h
  obtain rfl := Option.some.inj (hr.1.symm.trans ht)
  rw [htrue] at hfalse
  cases hfalse

/-- Records are not changed, and not forgotten. -/
def RecordsKept (s s' : Ext) : Prop :=
  ∀ (p : Ptr) (r : CbData), s.records[p]? = some r → s'.records[p]? = some r

theorem RecordsKept.refl (s : Ext) : s.RecordsKept s := fun _ _ h => h

theorem RecordsKept.lasting (h : s.RecordsKept s') (hp : s.Lasting p) : s'.Lasting p := by
  obtain ⟨r, hr, hfalse⟩ := hp
  exact ⟨r, h p r hr, hfalse⟩

theorem recordsKept_phpCbDataNew (s : Ext) (fci : Callable) (oneshot : Bool) :
    s.RecordsKept (s.phpCbDataNew fci oneshot).2 := by
  intro p r hp
  show (s.records ++ [_])[p]? = some r
  rw [List.getElem?_append_left (List.getElem?_eq_some_iff.mp hp).1]
  exact hp

theorem recordsKept_perform {a : LibReply} {o : ExtOp} {r : o.Res}
    (h : perform a o s = some (r, s')) : s.RecordsKept s' := by
  rcases sameTable_perform h with hsame | ⟨fci, oneshot, rfl⟩ | ⟨q, rfl⟩ | ⟨k, rfl⟩ | rfl
  · intro p t hp
    rw [hsame.records]
    exact hp
  · obtain rfl := congrArg Prod.snd (Option.some.inj h)
    exact recordsKept_phpCbDataNew s fci oneshot
  all_goals
    obtain rfl := congrArg Prod.snd (Option.some.inj h)
    exact fun _ _ hp => hp

end Ext

/-- The call has not returned. -/
def Frame.runs (f : Frame) : Bool :=
  match f.code with
  | .ret _ => false
  | _ => true

/-- The record of a handle that the call is for. -/
def Frame.shared (f : Frame) : Option Ptr := if f.own then none else f.watched

/-- The record of a handle is shared by a watch that an event can reach, or by a call for one that
has not returned. -/
def Process.Shared (c : Process) (p : Ptr) : Prop :=
  (∃ w ∈ c.ext.watches, w.own = false ∧ w.context = some p ∧ c.ext.listens w = true) ∨
    ∃ f ∈ c.frames, f.shared = some p ∧ f.runs = true

/-- What a frame that has read the record `read` last may do, so that the watches keep theirs:
`zend_hash_index_del` removes no pending record but the one that its caller has read the key from,
and no lasting one that a watch shares; and the record of a handle whose watcher is given to a watch
has not been freed. -/
def Process.Spares (c : Process) (read : Option Ptr) : ExtOp → Prop
  | .zendHashIndexDel h => ∀ e ∈ c.ext.callbacks, e.1 = h →
      (read = some e.2 ∨ ¬ c.ext.Pending e.2) ∧ (c.ext.Lasting e.2 → ¬ c.Shared e.2)
  | .zooExists zk _ => ∀ d, c.ext.handles[zk]? = some d → d.isOpen = true → d.watcher = true →
      ∃ p r, d.context = some p ∧ c.ext.IsLive p r
  | _ => True

/-- An event of a session finds no watch that has a context of its own, and each operation spares
the records of the watches. -/
def Process.SparesWatches (c : Process) : ExtLabel → Prop
  | .sessionEvent zk => ∀ w ∈ c.ext.watches, w.zk = zk → w.own = false
  | .go i _ => ∀ f, c.frames[i]? = some f → ∀ o, f.code.next = some o → c.Spares f.read o
  | _ => True

/-- What a frame can see: the state, and what is known of the frame besides its code. -/
structure FrameView where
  ext : Ext
  /-- The context that a node's watch has called it with. -/
  watched : Option Ptr
  /-- The record that will be freed, or given to a watch, by the frame. -/
  held : Option Ptr
  /-- The record of a handle that the call is for. -/
  shared : Option Ptr
  /-- The record that it has read last. -/
  read : Option Ptr

/-- The record that a frame holds after an operation. -/
def heldAfter : (o : ExtOp) → o.Res → Option Ptr → Option Ptr
  | .phpCbDataNew _ true, p, _ => some p
  | .phpCbDataDestroy (some _), _, _ => none
  | .zendHashIndexDel _, _, _ => none
  | .zooWexists _ _ (some _), a, h => if a.rc = ZOK ∨ a.rc = ZNONODE then none else h
  | .zooWget _ _ (some _) _, a, h => if a.rc = ZOK then none else h
  | .zooWgetChildren _ _ (some _), a, h => if a.rc = ZOK then none else h
  | _, _, h => h

/-- The record that a frame has read last after an operation. -/
def readAfter : ExtOp → Option Ptr → Option Ptr
  | .readCbData p, _ => some p
  | _, read => read

namespace FrameView

/-- What a frame may do. -/
def Allows (v : FrameView) : ExtOp → Prop
  | .phpCbDataNew _ oneshot => oneshot = true → v.held = none
  | .phpCbDataDestroy entry => ∀ p, entry = some p → v.held = some p
  | .zendHashIndexDel _ => ∃ p, v.read = some p ∧ (v.held = some p ∨ v.ext.Lasting p)
  | .zendHashClean => False
  | .readCbData q => ∀ p, v.watched = some p → q = p ∧ ∃ r, v.ext.IsLive p r
  | .zendCallFunction g => ∀ p, v.watched = some p → ∃ r, v.ext.records[p]? = some r ∧ r.fci = g
  | .zookeeperInit _ context | .writeCbData _ context | .zooAddAuth _ _ _ context =>
    ∀ p, context = some p → v.ext.Lasting p
  | .zooWexists _ _ context | .zooWget _ _ context _ | .zooWgetChildren _ _ context =>
    ∀ p, context = some p → v.held = some p
  | _ => True

/-- What the other frames leave alone. -/
structure Rely (v v' : FrameView) : Prop where
  watched : v'.watched = v.watched
  held : v'.held = v.held
  shared : v'.shared = v.shared
  read : v'.read = v.read
  records : v.ext.RecordsKept v'.ext
  live : ∀ p r, v.held = some p ∨ v.shared = some p → v.ext.IsLive p r → v'.ext.IsLive p r

/-- The contract of a frame. -/
def contract : Contract ExtOp.Res FrameView where
  sem o v r v' := v.ext.Lasts ∧ (∃ a, Ext.perform a o v.ext = some (r, v'.ext)) ∧
    v'.watched = v.watched ∧ v'.held = heldAfter o r v.held ∧ v'.read = readAfter o v.read ∧
    v'.shared = v.shared
  rely _ := Rely
  guar o v _ _ := v.Allows o

/-! ### The code keeps the contract -/

/-- A frame that no watch has called: what it holds, what it has read, and a record it knows to be
lasting. -/
structure At (held read lasting : Option Ptr) (v : FrameView) : Prop where
  watched : v.watched = none
  held : v.held = held
  read : v.read = read
  lasting : ∀ p, lasting = some p → v.ext.Lasting p

section Code

variable {α : Type} {h read k : Option Ptr} {Q : α → FrameView → Prop} {T : FrameView → Prop}

theorem stable_at (o : Option ExtOp) : contract.Stable o (At h read k) := by
  intro v v' hrely hat
  exact ⟨hrely.watched.trans hat.watched, hrely.held.trans hat.held, hrely.read.trans hat.read,
    fun p hp => hrely.records.lasting (hat.lasting p hp)⟩

/-- An operation. -/
theorem step_at {o : ExtOp} {f : o.Res → ExtCode α} (hallows : ∀ v, At h read k v → v.Allows o)
    (hf : ∀ r, Triple contract (At (heldAfter o r h) (readAfter o read) k) (f r) Q) :
    Triple contract (At h read k) (.op o f) Q := by
  refine .op (fun _ hv => hv) (stable_at _) (fun v r v' hv hsem => ⟨hallows v hv, ?_⟩) hf
  obtain ⟨-, ⟨a, hperf⟩, hwatched, hheld, hread, hshared⟩ := hsem
  exact ⟨hwatched.trans hv.watched, hheld.trans (by rw [hv.held]), hread.trans (by rw [hv.read]),
    fun p hp => (Ext.recordsKept_perform hperf).lasting (hv.lasting p hp)⟩

/-- A record that lasts is made. -/
theorem step_new {fci : Callable} {f : Ptr → ExtCode α}
    (hf : ∀ p, Triple contract (At h read (some p)) (f p) Q) :
    Triple contract (At h read k) (.op (.phpCbDataNew fci false) f) Q := by
  refine .op (fun _ hv => hv) (stable_at _) (fun v p v' hv hsem => ⟨fun hfalse => ?_, ?_⟩) hf
  · cases hfalse
  · obtain ⟨-, ⟨a, hperf⟩, hwatched, hheld, hread, hshared⟩ := hsem
    obtain ⟨rfl, hext⟩ := Prod.mk.inj (Option.some.inj hperf)
    refine ⟨hwatched.trans hv.watched, hheld.trans hv.held, hread.trans hv.read, fun q hq => ?_⟩
    obtain rfl := Option.some.inj hq
    rw [← hext]
    exact ⟨_, List.getElem?_concat_length, rfl⟩

/-- An object is read. -/
theorem step_readObject {object : Ptr} {f : ZkObject → ExtCode α}
    (hf : ∀ o : ZkObject, Triple contract (At h read o.cbData) (f o) Q) :
    Triple contract (At h read k) (.op (.readObject object) f) Q := by
  refine .op (fun _ hv => hv) (stable_at _) (fun v o v' hv hsem => ⟨True.intro, ?_⟩) hf
  obtain ⟨hlasts, ⟨a, hperf⟩, hwatched, hheld, hread, hshared⟩ := hsem
  obtain ⟨rfl, hext⟩ := Prod.mk.inj (Option.some.inj hperf)
  refine ⟨hwatched.trans hv.watched, hheld.trans hv.held, hread.trans hv.read, fun p hp => ?_⟩
  rw [← hext]
  exact hlasts p (.object hp)

theorem triple_ret {a : α} : Triple contract T (.ret a) fun _ _ => True :=
  .ret fun _ _ => True.intro

/-- Nothing is known any more. -/
theorem At.forget {v : FrameView} (hv : At h read k v) : At h read none v :=
  ⟨hv.watched, hv.held, hv.read, fun _ hp => nomatch hp⟩

theorem triple_newCbData_oneshot {fci : Option Callable} :
    Triple contract (At none read none) (newCbData fci true) fun c => At c read none := by
  cases fci with
  | none => exact .ret fun _ hv => hv
  | some f => exact step_at (fun _ hv _ => hv.held) fun p => .ret fun _ hv => hv

theorem triple_newCbData_lasting {fci : Option Callable} :
    Triple contract (At none read none) (newCbData fci false) fun c => At none read c := by
  cases fci with
  | none => exact .ret fun _ hv => hv
  | some f => exact step_new fun p => .ret fun _ hv => hv

theorem triple_fetchObject {object : Ptr} {f : Ptr → ExtCode MethodResult}
    (hf : ∀ zk, Triple contract (At h read none) (f zk) fun _ _ => True) :
    Triple contract (At h read none) (fetchObject object f) fun _ _ => True := by
  refine step_at (fun _ _ => True.intro) fun o => ?_
  simp only [ret_bind]
  cases o.zk with
  | some zk => exact hf zk
  | none => exact step_at (fun _ _ => True.intro) fun _ => triple_ret

/-- A request with the context `cbData` that has left no watch, and a warning. -/
theorem triple_failed {cbData : Option Ptr} {status : Status} {f : Unit → ExtCode MethodResult}
    (hh : h = cbData) (hf : ∀ {h}, Triple contract (At h read none) (f ()) fun _ _ => True) :
    Triple contract (At h read none)
      (.op (.phpCbDataDestroy cbData) fun _ => .op (.warningStatus status) f) fun _ _ => True := by
  subst hh
  refine step_at (fun _ hv _ hp => hv.held.trans hp) fun _ => ?_
  exact step_at (fun _ _ => True.intro) fun _ => hf

theorem heldAfter_zooWexists {zk : Ptr} {path : CString} {cbData : Option Ptr} {a : StatReply}
    (hrc : a.rc ≠ ZOK ∧ a.rc ≠ ZNONODE) :
    heldAfter (.zooWexists zk path cbData) a cbData = cbData := by
  cases cbData with
  | none => rfl
  | some p => exact if_neg (not_or.mpr hrc)

theorem heldAfter_zooWget {zk : Ptr} {path : CString} {cbData : Option Ptr} {length : Int32}
    {a : GetReply} (hrc : a.rc ≠ ZOK) :
    heldAfter (.zooWget zk path cbData length) a cbData = cbData := by
  cases cbData with
  | none => rfl
  | some p => exact if_neg hrc

theorem heldAfter_zooWgetChildren {zk : Ptr} {path : CString} {cbData : Option Ptr}
    {a : ChildrenReply} (hrc : a.rc ≠ ZOK) :
    heldAfter (.zooWgetChildren zk path cbData) a cbData = cbData := by
  cases cbData with
  | none => rfl
  | some p => exact if_neg hrc

theorem triple_connect {object : Ptr} {fci : Option Callable} {recvTimeout : Int64} :
    Triple contract (At none read none) (phpZookeeperConnectImpl object fci recvTimeout)
      fun _ _ => True := by
  unfold phpZookeeperConnectImpl
  split_ifs
  · exact step_at (fun _ _ => True.intro) fun _ =>
      step_at (fun _ _ => True.intro) fun _ => triple_ret
  · refine triple_newCbData_lasting.bind fun cbData => ?_
    refine step_at (fun _ hv => hv.lasting) fun zk => ?_
    simp only [ret_bind]
    cases zk with
    | none => exact step_at (fun _ _ => True.intro) fun e => nomatch e
    | some zk =>
      exact step_at (fun _ _ => True.intro) fun _ =>
        step_at (fun _ hv => hv.lasting) fun _ => triple_ret

theorem triple_getLength {zk : Ptr} {path : CString} {cbData : Option Ptr} {statInfo : Bool}
    {length : Int32} :
    Triple contract (At cbData read none) (Zookeeper.getLength zk path cbData statInfo length)
      fun _ _ => True := by
  unfold Zookeeper.getLength
  split_ifs
  · exact triple_ret
  · refine step_at (fun _ _ => True.intro) fun _ => ?_
    refine step_at (fun _ hv _ hp => hv.held.trans hp) fun a => ?_
    refine step_at (fun _ _ => True.intro) fun _ => ?_
    simp only [ret_bind]
    split_ifs with hrc
    · exact triple_failed (heldAfter_zooWget hrc) triple_ret
    · exact triple_failed (heldAfter_zooWget hrc) triple_ret
    · exact triple_ret
    · exact triple_ret

theorem triple_get {object : Ptr} {path : CString} {fci : Option Callable} {statInfo : Bool}
    {maxSize : Int64} : Triple contract (At none read none)
      (Zookeeper.get object path fci statInfo maxSize) fun _ _ => True := by
  refine triple_fetchObject fun zk => triple_newCbData_oneshot.bind fun cbData => ?_
  split_ifs
  · refine step_at (fun _ _ => True.intro) fun a => ?_
    simp only [ret_bind]
    split_ifs
    · exact triple_failed rfl triple_ret
    · exact triple_getLength
  · exact triple_getLength

theorem triple_exists {object : Ptr} {path : CString} {fci : Option Callable} :
    Triple contract (At none read none) (Zookeeper.exists object path fci) fun _ _ => True := by
  refine triple_fetchObject fun zk => triple_newCbData_oneshot.bind fun cbData => ?_
  refine step_at (fun _ hv _ hp => hv.held.trans hp) fun a => ?_
  simp only [ret_bind]
  split_ifs with hrc
  · exact triple_failed (heldAfter_zooWexists hrc) triple_ret
  · exact triple_ret
  · exact triple_ret

theorem triple_getChildren {object : Ptr} {path : CString} {fci : Option Callable} :
    Triple contract (At none read none) (Zookeeper.getChildren object path fci)
      fun _ _ => True := by
  refine triple_fetchObject fun zk => triple_newCbData_oneshot.bind fun cbData => ?_
  refine step_at (fun _ hv _ hp => hv.held.trans hp) fun a => ?_
  simp only [ret_bind]
  split_ifs with hrc
  · exact triple_failed (heldAfter_zooWgetChildren hrc) triple_ret
  · exact triple_ret

/-- A request that gives a status, and a warning when it is not `ZOK`. -/
theorem triple_status {status : Status} {r : MethodResult} :
    Triple contract (At h read k)
      (if status ≠ ZOK then do
        extAct (.warningStatus status)
        return { value := .null }
      else return r) fun _ _ => True := by
  split_ifs
  · exact step_at (fun _ _ => True.intro) fun _ => triple_ret
  · exact triple_ret

theorem triple_removeCbData {o : ZkObject} {f : Unit → ExtCode α}
    (hf : ∀ read, Triple contract (At none read none) (f ()) fun _ _ => True) :
    Triple contract (At none read o.cbData) ((removeCbData o).bind f) fun _ _ => True := by
  unfold removeCbData
  cases o.cbData with
  | none => exact hf _
  | some p =>
    refine step_at (fun v hv q hq => ?_) fun t => ?_
    · rw [hv.watched] at hq
      cases hq
    · refine step_at (fun v hv => ⟨p, hv.read, .inr (hv.lasting p rfl)⟩) fun _ => ?_
      exact (hf _).pre fun _ hv => hv.forget

theorem triple_setWatcher {object : Ptr} {fci : Callable} :
    Triple contract (At none read none) (Zookeeper.setWatcher object fci) fun _ _ => True := by
  refine triple_fetchObject fun zk => step_readObject fun o => ?_
  refine triple_removeCbData fun read => step_new fun p =>
    step_at (fun _ _ => True.intro) fun _ => ?_
  exact step_at (fun _ hv => hv.lasting) fun _ => triple_ret

theorem triple_phpZkDestroy {object : Ptr} :
    Triple contract (At none read none) (phpZkDestroy object) fun _ _ => True := by
  refine step_readObject fun o => triple_removeCbData fun read => ?_
  cases o.zk with
  | none => exact step_at (fun _ _ => True.intro) fun _ => triple_ret
  | some zk =>
    exact step_at (fun _ _ => True.intro) fun _ =>
      step_at (fun _ _ => True.intro) fun _ => triple_ret

theorem triple_ignore {p : ExtCode MethodResult} (hp : Triple contract T p fun _ _ => True) :
    Triple contract T (p.bind fun _ => .ret ()) fun _ _ => True :=
  hp.bind fun _ => triple_ret

/-- **Every call of a method keeps the contract.** -/
theorem triple_method (m : Method) :
    Triple contract (At none none none) m.code fun _ _ => True := by
  cases m with
  | construct object host fci recvTimeout =>
    refine triple_ignore ?_
    unfold Zookeeper.construct
    split_ifs
    · exact triple_connect
    · exact triple_ret
  | connect object fci recvTimeout => exact triple_ignore triple_connect
  | delete object path version =>
    exact triple_ignore (triple_fetchObject fun zk =>
      step_at (fun _ _ => True.intro) fun _ => triple_status)
  | getChildren object path fci => exact triple_ignore triple_getChildren
  | get object path fci statInfo maxSize => exact triple_ignore triple_get
  | «exists» object path fci => exact triple_ignore triple_exists
  | set object path value version statInfo =>
    exact triple_ignore (triple_fetchObject fun zk =>
      step_at (fun _ _ => True.intro) fun _ => triple_status)
  | setAcl object path version acl =>
    exact triple_ignore (triple_fetchObject fun zk =>
      step_at (fun _ _ => True.intro) fun _ => triple_status)
  | addAuth object scheme cert fci =>
    refine triple_ignore (triple_fetchObject fun zk =>
      triple_newCbData_lasting.bind fun cbData => ?_)
    exact step_at (fun _ hv => hv.lasting) fun _ => triple_status
  | setWatcher object fci => exact triple_ignore triple_setWatcher
  | phpZkDestroy object => exact triple_phpZkDestroy

/-- `php_zk_watcher_marshal` with the context of a handle, or of a completion. -/
theorem triple_marshal_lasting {p : Ptr} :
    Triple contract (At none none (some p)) (phpZkWatcherMarshal p) fun _ _ => True := by
  have hunwatched : ∀ {read : Option Ptr} {v : FrameView} {T : Ptr → Prop},
      At none read (some p) v → ∀ q, v.watched = some q → T q := by
    intro read v T hv q hq
    rw [hv.watched] at hq
    cases hq
  refine step_at (fun _ hv => hunwatched hv) fun t => ?_
  refine step_at (fun _ hv => hunwatched hv) fun _ => ?_
  refine step_at (fun _ hv => hunwatched hv) fun t => ?_
  simp only [ret_bind]
  split_ifs
  · exact step_at (fun v hv => ⟨p, hv.read, .inr (hv.lasting p rfl)⟩) fun _ => triple_ret
  · exact triple_ret

/-- A frame that a node's watch has called, and the record of the watch: the frame owns it, or it is
shared and lasts. -/
structure Watched (p : Ptr) (t : CbData) (v : FrameView) : Prop where
  watched : v.watched = some p
  owner : v.held = some p ∨ v.shared = some p ∧ t.oneshot = false
  live : v.ext.IsLive p t

theorem stable_watched {p : Ptr} {t : CbData} (o : Option ExtOp) :
    contract.Stable o (Watched p t) := by
  intro v v' hrely hw
  refine ⟨hrely.watched.trans hw.watched, ?_, hrely.live p t (hw.owner.imp id (·.1)) hw.live⟩
  rw [hrely.held, hrely.shared]
  exact hw.owner

/-- The record is read. -/
theorem step_readCbData {p : Ptr} {t : CbData} {f : CbData → ExtCode α}
    (hf : Triple contract (fun v => Watched p t v ∧ v.read = some p) (f t) Q) :
    Triple contract (Watched p t) (.op (.readCbData p) f) Q := by
  refine .op (M := fun r v => r = t ∧ Watched p t v ∧ v.read = some p) (fun _ hv => hv)
    (stable_watched _) (fun v r v' hv hsem => ⟨fun q hq => ?_, ?_⟩) fun r => ?_
  · obtain rfl := Option.some.inj (hv.watched.symm.trans hq)
    exact ⟨rfl, t, hv.live⟩
  · obtain ⟨-, ⟨a, hperf⟩, hwatched, hheld, hread, hshared⟩ := hsem
    obtain ⟨rfl, hext⟩ := Prod.mk.inj (Option.some.inj hperf)
    refine ⟨?_, ⟨hwatched.trans hv.watched, ?_, ?_⟩, hread⟩
    · rw [Ext.readCbData, if_neg hv.live.2, hv.live.1]
      rfl
    · rw [hheld, hshared]
      exact hv.owner
    · rw [← hext]
      exact hv.live
  · by_cases hr : r = t
    · subst hr
      exact hf.pre fun _ hv => hv.2
    · exact .of_false fun _ hv => hr hv.1

/-- `php_zk_watcher_marshal` with the context of a node's watch. -/
theorem triple_marshal_watch {p : Ptr} {t : CbData} :
    Triple contract (Watched p t) (phpZkWatcherMarshal p) fun _ _ => True := by
  refine step_readCbData ?_
  refine .op (K := Watched p t) (M := fun _ => Watched p t) (fun _ hv => hv.1) (stable_watched _)
    (fun v r v' hv hsem => ⟨fun q hq => ?_, ?_⟩) fun _ => ?_
  · obtain rfl := Option.some.inj (hv.watched.symm.trans hq)
    exact ⟨t, hv.live.1, rfl⟩
  · obtain ⟨-, ⟨a, hperf⟩, hwatched, hheld, -, hshared⟩ := hsem
    obtain ⟨-, hext⟩ := Prod.mk.inj (Option.some.inj hperf)
    refine ⟨hwatched.trans hv.watched, ?_, ?_⟩
    · rw [hheld, hshared]
      exact hv.owner
    · rw [← hext]
      exact hv.live
  · refine step_readCbData ?_
    simp only [ret_bind]
    split_ifs with honeshot
    · refine .op (K := fun v => v.held = some p ∧ v.read = some p) (M := fun _ _ => True)
        (fun v hv => ⟨?_, hv.2⟩) (fun v v' hrely hv => ?_) (fun v r v' hv _ => ?_)
        fun _ => triple_ret
      · -- a shared record is kept
        refine hv.1.owner.resolve_right fun hshared => ?_
        rw [hshared.2] at honeshot
        cases honeshot
      · exact ⟨hrely.held.trans hv.1, hrely.read.trans hv.2⟩
      · exact ⟨⟨p, hv.2, .inl hv.1⟩, True.intro⟩
    · exact triple_ret

end Code

end FrameView

/-! ### What an operation changes -/

namespace Ext

/-- What an operation changes that a frame performs which holds `h` before and `h'` after it, when
the records in `G` are not to be freed. -/
structure Changes (s s' : Ext) (h h' : Option Ptr) (G : Ptr → Prop) : Prop where
  records : s.RecordsKept s'
  keeps : ∀ p, s'.Keeps p → s.Keeps p ∨ s.Lasting p
  entries : ∀ e ∈ s'.callbacks, e ∈ s.callbacks ∨ e.2 < s'.records.length
  freed : ∀ p ∈ s'.freed, p ∈ s.freed ∨ h = some p ∧ h' = none ∨ s.Lasting p ∧ ¬ G p
  handles : ∀ (zk : Ptr) (d : Handle), s.handles[zk]? = some d →
    ∃ d', s'.handles[zk]? = some d' ∧ (d'.isOpen = true → d.isOpen = true)
  watches : s'.watches = s.watches ∨ ∃ w, s'.watches = s.watches ++ [w] ∧ s'.freed = s.freed ∧
    (w.own = true → ∃ p, w.context = some p ∧ h = some p ∧ h' = none) ∧
    (w.own = false → ∃ d, s.handles[w.zk]? = some d ∧
      (d.isOpen = true → ∃ p r, w.context = some p ∧ s.IsLive p r))
  held : h' = h ∨ h' = none ∨ ∃ p, h' = some p ∧ s.records.length ≤ p ∧ s'.Pending p

variable {s s' : Ext} {h h' : Option Ptr} {p : Ptr} {G : Ptr → Prop}

/-- Only what objects keep, and the completions, may change. -/
theorem Changes.kept (hsame : s.SameTable s') (hwatches : s'.watches = s.watches)
    (hhandles : ∀ (zk : Ptr) (d : Handle), s.handles[zk]? = some d →
      ∃ d', s'.handles[zk]? = some d' ∧ (d'.isOpen = true → d.isOpen = true))
    (hkeeps : ∀ p, s'.Keeps p → s.Keeps p ∨ s.Lasting p) : Changes s s' h h G :=
  ⟨fun p r hp => by rw [hsame.records]; exact hp, hkeeps, fun e he => .inl (hsame.callbacks ▸ he),
    fun p hp => .inl (hsame.freed ▸ hp), hhandles, .inl hwatches, .inl rfl⟩

/-- No handle is changed. -/
theorem handles_kept (zk : Ptr) (d : Handle) (hd : s.handles[zk]? = some d) :
    ∃ d', s.handles[zk]? = some d' ∧ (d'.isOpen = true → d.isOpen = true) := ⟨d, hd, id⟩

/-- A handle is changed, but not opened. -/
theorem handles_modifyHandle {zk' : Ptr} {f : Handle → Handle}
    (hf : ∀ d, (f d).isOpen = true → d.isOpen = true) (zk : Ptr) (d : Handle)
    (hd : s.handles[zk]? = some d) :
    ∃ d', (s.modifyHandle zk' f).handles[zk]? = some d' ∧ (d'.isOpen = true → d.isOpen = true) := by
  simp only [modifyHandle, List.getElem?_modify, hd]
  by_cases hzk : zk' = zk
  · exact ⟨f d, by simp [hzk], hf d⟩
  · exact ⟨d, by simp [hzk], id⟩

theorem Changes.refl : Changes s s h h G :=
  .kept ⟨rfl, rfl, rfl, rfl⟩ rfl handles_kept fun _ hp => .inl hp

/-- Records are made or freed. -/
theorem keeps_of_eq (hhandles : s'.handles = s.handles) (hwatches : s'.watches = s.watches)
    (hobjects : s'.objects = s.objects) (hauths : s'.auths = s.auths) (p : Ptr) (hp : s'.Keeps p) :
    s.Keeps p ∨ s.Lasting p := by
  left
  cases hp with
  | handle hc hp => exact .handle (hhandles ▸ hc) hp
  | watch hw hown hp => exact .watch (hwatches ▸ hw) hown hp
  | object hp => exact .object (hobjects ▸ hp)
  | auth hp => exact .auth (hauths ▸ hp)

/-- An object keeps another record, or none. -/
theorem keeps_of_update {o : Ptr} {x : ZkObject} (hhandles : s'.handles = s.handles)
    (hwatches : s'.watches = s.watches) (hobjects : s'.objects = Function.update s.objects o x)
    (hauths : s'.auths = s.auths) (hx : ∀ p, x.cbData = some p → s.Keeps p ∨ s.Lasting p)
    (p : Ptr) (hp : s'.Keeps p) : s.Keeps p ∨ s.Lasting p := by
  cases hp with
  | handle hc hp => exact .inl (.handle (hhandles ▸ hc) hp)
  | watch hw hown hp => exact .inl (.watch (hwatches ▸ hw) hown hp)
  | @object o' _ hp =>
    rw [hobjects] at hp
    by_cases ho : o' = o
    · subst ho
      rw [Function.update_self] at hp
      exact hx p hp
    · rw [Function.update_of_ne ho] at hp
      exact .inl (.object hp)
  | auth hp => exact .inl (.auth (hauths ▸ hp))

/-- A handle is changed, but not its context. -/
theorem keeps_modifyHandle {zk : Ptr} {f : Handle → Handle} (hf : ∀ c, (f c).context = c.context)
    (p : Ptr) (hp : (s.modifyHandle zk f).Keeps p) : s.Keeps p ∨ s.Lasting p := by
  left
  cases hp with
  | handle hc hp =>
    obtain ⟨i, hi⟩ := List.mem_iff_getElem?.mp hc
    simp only [modifyHandle, List.getElem?_modify] at hi
    obtain ⟨d, hd, rfl⟩ := Option.map_eq_some_iff.mp hi
    refine .handle (List.mem_of_getElem? hd) ?_
    rw [← hp]
    by_cases hzk : zk = i
    · rw [if_pos hzk, hf]
    · rw [if_neg hzk]
  | watch hw hown hp => exact .watch hw hown hp
  | object hp => exact .object hp
  | auth hp => exact .auth hp

/-- A watch is left with a context of its own, if there is one and `b`. -/
theorem Changes.watchOwn {zk : Ptr} {path : CString} {context : Option Ptr} {b : Prop} [Decidable b]
    (hcontext : ∀ p, context = some p → h = some p) :
    Changes s (if b then s.watchOwn zk path context else s) h
      (match context with | some _ => if b then none else h | none => h) G := by
  cases context with
  | none =>
    simp only [Ext.watchOwn, Option.isSome_none, Bool.false_eq_true, if_false, ite_self]
    exact .refl
  | some p =>
    simp only [Ext.watchOwn, Option.isSome_some, if_true]
    by_cases hb : b
    · rw [if_pos hb, if_pos hb]
      refine ⟨.refl _, fun q hq => .inl ?_, fun e he => .inl he, fun q hq => .inl hq, handles_kept,
        .inr ⟨_, rfl, rfl, fun _ => ?_, nofun⟩, .inr (.inl rfl)⟩
      · cases hq with
        | handle hc hq => exact .handle hc hq
        | watch hw hown hq =>
          rcases List.mem_append.mp hw with hw | hw
          · exact .watch hw hown hq
          · rw [List.mem_singleton.mp hw] at hown
            cases hown
        | object hq => exact .object hq
        | auth hq => exact .auth hq
      · exact ⟨p, rfl, hcontext p rfl, rfl⟩
    · rw [if_neg hb, if_neg hb]
      exact .refl

/-- A watch is left with the context of its handle, if that has a watcher. -/
theorem Changes.watchHandle {zk : Ptr} {path : CString}
    (hlive : ∀ d, s.handles[zk]? = some d → d.isOpen = true → d.watcher = true →
      ∃ p r, d.context = some p ∧ s.IsLive p r) :
    Changes s (s.watchHandle zk path) h h G := by
  unfold Ext.watchHandle
  cases hzk : s.handles[zk]? with
  | none => exact .refl
  | some c =>
    dsimp only
    split_ifs with hwatcher
    · refine ⟨.refl _, fun q hq => .inl ?_, fun e he => .inl he, fun q hq => .inl hq, handles_kept,
        .inr ⟨_, rfl, rfl, nofun, fun _ => ⟨c, hzk, fun hopen => hlive c hzk hopen hwatcher⟩⟩,
        .inl rfl⟩
      cases hq with
      | handle hc hq => exact .handle hc hq
      | watch hw hown hq =>
        rcases List.mem_append.mp hw with hw | hw
        · exact .watch hw hown hq
        · rw [List.mem_singleton.mp hw] at hq
          exact .handle (List.mem_of_getElem? hzk) hq
      | object hq => exact .object hq
      | auth hq => exact .auth hq
    · exact .refl

/-- **One operation** that the contract allows. -/
theorem changes_perform {v : FrameView} {a : LibReply} {o : ExtOp} {r : o.Res}
    (hallows : v.Allows o) (hmade : ∀ p ∈ v.ext.freed, p < v.ext.records.length)
    (hentries : ∀ e ∈ v.ext.callbacks, e.2 < v.ext.records.length)
    (hdel : ∀ k, o = .zendHashIndexDel k → ∀ e ∈ v.ext.callbacks, e.1 = k →
      (v.read = some e.2 ∨ ¬ v.ext.Pending e.2) ∧ (v.ext.Lasting e.2 → ¬ G e.2))
    (hexists : ∀ zk path, o = .zooExists zk path → ∀ d, v.ext.handles[zk]? = some d →
      d.isOpen = true → d.watcher = true → ∃ p r, d.context = some p ∧ v.ext.IsLive p r)
    (hperf : Ext.perform a o v.ext = some (r, s')) :
    Changes v.ext s' v.held (heldAfter o r v.held) G := by
  have hs' : ∀ {x : o.Res × Ext}, Ext.perform a o v.ext = some x → s' = x.2 :=
    fun hx => congrArg Prod.snd (Option.some.inj (hperf.symm.trans hx))
  cases o with
  | phpCbDataNew fci oneshot =>
    obtain ⟨rfl, hext⟩ := Prod.mk.inj (Option.some.inj hperf)
    obtain rfl := hext
    refine ⟨recordsKept_phpCbDataNew _ _ _, keeps_of_eq rfl rfl rfl rfl, fun e he => ?_,
      fun q hq => .inl hq, handles_kept, .inl rfl, ?_⟩
    · rcases List.mem_append.mp he with he | he
      · exact .inl he
      · rw [List.mem_singleton.mp he]
        show _ ∨ v.ext.records.length < (v.ext.records ++ [_]).length
        rw [List.length_append]
        exact .inr (Nat.lt_succ_self _)
    cases oneshot with
    | false => exact .inl rfl
    | true =>
      refine .inr (.inr ⟨v.ext.records.length, rfl, le_rfl, _,
        ⟨List.getElem?_concat_length, fun hmem => ?_⟩, rfl⟩)
      exact absurd (hmade _ hmem) (lt_irrefl _)
  | phpCbDataDestroy entry =>
    obtain rfl := hs' rfl
    cases entry with
    | none => exact .refl
    | some p =>
      refine ⟨.refl _, keeps_of_eq rfl rfl rfl rfl, fun e he => .inl he, fun q hq => ?_,
        handles_kept, .inl rfl, .inr (.inl rfl)⟩
      rcases List.mem_cons.mp hq with rfl | hq
      · exact .inr (.inl ⟨hallows q rfl, rfl⟩)
      · exact .inl hq
  | zendHashIndexDel k =>
    obtain rfl := hs' rfl
    refine ⟨.refl _, keeps_of_eq rfl rfl rfl rfl, fun e he => .inl (List.mem_filter.mp he).1,
      fun q hq => ?_, handles_kept, .inl rfl, .inr (.inl rfl)⟩
    obtain ⟨p, hread, hp⟩ := hallows
    rcases List.mem_append.mp hq with hq | hq
    · obtain ⟨e, he, rfl⟩ := List.mem_map.mp hq
      obtain ⟨he, hk⟩ := List.mem_filter.mp he
      obtain ⟨hpending, hguard⟩ := hdel k rfl e he (by simpa using hk)
      rcases hpending with heq | hnot
      · obtain rfl : p = e.2 := Option.some.inj (hread.symm.trans heq)
        exact .inr (hp.imp (fun hh => ⟨hh, rfl⟩) fun hl => ⟨hl, hguard hl⟩)
      · rcases freed_or_lasting (hentries e he) hnot with hfreed | hl
        · exact .inl hfreed
        · exact .inr (.inr ⟨hl, hguard hl⟩)
    · exact .inl hq
  | zendHashClean => exact hallows.elim
  | writeZk object zk =>
    obtain rfl := hs' rfl
    exact .kept ⟨rfl, rfl, rfl, rfl⟩ rfl handles_kept
      (keeps_of_update rfl rfl rfl rfl fun p hp => .inl (.object hp))
  | writeCbData object cbData =>
    obtain rfl := hs' rfl
    exact .kept ⟨rfl, rfl, rfl, rfl⟩ rfl handles_kept
      (keeps_of_update rfl rfl rfl rfl fun p hp => .inr (hallows p hp))
  | efreeObject object =>
    obtain rfl := hs' rfl
    refine .kept ⟨rfl, rfl, rfl, rfl⟩ rfl handles_kept
      (keeps_of_update rfl rfl rfl rfl fun p hp => ?_)
    cases hp
  | zookeeperInit watcher context =>
    simp only [Ext.perform] at hperf
    split_ifs at hperf
    · obtain ⟨rfl, rfl⟩ := Prod.mk.inj (Option.some.inj hperf)
      refine .kept ⟨rfl, rfl, rfl, rfl⟩ rfl (fun zk d hd => ⟨d, ?_, id⟩) fun p hp => ?_
      · rw [List.getElem?_append_left (List.getElem?_eq_some_iff.mp hd).1]
        exact hd
      cases hp with
      | handle hc hp =>
        rcases List.mem_append.mp hc with hc | hc
        · exact .inl (.handle hc hp)
        · rw [List.mem_singleton.mp hc] at hp
          exact .inr (hallows p hp)
      | watch hw hown hp => exact .inl (.watch hw hown hp)
      | object hp => exact .inl (.object hp)
      | auth hp => exact .inl (.auth hp)
    · obtain ⟨rfl, rfl⟩ := Prod.mk.inj (Option.some.inj hperf)
      exact .refl
  | zookeeperClose zk =>
    obtain rfl := hs' rfl
    refine .kept ⟨rfl, rfl, rfl, rfl⟩ rfl (handles_modifyHandle fun d h => ?_)
      (keeps_modifyHandle fun _ => rfl)
    cases h
  | zooSetWatcher zk =>
    obtain rfl := hs' rfl
    exact .kept ⟨rfl, rfl, rfl, rfl⟩ rfl (handles_modifyHandle fun _ h => h)
      (keeps_modifyHandle fun _ => rfl)
  | zooExists zk path =>
    obtain rfl := hs' rfl
    dsimp only
    split_ifs
    · exact .watchHandle (hexists zk path rfl)
    · exact .refl
  | zooWexists zk path context =>
    obtain ⟨rfl, rfl⟩ := Prod.mk.inj (Option.some.inj hperf)
    cases context <;> exact .watchOwn hallows
  | zooWget zk path context length =>
    obtain ⟨rfl, rfl⟩ := Prod.mk.inj (Option.some.inj hperf)
    cases context <;> exact .watchOwn hallows
  | zooWgetChildren zk path context =>
    obtain ⟨rfl, rfl⟩ := Prod.mk.inj (Option.some.inj hperf)
    cases context <;> exact .watchOwn hallows
  | zooAddAuth zk scheme cert context =>
    obtain rfl := hs' rfl
    dsimp only
    split_ifs
    · refine .kept ⟨rfl, rfl, rfl, rfl⟩ rfl handles_kept fun p hp => ?_
      cases hp with
      | handle hc hp => exact .inl (.handle hc hp)
      | watch hw hown hp => exact .inl (.watch hw hown hp)
      | object hp => exact .inl (.object hp)
      | auth hp =>
        rcases List.mem_append.mp hp with hp | hp
        · exact .inl (.auth hp)
        · exact .inr (hallows p (Option.mem_toList.mp hp))
    · exact .refl
  | error message => cases hperf
  | _ =>
    obtain rfl := hs' rfl
    exact .refl

theorem Pending.lt (h : s.Pending p) : p < s.records.length := by
  obtain ⟨r, hr, -⟩ := h
  exact (List.getElem?_eq_some_iff.mp hr.1).1

theorem Lasting.lt (h : s.Lasting p) : p < s.records.length := by
  obtain ⟨r, hr, -⟩ := h
  exact (List.getElem?_eq_some_iff.mp hr).1

theorem Changes.lt (hch : Changes s s' h h' G) (hp : p < s.records.length) :
    p < s'.records.length :=
  (List.getElem?_eq_some_iff.mp (hch.records p _ (List.getElem?_eq_getElem hp))).1

/-- A pending record that the frame does not free. -/
theorem Changes.pending (hch : Changes s s' h h' G) (hp : s.Pending p)
    (hheld : ¬ (h = some p ∧ h' = none)) : s'.Pending p := by
  have hnot := hp.not_lasting
  obtain ⟨r, hr, htrue⟩ := hp
  refine ⟨r, ⟨hch.records p r hr.1, fun hmem => ?_⟩, htrue⟩
  rcases hch.freed p hmem with hold | hfree | hlast
  · exact hr.2 hold
  · exact hheld hfree
  · exact hnot hlast.1

end Ext

/-! ### The owner of a record -/

/-- What the frame can see in the state `s`, when it holds `h`. -/
def Frame.view (f : Frame) (s : Ext) (h : Option Ptr) : FrameView :=
  ⟨s, f.watched, h, f.shared, f.read⟩

/-- **A record that is freed by its first call has one owner**, a frame or a watch, until it is
freed; `held` says which record each frame owns. The record of a handle lasts as long as a watch or
a call shares it. -/
structure Process.OwnerInv (c : Process) (held : ℕ → Option Ptr) : Prop where
  frames : ∀ (i : ℕ) (f : Frame), c.frames[i]? = some f →
    Safe FrameView.contract f.code (fun _ _ => True) (f.view c.ext (held i))
  lasts : c.ext.Lasts
  made : ∀ p ∈ c.ext.freed, p < c.ext.records.length
  entries : ∀ e ∈ c.ext.callbacks, e.2 < c.ext.records.length
  heldPending : ∀ i p, held i = some p → c.ext.Pending p
  heldOnce : ∀ i j p, held i = some p → held j = some p → i = j
  watchPending : ∀ w ∈ c.ext.watches, w.own = true →
    ∃ p, w.context = some p ∧ c.ext.Pending p ∧ ∀ i, held i ≠ some p
  watchOnce : c.ext.watches.Pairwise fun w w' =>
    w.own = true → w'.own = true → w.context ≠ w'.context
  idle : ∀ i, c.frames.length ≤ i → held i = none
  frameShares : ∀ f ∈ c.frames, ∀ p, f.shared = some p → c.ext.Lasting p
  watchShares : ∀ w ∈ c.ext.watches, w.own = false → ∃ d, c.ext.handles[w.zk]? = some d ∧
    (d.isOpen = true → ∃ p r, w.context = some p ∧ c.ext.IsLive p r)

namespace Process.OwnerInv

variable {c : Process} {held : ℕ → Option Ptr}

theorem stable_true (_ : Unit) : FrameView.contract.Stable none fun _ => True :=
  Contract.Stable.true none

/-- What a frame is about to do is allowed. -/
theorem allows (hinv : c.OwnerInv held) {i : ℕ} {f : Frame} {o : ExtOp} {k : o.Res → ExtCode Unit}
    (hf : c.frames[i]? = some f) (hcode : f.code = .op o k) {a : LibReply} {r : o.Res} {s' : Ext}
    (hperf : Ext.perform a o c.ext = some (r, s')) :
    (f.view c.ext (held i)).Allows o ∧
      Safe FrameView.contract (k r) (fun _ _ => True)
        ⟨s', f.watched, heldAfter o r (held i), f.shared, readAfter o f.read⟩ := by
  have hsafe := hinv.frames i f hf
  rw [hcode] at hsafe
  exact hsafe.op stable_true ⟨hinv.lasts, ⟨a, hperf⟩, rfl, rfl, rfl, rfl⟩

/-- The operation that a frame performs next is allowed. -/
theorem allows_next (hinv : c.OwnerInv held) {i : ℕ} {f : Frame} {o : ExtOp}
    (hf : c.frames[i]? = some f) (ho : f.code.next = some o) {a : LibReply} {r : o.Res} {s' : Ext}
    (hperf : Ext.perform a o c.ext = some (r, s')) : (f.view c.ext (held i)).Allows o := by
  cases hcode : f.code with
  | op o' k =>
    rw [hcode] at ho
    obtain rfl := Option.some.inj ho
    exact (hinv.allows hf hcode hperf).1
  | ret u =>
    rw [hcode] at ho
    cases ho
  | iter body b k =>
    rw [hcode] at ho
    cases ho

/-- The calls find their records. -/
theorem watchOk (hinv : c.OwnerInv held) : c.WatchOk := by
  refine ⟨fun w hw hlistens => ?_, fun f hmem p hp q hq => ?_, fun f hmem p hp g hg => ?_⟩
  · cases hown : w.own with
    | true =>
      obtain ⟨p, hp, ⟨r, hr, -⟩, -⟩ := hinv.watchPending w hw hown
      exact ⟨p, r, hp, hr⟩
    | false =>
      obtain ⟨d, hd, hopen⟩ := hinv.watchShares w hw hown
      exact hopen (by simpa [Ext.listens, hd] using hlistens)
  · obtain ⟨i, hi⟩ := List.mem_iff_getElem?.mp hmem
    exact hinv.allows_next (a := {}) hi hq rfl p hp
  · obtain ⟨i, hi⟩ := List.mem_iff_getElem?.mp hmem
    exact hinv.allows_next (a := {}) hi hg rfl p hp

/-- Nothing is asked of a call that has returned. -/
theorem safe_of_not_runs {f : Frame} (hf : f.runs = false) (v : FrameView) :
    Safe FrameView.contract f.code (fun _ _ => True) v := by
  cases hcode : f.code with
  | ret u => exact (FrameView.triple_ret (T := fun _ => True)).safe stable_true True.intro
  | op o k => simp [Frame.runs, hcode] at hf
  | iter body b k => simp [Frame.runs, hcode] at hf

/-- A record that is shared is not freed by a step. -/
theorem live_of_shared (hinv : c.OwnerInv held) {i : ℕ} {s' : Ext} {h' : Option Ptr} {p : Ptr}
    {r : CbData} (hch : Ext.Changes c.ext s' (held i) h' c.Shared) (hlast : c.ext.Lasting p)
    (hshared : c.Shared p) (hr : c.ext.IsLive p r) : s'.IsLive p r := by
  refine ⟨hch.records p r hr.1, fun hmem => ?_⟩
  rcases hch.freed p hmem with hold | ⟨hheld, -⟩ | ⟨-, hspared⟩
  · exact hr.2 hold
  · exact (hinv.heldPending i p hheld).not_lasting hlast
  · exact hspared hshared

section Change

variable {i : ℕ} {f f' : Frame} {s' : Ext} {h' : Option Ptr}

/-- A record that another frame holds stays pending. -/
theorem pending_of_other (hinv : c.OwnerInv held)
    (hch : Ext.Changes c.ext s' (held i) h' c.Shared) {j : ℕ} {p : Ptr} (hj : j ≠ i)
    (hp : held j = some p) : s'.Pending p :=
  hch.pending (hinv.heldPending _ _ hp) fun hfree => hj (hinv.heldOnce _ _ _ hp hfree.1)

/-- What the frame holds now is what it held before, or new. -/
theorem held_or_new (hch : Ext.Changes c.ext s' (held i) h' c.Shared) {p : Ptr}
    (hp : h' = some p) : held i = some p ∨ c.ext.records.length ≤ p := by
  rcases hch.held with hsame | hnone | ⟨q, hq, hle, -⟩
  · exact .inl (hsame.symm.trans hp)
  · rw [hnone] at hp
    cases hp
  · obtain rfl := Option.some.inj (hq.symm.trans hp)
    exact .inr hle

/-- A pending record that the frame has not held is not the one that it holds now. -/
theorem held_ne (hch : Ext.Changes c.ext s' (held i) h' c.Shared) {p : Ptr}
    (hpend : c.ext.Pending p) (hnot : held i ≠ some p) : h' ≠ some p := by
  intro hp
  rcases held_or_new hch hp with hi | hle
  · exact hnot hi
  · exact absurd hpend.lt hle.not_gt

/-- Each of the frames keeps its contract. -/
theorem safe_frames (hinv : c.OwnerInv held) (hf : c.frames[i]? = some f)
    (hsafe : Safe FrameView.contract f'.code (fun _ _ => True) (f'.view s' h'))
    (hch : Ext.Changes c.ext s' (held i) h' c.Shared) {j : ℕ} {g : Frame}
    (hg : (c.frames.set i f')[j]? = some g) :
    Safe FrameView.contract g.code (fun _ _ => True)
      (g.view s' (Function.update held i h' j)) := by
  by_cases hj : j = i
  · subst hj
    obtain rfl : f' = g := by
      have hlt := (List.getElem?_eq_some_iff.mp hf).1
      rw [List.getElem?_set_self hlt] at hg
      exact Option.some.inj hg
    rw [Function.update_self]
    exact hsafe
  · rw [List.getElem?_set_ne (Ne.symm hj)] at hg
    rw [Function.update_of_ne hj]
    cases hruns : g.runs with
    | false => exact safe_of_not_runs hruns _
    | true =>
      have hmem := List.mem_of_getElem? hg
      refine (hinv.frames j g hg).rely ⟨rfl, rfl, rfl, rfl, hch.records, ?_⟩
      rintro p r (hp | hp) hr
      · obtain ⟨t, ht, -⟩ := pending_of_other hinv hch hj hp
        exact ⟨hch.records p r hr.1, ht.2⟩
      · have hlast := hinv.frameShares g hmem p hp
        exact hinv.live_of_shared hch hlast (.inr ⟨g, hmem, hp, hruns⟩) hr

/-- What is held is pending. -/
theorem pending_update (hinv : c.OwnerInv held)
    (hch : Ext.Changes c.ext s' (held i) h' c.Shared) {j : ℕ} {p : Ptr}
    (hp : Function.update held i h' j = some p) : s'.Pending p := by
  by_cases hj : j = i
  · subst hj
    rw [Function.update_self] at hp
    rcases hch.held with hsame | hnone | ⟨q, hq, -, hpend⟩
    · refine hch.pending (hinv.heldPending j p (hsame.symm.trans hp)) fun hfree => ?_
      rw [hfree.2] at hp
      cases hp
    · rw [hnone] at hp
      cases hp
    · obtain rfl := Option.some.inj (hq.symm.trans hp)
      exact hpend
  · rw [Function.update_of_ne hj] at hp
    exact pending_of_other hinv hch hj hp

/-- Two frames hold two records. -/
theorem heldOnce_update (hinv : c.OwnerInv held)
    (hch : Ext.Changes c.ext s' (held i) h' c.Shared) {j k : ℕ} {p : Ptr}
    (hj : Function.update held i h' j = some p) (hk : Function.update held i h' k = some p) :
    j = k := by
  have hdiff : ∀ {m}, m ≠ i → held m = some p → h' ≠ some p := fun hm hp =>
    held_ne hch (hinv.heldPending _ p hp) fun hi => hm (hinv.heldOnce _ _ _ hp hi)
  by_cases hji : j = i
  · subst hji
    rw [Function.update_self] at hj
    by_contra hkj
    rw [Function.update_of_ne (Ne.symm hkj)] at hk
    exact hdiff (Ne.symm hkj) hk hj
  · rw [Function.update_of_ne hji] at hj
    by_cases hki : k = i
    · subst hki
      rw [Function.update_self] at hk
      exact absurd hk (hdiff hji hj)
    · rw [Function.update_of_ne hki] at hk
      exact hinv.heldOnce j k p hj hk

/-- The context of a watch that was there, or has been given the frame's record, is pending, and no
frame holds it. -/
theorem watchPending_update (hinv : c.OwnerInv held)
    (hch : Ext.Changes c.ext s' (held i) h' c.Shared) {w : NodeWatch} (hw : w ∈ s'.watches)
    (hown : w.own = true) :
    ∃ p, w.context = some p ∧ s'.Pending p ∧ ∀ j, Function.update held i h' j ≠ some p := by
  have hold : w ∈ c.ext.watches → ∃ p, w.context = some p ∧ s'.Pending p ∧
      ∀ j, Function.update held i h' j ≠ some p := by
    intro hw
    obtain ⟨p, hcontext, hpend, hnot⟩ := hinv.watchPending w hw hown
    refine ⟨p, hcontext, hch.pending hpend fun hfree => hnot i hfree.1, fun j => ?_⟩
    by_cases hj : j = i
    · subst hj
      rw [Function.update_self]
      exact held_ne hch hpend (hnot j)
    · rw [Function.update_of_ne hj]
      exact hnot j
  rcases hch.watches with hsame | ⟨w', hw', hfreed, hcontext⟩
  · exact hold (hsame ▸ hw)
  · rw [hw'] at hw
    rcases List.mem_append.mp hw with hw | hw
    · exact hold hw
    · obtain rfl := List.mem_singleton.mp hw
      obtain ⟨p, hcontext, hp, hnone⟩ := hcontext.1 hown
      obtain ⟨r, hr, htrue⟩ := hinv.heldPending i p hp
      refine ⟨p, hcontext, ⟨r, ⟨hch.records p r hr.1, ?_⟩, htrue⟩, fun j hj => ?_⟩
      · rw [hfreed]
        exact hr.2
      · by_cases hji : j = i
        · subst hji
          rw [Function.update_self, hnone] at hj
          cases hj
        · rw [Function.update_of_ne hji] at hj
          exact hji (hinv.heldOnce _ _ _ hj hp)

/-- Two watches with contexts of their own have two. -/
theorem watchOnce_changes (hinv : c.OwnerInv held)
    (hch : Ext.Changes c.ext s' (held i) h' c.Shared) :
    s'.watches.Pairwise fun w w' => w.own = true → w'.own = true → w.context ≠ w'.context := by
  rcases hch.watches with hsame | ⟨w', hw', -, hcontext⟩
  · rw [hsame]
    exact hinv.watchOnce
  · rw [hw']
    refine List.pairwise_append.mpr ⟨hinv.watchOnce, List.pairwise_singleton _ _, ?_⟩
    intro w hw w₂ hw₂ hown hown' heq
    obtain rfl := List.mem_singleton.mp hw₂
    obtain ⟨p, hp, -, hnot⟩ := hinv.watchPending w hw hown
    obtain ⟨q, hq, hheld, -⟩ := hcontext.1 hown'
    obtain rfl : p = q := Option.some.inj (hp.symm.trans (heq.trans hq))
    exact hnot i hheld

/-- A watch that uses the context of its handle, which is open, has a record that has not been
freed. -/
theorem watchShares_changes (hinv : c.OwnerInv held)
    (hch : Ext.Changes c.ext s' (held i) h' c.Shared) {w : NodeWatch} (hw : w ∈ s'.watches)
    (hown : w.own = false) : ∃ d, s'.handles[w.zk]? = some d ∧
      (d.isOpen = true → ∃ p r, w.context = some p ∧ s'.IsLive p r) := by
  have hold : w ∈ c.ext.watches → ∃ d, s'.handles[w.zk]? = some d ∧
      (d.isOpen = true → ∃ p r, w.context = some p ∧ s'.IsLive p r) := by
    intro hw
    obtain ⟨d, hd, hopen⟩ := hinv.watchShares w hw hown
    obtain ⟨d', hd', hmono⟩ := hch.handles w.zk d hd
    refine ⟨d', hd', fun hd'open => ?_⟩
    obtain ⟨p, r, hp, hr⟩ := hopen (hmono hd'open)
    have hlistens : c.ext.listens w = true := by simp [Ext.listens, hd, hmono hd'open]
    have hlast := hinv.lasts p (.watch hw hown hp)
    exact ⟨p, r, hp, hinv.live_of_shared hch hlast (.inl ⟨w, hw, hown, hp, hlistens⟩) hr⟩
  rcases hch.watches with hsame | ⟨w', hw', hfreed, -, hcontext⟩
  · exact hold (hsame ▸ hw)
  · rw [hw'] at hw
    rcases List.mem_append.mp hw with hw | hw
    · exact hold hw
    · obtain rfl := List.mem_singleton.mp hw
      obtain ⟨d, hd, hopen⟩ := hcontext hown
      obtain ⟨d', hd', hmono⟩ := hch.handles w.zk d hd
      refine ⟨d', hd', fun hd'open => ?_⟩
      obtain ⟨p, r, hp, hr⟩ := hopen (hmono hd'open)
      exact ⟨p, r, hp, hch.records p r hr.1, hfreed ▸ hr.2⟩

/-- **A frame goes on.** -/
theorem change (hinv : c.OwnerInv held) (hf : c.frames[i]? = some f)
    (hshared : f'.shared = f.shared)
    (hsafe : Safe FrameView.contract f'.code (fun _ _ => True) (f'.view s' h'))
    (hch : Ext.Changes c.ext s' (held i) h' c.Shared) :
    OwnerInv { ext := s', frames := c.frames.set i f' } (Function.update held i h') where
  frames _ _ hg := safe_frames hinv hf hsafe hch hg
  lasts p hp := by
    rcases hch.keeps p hp with hp | hp
    · exact hch.records.lasting (hinv.lasts p hp)
    · exact hch.records.lasting hp
  made p hp := by
    rcases hch.freed p hp with hp | ⟨hp, -⟩ | ⟨hp, -⟩
    · exact hch.lt (hinv.made p hp)
    · exact hch.lt (hinv.heldPending i p hp).lt
    · exact hch.lt hp.lt
  entries e he := by
    rcases hch.entries e he with he | hlt
    · exact hch.lt (hinv.entries e he)
    · exact hlt
  heldPending _ _ hp := pending_update hinv hch hp
  heldOnce _ _ _ hj hk := heldOnce_update hinv hch hj hk
  watchPending _ hw hown := watchPending_update hinv hch hw hown
  watchOnce := watchOnce_changes hinv hch
  idle j hj := by
    have hlt := (List.getElem?_eq_some_iff.mp hf).1
    have hlen : c.frames.length ≤ j := by simpa using hj
    rw [Function.update_of_ne (by omega)]
    exact hinv.idle j hlen
  frameShares g hg p hp := by
    rcases List.mem_or_eq_of_mem_set hg with hg | rfl
    · exact hch.records.lasting (hinv.frameShares g hg p hp)
    · refine hch.records.lasting (hinv.frameShares f (List.mem_of_getElem? hf) p ?_)
      rw [← hshared, hp]
  watchShares _ hw hown := watchShares_changes hinv hch hw hown

end Change

/-- **A new frame**, which may own a record that nothing else owns. -/
theorem addFrame (hinv : c.OwnerInv held) {f : Frame} {h : Option Ptr}
    (hsafe : Safe FrameView.contract f.code (fun _ _ => True) (f.view c.ext h))
    (hshared : ∀ p, f.shared = some p → c.ext.Lasting p)
    (hown : ∀ p, h = some p → c.ext.Pending p ∧ (∀ i, held i ≠ some p) ∧
      ∀ w ∈ c.ext.watches, w.own = true → w.context ≠ some p) :
    OwnerInv { c with frames := c.frames ++ [f] } (Function.update held c.frames.length h) := by
  have hother : ∀ {j}, j ≠ c.frames.length → Function.update held c.frames.length h j = held j :=
    fun hj => Function.update_of_ne hj _ _
  have hself : Function.update held c.frames.length h c.frames.length = h := Function.update_self ..
  refine ⟨fun j g hg => ?_, hinv.lasts, hinv.made, hinv.entries, fun j p hp => ?_,
    fun j k p hj hk => ?_, fun w hw hw' => ?_, hinv.watchOnce, fun j hj => ?_, fun g hg p hp => ?_,
    hinv.watchShares⟩
  · rw [List.getElem?_append] at hg
    split_ifs at hg with hlt
    · rw [hother hlt.ne]
      exact hinv.frames j g hg
    · obtain ⟨hlen, rfl⟩ := List.getElem?_eq_some_iff.mp hg
      obtain rfl : j = c.frames.length := by
        rw [List.length_singleton] at hlen
        omega
      rw [List.getElem_singleton, hself]
      exact hsafe
  · by_cases hj : j = c.frames.length
    · rw [hj, hself] at hp
      exact (hown p hp).1
    · rw [hother hj] at hp
      exact hinv.heldPending j p hp
  · by_cases hj' : j = c.frames.length
    · rw [hj', hself] at hj
      by_contra hne
      rw [hother fun hk' => hne (hj'.trans hk'.symm)] at hk
      exact (hown p hj).2.1 k hk
    · rw [hother hj'] at hj
      by_cases hk' : k = c.frames.length
      · rw [hk', hself] at hk
        exact absurd hj ((hown p hk).2.1 j)
      · rw [hother hk'] at hk
        exact hinv.heldOnce j k p hj hk
  · obtain ⟨p, hp, hpend, hnot⟩ := hinv.watchPending w hw hw'
    refine ⟨p, hp, hpend, fun j hj => ?_⟩
    by_cases hj' : j = c.frames.length
    · rw [hj', hself] at hj
      exact (hown p hj).2.2 w hw hw' hp
    · rw [hother hj'] at hj
      exact hnot j hj
  · rw [List.length_append, List.length_singleton] at hj
    rw [hother (by omega)]
    exact hinv.idle j (by omega)
  · rcases List.mem_append.mp hg with hg | hg
    · exact hinv.frameShares g hg p hp
    · rw [List.mem_singleton.mp hg] at hp
      exact hshared p hp

/-- A call with a record that it does not own: that of a handle, for an event of its session or for
a watch, or that of a completion. -/
inductive Borrows (s : Ext) : Frame → Prop where
  | handle {p : Ptr} : s.Lasting p → Borrows s { code := phpZkWatcherMarshal p }
  | watch {p : Ptr} {t : CbData} : s.IsLive p t → t.oneshot = false →
      Borrows s { code := phpZkWatcherMarshal p, watched := some p }

theorem Borrows.safe {s : Ext} {f : Frame} (hf : Borrows s f) :
    Safe FrameView.contract f.code (fun _ _ => True) (f.view s none) := by
  cases hf with
  | handle hp =>
    refine FrameView.triple_marshal_lasting.safe stable_true ⟨rfl, rfl, rfl, fun q hq => ?_⟩
    rw [← Option.some.inj hq]
    exact hp
  | watch ht hfalse =>
    exact FrameView.triple_marshal_watch.safe stable_true ⟨rfl, .inr ⟨rfl, hfalse⟩, ht⟩

theorem Borrows.lasting {s : Ext} {f : Frame} (hf : Borrows s f) {p : Ptr}
    (hp : f.shared = some p) : s.Lasting p := by
  cases hf with
  | handle _ => cases hp
  | watch ht hfalse =>
    obtain rfl := Option.some.inj hp
    exact ⟨_, ht.1, hfalse⟩

/-- New frames that own no record. -/
theorem addFrames (hinv : c.OwnerInv held) {fs : List Frame} (hfs : ∀ f ∈ fs, Borrows c.ext f) :
    ∃ held, OwnerInv { c with frames := c.frames ++ fs } held := by
  induction fs generalizing c held with
  | nil => exact ⟨held, by rw [List.append_nil]; exact hinv⟩
  | cons f fs ih =>
    have hf := hfs f List.mem_cons_self
    have hframe := hinv.addFrame (h := none) hf.safe (fun p hp => hf.lasting hp)
      (fun _ hq => nomatch hq)
    obtain ⟨held', hinv'⟩ := ih hframe fun g hg => hfs g (List.mem_cons_of_mem _ hg)
    rw [List.append_assoc] at hinv'
    exact ⟨held', hinv'⟩

/-- The client library drops a watch, or a completion. -/
theorem drop (hinv : c.OwnerInv held) {s' : Ext} (hsame : c.ext.SameTable s')
    (hhandles : s'.handles = c.ext.handles) (hwatches : s'.watches.Sublist c.ext.watches)
    (hkeeps : ∀ p, s'.Keeps p → c.ext.Keeps p) : OwnerInv { c with ext := s' } held := by
  have hlive : ∀ {p r}, c.ext.IsLive p r → s'.IsLive p r := by
    intro p r hp
    exact ⟨by rw [hsame.records]; exact hp.1, by rw [hsame.freed]; exact hp.2⟩
  have hpend : ∀ {p}, c.ext.Pending p → s'.Pending p := by
    rintro p ⟨r, hr, htrue⟩
    exact ⟨r, hlive hr, htrue⟩
  have hkept : c.ext.RecordsKept s' := fun p r hp => by
    rw [hsame.records]
    exact hp
  refine ⟨fun i f hf => ?_, fun p hp => hkept.lasting (hinv.lasts p (hkeeps p hp)), fun p hp => ?_,
    fun e he => ?_, fun i p hp => hpend (hinv.heldPending i p hp), hinv.heldOnce,
    fun w hw hown => ?_, hinv.watchOnce.sublist hwatches, hinv.idle,
    fun f hf p hp => hkept.lasting (hinv.frameShares f hf p hp), fun w hw hown => ?_⟩
  · exact (hinv.frames i f hf).rely ⟨rfl, rfl, rfl, rfl, hkept, fun p r _ hr => hlive hr⟩
  · show p < s'.records.length
    rw [hsame.records]
    exact hinv.made p (by rw [← hsame.freed]; exact hp)
  · show e.2 < s'.records.length
    rw [hsame.records]
    exact hinv.entries e (by rw [← hsame.callbacks]; exact he)
  · obtain ⟨p, hp, hpp, hnot⟩ := hinv.watchPending w (hwatches.subset hw) hown
    exact ⟨p, hp, hpend hpp, hnot⟩
  · obtain ⟨d, hd, hopen⟩ := hinv.watchShares w (hwatches.subset hw) hown
    refine ⟨d, (congrArg (·[w.zk]?) hhandles).trans hd, fun hd' => ?_⟩
    obtain ⟨p, r, hp, hr⟩ := hopen hd'
    exact ⟨p, r, hp, hlive hr⟩

/-- The call for a watch that has the context of its handle. -/
theorem borrows_of_watchFrame (hinv : c.OwnerInv held) {w : NodeWatch} {f : Frame}
    (hw : w ∈ c.ext.watches) (hown : w.own = false) (hlistens : c.ext.listens w = true)
    (hf : watchFrame w = some f) : Borrows c.ext f := by
  obtain ⟨p, hp, rfl⟩ := Option.map_eq_some_iff.mp hf
  obtain ⟨d, hd, hopen⟩ := hinv.watchShares w hw hown
  obtain ⟨q, r, hq, hr⟩ := hopen (by simpa [Ext.listens, hd] using hlistens)
  obtain rfl := Option.some.inj (hp.symm.trans hq)
  obtain ⟨t, ht, hfalse⟩ := hinv.lasts p (.watch hw hown hp)
  obtain rfl := Option.some.inj (ht.symm.trans hr.1)
  rw [hown]
  exact .watch hr hfalse

/-- An event of its node is delivered to a watch. -/
theorem nodeEvent (hinv : c.OwnerInv held) {i : ℕ} {w : NodeWatch} {f : Frame}
    (hw : c.ext.watches[i]? = some w) (hlistens : c.ext.listens w = true)
    (hf : watchFrame w = some f) :
    ∃ held, OwnerInv { ext := { c.ext with watches := c.ext.watches.eraseIdx i }
                       frames := c.frames ++ [f] } held := by
  have hdrop :
      OwnerInv { c with ext := { c.ext with watches := c.ext.watches.eraseIdx i } } held := by
    refine hinv.drop ⟨rfl, rfl, rfl, rfl⟩ rfl (List.eraseIdx_sublist _ _) fun q hq => ?_
    cases hq with
    | handle hc hq => exact .handle hc hq
    | watch hw hown hq => exact .watch (List.mem_of_mem_eraseIdx hw) hown hq
    | object hq => exact .object hq
    | auth hq => exact .auth hq
  have hmem : w ∈ c.ext.watches := List.mem_of_getElem? hw
  cases hown : w.own with
  | false =>
    refine hdrop.addFrames fun g hg => ?_
    rw [List.mem_singleton.mp hg]
    -- the state of the records is that before the watch is dropped
    cases hinv.borrows_of_watchFrame hmem hown hlistens hf with
    | handle hp => exact .handle hp
    | watch ht hfalse => exact .watch ht hfalse
  | true =>
    obtain ⟨p, hp, rfl⟩ := Option.map_eq_some_iff.mp hf
    obtain ⟨q, hq, ⟨t, ht, htrue⟩, hnot⟩ := hinv.watchPending w hmem hown
    obtain rfl : p = q := Option.some.inj (hp.symm.trans hq)
    refine ⟨_, hdrop.addFrame (h := some p) (FrameView.triple_marshal_watch.safe stable_true
      ⟨rfl, .inl rfl, ht⟩) (fun q hq' => ?_) fun q hq' => ?_⟩
    · simp [Frame.shared, hown] at hq'
    obtain rfl := Option.some.inj hq'
    refine ⟨⟨t, ht, htrue⟩, hnot, fun w' hw' hown' hcontext => ?_⟩
    -- the watch that has been dropped was the only one with its context
    obtain ⟨j, hji, hj⟩ := List.mem_eraseIdx_iff_getElem?.mp hw'
    obtain ⟨hi', hwi⟩ := List.getElem?_eq_some_iff.mp hw
    obtain ⟨hj', hwj⟩ := List.getElem?_eq_some_iff.mp hj
    have honce := List.pairwise_iff_getElem.mp hinv.watchOnce
    rcases lt_or_gt_of_ne hji with hlt | hlt
    · have hne := honce j i hj' hi' hlt
      rw [hwi, hwj] at hne
      exact hne hown' hown (hcontext.trans hp.symm)
    · have hne := honce i j hi' hj' hlt
      rw [hwi, hwj] at hne
      exact hne hown hown' (hp.trans hcontext.symm)

theorem exists_of_mem_mapM {α β : Type*} {f : α → Option β} {xs : List α} {ys : List β}
    (h : xs.mapM f = some ys) {y : β} (hy : y ∈ ys) : ∃ x ∈ xs, f x = some y := by
  induction xs generalizing ys with
  | nil =>
    obtain rfl := Option.some.inj h
    cases hy
  | cons x xs ih =>
    rw [List.mapM_cons] at h
    obtain ⟨z, hz, h⟩ := Option.bind_eq_some_iff.mp h
    obtain ⟨zs, hzs, h⟩ := Option.bind_eq_some_iff.mp h
    obtain rfl := Option.some.inj h
    rcases List.mem_cons.mp hy with rfl | hy
    · exact ⟨x, List.mem_cons_self, hz⟩
    · obtain ⟨x', hx', hf⟩ := ih hzs hy
      exact ⟨x', List.mem_cons_of_mem _ hx', hf⟩

/-- The calls for an event of a session, when no watch on its handle has a context of its own. -/
theorem sessionFrames (hinv : c.OwnerInv held) {zk : Ptr} {fs : List Frame}
    (hspare : ∀ w ∈ c.ext.watches, w.zk = zk → w.own = false)
    (hfs : Process.sessionFrames c.ext zk = some fs) : ∀ f ∈ fs, Borrows c.ext f := by
  unfold Process.sessionFrames at hfs
  cases hc : c.ext.handles[zk]? with
  | none => simp [hc] at hfs
  | some d =>
    rw [hc] at hfs
    dsimp only at hfs
    split at hfs
    swap
    · cases hfs
    next hopen =>
    have hwatch : ∀ {watches : List Frame},
        (c.ext.watches.filter fun w => w.zk = zk).mapM watchFrame = some watches →
        ∀ f ∈ watches, Borrows c.ext f := by
      intro watches hwatches f hf
      obtain ⟨w, hw, hframe⟩ := exists_of_mem_mapM hwatches hf
      obtain ⟨hw, hzk⟩ := List.mem_filter.mp hw
      have hzk : w.zk = zk := by simpa using hzk
      have hlistens : c.ext.listens w = true := by simp [Ext.listens, hzk, hc, hopen]
      exact hinv.borrows_of_watchFrame hw (hspare w hw hzk) hlistens hframe
    split_ifs at hfs with hwatcher
    · obtain ⟨handle, hhandle, hfs⟩ := Option.bind_eq_some_iff.mp hfs
      obtain ⟨g, hg, rfl⟩ := Option.map_eq_some_iff.mp hhandle
      obtain ⟨watches, hwatches, hfs⟩ := Option.bind_eq_some_iff.mp hfs
      obtain rfl := Option.some.inj hfs
      intro f hf
      rcases List.mem_append.mp hf with hf | hf
      · rw [List.mem_singleton.mp hf]
        obtain ⟨p, hp, rfl⟩ := Option.map_eq_some_iff.mp hg
        exact .handle (hinv.lasts p (.handle (List.mem_of_getElem? hc) hp))
      · exact hwatch hwatches f hf
    · obtain ⟨handle, hhandle, hfs⟩ := Option.bind_eq_some_iff.mp hfs
      obtain rfl := Option.some.inj hhandle
      obtain ⟨watches, hwatches, hfs⟩ := Option.bind_eq_some_iff.mp hfs
      obtain rfl := Option.some.inj hfs
      exact hwatch hwatches

end Process.OwnerInv

/-- **One step** that spares the watches. -/
theorem Process.ownerInv_step {c c' : Process} {l : ExtLabel} {held : ℕ → Option Ptr}
    (hinv : c.OwnerInv held) (hin : c.InRequest l) (hspares : c.SparesWatches l)
    (hstep : c.step l = some c') : ∃ held, c'.OwnerInv held := by
  cases l with
  | call m =>
    obtain rfl := Option.some.inj hstep
    refine ⟨_, hinv.addFrame (f := { code := m.code }) (h := none)
      ((FrameView.triple_method m).safe OwnerInv.stable_true ⟨rfl, rfl, rfl, ?_⟩) ?_ ?_⟩
    all_goals exact fun p hp => nomatch hp
  | go i a =>
    simp only [Process.step] at hstep
    cases hf : c.frames[i]? with
    | none => simp [hf] at hstep
    | some f =>
      rw [hf] at hstep
      obtain ⟨⟨f', s'⟩, hadv, rfl⟩ := Option.map_eq_some_iff.mp hstep
      unfold Process.advance at hadv
      cases hcode : f.code with
      | ret u => simp [hcode] at hadv
      | op o k =>
        rw [hcode] at hadv
        obtain ⟨⟨r, s₁⟩, hperf, hk⟩ := Option.map_eq_some_iff.mp hadv
        obtain ⟨rfl, rfl⟩ := Prod.mk.inj hk
        obtain ⟨hallows, hsafe⟩ := hinv.allows hf hcode hperf
        have hspare := hspares f hf o (by rw [hcode]; rfl)
        refine ⟨_, hinv.change hf rfl ?_
          (Ext.changes_perform hallows hinv.made hinv.entries ?_ ?_ hperf)⟩
        · cases o <;> exact hsafe
        · rintro h rfl
          exact hspare
        · rintro zk path rfl
          exact hspare
      | iter body b k =>
        rw [hcode] at hadv
        obtain ⟨rfl, rfl⟩ := Prod.mk.inj (Option.some.inj hadv)
        have hsafe := hinv.frames i f hf
        rw [hcode] at hsafe
        exact ⟨_, hinv.change hf rfl (hsafe.iter OwnerInv.stable_true) .refl⟩
  | nodeEvent i =>
    simp only [Process.step] at hstep
    cases hw : c.ext.watches[i]? with
    | none => simp [hw] at hstep
    | some w =>
      rw [hw] at hstep
      dsimp only at hstep
      split_ifs at hstep with hlistens
      obtain ⟨f, hf, rfl⟩ := Option.map_eq_some_iff.mp hstep
      exact hinv.nodeEvent hw hlistens hf
  | sessionEvent zk =>
    obtain ⟨fs, hfs, rfl⟩ := Option.map_eq_some_iff.mp hstep
    exact hinv.addFrames (hinv.sessionFrames hspares hfs)
  | completion i =>
    simp only [Process.step] at hstep
    cases hp : c.ext.auths[i]? with
    | none => simp [hp] at hstep
    | some p =>
      rw [hp] at hstep
      obtain rfl := Option.some.inj hstep
      have hdrop :
          OwnerInv { c with ext := { c.ext with auths := c.ext.auths.eraseIdx i } } held := by
        refine hinv.drop ⟨rfl, rfl, rfl, rfl⟩ rfl (List.Sublist.refl _) fun q hq => ?_
        cases hq with
        | handle hc hq => exact .handle hc hq
        | watch hw hown hq => exact .watch hw hown hq
        | object hq => exact .object hq
        | auth hq => exact .auth (List.mem_of_mem_eraseIdx hq)
      refine hdrop.addFrames fun f hf => ?_
      rw [List.mem_singleton.mp hf]
      exact .handle (hinv.lasts p (.auth (List.mem_of_getElem? hp)))
  | rshutdown => exact hin.elim

theorem Process.ownerInv_new : OwnerInv {} fun _ => none := by
  refine ⟨by simp, fun p hp => ?_, by simp, by simp, by simp, by simp, by simp,
    List.Pairwise.nil, by simp, by simp, by simp⟩
  cases hp with
  | handle hc _ => cases hc
  | watch hw _ _ => cases hw
  | object hp => cases hp
  | auth hp => cases hp

/-- **Each call for a node's watch finds its record**, in every run whose events of sessions find no
watch with a record of its own, and whose other operations spare the records of the watches. -/
theorem node_watch_live {c : Process}
    (h : Process.Reaches (fun c l => c.InRequest l ∧ c.SparesWatches l) c) : c.WatchOk := by
  have hinv : ∃ held, c.OwnerInv held := by
    induction h with
    | refl => exact ⟨_, Process.ownerInv_new⟩
    | step _ hok hstep ih =>
      obtain ⟨held, hinv⟩ := ih
      exact Process.ownerInv_step hinv hok.1 hok.2 hstep
  obtain ⟨held, hinv⟩ := hinv
  exact hinv.watchOk

/-- The step is one that `node_watch_live` speaks of. -/
def Process.checkWatches (c : Process) : ExtLabel → Bool
  | .rshutdown => false
  | .sessionEvent zk => c.ext.watches.all fun w => w.zk ≠ zk || !w.own
  | .go i a =>
    match c.performs (.go i a) with
    | some (.zendHashIndexDel h) => c.ext.callbacks.all fun e => e.1 ≠ h ||
        c.reader (.go i a) = some e.2 && (c.ext.records[e.2]?).any (·.oneshot)
    | some (.zooExists zk _) => (c.ext.handles[zk]?).all fun d => !d.watcher ||
        d.context.any fun p => p < c.ext.records.length && p ∉ c.ext.freed
    | _ => true
  | _ => true

theorem Process.sparesWatches_of_check {c : Process} {l : ExtLabel} (h : c.checkWatches l = true) :
    c.InRequest l ∧ c.SparesWatches l := by
  cases l with
  | rshutdown => cases h
  | sessionEvent zk =>
    refine ⟨trivial, fun w hw hzk => ?_⟩
    have hall := List.all_eq_true.mp h w hw
    simpa [hzk] using hall
  | go i a =>
    refine ⟨trivial, fun f hf o ho => ?_⟩
    simp only [checkWatches, performs, reader, hf, Option.bind_some, ho] at h
    cases o with
    | zendHashIndexDel k =>
      intro e he hkey
      have hall := List.all_eq_true.mp h e he
      simp only [hkey, ne_eq, not_true, decide_false, Bool.false_or, Bool.and_eq_true,
        decide_eq_true_eq, Option.any_eq_true] at hall
      obtain ⟨hread, r, hr, hone⟩ := hall
      refine ⟨.inl hread, fun hlasting => ?_⟩
      obtain ⟨t, ht, hfalse⟩ := hlasting
      obtain rfl := Option.some.inj (hr.symm.trans ht)
      rw [hone] at hfalse
      cases hfalse
    | zooExists zk path =>
      intro d hd _ hwatcher
      simp only [hd, Option.all_some, hwatcher, Bool.not_true, Bool.false_or, Option.any_eq_true,
        Bool.and_eq_true, decide_eq_true_eq] at h
      obtain ⟨p, hp, hlt, hlive⟩ := h
      exact ⟨p, _, hp, List.getElem?_eq_getElem hlt, hlive⟩
    | _ => trivial
  | call m => exact ⟨trivial, trivial⟩
  | nodeEvent i => exact ⟨trivial, trivial⟩
  | completion i => exact ⟨trivial, trivial⟩

/-- `exists` leaves a watch on a node. -/
def watchSteps : List ExtLabel :=
  callSteps 0 (.connect 0 none 1000) {} ++ callSteps 1 (.exists 0 "/a".toList (some 8)) {}

/-- `exists` leaves a watch with a record of its own, and `get` one that shares the record of the
session; both nodes change, and each call reads its record. -/
def changedSteps : List ExtLabel :=
  callSteps 0 (.connect 0 (some 7) 1000) {} ++ callSteps 1 (.exists 0 "/a".toList (some 8)) {} ++
    callSteps 2 (.get 0 "/b".toList none false 0) {} ++
      [.nodeEvent 0, .nodeEvent 0, .go 3 {}, .go 4 {}]

/-- The connection is lost, which the callback is called for; then the node changes. -/
def lostThenChangedSteps : List ExtLabel :=
  watchSteps ++ [.sessionEvent 0, .go 2 {}, .go 2 {}, .go 2 {}, .go 2 {}, .nodeEvent 0]

/-- A frame's call, without what follows. -/
def Process.calling (c : Process) (i : ℕ) : Option (Option Ptr × Option ExtOp) :=
  (c.frames[i]?).map fun f => (f.watched, f.code.next)

/-- The calls for the events of two nodes. -/
theorem node_watch_live_changed : (Process.run {} changedSteps).WatchOk ∧
    (Process.run {} changedSteps).calling 3 = some (some 1, some (.zendCallFunction 8)) ∧
    (Process.run {} changedSteps).calling 4 = some (some 0, some (.zendCallFunction 7)) :=
  ⟨node_watch_live (Process.Reaches.refl.run_of_checks
    (fun _ _ => Process.sparesWatches_of_check) (by decide +kernel)), by decide +kernel,
    by decide +kernel⟩

/-- The second call for a watch reads a record that has been freed. -/
theorem node_watch_freed : ¬ ∀ c : Process,
    Process.Reaches (fun c l => c.InRequest l) c → c.WatchOk := by
  intro h
  have hchecks : Process.checks (fun _ l => match l with | .rshutdown => false | _ => true) {}
      lostThenChangedSteps = true := by decide +kernel
  have hreach :
      Process.Reaches (fun c l => c.InRequest l) (Process.run {} lostThenChangedSteps) := by
    refine Process.Reaches.refl.run_of_checks (fun c l hl => ?_) hchecks
    cases l with
    | rshutdown => cases hl
    | _ => trivial
  have hcalling : (Process.run {} lostThenChangedSteps).calling 3 =
      some (some 0, some (.readCbData 0)) := by decide +kernel
  obtain ⟨f, hf, hcall⟩ := Option.map_eq_some_iff.mp hcalling
  obtain ⟨hwatched, hnext⟩ := Prod.mk.inj hcall
  obtain ⟨-, r, hlive⟩ := (h _ hreach).reads f (List.mem_of_getElem? hf) 0 hwatched 0 hnext
  exact hlive.2 (by decide +kernel)

end PhpZookeeper
