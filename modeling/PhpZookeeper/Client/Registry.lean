import PhpZookeeper.Client.Methods
import Mathlib.Data.List.Nodup

/-!
# The callbacks of a process

The table `ZK_G(callbacks)` with its records, the objects, and what the client library keeps of
them: the watcher and the context of each handle, and the watches on nodes. Calls of methods and of
`php_zk_watcher_marshal` run as *frames*, which take turns as they like, so that a callback may call
methods; what the client library answers is part of the step. Each record is stored under the key it
keeps, `h`, and removed under it, as long as records are made while the number of entries is the
next free key, and no key is read from a record that has gone (`registry_ok`); the key is another
one otherwise, and `php_cb_data_destroy` leaves an entry behind (`registry_wrong`).
-/

namespace PhpZookeeper

open Theory Prog Status

/-! ### The state -/

/-- A handle of the client library. -/
structure Handle where
  /-- The watcher is `php_zk_watcher_marshal`, and not `NULL`. -/
  watcher : Bool
  context : Option Ptr
  isOpen : Bool := true
  deriving DecidableEq, Repr

/-- A watch on a node, whose function is `php_zk_watcher_marshal`. -/
structure NodeWatch where
  zk : Ptr
  path : CString
  context : Option Ptr
  /-- The context was made for this watch, and is not the handle's. -/
  own : Bool
  deriving DecidableEq, Repr

/-- The state of a process. Records, objects and handles are never reused. -/
structure Ext where
  /-- The entries of `ZK_G(callbacks)`, with their keys. -/
  callbacks : List (ℕ × Ptr) := []
  /-- `nNextFreeElement` of `ZK_G(callbacks)` -/
  nextFree : ℕ := 0
  /-- The records that have been made, with what they were given. -/
  records : List CbData := []
  /-- The records that have been freed, once for each time. -/
  freed : List Ptr := []
  objects : Ptr → ZkObject := fun _ => {}
  handles : List Handle := []
  watches : List NodeWatch := []
  /-- The contexts of `zoo_add_auth` calls that have not been completed. -/
  auths : List Ptr := []

/-- What the client library answers, and what is found in a record that has been freed. -/
structure LibReply where
  stat : StatReply := { rc := ZOK }
  get : GetReply := { rc := ZOK, length := 0 }
  children : ChildrenReply := { rc := ZOK }
  status : Status := ZOK
  /-- `zookeeper_init` gives a handle. -/
  init : Bool := true
  garbage : CbData := { fci := 0, oneshot := false, h := 0 }

namespace Ext

/-- `php_cb_data_new`: the entry gets the next free key, and the record the number of elements,
less one. -/
def phpCbDataNew (s : Ext) (fci : Callable) (oneshot : Bool) : Ptr × Ext :=
  let p := s.records.length
  let callbacks := s.callbacks ++ [(s.nextFree, p)]
  (p, { s with
    callbacks := callbacks
    nextFree := s.nextFree + 1
    records := s.records ++ [{ fci := fci, oneshot := oneshot, h := callbacks.length - 1 }] })

/-- `zend_hash_index_del`, which calls `php_cb_data_destroy` for the entry. -/
def zendHashIndexDel (s : Ext) (h : ℕ) : Ext :=
  { s with
    callbacks := s.callbacks.filter fun e => e.1 ≠ h
    freed := ((s.callbacks.filter fun e => e.1 = h).map (·.2)) ++ s.freed }

/-- `zend_hash_clean`, which calls `php_cb_data_destroy` for each entry. -/
def zendHashClean (s : Ext) : Ext :=
  { s with callbacks := [], nextFree := 0, freed := s.callbacks.map (·.2) ++ s.freed }

/-- What is read from a record. -/
def readCbData (s : Ext) (p : Ptr) (garbage : CbData) : CbData :=
  if p ∈ s.freed then garbage else s.records[p]?.getD garbage

/-- A watch is left on a node. -/
def watch (s : Ext) (w : NodeWatch) : Ext := { s with watches := s.watches ++ [w] }

/-- A watch with a context of its own, if there is one. -/
def watchOwn (s : Ext) (zk : Ptr) (path : CString) (context : Option Ptr) : Ext :=
  if context.isSome then s.watch { zk := zk, path := path, context := context, own := true } else s

/-- A watch with the watcher and the context of the handle, if it has a watcher. -/
def watchHandle (s : Ext) (zk : Ptr) (path : CString) : Ext :=
  match s.handles[zk]? with
  | some c =>
    if c.watcher then s.watch { zk := zk, path := path, context := c.context, own := false } else s
  | none => s

/-- The handle `zk` is changed. -/
def modifyHandle (s : Ext) (zk : Ptr) (f : Handle → Handle) : Ext :=
  { s with handles := s.handles.modify zk f }

/-- One operation, or `none` after which there is nothing: `E_ERROR` does not return. -/
def perform (a : LibReply) : (o : ExtOp) → Ext → Option (o.Res × Ext)
  | .phpCbDataNew fci oneshot, s => some (s.phpCbDataNew fci oneshot)
  | .phpCbDataDestroy entry, s => some ((), { s with freed := entry.toList ++ s.freed })
  | .zendHashIndexDel h, s => some ((), s.zendHashIndexDel h)
  | .zendHashClean, s => some ((), s.zendHashClean)
  | .readCbData p, s => some (s.readCbData p a.garbage, s)
  | .readObject o, s => some (s.objects o, s)
  | .writeZk o zk, s =>
    some ((), { s with objects := Function.update s.objects o { s.objects o with zk := some zk } })
  | .writeCbData o cbData, s =>
    some ((), { s with
      objects := Function.update s.objects o { s.objects o with cbData := cbData } })
  | .efreeObject o, s => some ((), { s with objects := Function.update s.objects o {} })
  | .zookeeperInit watcher context, s =>
    if a.init then
      some (some s.handles.length,
        { s with handles := s.handles ++ [{ watcher := watcher, context := context }] })
    else some (none, s)
  | .zookeeperClose zk, s => some ((), s.modifyHandle zk fun c => { c with isOpen := false })
  | .zooSetWatcher zk, s => some ((), s.modifyHandle zk fun c => { c with watcher := true })
  | .zooExists zk path, s =>
    some (a.stat, if a.stat.rc = ZOK ∨ a.stat.rc = ZNONODE then s.watchHandle zk path else s)
  | .zooWexists zk path context, s =>
    some (a.stat, if a.stat.rc = ZOK ∨ a.stat.rc = ZNONODE then s.watchOwn zk path context else s)
  | .zooWget zk path context _, s =>
    some (a.get, if a.get.rc = ZOK then s.watchOwn zk path context else s)
  | .zooWgetChildren zk path context, s =>
    some (a.children, if a.children.rc = ZOK then s.watchOwn zk path context else s)
  | .zooSet2 _ _ _ _, s => some (a.stat, s)
  | .zooDelete _ _ _, s | .zooSetAcl _ _ _ _, s => some (a.status, s)
  | .zooAddAuth _ _ _ context, s =>
    some (a.status, if a.status = ZOK then { s with auths := s.auths ++ context.toList } else s)
  | .error _, _ => none
  | .zendCallFunction _, s | .emalloc _, s | .terminate _, s | .zvalNull _, s | .warning _, s
  | .warningStatus _, s => some ((), s)

end Ext

/-! ### Frames -/

/-- A call of a method, or the end of an object. -/
inductive Method where
  | construct (object : Ptr) (host : CString) (fci : Option Callable) (recvTimeout : Int64)
  | connect (object : Ptr) (fci : Option Callable) (recvTimeout : Int64)
  | delete (object : Ptr) (path : CString) (version : Int64)
  | getChildren (object : Ptr) (path : CString) (fci : Option Callable)
  | get (object : Ptr) (path : CString) (fci : Option Callable) (statInfo : Bool) (maxSize : Int64)
  | exists (object : Ptr) (path : CString) (fci : Option Callable)
  | set (object : Ptr) (path : CString) (value : Option PhpString) (version : Int64)
      (statInfo : Bool)
  | setAcl (object : Ptr) (path : CString) (version : Int64) (acl : List AclEntry)
  | addAuth (object : Ptr) (scheme cert : Bytes) (fci : Option Callable)
  | setWatcher (object : Ptr) (fci : Callable)
  | phpZkDestroy (object : Ptr)

/-- The code of a call, without what it returns. -/
def Method.code : Method → ExtCode Unit
  | .construct object host fci recvTimeout =>
    (Zookeeper.construct object host fci recvTimeout).bind fun _ => .ret ()
  | .connect object fci recvTimeout =>
    (Zookeeper.connect object fci recvTimeout).bind fun _ => .ret ()
  | .delete object path version => (Zookeeper.delete object path version).bind fun _ => .ret ()
  | .getChildren object path fci => (Zookeeper.getChildren object path fci).bind fun _ => .ret ()
  | .get object path fci statInfo maxSize =>
    (Zookeeper.get object path fci statInfo maxSize).bind fun _ => .ret ()
  | .exists object path fci => (Zookeeper.exists object path fci).bind fun _ => .ret ()
  | .set object path value version statInfo =>
    (Zookeeper.set object path value version statInfo).bind fun _ => .ret ()
  | .setAcl object path version acl =>
    (Zookeeper.setAcl object path version acl).bind fun _ => .ret ()
  | .addAuth object scheme cert fci =>
    (Zookeeper.addAuth object scheme cert fci).bind fun _ => .ret ()
  | .setWatcher object fci => (Zookeeper.setWatcher object fci).bind fun _ => .ret ()
  | .phpZkDestroy object => PhpZookeeper.phpZkDestroy object

/-- A call that runs. -/
structure Frame where
  /-- What is left of it. -/
  code : ExtCode Unit
  /-- The context that a node's watch has called `php_zk_watcher_marshal` with. -/
  watched : Option Ptr := none
  /-- The context is the watch's own, and not the handle's. -/
  own : Bool := false
  /-- The record that it has read last. -/
  read : Option Ptr := none

/-- A process: what it keeps, and the calls that run or have returned. -/
structure Process where
  ext : Ext := {}
  frames : List Frame := []

/-- What happens in a step. -/
inductive ExtLabel where
  /-- PHP calls a method, or frees an object. -/
  | call (m : Method)
  /-- A frame goes on. -/
  | go (i : ℕ) (a : LibReply)
  /-- An event of its node is delivered to a watch, which it removes. -/
  | nodeEvent (i : ℕ)
  /-- An event of its session is delivered to the watcher of a handle and to each of its watches,
  which stay. -/
  | sessionEvent (zk : Ptr)
  /-- A `zoo_add_auth` is completed. -/
  | completion (i : ℕ)
  /-- The request ends. -/
  | rshutdown

/-- `php_zk_watcher_marshal` is called with the context of a handle, for an event of its session; a
call with `NULL` ends the process. -/
def handleFrame (context : Option Ptr) : Option Frame :=
  context.map fun p => { code := phpZkWatcherMarshal p }

/-- `php_zk_watcher_marshal` is called for a watch on a node. -/
def watchFrame (w : NodeWatch) : Option Frame :=
  w.context.map fun p => { code := phpZkWatcherMarshal p, watched := some p, own := w.own }

/-- The handle of the watch is open. -/
def Ext.listens (s : Ext) (w : NodeWatch) : Bool :=
  (s.handles[w.zk]?).any fun c => c.isOpen

namespace Process

/-- The calls that an event of the session of `zk` leads to. -/
def sessionFrames (s : Ext) (zk : Ptr) : Option (List Frame) :=
  match s.handles[zk]? with
  | some c =>
    if c.isOpen then do
      let handle ← if c.watcher then (handleFrame c.context).map fun f => [f] else some []
      let watches ← (s.watches.filter fun w => w.zk = zk).mapM watchFrame
      return handle ++ watches
    else none
  | none => none

/-- The operation that a step performs. -/
def performs (c : Process) : ExtLabel → Option ExtOp
  | .go i _ => (c.frames[i]?).bind fun f => f.code.next
  | _ => none

/-- The record that the frame of a step has read last. -/
def reader (c : Process) : ExtLabel → Option Ptr
  | .go i _ => (c.frames[i]?).bind fun f => f.read
  | _ => none

/-- A frame goes on: it performs an operation, or enters a round of a loop. -/
def advance (s : Ext) (a : LibReply) (f : Frame) : Option (Frame × Ext) :=
  match f.code with
  | .ret _ => none
  | .op o k => (Ext.perform a o s).map fun x =>
    ({ f with code := k x.1, read := match o with | .readCbData p => some p | _ => f.read }, x.2)
  | .iter body b k => some ({ f with code := (body b).bind (again body k) }, s)

/-- A step, or `none` when it is not possible. -/
def step (c : Process) : ExtLabel → Option Process
  | .call m => some { c with frames := c.frames ++ [{ code := m.code }] }
  | .go i a =>
    match c.frames[i]? with
    | some f => (advance c.ext a f).map fun x => { ext := x.2, frames := c.frames.set i x.1 }
    | none => none
  | .nodeEvent i =>
    match c.ext.watches[i]? with
    | some w =>
      if c.ext.listens w then (watchFrame w).map fun f =>
        { ext := { c.ext with watches := c.ext.watches.eraseIdx i }, frames := c.frames ++ [f] }
      else none
    | none => none
  | .sessionEvent zk =>
    (sessionFrames c.ext zk).map fun fs => { c with frames := c.frames ++ fs }
  | .completion i =>
    match c.ext.auths[i]? with
    | some p => some { ext := { c.ext with auths := c.ext.auths.eraseIdx i }
                       frames := c.frames ++ [{ code := phpZkWatcherMarshal p }] }
    | none => none
  | .rshutdown => some { c with frames := c.frames ++ [{ code := phpRshutdown }] }

/-- `Reaches ok c`: there is a run of a new process to `c` each of whose steps is `ok`. -/
inductive Reaches (ok : Process → ExtLabel → Prop) : Process → Prop where
  | refl : Reaches ok {}
  | step {c c' : Process} {l : ExtLabel} : Reaches ok c → ok c l → c.step l = some c' →
      Reaches ok c'

/-- The state after a step; a step that is not possible is left out. -/
def after (c : Process) (l : ExtLabel) : Process := (c.step l).getD c

/-- The state after a list of steps. -/
def run (c : Process) (ls : List ExtLabel) : Process := ls.foldl after c

/-- Each step of the list passes the check. -/
def checks (check : Process → ExtLabel → Bool) : Process → List ExtLabel → Bool
  | _, [] => true
  | c, l :: ls => check c l && checks check (c.after l) ls

theorem Reaches.run_of_checks {ok : Process → ExtLabel → Prop} {check : Process → ExtLabel → Bool}
    (hcheck : ∀ c l, check c l = true → ok c l) {c : Process} (h : Reaches ok c)
    {ls : List ExtLabel} (hls : checks check c ls = true) : Reaches ok (c.run ls) := by
  induction ls generalizing c with
  | nil => exact h
  | cons l ls ih =>
    obtain ⟨hl, hls⟩ := Bool.and_eq_true_iff.mp hls
    refine ih (c := c.after l) ?_ hls
    unfold after
    cases hstep : c.step l with
    | none => exact h
    | some c' => exact h.step (hcheck c l hl) hstep

end Process

/-! ### The table -/

/-- The record has been made, and not been freed. -/
def Ext.IsLive (s : Ext) (p : Ptr) (r : CbData) : Prop := s.records[p]? = some r ∧ p ∉ s.freed

/-- **The table is in order**: its entries are live records, each live record is stored under its
own `h` only, which no other has, no record has been freed twice, and the `h` of a live record
removes this record. -/
structure Ext.RegistryOk (s : Ext) : Prop where
  entries : ∀ e ∈ s.callbacks, ∃ r, s.IsLive e.2 r
  stored : ∀ p r, s.IsLive p r → ∀ k, (k, p) ∈ s.callbacks ↔ k = r.h
  distinct : ∀ p q r t, s.IsLive p r → s.IsLive q t → r.h = t.h → p = q
  once : s.freed.Nodup
  removed : ∀ p r, s.IsLive p r → (s.zendHashIndexDel r.h).freed = p :: s.freed

/-- The record `read` has been removed, unless it had been before, and no other. -/
structure Ext.Removes (s s' : Ext) (read : Option Ptr) : Prop where
  callbacks : ∀ e, e ∈ s'.callbacks ↔ e ∈ s.callbacks ∧ read ≠ some e.2
  freed : ∀ p, p ∈ s'.freed ↔ p ∈ s.freed ∨ read = some p ∧ ∃ r, s.IsLive p r

/-- A record is only made while the number of entries is the next free key; `php_cb_data_destroy` is
only called for `NULL`; and `zend_hash_index_del` finds under its key the record that its caller has
read last, if that is still there, and nothing else. -/
def Ext.Orderly (s : Ext) (read : Option Ptr) : ExtOp → Prop
  | .phpCbDataNew _ _ => s.callbacks.length = s.nextFree
  | .phpCbDataDestroy entry => entry = none
  | .zendHashIndexDel h => ∀ e ∈ s.callbacks, e.1 = h ↔ read = some e.2
  | _ => True

/-- What keeps the table in order. -/
structure Ext.RegistryInv (s : Ext) : Prop where
  keys : (s.callbacks.map (·.1)).Nodup
  keyLt : ∀ e ∈ s.callbacks, e.1 < s.nextFree
  entry : ∀ e ∈ s.callbacks, ∃ r, s.IsLive e.2 r ∧ r.h = e.1
  stored : ∀ p r, s.IsLive p r → (r.h, p) ∈ s.callbacks
  freedLt : ∀ p ∈ s.freed, p < s.records.length
  once : s.freed.Nodup

namespace Ext

variable {s s' : Ext} {a : LibReply} {o : ExtOp} {r : o.Res} {read : Option Ptr}

theorem IsLive.unique {p : Ptr} {r t : CbData} (h : s.IsLive p r) (h' : s.IsLive p t) : r = t :=
  Option.some.inj (h.1.symm.trans h'.1)

/-- Two entries with one key are the same. -/
theorem RegistryInv.entry_unique (h : s.RegistryInv) {k : ℕ} {p q : Ptr}
    (hp : (k, p) ∈ s.callbacks) (hq : (k, q) ∈ s.callbacks) : p = q := by
  have heq := List.inj_on_of_nodup_map h.keys hp hq rfl
  exact (Prod.mk.inj heq).2

/-- The entries with the key of a live record are that record's. -/
theorem RegistryInv.filter_key (h : s.RegistryInv) {p : Ptr} {r : CbData} (hp : s.IsLive p r) :
    (s.callbacks.filter fun e => e.1 = r.h) = [(r.h, p)] := by
  have hmem := h.stored p r hp
  have hnodup : s.callbacks.Nodup := List.Nodup.of_map _ h.keys
  refine List.perm_singleton.mp ((List.perm_ext_iff_of_nodup (hnodup.filter _)
    (List.nodup_singleton _)).mpr fun e => ?_)
  simp only [List.mem_filter, decide_eq_true_eq, List.mem_singleton]
  constructor
  · rintro ⟨he, hkey⟩
    obtain ⟨k, q⟩ := e
    obtain rfl : k = r.h := hkey
    rw [h.entry_unique he hmem]
  · rintro rfl
    exact ⟨hmem, rfl⟩

theorem RegistryInv.ok (h : s.RegistryInv) : s.RegistryOk where
  entries e he := by
    obtain ⟨r, hr, -⟩ := h.entry e he
    exact ⟨r, hr⟩
  stored p r hp k := by
    constructor
    · intro hk
      obtain ⟨t, ht, htk⟩ := h.entry _ hk
      rw [hp.unique ht]
      exact htk.symm
    · rintro rfl
      exact h.stored p r hp
  distinct p q r t hp hq heq := h.entry_unique (h.stored p r hp) (heq ▸ h.stored q t hq)
  once := h.once
  removed p r hp := by
    simp only [zendHashIndexDel, h.filter_key hp, List.map_cons, List.map_nil,
      List.singleton_append]

/-- What is found under a key is what is removed. -/
theorem RegistryInv.removes_iff (h : s.RegistryInv) (k : ℕ) :
    s.Removes (s.zendHashIndexDel k) read ↔ ∀ e ∈ s.callbacks, e.1 = k ↔ read = some e.2 := by
  have hmem : ∀ e, e ∈ (s.zendHashIndexDel k).callbacks ↔ e ∈ s.callbacks ∧ e.1 ≠ k := by
    simp [zendHashIndexDel]
  constructor
  · intro hr e he
    have hkept := (hmem e).symm.trans (hr.callbacks e)
    simpa [he, not_iff_not] using hkept
  · intro hk
    refine ⟨fun e => (hmem e).trans (and_congr_right fun he => not_congr (hk e he)), fun p => ?_⟩
    simp only [zendHashIndexDel, List.mem_append, List.mem_map, List.mem_filter,
      decide_eq_true_eq]
    constructor
    · rintro (⟨e, ⟨he, heq⟩, rfl⟩ | hp)
      · obtain ⟨r, hr, -⟩ := h.entry e he
        exact .inr ⟨(hk e he).mp heq, r, hr⟩
      · exact .inl hp
    · rintro (hp | ⟨hread, r, hr⟩)
      · exact .inr hp
      · have he := h.stored p r hr
        exact .inl ⟨_, ⟨he, (hk _ he).mpr hread⟩, rfl⟩

/-- A new record, while the number of entries is the next free key. -/
theorem RegistryInv.phpCbDataNew (h : s.RegistryInv) (hlen : s.callbacks.length = s.nextFree)
    (fci : Callable) (oneshot : Bool) : (s.phpCbDataNew fci oneshot).2.RegistryInv := by
  have hnew : s.records.length ∉ s.freed := fun hmem => absurd (h.freedLt _ hmem) (lt_irrefl _)
  have hold : ∀ p r, s.IsLive p r → (s.phpCbDataNew fci oneshot).2.IsLive p r := by
    intro p r hp
    exact ⟨List.getElem?_append_left (List.getElem?_eq_some_iff.mp hp.1).1 ▸ hp.1, hp.2⟩
  refine ⟨?_, ?_, ?_, ?_, ?_, h.once⟩
  · simp only [Ext.phpCbDataNew, List.map_append, List.map_cons, List.map_nil]
    refine List.Nodup.append h.keys (List.nodup_singleton _) ?_
    rw [List.disjoint_singleton]
    intro hmem
    obtain ⟨e, he, hkey⟩ := List.mem_map.mp hmem
    have hlt := h.keyLt e he
    omega
  · intro e he
    show e.1 < s.nextFree + 1
    rcases List.mem_append.mp he with he | he
    · have hlt := h.keyLt e he
      omega
    · rw [List.mem_singleton.mp he]
      exact Nat.lt_succ_self _
  · intro e he
    rcases List.mem_append.mp he with he | he
    · obtain ⟨r, hr, hkey⟩ := h.entry e he
      exact ⟨r, hold _ _ hr, hkey⟩
    · rw [List.mem_singleton.mp he]
      exact ⟨_, ⟨List.getElem?_concat_length, hnew⟩, by simp [hlen]⟩
  · intro p r hp
    have hrec : (s.records ++ [_])[p]? = some r := hp.1
    rw [List.getElem?_append] at hrec
    split_ifs at hrec with hlt
    · exact List.mem_append_left _ (h.stored p r ⟨hrec, hp.2⟩)
    · obtain ⟨hzero, hr⟩ := List.getElem?_eq_some_iff.mp hrec
      have hpe : p = s.records.length := by
        simp only [List.length_singleton] at hzero
        exact Nat.le_antisymm (by omega) (not_lt.mp hlt)
      subst hpe
      refine List.mem_append_right _ (List.mem_singleton.mpr ?_)
      rw [← hr]
      simp [hlen]
  · intro p hp
    have hlt : p < s.records.length := h.freedLt p hp
    show p < (s.records ++ [_]).length
    rw [List.length_append, List.length_singleton]
    exact Nat.lt_succ_of_lt hlt

/-- Entries are removed. -/
theorem RegistryInv.remove (h : s.RegistryInv) {t : Ext} (keep : ℕ × Ptr → Bool)
    (hcallbacks : t.callbacks = s.callbacks.filter keep)
    (hfreed : t.freed = (s.callbacks.filter fun e => !keep e).map (·.2) ++ s.freed)
    (hrecords : t.records = s.records) (hkey : ∀ e ∈ t.callbacks, e.1 < t.nextFree) :
    t.RegistryInv := by
  have hnodup : s.callbacks.Nodup := List.Nodup.of_map _ h.keys
  -- the records of different entries are different
  have hinj : ∀ e ∈ s.callbacks, ∀ e' ∈ s.callbacks, e.2 = e'.2 → e = e' := by
    intro e he e' he' heq
    obtain ⟨r, hr, hk⟩ := h.entry e he
    obtain ⟨r', hr', hk'⟩ := h.entry e' he'
    rw [← heq] at hr'
    rw [hr.unique hr'] at hk
    exact Prod.ext (hk.symm.trans hk') heq
  have hlive : ∀ e ∈ s.callbacks, ∀ r, s.IsLive e.2 r → keep e = true → t.IsLive e.2 r := by
    intro e he r hr hkeep
    refine ⟨hrecords ▸ hr.1, fun hmem => ?_⟩
    rw [hfreed] at hmem
    rcases List.mem_append.mp hmem with hmem | hmem
    · obtain ⟨e', he', heq⟩ := List.mem_map.mp hmem
      obtain ⟨he', hnot⟩ := List.mem_filter.mp he'
      rw [hinj e' he' e he heq, hkeep] at hnot
      cases hnot
    · exact hr.2 hmem
  refine ⟨?_, hkey, ?_, ?_, ?_, ?_⟩
  · rw [hcallbacks]
    exact h.keys.sublist (List.filter_sublist.map _)
  · intro e he
    rw [hcallbacks] at he
    obtain ⟨he, hkeep⟩ := List.mem_filter.mp he
    obtain ⟨r, hr, hk⟩ := h.entry e he
    exact ⟨r, hlive e he r hr hkeep, hk⟩
  · intro p r hp
    have hold : s.IsLive p r := by
      refine ⟨hrecords ▸ hp.1, fun hmem => hp.2 ?_⟩
      rw [hfreed]
      exact List.mem_append_right _ hmem
    have hmem := h.stored p r hold
    rw [hcallbacks]
    refine List.mem_filter.mpr ⟨hmem, ?_⟩
    by_contra hnot
    refine hp.2 ?_
    rw [hfreed]
    exact List.mem_append_left _
      (List.mem_map.mpr ⟨_, List.mem_filter.mpr ⟨hmem, by simpa using hnot⟩, rfl⟩)
  · intro p hp
    rw [hrecords]
    rw [hfreed] at hp
    rcases List.mem_append.mp hp with hp | hp
    · obtain ⟨e, he, rfl⟩ := List.mem_map.mp hp
      obtain ⟨r, hr, -⟩ := h.entry e (List.mem_filter.mp he).1
      exact (List.getElem?_eq_some_iff.mp hr.1).1
    · exact h.freedLt p hp
  · rw [hfreed]
    refine List.Nodup.append ?_ h.once ?_
    · refine (hnodup.filter _).map_on ?_
      intro e he e' he' heq
      exact hinj e (List.mem_filter.mp he).1 e' (List.mem_filter.mp he').1 heq
    · intro p hp hold
      obtain ⟨e, he, rfl⟩ := List.mem_map.mp hp
      obtain ⟨r, hr, -⟩ := h.entry e (List.mem_filter.mp he).1
      exact hr.2 hold

/-- The operations that do not touch the table. -/
theorem RegistryInv.same (h : s.RegistryInv) {t : Ext} (hcallbacks : t.callbacks = s.callbacks)
    (hnext : t.nextFree = s.nextFree) (hrecords : t.records = s.records)
    (hfreed : t.freed = s.freed) : t.RegistryInv := by
  refine h.remove (fun _ => true) ?_ ?_ hrecords ?_
  · rw [hcallbacks, List.filter_true]
  · rw [hfreed]
    simp
  · rw [hcallbacks, hnext]
    exact h.keyLt

/-- Nothing happens to the table. -/
structure SameTable (s t : Ext) : Prop where
  callbacks : t.callbacks = s.callbacks
  nextFree : t.nextFree = s.nextFree
  records : t.records = s.records
  freed : t.freed = s.freed

theorem sameTable_watchOwn (s : Ext) (zk : Ptr) (path : CString) (context : Option Ptr) :
    s.SameTable (s.watchOwn zk path context) := by
  unfold watchOwn
  split_ifs <;> exact ⟨rfl, rfl, rfl, rfl⟩

theorem sameTable_watchHandle (s : Ext) (zk : Ptr) (path : CString) :
    s.SameTable (s.watchHandle zk path) := by
  unfold watchHandle
  cases s.handles[zk]? with
  | none => exact ⟨rfl, rfl, rfl, rfl⟩
  | some c =>
    dsimp only
    split_ifs <;> exact ⟨rfl, rfl, rfl, rfl⟩

/-- What an operation does to the table: nothing, or it is one of those that are for it. -/
theorem sameTable_perform (h : perform a o s = some (r, s')) :
    s.SameTable s' ∨ (∃ fci oneshot, o = .phpCbDataNew fci oneshot) ∨
      (∃ p, o = .phpCbDataDestroy (some p)) ∨ (∃ k, o = .zendHashIndexDel k) ∨
      o = .zendHashClean := by
  have hsame : ∀ {t : Ext}, s' = t → s.SameTable t → s.SameTable s' := by
    rintro t rfl ht
    exact ht
  have hrefl : s.SameTable s := ⟨rfl, rfl, rfl, rfl⟩
  cases o with
  | phpCbDataNew fci oneshot => exact .inr (.inl ⟨fci, oneshot, rfl⟩)
  | zendHashIndexDel k => exact .inr (.inr (.inr (.inl ⟨k, rfl⟩)))
  | zendHashClean => exact .inr (.inr (.inr (.inr rfl)))
  | phpCbDataDestroy entry =>
    cases entry with
    | some p => exact .inr (.inr (.inl ⟨p, rfl⟩))
    | none => exact .inl (hsame (congrArg Prod.snd (Option.some.inj h)).symm ⟨rfl, rfl, rfl, rfl⟩)
  | zookeeperInit watcher context =>
    left
    simp only [perform] at h
    split_ifs at h
    · exact hsame (congrArg Prod.snd (Option.some.inj h)).symm ⟨rfl, rfl, rfl, rfl⟩
    · exact hsame (congrArg Prod.snd (Option.some.inj h)).symm hrefl
  | zooExists zk path =>
    refine .inl (hsame (congrArg Prod.snd (Option.some.inj h)).symm ?_)
    split_ifs
    · exact sameTable_watchHandle s zk path
    · exact hrefl
  | zooWexists zk path context =>
    refine .inl (hsame (congrArg Prod.snd (Option.some.inj h)).symm ?_)
    split_ifs
    · exact sameTable_watchOwn s zk path context
    · exact hrefl
  | zooWget zk path context length =>
    refine .inl (hsame (congrArg Prod.snd (Option.some.inj h)).symm ?_)
    split_ifs
    · exact sameTable_watchOwn s zk path context
    · exact hrefl
  | zooWgetChildren zk path context =>
    refine .inl (hsame (congrArg Prod.snd (Option.some.inj h)).symm ?_)
    split_ifs
    · exact sameTable_watchOwn s zk path context
    · exact hrefl
  | zooAddAuth zk scheme cert context =>
    refine .inl (hsame (congrArg Prod.snd (Option.some.inj h)).symm ?_)
    split_ifs
    · exact ⟨rfl, rfl, rfl, rfl⟩
    · exact hrefl
  | error message => cases h
  | _ => exact .inl (hsame (congrArg Prod.snd (Option.some.inj h)).symm ⟨rfl, rfl, rfl, rfl⟩)

/-- **One operation** that is in order. -/
theorem RegistryInv.perform (hinv : s.RegistryInv) (ho : s.Orderly read o)
    (h : Ext.perform a o s = some (r, s')) : s'.RegistryInv := by
  rcases sameTable_perform h with hsame | ⟨fci, oneshot, rfl⟩ | ⟨p, rfl⟩ | ⟨k, rfl⟩ | rfl
  · exact hinv.same hsame.callbacks hsame.nextFree hsame.records hsame.freed
  · obtain rfl := congrArg Prod.snd (Option.some.inj h)
    exact hinv.phpCbDataNew ho fci oneshot
  · cases ho
  · obtain rfl := congrArg Prod.snd (Option.some.inj h)
    refine hinv.remove (fun e => e.1 ≠ k) rfl ?_ rfl fun e he => ?_
    · simp [zendHashIndexDel]
    · exact hinv.keyLt e (List.mem_filter.mp he).1
  · obtain rfl := congrArg Prod.snd (Option.some.inj h)
    refine hinv.remove (fun _ => false) ?_ ?_ rfl fun e he => ?_
    · simp [zendHashClean]
    · simp [zendHashClean]
    · simp [zendHashClean] at he

/-- **The condition is exact**: an operation on a table in order leaves it in order, and removes
only what it is meant to, just when it is in order itself, as long as it frees no record that has
not been made. -/
theorem registryOk_iff_orderly (hinv : s.RegistryInv) (h : Ext.perform a o s = some (r, s'))
    (hmade : ∀ p, o = .phpCbDataDestroy (some p) → p < s.records.length) :
    (s'.RegistryOk ∧ ∀ k, o = .zendHashIndexDel k → s.Removes s' read) ↔ s.Orderly read o := by
  constructor
  swap
  · refine fun ho => ⟨(hinv.perform ho h).ok, ?_⟩
    rintro k rfl
    obtain rfl := congrArg Prod.snd (Option.some.inj h)
    exact (hinv.removes_iff k).mpr ho
  rintro ⟨hok, hremoves⟩
  cases o with
  | phpCbDataNew fci oneshot =>
    obtain rfl := congrArg Prod.snd (Option.some.inj h)
    have hlive : (s.phpCbDataNew fci oneshot).2.IsLive s.records.length
        { fci := fci, oneshot := oneshot, h := s.callbacks.length } := by
      refine ⟨?_, fun hmem => absurd (hinv.freedLt _ hmem) (lt_irrefl _)⟩
      simp [Ext.phpCbDataNew]
    have hmem : (s.nextFree, s.records.length) ∈ (s.phpCbDataNew fci oneshot).2.callbacks :=
      List.mem_append_right _ (List.mem_singleton.mpr rfl)
    exact ((hok.stored _ _ hlive s.nextFree).mp hmem).symm
  | phpCbDataDestroy entry =>
    cases entry with
    | none => rfl
    | some p =>
      obtain rfl := congrArg Prod.snd (Option.some.inj h)
      have hnot : p ∉ s.freed := (List.nodup_cons.mp hok.once).1
      have hmem := hinv.stored p _ ⟨List.getElem?_eq_getElem (hmade p rfl), hnot⟩
      obtain ⟨t, -, hfree⟩ := hok.entries _ hmem
      exact absurd List.mem_cons_self hfree
  | zendHashIndexDel k =>
    obtain rfl := congrArg Prod.snd (Option.some.inj h)
    exact (hinv.removes_iff k).mp (hremoves k rfl)
  | _ => trivial

end Ext

/-! ### Whole runs -/

/-- The operation that the step performs, if any, is in order. -/
def Process.Orderly (c : Process) (l : ExtLabel) : Prop :=
  ∀ o, c.performs l = some o → c.ext.Orderly (c.reader l) o

/-- The `zend_hash_index_del` that the step makes, if any, removes the record that its caller has
read the key from. -/
def Process.RemovesRead (c c' : Process) (l : ExtLabel) : Prop :=
  ∀ h, c.performs l = some (.zendHashIndexDel h) → c.ext.Removes c'.ext (c.reader l)

/-- A step changes the table only by its operation. -/
theorem Process.registryInv_step {c c' : Process} {l : ExtLabel} (hinv : c.ext.RegistryInv)
    (hok : c.Orderly l) (hstep : c.step l = some c') : c'.ext.RegistryInv := by
  cases l with
  | call m =>
    obtain rfl := Option.some.inj hstep
    exact hinv
  | go i a =>
    simp only [Process.step] at hstep
    cases hf : c.frames[i]? with
    | none => simp [hf] at hstep
    | some f =>
      rw [hf] at hstep
      obtain ⟨⟨f', s'⟩, hadv, rfl⟩ := Option.map_eq_some_iff.mp hstep
      unfold Process.advance at hadv
      cases hcode : f.code with
      | ret u => simp [hcode] at hadv
      | op o k =>
        rw [hcode] at hadv
        obtain ⟨⟨r, s₁⟩, hperf, hk⟩ := Option.map_eq_some_iff.mp hadv
        obtain rfl := (Prod.mk.inj hk).2
        exact hinv.perform (hok o (by simp [Process.performs, hf, hcode])) hperf
      | iter body b k =>
        rw [hcode] at hadv
        obtain rfl := (Prod.mk.inj (Option.some.inj hadv)).2
        exact hinv
  | nodeEvent i =>
    simp only [Process.step] at hstep
    split at hstep
    · split_ifs at hstep
      obtain ⟨f, -, rfl⟩ := Option.map_eq_some_iff.mp hstep
      exact hinv.same rfl rfl rfl rfl
    · cases hstep
  | sessionEvent zk =>
    obtain ⟨fs, -, rfl⟩ := Option.map_eq_some_iff.mp hstep
    exact hinv
  | completion i =>
    simp only [Process.step] at hstep
    split at hstep
    · obtain rfl := Option.some.inj hstep
      exact hinv.same rfl rfl rfl rfl
    · cases hstep
  | rshutdown =>
    obtain rfl := Option.some.inj hstep
    exact hinv

theorem Process.Reaches.registryInv {c : Process} (h : Process.Reaches Process.Orderly c) :
    c.ext.RegistryInv := by
  induction h with
  | refl =>
    exact ⟨List.nodup_nil, by simp, by simp, fun p r hp => by simp [Ext.IsLive] at hp, by simp,
      List.nodup_nil⟩
  | step _ hok hstep ih => exact Process.registryInv_step ih hok hstep

/-- An orderly step removes the record it is meant to. -/
theorem Process.removesRead_step {c c' : Process} {l : ExtLabel} (hinv : c.ext.RegistryInv)
    (hok : c.Orderly l) (hstep : c.step l = some c') : c.RemovesRead c' l := by
  intro h hperf
  have hdel := hok _ hperf
  cases l with
  | go i a =>
    simp only [Process.step] at hstep
    cases hf : c.frames[i]? with
    | none => simp [hf] at hstep
    | some f =>
      rw [hf] at hstep
      obtain ⟨⟨f', s'⟩, hadv, rfl⟩ := Option.map_eq_some_iff.mp hstep
      unfold Process.advance at hadv
      simp only [performs, hf, Option.bind_some] at hperf
      cases hcode : f.code with
      | ret u => simp [hcode] at hadv
      | op o k =>
        rw [hcode] at hadv hperf
        obtain rfl := Option.some.inj hperf
        obtain ⟨⟨r, s₁⟩, hdone, hk⟩ := Option.map_eq_some_iff.mp hadv
        obtain rfl := (Prod.mk.inj hk).2
        obtain rfl := congrArg Prod.snd (Option.some.inj hdone)
        exact (hinv.removes_iff h).mpr hdel
      | iter body b k =>
        rw [hcode] at hperf
        cases hperf
  | _ => cases hperf

/-- **The table is in order** in every run whose operations are, and each `zend_hash_index_del`
removes the record it is meant to, and no other. -/
theorem registry_ok {c : Process} (h : Process.Reaches Process.Orderly c) :
    c.ext.RegistryOk ∧ ∀ l c', c.Orderly l → c.step l = some c' → c.RemovesRead c' l :=
  ⟨h.registryInv.ok, fun _ _ hok hstep => Process.removesRead_step h.registryInv hok hstep⟩

/-- The operation that the step performs is in order. -/
def Process.checkOrderly (c : Process) (l : ExtLabel) : Bool :=
  match c.performs l with
  | some (.phpCbDataNew _ _) => c.ext.callbacks.length = c.ext.nextFree
  | some (.phpCbDataDestroy entry) => entry = none
  | some (.zendHashIndexDel h) => c.ext.callbacks.all fun e => (e.1 = h) = (c.reader l = some e.2)
  | _ => true

theorem Process.orderly_of_check {c : Process} {l : ExtLabel} (h : c.checkOrderly l = true) :
    c.Orderly l := by
  intro o ho
  unfold checkOrderly at h
  rw [ho] at h
  cases o with
  | phpCbDataNew fci oneshot => simpa [Ext.Orderly] using h
  | phpCbDataDestroy entry => simpa [Ext.Orderly] using h
  | zendHashIndexDel k =>
    intro e he
    simpa using List.all_eq_true.mp h e he
  | _ => trivial

/-- A call, from its start to its return; each operation gets the same answer. -/
def callSteps (i : ℕ) (m : Method) (a : LibReply) : List ExtLabel :=
  .call m :: List.replicate 12 (.go i a)

/-- Two calls that each leave a callback; the node changes, and its callback has been called. -/
def changedNodeSteps : List ExtLabel :=
  callSteps 0 (.connect 0 (some 7) 1000) {} ++ callSteps 1 (.exists 0 "/a".toList (some 8)) {} ++
    .nodeEvent 0 :: List.replicate 3 (.go 2 {})

/-- The connection is lost while `exists` waits for the answer. -/
def lostSteps : List ExtLabel :=
  callSteps 0 (.connect 0 none 1000) {} ++
    callSteps 1 (.exists 0 "/a".toList (some 8)) { stat := { rc := ZCONNECTIONLOSS } }

/-- The callback of a node is removed under its key, and that of the session stays. -/
theorem registry_ok_removed :
    let c := Process.run {} changedNodeSteps
    let c' := c.after (.go 2 {})
    c.ext.RegistryOk ∧ c.performs (.go 2 {}) = some (.zendHashIndexDel 1) ∧
      c.ext.Removes c'.ext (some 1) ∧ c'.ext.callbacks = [(0, 0)] ∧ c'.ext.freed = [1] := by
  intro c c'
  have hreach : Process.Reaches Process.Orderly c :=
    Process.Reaches.refl.run_of_checks (fun _ _ => Process.orderly_of_check) (by decide +kernel)
  have hperforms : c.performs (.go 2 {}) = some (.zendHashIndexDel 1) := by decide +kernel
  have hreader : c.reader (.go 2 {}) = some 1 := by decide +kernel
  have horderly : c.Orderly (.go 2 {}) := Process.orderly_of_check (by decide +kernel)
  obtain ⟨c₁, hstep⟩ : ∃ c₁, c.step (.go 2 {}) = some c₁ :=
    Option.isSome_iff_exists.mp (by decide +kernel)
  have hafter : c' = c₁ := by simp only [c', Process.after, hstep, Option.getD_some]
  obtain ⟨hok, hremoves⟩ := registry_ok hreach
  have hremoved := hremoves _ _ horderly hstep 1 hperforms
  rw [hreader, ← hafter] at hremoved
  exact ⟨hok, hperforms, hremoved, by decide +kernel, by decide +kernel⟩

/-- The entry of a record that `exists` has freed. -/
theorem registry_wrong : ¬ ∀ c : Process, Process.Reaches (fun _ _ => True) c →
    c.ext.RegistryOk := by
  intro h
  have hchecks : Process.checks (fun _ _ => true) {} lostSteps = true := by decide +kernel
  have hreach : Process.Reaches (fun _ _ => True) (Process.run {} lostSteps) :=
    Process.Reaches.refl.run_of_checks (fun _ _ _ => trivial) hchecks
  obtain ⟨r, -, hfree⟩ := (h _ hreach).entries (0, 0) (by decide +kernel)
  exact hfree (by decide +kernel)

end PhpZookeeper
