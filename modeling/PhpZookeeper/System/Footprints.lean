import PhpZookeeper.System.Events

/-!
# The nodes of a session key

Which nodes the operations for a key may make, change or delete (`OwnsNode`), and which ones a reply
to one of their requests depends on (`Sees`). A request of a worker whose callbacks are all for one
key is one of `Req.IsFor`, for a path that the client library accepts, or is not accepted
(`WorkerOk.step`); what it does, and how it is answered, depends on the nodes the key sees alone
(`Nodes.SameFor.answers`).
-/

namespace PhpZookeeper

open Theory Prog Status

/-! ### Paths -/

theorem components_append (cur s t : CString) :
    components cur (s ++ '/' :: t) = components cur s ++ components [] t := by
  induction s generalizing cur with
  | nil => simp [components]
  | cons c s ih =>
    rw [List.cons_append, components, components]
    split_ifs
    · rw [ih, List.cons_append]
    · rw [ih]

/-- The directory of a path that is accepted is accepted, unless it is the root. -/
theorem validPath_of_childOf {p x : CString} {sequence : Bool} (hp : p ≠ [])
    (h : validPath (childOf p x) sequence = true) : validPath p false = true := by
  cases p with
  | nil => exact absurd rfl hp
  | cons c s =>
    obtain rfl : c = '/' := by
      by_contra hc
      simp [validPath, childOf, hc] at h
    obtain ⟨y, hy⟩ : ∃ y, (if sequence then (s ++ '/' :: x) ++ ['0'] else s ++ '/' :: x) =
        s ++ '/' :: y := by
      cases sequence with
      | false => exact ⟨x, rfl⟩
      | true => exact ⟨x ++ ['0'], by simp⟩
    simp only [validPath, childOf, List.cons_append, hy, components_append, List.all_append,
      List.all_cons, Bool.and_eq_true] at h
    simp only [validPath, Bool.false_eq_true, if_false, List.all_cons, Bool.and_eq_true]
    exact ⟨h.1.1, h.2.1, h.2.2.1⟩

/-! ### The nodes of a key -/

/-- The data node of a key or its lock directory, when the client library accepts its path. -/
def KeyPath (key p : CString) : Prop :=
  (p = sessionPath key ∨ p = lockPath key) ∧ validPath p false = true

/-- A place in the queue of a key's lock: a child of the lock directory that has the prefix of a
client. -/
def QueuePath (key p : CString) : Prop :=
  validPath (lockPath key) false = true ∧
    ∃ session x, OwnName session x ∧ p = childOf (lockPath key) x

/-- The nodes that the operations for a key may make, change or delete. -/
def OwnsNode (key p : CString) : Prop := KeyPath key p ∨ QueuePath key p

/-- The nodes on which the replies to the operations for a key depend: the key's nodes, the
directories they are in, and what lies in them. -/
def Sees (key q : CString) : Prop :=
  (∃ p, KeyPath key p ∧ (q = p ∨ q = parentOf p)) ∨
    ∃ p x, OwnsNode key p ∧ '/' ∉ x ∧ q = childOf p x

/-- The requests for a key of a client whose session has the id `session`. -/
def Req.IsFor (session : Sid) (key : CString) : Req → Prop
  | .zooExists p | .zooGet p _ | .zooSet p _ _ => KeyPath key p
  | .zooWexists p => ∃ x, '/' ∉ x ∧ p = childOf (lockPath key) x
  | .zooCreate p _ _ flags _ =>
    if flags.sequence then p = childOf (lockPath key) (lockPrefix session) else KeyPath key p
  | .zooDelete p _ => OwnsNode key p
  | .zooGetChildren p => p = lockPath key

variable {session : Sid} {key : CString}

theorem QueuePath.parentOf_eq {p : CString} (h : QueuePath key p) : parentOf p = lockPath key := by
  obtain ⟨-, s, x, hx, rfl⟩ := h
  exact parentOf_childOf _ hx.2

theorem QueuePath.keyPath {p : CString} (h : QueuePath key p) : KeyPath key (lockPath key) :=
  ⟨.inr rfl, h.1⟩

theorem KeyPath.sees {p : CString} (h : KeyPath key p) : Sees key p := .inl ⟨p, h, .inl rfl⟩

theorem KeyPath.sees_parentOf {p : CString} (h : KeyPath key p) : Sees key (parentOf p) :=
  .inl ⟨p, h, .inr rfl⟩

theorem OwnsNode.sees_child {p x : CString} (h : OwnsNode key p) (hx : '/' ∉ x) :
    Sees key (childOf p x) := .inr ⟨p, x, h, hx, rfl⟩

theorem QueuePath.sees {p : CString} (h : QueuePath key p) : Sees key p := by
  have hdir := h.keyPath
  obtain ⟨-, s, x, hx, rfl⟩ := h
  exact OwnsNode.sees_child (.inl hdir) hx.2

theorem OwnsNode.sees {p : CString} (h : OwnsNode key p) : Sees key p :=
  h.elim KeyPath.sees QueuePath.sees

/-- A lock directory one of whose children has an accepted path. -/
theorem keyPath_of_child {x : CString} {sequence : Bool}
    (h : validPath (childOf (lockPath key) x) sequence = true) : KeyPath key (lockPath key) :=
  ⟨.inr rfl, validPath_of_childOf (lockPath_ne_nil key) h⟩

/-- The content that a request for a key may change is that of one of its nodes. -/
theorem Req.IsFor.ownsNode {r : Req} {q : CString} (h : r.IsFor session key) (hv : r.Valid = true)
    (hq : r.MayTouch q) : OwnsNode key q := by
  cases r with
  | zooCreate p value acl flags len =>
    simp only [Req.IsFor, Req.MayTouch, Req.Valid] at h hq hv
    split_ifs at h hq
    · obtain ⟨n, rfl⟩ := hq
      subst h
      refine .inr ⟨(keyPath_of_child hv).2, session, lockName session n, ownName_lockName .., ?_⟩
      simp [childOf, lockName]
    · exact .inl (hq ▸ h)
  | zooSet p buffer version => exact .inl (hq ▸ h)
  | zooDelete p version => exact hq ▸ h
  | _ => exact hq.elim

/-- The directory whose sequence numbers a request for a key may use up. -/
theorem Req.IsFor.parentOf_path {r : Req} (h : r.IsFor session key) (hv : r.Valid = true)
    (hwrite : r.isRead = false) :
    KeyPath key r.path ∨ KeyPath key (lockPath key) ∧ parentOf r.path = lockPath key := by
  cases r with
  | zooCreate p value acl flags len =>
    simp only [Req.IsFor, Req.Valid] at h hv
    split_ifs at h
    · subst h
      exact .inr ⟨keyPath_of_child hv, parentOf_childOf _ (slash_notMem_lockPrefix _)⟩
    · exact .inl h
  | zooSet p buffer version => exact .inl h
  | zooDelete p version => exact h.imp id fun h => ⟨h.keyPath, h.parentOf_eq⟩
  | _ => cases hwrite

/-! ### What a worker does -/

/-- The operations of a worker all of whose callbacks are for keys in `K`. -/
def KeyOp (session : Sid) (K : Set CString) : Op → Prop
  | .zoo r => r.Valid = true → ∃ k ∈ K, r.IsFor session k
  | .store (.lockId (some x)) => OwnName session x
  | .store (.lockInit p _) => ∃ k ∈ K, p = lockPath k
  | .store (.path p) => ∃ k ∈ K, p = sessionPath k
  | _ => True

/-- The record of such a worker. -/
structure KeyRecord (session : Sid) (K : Set CString) (m : PhpZookeeperSession) : Prop where
  id : ∀ x ∈ m.lock.id, OwnName session x
  lockPath : ∀ p ∈ m.lock.path, ∃ k ∈ K, p = lockPath k
  path : m.path = [] ∨ ∃ k ∈ K, m.path = sessionPath k

variable {K : Set CString}

/-- The record of a worker that has done nothing yet. -/
theorem keyRecord_initial : KeyRecord session K {} := ⟨by simp, by simp, .inl rfl⟩

theorem KeyRecord.effect {m : PhpZookeeperSession} (h : KeyRecord session K m) {o : Op}
    (ho : KeyOp session K o) (th : Thread) : KeyRecord session K (o.effect th m) := by
  obtain ⟨hid, hlock, hpath⟩ := h
  cases o with
  | store a =>
    cases a with
    | lockId id =>
      refine ⟨fun x hx => ?_, hlock, hpath⟩
      cases id with
      | none => simp [Op.effect, Assign.apply] at hx
      | some y => exact Option.mem_some.mp hx ▸ ho
    | lockInit p acl =>
      exact ⟨by simp [Op.effect, Assign.apply], fun y hy => Option.mem_some.mp hy ▸ ho, hpath⟩
    | path p => exact ⟨hid, hlock, .inr ho⟩
    | lockDestroy => exact ⟨hid, by simp [Op.effect, Assign.apply], hpath⟩
    | _ => exact ⟨hid, hlock, hpath⟩
  | _ => exact ⟨hid, hlock, hpath⟩

theorem KeyRecord.keyPath {m : PhpZookeeperSession} (h : KeyRecord session K m)
    (hv : validPath m.path false = true) : ∃ k ∈ K, KeyPath k m.path := by
  rcases h.path with hnil | ⟨k, hk, hp⟩
  · rw [hnil] at hv
    cases hv
  · exact ⟨k, hk, .inl hp, hv⟩

theorem lockEffects_keyOp :
    LockEffects session (KeyOp session K) (KnownResults (KeyRecord session K)) := by
  have hknown : ∀ p, KnownPath (KnownResults (KeyRecord session K)) p →
      ∃ k ∈ K, p = lockPath k := by
    rintro p ⟨m, hm, hp⟩
    exact hm.lockPath p hp
  exact {
    load := trivial
    fault := trivial
    nanosleep := trivial
    completion := fun _ => trivial
    clearId := trivial
    mutexLock := trivial
    mutexUnlock := trivial
    setIsOwner := fun _ => trivial
    setOwnerid := fun _ => trivial
    setId := fun _ hx => hx
    dequeue := fun m p x hm hp hx hv => by
      obtain ⟨k, hk, rfl⟩ := hm.lockPath p hp
      exact ⟨k, hk, .inr ⟨(keyPath_of_child hv).2, session, x, hm.id x hx, rfl⟩⟩
    exists_ := fun p hp hv => (hknown p hp).imp fun k hk => ⟨hk.1, .inr hk.2, hv⟩
    mkdir := fun p _ hp hv => (hknown p hp).imp fun k hk => ⟨hk.1, .inr hk.2, hv⟩
    list := fun p hp _ => hknown p hp
    enqueue := fun p _ _ hp _ => by
      obtain ⟨k, hk, rfl⟩ := hknown p hp
      exact ⟨k, hk, by simp [Req.IsFor]⟩
    enqueued := fun _ _ _ _ ha hrc => ha.2 rfl hrc
    watch := fun p x hp hx _ => by
      obtain ⟨k, hk, rfl⟩ := hknown p hp
      exact ⟨k, hk, x, hx, rfl⟩
    names := fun _ _ ha => ha.1 }

theorem dataEffects_keyOp :
    DataEffects (KeyOp session K) (KnownResults (KeyRecord session K)) where
  load := trivial
  dataExists _ hm hv := hm.keyPath hv
  dataGet _ _ hm hv := hm.keyPath hv
  dataCreate _ _ hm hv := hm.keyPath hv
  dataSet _ _ hm hv := hm.keyPath hv
  dataDelete _ hm hv := (hm.keyPath hv).imp fun _ hk => ⟨hk.1, .inl hk.2⟩

/-- **What the callbacks for a key in `K` do.** -/
theorem handlerEffects_keyOp (hkey : key ∈ K) :
    HandlerEffects session key (KeyOp session K) (KnownResults (KeyRecord session K)) :=
  { lockEffects_keyOp, dataEffects_keyOp with
    mutexInit := trivial
    mutexDestroy := trivial
    usleep := fun _ => trivial
    isLocked := fun _ => trivial
    lockInit := ⟨key, hkey, rfl⟩
    efreePath := trivial
    lockDestroy := trivial
    setPath := ⟨key, hkey, rfl⟩ }

/-- A worker all of whose callbacks are for one key. -/
structure WorkerOk (session : Sid) (key : CString) (u : WorkerState) : Prop where
  record : KeyRecord session {key} u.memory
  main : ∀ p, u.main = some p →
    Performs (KeyOp session {key}) (KnownResults (KeyRecord session {key})) p fun _ => True
  watcher : ∀ p, u.watcher = some p →
    Performs (KeyOp session {key}) (KnownResults (KeyRecord session {key})) p fun _ => True

/-- A worker that has done nothing yet. -/
theorem workerOk_initial : WorkerOk session key {} :=
  ⟨keyRecord_initial, by simp, by simp⟩

/-- The callbacks that are for the key, `PS_GC` apart. -/
def Callback.Uses (key : CString) (cb : Callback) : Prop := cb.IsFor key ∧ ∀ g, cb ≠ .psGc g

/-- A thread that goes on makes a request for its key, if it makes one. -/
theorem goesOn_keyOp {α : Type} {th : Thread} {talk : Option (Req × Reply)}
    {m m' : PhpZookeeperSession} {p p' : Code α} {Q : α → Prop} (h : GoesOn th talk m p p' m')
    (hm : KeyRecord session {key} m)
    (hp : Performs (KeyOp session {key}) (KnownResults (KeyRecord session {key})) p Q)
    (hreply : ∀ r a, talk = some (r, a) → KnownReply r a) :
    KeyRecord session {key} m' ∧
      Performs (KeyOp session {key}) (KnownResults (KeyRecord session {key})) p' Q ∧
      ∀ r a, talk = some (r, a) → r.Valid = true → r.IsFor session key := by
  cases p with
  | ret a => exact h.elim
  | op o k =>
    obtain ⟨r, ⟨rfl, hdoes⟩, rfl⟩ := h
    obtain ⟨ho, hk⟩ := hp.op_inv
    refine ⟨hm.effect ho th, hk r ?_, ?_⟩
    · cases o with
      | zoo req => exact hreply req r hdoes
      | load =>
        obtain ⟨-, rfl⟩ := hdoes
        exact hm
      | _ => trivial
    · rintro req a rfl
      cases o with
      | zoo req' =>
        obtain ⟨rfl, rfl⟩ := Prod.mk.inj (Option.some.inj hdoes)
        exact fun hv => by simpa using ho hv
      | fault => exact r.elim
      | load => cases hdoes.1
      | pthreadMutexLock => cases hdoes.1
      | _ => cases hdoes
  | iter body b k =>
    obtain ⟨rfl, rfl, rfl⟩ := h
    exact ⟨hm, hp.iter_inv, by simp⟩

/-- **What a worker does**, while its callbacks are for its key: its requests are for the key. -/
theorem WorkerOk.step {u u' : WorkerState} {e : Event} (h : WorkerOk session key u)
    (hstep : u.Step session e u') (hcall : ∀ cb, e = .start cb → cb.Uses key)
    (hreply : ∀ r a, e.talk = some (r, a) → KnownReply r a) :
    WorkerOk session key u' ∧
      ∀ r a, e.talk = some (r, a) → r.Valid = true → r.IsFor session key := by
  obtain ⟨hrecord, hmain, hwatcher⟩ := h
  cases hstep with
  | @start cb _ =>
    obtain ⟨hfor, hgc⟩ := hcall cb rfl
    refine ⟨⟨hrecord, fun p hp => ?_, hwatcher⟩, by simp [Event.talk]⟩
    obtain rfl := Option.some.inj hp
    exact performs_callback (handlerEffects_keyOp (Set.mem_singleton key)) hfor fun g hg =>
      absurd hg (hgc g)
  | main hp hgoes =>
    obtain ⟨hm, hp', htalk⟩ := goesOn_keyOp hgoes hrecord (hmain _ hp) hreply
    refine ⟨⟨hm, fun p h => ?_, hwatcher⟩, htalk⟩
    rwa [← Option.some.inj h]
  | finish _ => exact ⟨⟨hrecord, by simp, hwatcher⟩, by simp [Event.talk]⟩
  | sessionEvent => exact ⟨⟨hrecord, hmain, hwatcher⟩, by simp [Event.talk]⟩
  | notify _ =>
    refine ⟨⟨hrecord, hmain, fun p hp => ?_⟩, by simp [Event.talk]⟩
    obtain rfl := Option.some.inj hp
    exact lockEffects_keyOp.lockWatcherFn
  | watcher hp hgoes =>
    obtain ⟨hm, hp', htalk⟩ := goesOn_keyOp hgoes hrecord (hwatcher _ hp) hreply
    refine ⟨⟨hm, hmain, fun p h => ?_⟩, htalk⟩
    rwa [← Option.some.inj h]
  | watcherDone _ => exact ⟨⟨hrecord, hmain, by simp⟩, by simp [Event.talk]⟩

/-! ### What replies depend on -/

/-- The nodes look the same to the operations for a key: the content of the nodes they see, and the
number of the next place in the queue. -/
structure Nodes.SameFor (key : CString) (t t' : Nodes) : Prop where
  content : ∀ q, Sees key q → (t' q).map Znode.content = (t q).map Znode.content
  queue : KeyPath key (lockPath key) → t' (lockPath key) = t (lockPath key)

namespace Nodes.SameFor

variable {t t' u u' : Nodes}

theorem refl (t : Nodes) : Nodes.SameFor key t t := ⟨fun _ _ => rfl, fun _ => rfl⟩

theorem symm (h : Nodes.SameFor key t t') : Nodes.SameFor key t' t :=
  ⟨fun q hq => (h.content q hq).symm, fun hl => (h.queue hl).symm⟩

theorem trans (h : Nodes.SameFor key t t') (h' : Nodes.SameFor key t' u) :
    Nodes.SameFor key t u :=
  ⟨fun q hq => (h'.content q hq).trans (h.content q hq), fun hl => (h'.queue hl).trans (h.queue hl)⟩

theorem none_iff (h : Nodes.SameFor key t u) {q : CString} (hq : Sees key q) :
    u q = none ↔ t q = none := by
  have := h.content q hq
  cases htq : t q <;> cases huq : u q <;> simp_all

theorem some_of (h : Nodes.SameFor key t u) {q : CString} (hq : Sees key q) {n : Znode}
    (hn : t q = some n) : ∃ m, u q = some m ∧ m.content = n.content := by
  have hcontent := h.content q hq
  rw [hn] at hcontent
  obtain ⟨m, hm, heq⟩ := Option.map_eq_some_iff.mp hcontent
  exact ⟨m, hm, heq⟩

theorem hasChild_iff (h : Nodes.SameFor key t u) {p : CString} (hp : OwnsNode key p) :
    u.HasChild p ↔ t.HasChild p := by
  unfold Nodes.HasChild
  refine exists_congr fun x => and_congr_right fun hx => not_congr ?_
  exact h.none_iff (hp.sees_child hx)

theorem bump (h : Nodes.SameFor key t u) (p : CString) (k : ℕ) :
    Nodes.SameFor key (t.bump p k) (u.bump p k) := by
  refine ⟨fun q hq => ?_, fun hl => ?_⟩
  · rw [Nodes.bump_content, Nodes.bump_content]
    exact h.content q hq
  · have hqueue := h.queue hl
    by_cases hp : lockPath key = p
    · subst hp
      simp only [Nodes.bump, Function.update_self, hqueue]
    · rw [Nodes.bump_of_ne _ _ hp, Nodes.bump_of_ne _ _ hp]
      exact hqueue

theorem update (h : Nodes.SameFor key t u) (p : CString) {x y : Option Znode}
    (hxy : y.map Znode.content = x.map Znode.content)
    (hqueue : lockPath key = p → KeyPath key (lockPath key) → y = x) :
    Nodes.SameFor key (Function.update t p x) (Function.update u p y) := by
  refine ⟨fun q hq => ?_, fun hl => ?_⟩
  · by_cases hqp : q = p
    · subst hqp
      simpa using hxy
    · rw [Function.update_of_ne hqp, Function.update_of_ne hqp]
      exact h.content q hq
  · by_cases hp : lockPath key = p
    · have := hqueue hp hl
      subst hp
      simp [this]
    · rw [Function.update_of_ne hp, Function.update_of_ne hp]
      exact h.queue hl

end Nodes.SameFor

/-- The nodes on which the reply to a `create` depends. -/
theorem Req.IsFor.create {p : CString} {value : Option Bytes} {acl : Option Acl}
    {flags : CreateFlags} {len : ℕ} (h : (Req.zooCreate p value acl flags len).IsFor session key)
    (hv : validPath p flags.sequence = true) :
    Sees key (parentOf p) ∧
      (∀ n, Sees key (if flags.sequence then p ++ sprintf010d n else p)) ∧
      (flags.sequence = true → parentOf p = lockPath key ∧ KeyPath key (lockPath key)) := by
  have hnode : ∀ n, OwnsNode key (if flags.sequence then p ++ sprintf010d n else p) := by
    refine fun n => h.ownsNode (r := .zooCreate p value acl flags len) hv ?_
    simp only [Req.MayTouch]
    split_ifs
    · exact ⟨n, rfl⟩
    · rfl
  rcases h.parentOf_path hv rfl with hp | ⟨hdir, hp⟩
  · refine ⟨hp.sees_parentOf, fun n => (hnode n).sees, fun hseq => ?_⟩
    simp only [Req.IsFor, hseq, if_true] at h
    rw [hseq] at hv
    subst h
    exact ⟨parentOf_childOf _ (slash_notMem_lockPrefix _), keyPath_of_child hv⟩
  · have hp' : parentOf p = lockPath key := hp
    exact ⟨hp' ▸ hdir.sees, fun n => (hnode n).sees, fun _ => ⟨hp', hdir⟩⟩

theorem Znode.stat_congr {m n : Znode} (h : m.content = n.content) :
    m.stat = n.stat ∧ m.data = n.data ∧ m.version = n.version ∧ m.mtime = n.mtime ∧
      m.ephemeralOwner = n.ephemeralOwner := by
  have hdata := congrArg Znode.data h
  have hmtime := congrArg Znode.mtime h
  have hversion := congrArg Znode.version h
  have howner := congrArg Znode.ephemeralOwner h
  simp only [Znode.content] at hdata hmtime hversion howner
  refine ⟨?_, hdata, hversion, hmtime, howner⟩
  simp only [Znode.stat, hdata, hmtime, hversion]

/-- The directory in which a `create` makes its node, and the name the node would get. -/
theorem Nodes.SameFor.some_of_parent {t u : Nodes} {p : CString} {value : Option Bytes}
    {acl : Option Acl} {flags : CreateFlags} {len : ℕ} {d : Znode} (h : Nodes.SameFor key t u)
    (hr : (Req.zooCreate p value acl flags len).IsFor session key)
    (hv : validPath p flags.sequence = true) (hd : t (parentOf p) = some d) :
    ∃ m, (u (parentOf p) = some m ∧ m.content = d.content) ∧
      ∀ k, (if flags.sequence then p ++ sprintf010d (m.cseq + k) else p) =
        if flags.sequence then p ++ sprintf010d (d.cseq + k) else p := by
  obtain ⟨hparent, -, hseq⟩ := hr.create hv
  obtain ⟨m, hm, hc⟩ := h.some_of hparent hd
  refine ⟨m, ⟨hm, hc⟩, fun k => ?_⟩
  split_ifs with hflag
  · obtain ⟨hp, hdir⟩ := hseq hflag
    have hqueue := h.queue hdir
    rw [← hp, hm, hd, Option.some.injEq] at hqueue
    rw [hqueue]
  · rfl

/-- **What replies depend on.** A request for a key gets a reply whenever it could get it from nodes
that look the same to the key, and leaves nodes that look the same. -/
theorem Nodes.SameFor.answers {t t' u : Nodes} {r : Req} {a : Reply}
    (h : Nodes.SameFor key t u) (hans : Answers session r t a t')
    (hr : r.Valid = true → r.IsFor session key) :
    ∃ u', Answers session r u a u' ∧ Nodes.SameFor key t' u' := by
  cases hans with
  | badPath hv => exact ⟨u, .badPath hv, h⟩
  | existsOk hv hn =>
    obtain ⟨m, hm, hc⟩ := h.some_of (hr hv).sees hn
    exact ⟨u, by rw [← (Znode.stat_congr hc).1]; exact .existsOk hv hm, h⟩
  | existsNoNode hv hn => exact ⟨u, .existsNoNode hv ((h.none_iff (hr hv).sees).mpr hn), h⟩
  | @wexistsOk p _ n hv hn =>
    obtain ⟨x, hx, rfl⟩ := hr hv
    have hsees := OwnsNode.sees_child (.inl (keyPath_of_child hv)) hx
    obtain ⟨m, hm, hc⟩ := h.some_of hsees hn
    exact ⟨u, by rw [← (Znode.stat_congr hc).1]; exact .wexistsOk hv hm, h⟩
  | wexistsNoNode hv hn =>
    obtain ⟨x, hx, rfl⟩ := hr hv
    have hsees := OwnsNode.sees_child (.inl (keyPath_of_child hv)) hx
    exact ⟨u, .wexistsNoNode hv ((h.none_iff hsees).mpr hn), h⟩
  | getOk hv hn =>
    obtain ⟨m, hm, hc⟩ := h.some_of (hr hv).sees hn
    obtain ⟨hstat, hdata, -⟩ := Znode.stat_congr hc
    exact ⟨u, by rw [← hstat, ← hdata]; exact .getOk hv hm, h⟩
  | getNoNode hv hn => exact ⟨u, .getNoNode hv ((h.none_iff (hr hv).sees).mpr hn), h⟩
  | setNoNode hv hn => exact ⟨u, .setNoNode hv ((h.none_iff (hr hv).sees).mpr hn), h⟩
  | setBadVersion hv hn h₁ h₂ =>
    obtain ⟨m, hm, hc⟩ := h.some_of (hr hv).sees hn
    exact ⟨u, .setBadVersion hv hm h₁ (by rwa [(Znode.stat_congr hc).2.2.1]), h⟩
  | @setOk p _ n buffer version mtime hv hn hver =>
    obtain ⟨m, hm, hc⟩ := h.some_of (hr hv).sees hn
    obtain ⟨-, -, hversion, -, howner⟩ := Znode.stat_congr hc
    refine ⟨Function.update u p
      (some { m with data := some buffer, mtime := mtime, version := m.version + 1 }),
      .setOk hv hm (by rwa [hversion]), h.update p ?_ ?_⟩
    · simp [Znode.content, hversion, howner]
    · rintro rfl hl
      have hqueue := h.queue hl
      rw [hm, hn, Option.some.injEq] at hqueue
      rw [hqueue]
  | deleteNoNode hv hn => exact ⟨u, .deleteNoNode hv ((h.none_iff (hr hv).sees).mpr hn), h⟩
  | deleteBadVersion hv hn h₁ h₂ =>
    obtain ⟨m, hm, hc⟩ := h.some_of (hr hv).sees hn
    exact ⟨u, .deleteBadVersion hv hm h₁ (by rwa [(Znode.stat_congr hc).2.2.1]), h⟩
  | deleteNotEmpty hv hn hchild =>
    obtain ⟨m, hm, hc⟩ := h.some_of (hr hv).sees hn
    exact ⟨u, .deleteNotEmpty hv hm ((h.hasChild_iff (hr hv)).mpr hchild), h⟩
  | @deleteOk p _ n version k hv hn hver hchild =>
    obtain ⟨m, hm, hc⟩ := h.some_of (hr hv).sees hn
    refine ⟨_, .deleteOk hv hm (by rwa [(Znode.stat_congr hc).2.2.1])
      (mt (h.hasChild_iff (hr hv)).mp hchild), (h.bump _ k).update p rfl fun _ _ => rfl⟩
  | childrenNoNode hv hn =>
    obtain rfl := hr hv
    exact ⟨u, .childrenNoNode hv ((h.none_iff (KeyPath.sees ⟨.inr rfl, hv⟩)).mpr hn), h⟩
  | childrenOk hv hn hnd hx =>
    obtain rfl := hr hv
    have hdir : KeyPath key (lockPath key) := ⟨.inr rfl, hv⟩
    obtain ⟨m, hm, -⟩ := h.some_of hdir.sees hn
    refine ⟨u, .childrenOk hv hm hnd fun x => ?_, h⟩
    rw [hx]
    exact and_congr_right fun hslash =>
      not_congr (h.none_iff (OwnsNode.sees_child (.inl hdir) hslash)).symm
  | createInvalidAcl hv => exact ⟨u, .createInvalidAcl hv, h⟩
  | createNoParent hv hd =>
    exact ⟨u, .createNoParent hv ((h.none_iff ((hr hv).create hv).1).mpr hd), h⟩
  | createEphemeralParent hv hd he =>
    obtain ⟨m, hm, hc⟩ := h.some_of ((hr hv).create hv).1 hd
    exact ⟨u, .createEphemeralParent hv hm (by rwa [(Znode.stat_congr hc).2.2.2.2]), h⟩
  | @createNodeExists p _ value acl flags len k d n hv hd hn =>
    obtain ⟨m, hm, hname⟩ := h.some_of_parent (hr hv) hv hd
    obtain ⟨n', hn', -⟩ := h.some_of (((hr hv).create hv).2.1 (d.cseq + k)) hn
    exact ⟨u, .createNodeExists (k := k) hv hm.1 (by rwa [hname]), h⟩
  | @createOk p _ d n value acl flags len k q hv hd he hq hnew hdata howner hcseq =>
    obtain ⟨m, ⟨hm, hc⟩, hname⟩ := h.some_of_parent (hr hv) hv hd
    subst hq
    have hnew' := (h.none_iff (((hr hv).create hv).2.1 (d.cseq + k))).mpr hnew
    refine ⟨_, .createOk hv hm (by rwa [(Znode.stat_congr hc).2.2.2.2]) (hname k).symm hnew' hdata
      howner hcseq, (h.bump _ _).update _ rfl fun _ _ => rfl⟩

end PhpZookeeper
