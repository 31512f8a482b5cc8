import PhpZookeeper.Lock.Rules
import PhpZookeeper.Session.Effects
import PhpZookeeper.System.Outline

/-!
# At most one place in the queue

One client of one lock: its main thread makes any calls of `zkr_lock_init`, `zkr_lock_lock` and
`zkr_lock_unlock`, its other thread runs `lock_watcher_fn` when it is notified, and others change
the nodes as they like, but make none with the client's prefix. The `create` is only made after a
listing without a node of the client, and `pmutex` keeps the other thread from making one in
between, unless `zkr_lock_init` makes it anew. In the runs in which it does not do that to a
`pmutex` that `lock_watcher_fn` holds, the client has at most one node, which is that of its
record (`one_place`); `two_places` is a run with two.
-/

namespace PhpZookeeper

open Theory Prog Status

variable {srv : Server}

/-! ### One client -/

/-- The calls that the main thread makes. -/
inductive LockFn where
  | zkrLockInit (acl : Option Acl)
  | zkrLockLock
  | zkrLockUnlock
  deriving DecidableEq, Repr

/-- The code of a call, for the lock at `p`. -/
def LockFn.code (session : Sid) (p : CString) : LockFn → Code Unit
  | .zkrLockInit acl => do
    let _ ← PhpZookeeper.zkrLockInit p acl
    return ()
  | .zkrLockLock => do
    let _ ← PhpZookeeper.zkrLockLock session
    return ()
  | .zkrLockUnlock => do
    let _ ← PhpZookeeper.zkrLockUnlock
    return ()

/-- A client and its two threads. -/
structure LockClient (srv : Server) where
  world : World srv Unit
  /-- What is left of the call that the main thread makes. -/
  main : Option (Code Unit) := none
  /-- What is left of the `lock_watcher_fn` that the other thread runs. -/
  watcher : Option (Code Unit) := none

/-- What happens in a step. -/
inductive LockLabel (srv : Server) where
  /-- The main thread makes a call. -/
  | call (f : LockFn)
  /-- The main thread goes on. -/
  | main (d : Decision srv)
  /-- A call returns. -/
  | returned
  /-- The client library tells the watchers that the connection has changed. -/
  | sessionEvent
  /-- The client library calls `lock_watcher_fn`. -/
  | notify
  /-- The thread that runs `lock_watcher_fn` goes on. -/
  | watcher (d : Decision srv)
  /-- `lock_watcher_fn` returns. -/
  | watcherDone
  /-- Another client changes the nodes, and touches a watched one or not. -/
  | others (tree : srv.State) (touched : Option CString)

namespace LockClient

/-- The operation that a step performs, if it is one of a thread. -/
def performs (c : LockClient srv) : LockLabel srv → Option Op
  | .main _ => c.main.bind Prog.next
  | .watcher _ => c.watcher.bind Prog.next
  | _ => none

/-- A step, or `none` when it is not possible. -/
def step (session : Sid) (p : CString) (c : LockClient srv) :
    LockLabel srv → Option (LockClient srv)
  | .call f =>
    match c.main with
    | none => some { c with main := some (f.code session p) }
    | some _ => none
  | .main d =>
    match c.main with
    | some q => (c.world.advance () session .main d q).map fun x =>
      { c with world := x.2, main := some x.1 }
    | none => none
  | .returned =>
    match c.main with
    | some (.ret _) => some { c with main := none }
    | _ => none
  | .sessionEvent =>
    if c.world.watches () = [] then none
    else some { c with world := { c.world with events := fun _ => c.world.events () + 1 } }
  | .notify =>
    match c.watcher with
    | none =>
      if c.world.events () = 0 then none
      else some { c with
        world := { c.world with events := fun _ => c.world.events () - 1 }
        watcher := some (lockWatcherFn session) }
    | some _ => none
  | .watcher d =>
    match c.watcher with
    | some q => (c.world.advance () session .watcher d q).map fun x =>
      { c with world := x.2, watcher := some x.1 }
    | none => none
  | .watcherDone =>
    match c.watcher with
    | some (.ret _) => some { c with watcher := none }
    | _ => none
  | .others tree touched =>
    some { c with
      world := c.world.others tree (fun _ => c.world.tree :: c.world.views ()) touched }

/-- `Reaches session p ok c₀ c`: there is a run from `c₀` to `c` each of whose steps is `ok`. -/
inductive Reaches (session : Sid) (p : CString) (ok : LockClient srv → LockLabel srv → Prop)
    (c₀ : LockClient srv) : LockClient srv → Prop where
  | refl : Reaches session p ok c₀ c₀
  | step {c c' : LockClient srv} {l : LockLabel srv} : Reaches session p ok c₀ c → ok c l →
      c.step session p l = some c' → Reaches session p ok c₀ c'

end LockClient

/-! ### The client's nodes -/

/-- The lock directory `p` has a node `x` with the client's prefix. -/
def OwnNode (session : Sid) (p : CString) (t : Nodes) (x : CString) : Prop :=
  OwnName session x ∧ t (childOf p x) ≠ none

/-- The client has at most one node, and the record has its name or none. -/
structure LockClient.OnePlace (session : Sid) (p : CString) (c : LockClient srv) : Prop where
  one : ∀ x y, OwnNode session p c.world.nodes x → OwnNode session p c.world.nodes y → x = y
  id : ∀ x, OwnNode session p c.world.nodes x →
    (c.world.memory ()).lock.id = none ∨ (c.world.memory ()).lock.id = some x

/-- Nobody runs, the record is new, and the client has no node. -/
structure LockClient.IsInitial (session : Sid) (p : CString) (c : LockClient srv) : Prop where
  main : c.main = none
  watcher : c.watcher = none
  memory : c.world.memory () = {}
  views : c.world.views () = []
  noNode : ∀ x, ¬ OwnNode session p c.world.nodes x

/-- Others make no node with the client's prefix. -/
def OthersKeepOut (session : Sid) (p : CString) (c : LockClient srv) : LockLabel srv → Prop
  | .others tree _ =>
    ∀ x, OwnNode session p (srv.nodes tree) x → OwnNode session p c.world.nodes x
  | _ => True

/-- The operations of `zkr_lock_init`. -/
def Op.Inits : Op → Prop
  | .store (.lockInit _ _) => True
  | .pthreadMutexInit => True
  | _ => False

/-- The steps in which, moreover, `zkr_lock_init` does not act while `lock_watcher_fn` holds
`pmutex`. -/
structure InitsAlone (session : Sid) (p : CString) (c : LockClient srv) (l : LockLabel srv) :
    Prop where
  others : OthersKeepOut session p c l
  init : ∀ o, c.performs l = some o → o.Inits → c.world.pmutex () ≠ some .watcher

/-- The requests that may make a node at `q`. -/
def Req.MayMake (r : Req) (q : CString) : Prop :=
  match r with
  | .zooCreate p _ _ flags _ => if flags.sequence then ∃ n, q = p ++ sprintf010d n else q = p
  | _ => False

/-- Only a `create` makes a node. -/
theorem Answers.present {sid : Sid} {r : Req} {t t' : Nodes} {a : Reply} {q : CString}
    (h : Answers sid r t a t') (hr : ¬ r.MayMake q) (hq : t' q ≠ none) : t q ≠ none := by
  have hbump : ∀ d k, (t.bump d k) q ≠ none → t q ≠ none := by
    intro d k hne hnone
    have hcontent := t.bump_content d k q
    rw [hnone] at hcontent
    exact hne (Option.map_eq_none_iff.mp hcontent)
  cases h with
  | createOk hv hd he hp ht hn ho hc =>
    rw [Function.update_of_ne] at hq
    · exact hbump _ _ hq
    · rintro rfl
      refine hr ?_
      simp only [Req.MayMake]
      split_ifs at hp ⊢
      · exact ⟨_, hp⟩
      · exact hp
  | @setOk p t n buffer version mtime hv hn hver =>
    by_cases hp : q = p
    · rw [hp, hn]
      simp
    · rwa [Function.update_of_ne hp] at hq
  | @deleteOk p t n version k hv hn hver hc =>
    by_cases hp : q = p
    · rw [hp, Function.update_self] at hq
      exact absurd rfl hq
    · rw [Function.update_of_ne hp] at hq
      exact hbump _ _ hq
  | _ => exact hq

/-! ### The invariant -/

/-- What is true whoever acts: each state that the client may still see has at most one node of the
client, and has it as long as it is there. -/
structure PlaceInv (session : Sid) (p : CString) (s : World srv Unit) : Prop where
  one : ∀ T ∈ s.tree :: s.views (), ∀ x y, OwnNode session p (srv.nodes T) x →
    OwnNode session p (srv.nodes T) y → x = y
  seen : ∀ T ∈ s.views (), ∀ x, OwnNode session p s.nodes x → OwnNode session p (srv.nodes T) x
  id : ∀ x, OwnNode session p s.nodes x →
    (s.memory ()).lock.id = none ∨ (s.memory ()).lock.id = some x
  path : ∀ p' ∈ (s.memory ()).lock.path, p' = p

/-- A thread that holds `pmutex` is left alone: no node of the client's appears, and `id` stays. -/
def Undisturbed (session : Sid) (p : CString) (th : Thread) (s s' : World srv Unit) : Prop :=
  s.pmutex () = some th → s'.pmutex () = some th ∧
    (s'.memory ()).lock.id = (s.memory ()).lock.id ∧
    ∀ x, OwnNode session p s'.nodes x → OwnNode session p s.nodes x

/-- What the threads rely on, and what they promise. -/
def placeContract (session : Sid) (p : CString) (th : Thread) :
    Contract Op.Res (World srv Unit) where
  sem o s r s' := PlaceInv session p s ∧ (o.Inits → s.pmutex () ≠ some .watcher) ∧
    ∃ d, s.perform () session th d o = some (r, s')
  rely _ s s' := Undisturbed session p th s s'
  guar _ s _ s' := PlaceInv session p s' ∧ ∀ th', th' ≠ th → Undisturbed session p th' s s'

/-- The operations of the critical section that neither make the client's node nor take its
name. -/
def VisitOp (session : Sid) (p : CString) : Op → Prop
  | .zoo r => ∀ x, OwnName session x → ¬ r.MayMake (childOf p x)
  | .store (.lockId none) | .store (.lockIsOwner _) | .store (.lockOwnerid _) => True
  | .load | .fault | .nanosleep | .completion _ => True
  | _ => False

/-- A `create` that has the service number its node. -/
def Req.Sequence : Req → Prop
  | .zooCreate _ _ _ flags _ => flags.sequence = true
  | _ => False

/-- The operations of the critical section that make no node of any queue, and do not take a
name. -/
def PlainOp (session : Sid) (p : CString) : Op → Prop
  | .zoo r => ¬ r.Sequence ∧ VisitOp session p (.zoo r)
  | o => VisitOp session p o

theorem PlainOp.visitOp {session : Sid} {p : CString} {o : Op} (h : PlainOp session p o) :
    VisitOp session p o := by
  cases o with
  | zoo r => exact h.2
  | _ => exact h

section Operations

variable {session : Sid} {p : CString} {th : Thread} {s s' : World srv Unit} {d : Decision srv}
  {o : Op} {r : o.Res}

/-- What the client may still see of earlier states it has seen before; and a change of its own
it has seen. -/
theorem views_of_perform (hperf : s.perform () session th d o = some (r, s')) {T : srv.State}
    (hT : T ∈ s'.views ()) : T ∈ s.views () ∧ s'.nodes = s.nodes := by
  rcases World.perform_nodes hperf with ⟨htree, hviews⟩ | ⟨req, a, -, -, hviews⟩
  · exact ⟨hviews () hT, congrArg srv.nodes htree⟩
  · have hnil : s'.views () = [] := by
      rw [hviews]
      exact if_pos rfl
    rw [hnil] at hT
    cases hT

theorem memory_of_perform (hperf : s.perform () session th d o = some (r, s')) :
    s'.memory () = o.effect th (s.memory ()) := by
  rw [World.perform_memory hperf, Function.update_self]

/-- An operation keeps the invariant, when it keeps what it says of the nodes that are there. -/
theorem PlaceInv.perform (h : PlaceInv session p s)
    (hperf : s.perform () session th d o = some (r, s'))
    (hone : ∀ x y, OwnNode session p s'.nodes x → OwnNode session p s'.nodes y → x = y)
    (hid : ∀ x, OwnNode session p s'.nodes x → (o.effect th (s.memory ())).lock.id = none ∨
      (o.effect th (s.memory ())).lock.id = some x)
    (hpath : ∀ p' ∈ (o.effect th (s.memory ())).lock.path, p' = p) : PlaceInv session p s' := by
  rw [← memory_of_perform hperf] at hid hpath
  refine ⟨fun T hT => ?_, fun T hT x hx => ?_, hid, hpath⟩
  · rcases List.mem_cons.mp hT with rfl | hT
    · exact hone
    · exact h.one T (List.mem_cons_of_mem _ (views_of_perform hperf hT).1)
  · obtain ⟨hview, hnodes⟩ := views_of_perform hperf hT
    rw [hnodes] at hx
    exact h.seen T hview x hx

/-- An operation that makes no node of the client's. -/
theorem ownNode_of_perform (hperf : s.perform () session th d o = some (r, s'))
    (ho : ∀ req, o = .zoo req → ∀ x, OwnName session x → ¬ req.MayMake (childOf p x))
    {x : CString} (hx : OwnNode session p s'.nodes x) : OwnNode session p s.nodes x := by
  rcases World.perform_nodes hperf with ⟨htree, -⟩ | ⟨req, a, hreq, hans, -⟩
  · rwa [show s'.nodes = s.nodes from congrArg srv.nodes htree] at hx
  · exact ⟨hx.1, hans.present (ho req hreq x hx.1) hx.2⟩

/-- An operation that makes no node of the client's keeps the invariant, when the record has the
name of the node that is there, or none. -/
theorem PlaceInv.quiet (h : PlaceInv session p s)
    (hperf : s.perform () session th d o = some (r, s'))
    (ho : ∀ req, o = .zoo req → ∀ x, OwnName session x → ¬ req.MayMake (childOf p x))
    (hid : ∀ x, OwnNode session p s.nodes x → (o.effect th (s.memory ())).lock.id = none ∨
      (o.effect th (s.memory ())).lock.id = some x)
    (hpath : ∀ p' ∈ (o.effect th (s.memory ())).lock.path, p' = p) : PlaceInv session p s' :=
  h.perform hperf
    (fun x y hx hy => h.one s.tree List.mem_cons_self x y (ownNode_of_perform hperf ho hx)
      (ownNode_of_perform hperf ho hy))
    (fun x hx => hid x (ownNode_of_perform hperf ho hx)) hpath

/-- The holder of `pmutex` disturbs nobody. -/
theorem guar_of_holding (h : s.pmutex () = some th) (hinv : PlaceInv session p s') :
    (placeContract session p th : Contract Op.Res (World srv Unit)).guar o s r s' := by
  refine ⟨hinv, fun th' hne hth' => ?_⟩
  rw [h, Option.some.injEq] at hth'
  exact absurd hth'.symm hne

end Operations

/-! ### The code -/

namespace PlaceInv

variable {session : Sid} {p : CString} {th : Thread}

/-- What is known of the record that a thread has read. -/
def PathIs (p : CString) (m : PhpZookeeperSession) : Prop := ∀ p' ∈ m.lock.path, p' = p

theorem eq_of_knownPath {p' : CString} (h : KnownPath (KnownResults (PathIs p)) p') : p' = p := by
  obtain ⟨m, hm, hpath⟩ := h
  exact hm p' hpath

theorem visitEffects_plainOp :
    VisitEffects (PlainOp session p) (KnownResults (PathIs p)) where
  load := trivial
  fault := trivial
  nanosleep := trivial
  completion _ := trivial
  clearId := trivial
  setIsOwner _ := trivial
  exists_ _ _ := ⟨fun h => h, fun _ _ h => h⟩
  mkdir p' acl hp' := by
    refine ⟨Bool.false_ne_true, fun x _ hmake => ?_⟩
    rw [eq_of_knownPath hp'] at hmake
    exact childOf_ne_self p x hmake
  list _ _ := ⟨fun h => h, fun _ _ h => h⟩
  watch _ _ _ _ := ⟨fun h => h, fun _ _ h => h⟩
  names _ _ ha := ha.1

/-- What an operation of the critical section does to the record. -/
theorem effect_visitOp {o : Op} (ho : VisitOp session p o) (th : Thread)
    (m : PhpZookeeperSession) :
    (o.effect th m).lock.pmutex = m.lock.pmutex ∧ (o.effect th m).lock.path = m.lock.path ∧
      ((o.effect th m).lock.id = none ∨ (o.effect th m).lock.id = m.lock.id) := by
  cases o with
  | store a =>
    cases a with
    | lockId id =>
      cases id with
      | none => exact ⟨rfl, rfl, .inl rfl⟩
      | some x => exact ho.elim
    | lockIsOwner b => exact ⟨rfl, rfl, .inr rfl⟩
    | lockOwnerid x => exact ⟨rfl, rfl, .inr rfl⟩
    | _ => exact ho.elim
  | pthreadMutexInit => exact ho.elim
  | pthreadMutexLock => exact ho.elim
  | pthreadMutexUnlock => exact ho.elim
  | _ => exact ⟨rfl, rfl, .inr rfl⟩

theorem pmutex_of_perform {o : Op} {s s' : World srv Unit} {r : o.Res} {d : Decision srv}
    (h : s.perform () session th d o = some (r, s')) :
    s'.pmutex () = (o.effect th (s.memory ())).lock.pmutex := by
  unfold World.pmutex
  rw [memory_of_perform h]

end PlaceInv

/-- The operations of one round of `zkr_lock_operation`. -/
def RoundOp (session : Sid) (p : CString) (o : Op) : Prop :=
  PlainOp session p o ∨ (∃ id, o = .store (.lockId id)) ∨
    ∃ acl, o = .zoo (.zooCreate (childOf p (lockPrefix session)) none acl
      { ephemeral := true, sequence := true } (p.length + 41))

/-- What a thread is to know and to promise in the critical section of `pmutex`, where `H` holds,
for its node to be the client's only one. -/
structure RoundContract (session : Sid) (p : CString) (th : Thread)
    (C : Contract Op.Res (World srv Unit)) (H : World srv Unit → Prop) : Prop where
  pmutex : ∀ s, H s → s.pmutex () = some th
  stable : ∀ o, C.Stable o H
  rely : ∀ o s s', H s → C.rely o s s' → Undisturbed session p th s s'
  sem : ∀ o s r s', H s → C.sem o s r s' → PlaceInv session p s ∧
    ∃ d, s.perform () session th d o = some (r, s')
  guar : ∀ o s r s', RoundOp session p o → H s → C.sem o s r s' → PlaceInv session p s' →
    C.guar o s r s' ∧ H s'

/-- The critical section, when only `placeContract` is to be kept. -/
theorem roundContract_place {session : Sid} {p : CString} {th : Thread} :
    RoundContract session p th (placeContract session p th : Contract Op.Res (World srv Unit))
      fun s => s.pmutex () = some th where
  pmutex _ hs := hs
  stable _ _ _ hr hs := (hr hs).1
  rely _ _ _ _ hr := hr
  sem _ _ _ _ _ hsem := ⟨hsem.1, hsem.2.2⟩
  guar o s r s' ho hs hsem hinv := by
    obtain ⟨-, -, d, hperf⟩ := hsem
    refine ⟨guar_of_holding hs hinv, ?_⟩
    rw [PlaceInv.pmutex_of_perform hperf]
    rcases ho with ho | ⟨id, rfl⟩ | ⟨acl, rfl⟩
    · rw [(PlaceInv.effect_visitOp ho.visitOp th _).1]
      exact hs
    · exact hs
    · exact hs

namespace RoundContract

open PlaceInv

variable {session : Sid} {p : CString} {th : Thread} {C : Contract Op.Res (World srv Unit)}
  {H : World srv Unit → Prop} (h : RoundContract session p th C H)
include h

/-- What is known of results. -/
theorem knownResults {o : Op} {s s' : World srv Unit} {r : o.Res} (hs : H s)
    (hsem : C.sem o s r s') : KnownResults (PathIs p) o r := by
  obtain ⟨hinv, d, hperf⟩ := h.sem o s r s' hs hsem
  cases o with
  | load =>
    obtain rfl := congrArg Prod.fst (Option.some.inj hperf)
    exact hinv.path
  | zoo req => exact knownReply_of_perform hperf
  | _ => trivial

/-- The operations that neither make the client's node nor take its name keep the invariant. -/
theorem criticalRules : CriticalRules C (PlainOp session p) (KnownResults (PathIs p)) H where
  stableIn := h.stable
  inside o s r s' ho hs hsem := by
    refine ⟨h.knownResults hs hsem, h.guar o s r s' (.inl ho) hs hsem ?_⟩
    obtain ⟨hinv, d, hperf⟩ := h.sem o s r s' hs hsem
    obtain ⟨-, hpath, hid⟩ := effect_visitOp ho.visitOp th (s.memory ())
    refine hinv.quiet hperf (fun req hreq => ?_) (fun x hx => ?_) ?_
    · subst hreq
      exact ho.visitOp
    · rcases hid with hid | hid
      · exact .inl hid
      · rw [hid]
        exact hinv.id x hx
    · rw [hpath]
      exact hinv.path

/-- The holder of `pmutex` cannot lock it again. -/
theorem giveUp : Triple C H PhpZookeeper.giveUp fun _ => H := by
  have hlock : Triple C H zkrLockUnlock fun _ _ => False := by
    refine .step (o := Op.pthreadMutexLock) (fun _ _ => False) (fun _ hs => hs) (h.stable _)
      (fun s r s' hs hsem => ?_) fun _ => Triple.of_false fun _ hs => hs
    obtain ⟨-, d, hperf⟩ := h.sem _ s r s' hs hsem
    simp [World.perform, h.pmutex s hs] at hperf
  exact hlock.bind fun _ => Triple.of_false fun _ hs => hs

theorem placeRules : PlaceRules C (PlainOp session p) (KnownResults (PathIs p)) H
    fun _ _ => True where
  toCriticalRules := h.criticalRules
  visit := visitEffects_plainOp
  first _ _ _ _ _ _ _ _ _ _ _ := trivial
  stableFirst _ := Contract.Stable.true _
  setOwnerid _ s r s' hs _ hsem := (h.criticalRules.inside _ s r s' trivial hs hsem).2
  giveUp := h.giveUp

end RoundContract

namespace PlaceInv

/-- A listing shows the node of the client, if there is one. -/
def Listed (session : Sid) (p : CString) (vector : List CString) (s : World srv Unit) : Prop :=
  ∀ x, OwnNode session p s.nodes x → lookupnode vector (lockPrefix session) = some x

/-- What holds when the client is about to make its node. -/
def Placeless (session : Sid) (p : CString) (th : Thread) (s : World srv Unit) : Prop :=
  s.pmutex () = some th ∧ (s.memory ()).lock.id = none ∧ ∀ x, ¬ OwnNode session p s.nodes x

/-- The name that `mutex->id` is to be set to is that of the client's node, if there is one. -/
def Named (session : Sid) (p : CString) (th : Thread) (id : Option CString)
    (s : World srv Unit) : Prop :=
  s.pmutex () = some th ∧ ∀ x, OwnNode session p s.nodes x → id = some x

end PlaceInv

namespace RoundContract

open PlaceInv

variable {session : Sid} {p : CString} {th : Thread} {C : Contract Op.Res (World srv Unit)}
  {H : World srv Unit → Prop} (h : RoundContract session p th C H)
include h

theorem listed_of_listing {s s' : World srv Unit} {a : Reply} (hs : H s)
    (hsem : C.sem (.zoo (.zooGetChildren p)) s a s') (ha : a.rc = ZOK) :
    Listed session p a.strings s' := by
  obtain ⟨hinv, d, hperf⟩ := h.sem (.zoo (.zooGetChildren p)) s a s' hs hsem
  intro x hx
  have hx' : OwnNode session p s.nodes x := ownNode_of_perform hperf (fun req hreq y _ => by
    obtain rfl := Op.zoo.inj hreq
    exact fun h => h) hx
  obtain ⟨T, hT, b, t, hans, hab⟩ := World.answers_of_read hperf rfl ha
  obtain rfl : a = b := hab
  have hseen : OwnNode session p (srv.nodes T) x := by
    rcases List.mem_cons.mp hT with rfl | hT
    · exact hx'
    · exact hinv.seen T hT x hx'
  have hlist := hans.zooGetChildren.2
  rw [ha] at hlist
  obtain ⟨-, hnames⟩ : a.strings.Nodup ∧
      ∀ y, y ∈ a.strings ↔ '/' ∉ y ∧ srv.nodes T (childOf p y) ≠ none := by simpa using hlist
  have hmem := (hnames x).mpr ⟨hseen.1.2, hseen.2⟩
  obtain ⟨y, hy⟩ := Option.ne_none_iff_exists'.mp (lookupnode_ne_none hmem hseen.1)
  obtain ⟨hymem, hyown⟩ := ownName_of_lookupnode hy fun z hz => ((hnames z).mp hz).1
  rw [hy, hinv.one T hT x y hseen ⟨hyown, ((hnames y).mp hymem).2⟩]

/-- The first listing of a round. -/
theorem listing {path : Option CString}
    (hp : ∀ p' ∈ path, KnownPath (KnownResults (PathIs p)) p') (n : ℕ) :
    Triple C H (retryGetchildren path n) fun a s =>
      H s ∧ (a.rc = ZOK → Listed session p a.strings s) := by
  refine h.criticalRules.retryRequest visitEffects_plainOp.toBaseEffects
    (fun _ _ hs => hs.1) (fun a s ha hs => ⟨hs, fun hok => ?_⟩) ?_
  · simp [ha] at hok
  · cases path with
    | none => exact .ret fun s hs => ⟨hs, fun hok => by simp at hok⟩
    | some p' =>
      obtain rfl := eq_of_knownPath (hp p' rfl)
      refine .step (o := .zoo (.zooGetChildren p')) _ (fun _ hs => hs)
        (h.criticalRules.stableIn _) (fun s a s' hs hsem => ?_) fun a => .ret fun _ hs => hs
      obtain ⟨-, hg, hs'⟩ := h.criticalRules.inside _ s a s'
        (visitEffects_plainOp.list p' (hp p' rfl)) hs hsem
      exact ⟨hg, hs', h.listed_of_listing hs hsem⟩

theorem stable_placeless (o : Option Op) :
    C.Stable o fun s => H s ∧ Placeless session p th s := fun s s' hr hs => by
  obtain ⟨hmutex, hid, hown⟩ := h.rely o s s' hs.1 hr (h.pmutex s hs.1)
  exact ⟨h.stable o s s' hr hs.1, hmutex, hid.trans hs.2.2.1, fun x hx => hs.2.2.2 x (hown x hx)⟩

theorem stable_named (id : Option CString) (o : Option Op) :
    C.Stable o fun s => H s ∧ Named session p th id s := fun s s' hr hs => by
  obtain ⟨hmutex, -, hown⟩ := h.rely o s s' hs.1 hr (h.pmutex s hs.1)
  exact ⟨h.stable o s s' hr hs.1, hmutex, fun x hx => hs.2.2 x (hown x hx)⟩

/-- The assignment of the name. -/
theorem setId_named {id : Option CString} {s s' : World srv Unit} {r : Unit} (hs : H s)
    (hnamed : Named session p th id s) (hsem : C.sem (.store (.lockId id)) s r s') :
    C.guar (.store (.lockId id)) s r s' ∧ (H s' ∧ Named session p th id s') ∧
      (s'.memory ()).lock.id = id := by
  obtain ⟨hinv, d, hperf⟩ := h.sem (.store (.lockId id)) s r s' hs hsem
  have hown : ∀ x, OwnNode session p s'.nodes x → OwnNode session p s.nodes x := fun x =>
    ownNode_of_perform hperf fun req hreq => by cases hreq
  have hinv' : PlaceInv session p s' := hinv.quiet hperf (fun req hreq => by cases hreq)
    (fun x hx => .inr (hnamed.2 x hx)) hinv.path
  obtain ⟨hg, hs'⟩ := h.guar _ s r s' (.inr (.inl ⟨id, rfl⟩)) hs hsem hinv'
  refine ⟨hg, ⟨hs', h.pmutex s' hs', fun x hx => hnamed.2 x (hown x hx)⟩, ?_⟩
  rw [memory_of_perform hperf]
  rfl

/-- The node that a `create` has made is the client's only one. -/
theorem create_placeless {acl : Option Acl} {s s' : World srv Unit} {a : Reply} (hs : H s)
    (hplace : Placeless session p th s)
    (hsem : C.sem (.zoo (.zooCreate (childOf p (lockPrefix session)) none
      acl { ephemeral := true, sequence := true } (p.length + 41))) s a s') :
    C.guar (.zoo (.zooCreate (childOf p (lockPrefix session)) none
      acl { ephemeral := true, sequence := true } (p.length + 41))) s a s' ∧
      H s' ∧ (a.rc = ZOK → Named session p th (getName a.realPath) s') := by
  obtain ⟨hinv, d, hperf⟩ := h.sem (.zoo _) s a s' hs hsem
  obtain ⟨-, hid, hnone⟩ := hplace
  -- what an answer makes of the client's nodes
  have hanswer : ∀ {b : Reply}, Answers session (.zooCreate (childOf p (lockPrefix session)) none
      acl { ephemeral := true, sequence := true } (p.length + 41)) s.nodes b s'.nodes →
      ∃ n, (∀ x, OwnNode session p s'.nodes x → x = lockName session n) ∧
        (b.rc = ZOK → b.realPath = childOf p (lockPrefix session) ++ sprintf010d n) := by
    intro b hans
    rcases hans.zooCreate with ⟨d, n, q, k, -, hreal, -, -, rfl, -, -, -, -, -, ht⟩ |
      ⟨ht, hrc, -⟩
    · refine ⟨d.cseq + k, fun x hx => ?_, fun _ => hreal⟩
      by_contra hne
      refine hnone x ⟨hx.1, fun hold => hx.2 ?_⟩
      have hchild : childOf p x ≠ childOf p (lockPrefix session) ++ sprintf010d (d.cseq + k) := by
        rw [show childOf p (lockPrefix session) ++ sprintf010d (d.cseq + k) =
          childOf p (lockName session (d.cseq + k)) by simp [childOf, lockName]]
        intro heq
        exact hne ((childOf_inj hx.1.2 (ownName_lockName _ _).2).mp heq).2
      have hcontent := s.nodes.bump_content (parentOf (childOf p (lockPrefix session))) (k + 1)
        (childOf p x)
      rw [hold, Option.map_none, Option.map_eq_none_iff] at hcontent
      rw [ht, if_pos rfl, Function.update_of_ne hchild, hcontent]
    · rw [ht]
      exact ⟨0, fun x hx => absurd hx (hnone x), fun h => absurd h hrc⟩
  have hone : ∃ n, (∀ x, OwnNode session p s'.nodes x → x = lockName session n) ∧
      (a.rc = ZOK → getName a.realPath = some (lockName session n)) := by
    rcases World.answers_of_write hperf rfl with ⟨b, hans, rfl⟩ | ⟨hrc, hsame | ⟨b, hans⟩⟩
    · obtain ⟨n, hown, hreal⟩ := hanswer hans
      refine ⟨n, hown, fun hok => ?_⟩
      rw [Reply.received_rc] at hok
      rw [Reply.received, hreal hok]
      exact getName_enqueued session p n
    · rw [hsame]
      exact ⟨0, fun x hx => absurd hx (hnone x), fun h => absurd h hrc⟩
    · obtain ⟨n, hown, -⟩ := hanswer hans
      exact ⟨n, hown, fun h => absurd h hrc⟩
  obtain ⟨n, hown, hreal⟩ := hone
  have hinv' : PlaceInv session p s' := hinv.perform hperf
    (fun x y hx hy => by rw [hown x hx, hown y hy]) (fun x hx => .inl hid) hinv.path
  obtain ⟨hg, hs'⟩ := h.guar _ s a s' (.inr (.inr ⟨acl, rfl⟩)) hs hsem hinv'
  refine ⟨hg, hs', fun hok => ⟨h.pmutex s' hs', fun x hx => ?_⟩⟩
  rw [hreal hok, hown x hx]

theorem createNode : Triple C (fun s => H s ∧ Placeless session p th s)
    (PhpZookeeper.createNode session (some p)) fun _ => H := by
  have hstore : ∀ id, Triple C (fun s => H s ∧ Named session p th id s)
      ((act (.store (.lockId id))).bind fun _ => .ret ZOK : Code Status) fun _ => H := by
    intro id
    refine .step (fun _ => H) (fun _ hs => hs) (h.stable_named id _) (fun s r s' hs hsem => ?_)
      fun _ => .ret fun _ hs => hs
    obtain ⟨hg, hnamed, -⟩ := h.setId_named hs.1 hs.2 hsem
    exact ⟨hg, hnamed.1⟩
  rw [createNode_some]
  refine .step (o := .load) (fun _ s => H s ∧ Placeless session p th s) (fun _ hs => hs)
    (h.stable_placeless _) (fun s m s' hs hsem => ?_) fun m => ?_
  · obtain ⟨-, hg, hs'⟩ := h.criticalRules.inside .load s m s' trivial hs.1 hsem
    obtain ⟨-, d, hperf⟩ := h.sem _ s m s' hs.1 hsem
    obtain rfl := congrArg Prod.snd (Option.some.inj hperf)
    exact ⟨hg, hs⟩
  refine .step (o := .zoo _) (fun (a : Reply) (s : World srv Unit) => H s ∧
    (a.rc = ZOK → Named session p th (getName a.realPath) s)) (fun _ hs => hs)
    (h.stable_placeless _) (fun s a s' hs hsem => h.create_placeless hs.1 hs.2 hsem) fun a => ?_
  split_ifs with hrc
  · exact .ret fun _ hs => hs.1
  · exact (hstore _).pre fun s hs => ⟨hs.1, hs.2 (not_not.mp hrc)⟩

theorem lookupOrCreate {path : Option CString} {vector : List CString}
    (hp : ∀ p' ∈ path, KnownPath (KnownResults (PathIs p)) p') :
    Triple C (fun s => H s ∧ Listed session p vector s)
      (PhpZookeeper.lookupOrCreate session path vector) fun _ => H := by
  -- `id` is the client's node, and stays so until it is read
  have hstable : ∀ o, C.Stable o fun s =>
      (H s ∧ Named session p th (lookupnode vector (lockPrefix session)) s) ∧
        (s.memory ()).lock.id = lookupnode vector (lockPrefix session) := by
    intro o s s' hr hs
    obtain ⟨-, hid, -⟩ := h.rely o s s' hs.1.1 hr (h.pmutex s hs.1.1)
    exact ⟨h.stable_named _ o s s' hr hs.1, hid.trans hs.2⟩
  refine .step (o := .store (.lockId (lookupnode vector (lockPrefix session)))) _
    (fun s (hs : H s ∧ Listed session p vector s) => (⟨hs.1, h.pmutex s hs.1, hs.2⟩ :
      H s ∧ Named session p th (lookupnode vector (lockPrefix session)) s)) (h.stable_named _ _)
    (fun s r s' hs hsem => h.setId_named hs.1 hs.2 hsem) fun _ => ?_
  refine .step (o := .load) (fun m s =>
    ((H s ∧ Named session p th (lookupnode vector (lockPrefix session)) s) ∧
      (s.memory ()).lock.id = lookupnode vector (lockPrefix session)) ∧
        m.lock.id = lookupnode vector (lockPrefix session)) (fun _ hs => hs) (hstable _)
    (fun s m s' hs hsem => ?_) fun m => ?_
  · obtain ⟨-, hg, -⟩ := h.criticalRules.inside .load s m s' trivial hs.1.1 hsem
    obtain ⟨-, d, hperf⟩ := h.sem _ s m s' hs.1.1 hsem
    obtain ⟨rfl, rfl⟩ := Prod.mk.inj (Option.some.inj hperf)
    exact ⟨hg, hs, hs.2⟩
  split_ifs with hid
  · exact .ret fun _ hs => hs.1.1.1
  · have hnone : m.lock.id = none := by simpa using hid
    cases path with
    | none =>
      exact (h.criticalRules.undefined visitEffects_plainOp.toBaseEffects).pre fun s hs => hs.1.1.1
    | some p' =>
      obtain rfl := eq_of_knownPath (hp p' rfl)
      refine h.createNode.pre fun s hs => ?_
      obtain ⟨⟨⟨hs, hmutex, hown⟩, hid'⟩, hm⟩ := hs
      rw [← hm, hnone] at hid'
      refine ⟨hs, hmutex, hid', fun x hx => ?_⟩
      have hx' := hown x hx
      rw [← hm, hnone] at hx'
      cases hx'

/-- **One round** leaves the client with one node at most. -/
theorem zkrLockRound {path : Option CString}
    (hp : ∀ p' ∈ path, KnownPath (KnownResults (PathIs p)) p') :
    Triple C H (PhpZookeeper.zkrLockRound session path) fun _ => H := by
  refine (h.listing hp 3).bind fun a => ?_
  split_ifs with ha
  · exact .ret fun _ hs => hs.1
  · refine ((h.lookupOrCreate hp).pre fun s hs => ⟨hs.1, hs.2 (not_not.mp ha)⟩).bind
      fun ret => ?_
    split_ifs
    · exact .ret fun _ hs => hs
    · refine h.criticalRules.step trivial fun m _ => ?_
      split_ifs
      · refine (h.placeRules.retryGetchildren hp 3).bind fun b => ?_
        split_ifs with hb
        · exact .ret fun _ hs => hs.1
        · exact ((h.placeRules.findPlace b.strings).pre fun s hs =>
            ⟨hs.1, hs.2 (not_not.mp hb)⟩).bind fun _ => .ret fun _ hs => hs
      · exact .ret fun _ hs => hs

end RoundContract

namespace PlaceInv

variable {session : Sid} {p : CString} {th : Thread}

/-- Outside the critical section nothing need hold. -/
theorem roundRules : RoundRules (placeContract session p th : Contract Op.Res (World srv Unit))
    session (PlainOp session p) (KnownResults (PathIs p)) (fun _ => True)
    (fun s => s.pmutex () = some th) fun _ => True where
  toCriticalRules := roundContract_place.criticalRules
  visit := visitEffects_plainOp
  stable _ := Contract.Stable.true _
  round _ hp := roundContract_place.zkrLockRound hp
  lock s r s' _ hsem := by
    obtain ⟨hinv, -, d, hperf⟩ := hsem
    have hfree : s.pmutex () = none := by
      by_contra hne
      simp [World.perform, hne] at hperf
    refine ⟨⟨hinv.quiet hperf (fun req hreq => by cases hreq) hinv.id hinv.path,
      fun th' _ hth' => ?_⟩, ?_⟩
    · rw [hfree] at hth'
      cases hth'
    · rw [pmutex_of_perform hperf]
      rfl
  unlock s r s' hs hsem := by
    obtain ⟨hinv, -, d, hperf⟩ := hsem
    exact ⟨guar_of_holding hs (hinv.quiet hperf (fun req hreq => by cases hreq) hinv.id hinv.path),
      trivial⟩
  isowner s m s' _ hsem := by
    obtain ⟨hinv, -, d, hperf⟩ := hsem
    obtain rfl := congrArg Prod.snd (Option.some.inj hperf)
    exact ⟨⟨hinv, fun th' _ hth' => ⟨hth', rfl, fun _ hx => hx⟩⟩, trivial, fun _ => trivial⟩

theorem triple_zkrLockUnlock :
    Triple (placeContract session p th : Contract Op.Res (World srv Unit)) (fun _ => True)
      zkrLockUnlock fun _ _ => True := by
  have hbase : BaseEffects (PlainOp session p) := visitEffects_plainOp.toBaseEffects
  have hcritical : CriticalRules (placeContract session p th : Contract Op.Res (World srv Unit))
      (PlainOp session p) (KnownResults (PathIs p)) (fun s => s.pmutex () = some th) :=
    roundContract_place.criticalRules
  have hunlock : ∀ ret, Triple (placeContract session p th : Contract Op.Res (World srv Unit))
      (fun s => s.pmutex () = some th)
      ((act .pthreadMutexUnlock).bind fun _ => .ret ret : Code Status) fun _ _ => True := by
    intro ret
    exact .step (fun _ _ => True) (fun _ hs => hs) (hcritical.stableIn _)
      roundRules.unlock fun _ => .ret fun _ _ => trivial
  refine .step (o := Op.pthreadMutexLock) (fun _ (s : World srv Unit) => s.pmutex () = some th)
    (fun _ hs => hs) (Contract.Stable.true _) roundRules.lock fun _ => ?_
  refine hcritical.step hbase.load fun m _ => ?_
  cases m.lock.id with
  | none => exact hunlock _
  | some id =>
    cases m.lock.path with
    | none => exact (hcritical.undefined hbase).post fun _ _ _ => trivial
    | some path =>
      refine (hcritical.triple (hbase.unlockDelete ⟨fun h => h, fun _ _ h => h⟩)).bind
        fun ret => Triple.pre ?_ fun s hs => hs.2
      split_ifs
      · refine (hcritical.triple (hbase.callCompletion 1)).bind fun _ =>
          Triple.pre ?_ fun s hs => hs.2
        exact hcritical.step hbase.clearId fun _ _ => hunlock _
      · exact hunlock _

/-- `zkr_lock_init`, which only the main thread calls. -/
theorem triple_zkrLockInit (acl : Option Acl) :
    Triple (placeContract session p .main : Contract Op.Res (World srv Unit)) (fun _ => True)
      (zkrLockInit p acl) fun _ _ => True := by
  have halone : ∀ (s s' : World srv Unit), s.pmutex () ≠ some .watcher →
      ∀ th', th' ≠ Thread.main → Undisturbed session p th' s s' := by
    intro s s' hs th' hne hth'
    cases th' with
    | main => exact absurd rfl hne
    | watcher => exact absurd hth' hs
  refine .step (o := Op.store (.lockInit p acl)) (fun _ _ => True) (fun _ hs => hs)
    (Contract.Stable.true _) (fun s r s' _ hsem => ?_) fun _ =>
    .step (o := Op.pthreadMutexInit) (fun _ _ => True) (fun _ hs => hs) (Contract.Stable.true _)
      (fun s r s' _ hsem => ?_) fun _ => .ret fun _ _ => trivial
  · obtain ⟨hinv, hfree, d, hperf⟩ := hsem
    refine ⟨⟨hinv.quiet hperf (fun req hreq => by cases hreq) (fun _ _ => .inl rfl)
      fun p' hp' => (Option.mem_some.mp hp').symm, halone s s' (hfree trivial)⟩, trivial⟩
  · obtain ⟨hinv, hfree, d, hperf⟩ := hsem
    exact ⟨⟨hinv.quiet hperf (fun req hreq => by cases hreq) hinv.id hinv.path,
      halone s s' (hfree trivial)⟩, trivial⟩

/-- The calls of the main thread. -/
theorem triple_lockFn (f : LockFn) :
    Triple (placeContract session p .main : Contract Op.Res (World srv Unit)) (fun _ => True)
      (f.code session p) fun _ _ => True := by
  cases f with
  | zkrLockInit acl => exact (triple_zkrLockInit acl).bind fun _ => .ret fun _ _ => trivial
  | zkrLockLock => exact roundRules.zkrLockLock.bind fun _ => .ret fun _ _ => trivial
  | zkrLockUnlock => exact triple_zkrLockUnlock.bind fun _ => .ret fun _ _ => trivial

end PlaceInv

/-! ### The system -/

section System

variable {session : Sid} {p : CString} {c c' : LockClient srv} {l : LockLabel srv}

/-- Both threads keep their contracts. -/
structure LockClient.Holds (session : Sid) (p : CString) (c : LockClient srv) : Prop where
  inv : PlaceInv session p c.world
  main : ∀ q, c.main = some q → Safe (placeContract session p .main) q (fun _ _ => True) c.world
  watcher : ∀ q, c.watcher = some q →
    Safe (placeContract session p .watcher) q (fun _ _ => True) c.world

/-- A thread goes on. -/
theorem safe_advance {α : Type} {th : Thread} {d : Decision srv} {q q' : Code α}
    {s s' : World srv Unit} (hinv : PlaceInv session p s)
    (h : Safe (placeContract session p th) q (fun _ _ => True) s)
    (hinit : ∀ o, q.next = some o → o.Inits → s.pmutex () ≠ some .watcher)
    (hadv : s.advance () session th d q = some (q', s')) :
    PlaceInv session p s' ∧ Safe (placeContract session p th) q' (fun _ _ => True) s' ∧
      ∀ th', th' ≠ th → Undisturbed session p th' s s' := by
  rcases h.advance (fun _ => Contract.Stable.true _) hadv with
    ⟨-, rfl, hsafe⟩ | ⟨o, r, hnext, hperf, hrest⟩
  · exact ⟨hinv, hsafe, fun th' _ hth' => ⟨hth', rfl, fun _ hx => hx⟩⟩
  · obtain ⟨⟨hinv', hothers⟩, hsafe⟩ := hrest ⟨hinv, hinit o hnext, d, hperf⟩
    exact ⟨hinv', hsafe, hothers⟩

/-- The invariant does not see watches and notifications. -/
theorem PlaceInv.same {s s' : World srv Unit} (h : PlaceInv session p s) (hs : World.Same s s') :
    PlaceInv session p s' := by
  obtain ⟨hone, hseen, hid, hpath⟩ := h
  refine ⟨?_, ?_, ?_, ?_⟩
  · rwa [hs.tree, hs.views]
  · rwa [hs.views, hs.nodes]
  · rwa [hs.nodes, hs.memory]
  · rwa [hs.memory]

theorem Undisturbed.same {s s' : World srv Unit} (hs : World.Same s s') (th : Thread) :
    Undisturbed session p th s s' := by
  intro hth
  refine ⟨?_, by rw [hs.memory], fun x hx => by rwa [hs.nodes] at hx⟩
  unfold World.pmutex
  rw [hs.memory]
  exact hth

/-- A change by others, who make no node of the client's. -/
theorem PlaceInv.others {s : World srv Unit} (h : PlaceInv session p s) {tree : srv.State}
    {touched : Option CString}
    (hout : ∀ x, OwnNode session p (srv.nodes tree) x → OwnNode session p s.nodes x) :
    PlaceInv session p (s.others tree (fun _ => s.tree :: s.views ()) touched) := by
  have htree : (s.others tree (fun _ => s.tree :: s.views ()) touched).tree = tree := by
    cases touched <;> rfl
  refine ⟨fun T hT x y hx hy => ?_, fun T hT x hx => ?_, fun x hx => ?_, ?_⟩
  · rw [htree, World.views_others] at hT
    rcases List.mem_cons.mp hT with rfl | hT
    · exact h.one s.tree List.mem_cons_self x y (hout x hx) (hout y hy)
    · exact h.one T hT x y hx hy
  · rw [World.nodes_others] at hx
    rw [World.views_others] at hT
    rcases List.mem_cons.mp hT with rfl | hT
    · exact hout x hx
    · exact h.seen T hT x (hout x hx)
  · rw [World.nodes_others] at hx
    rw [World.memory_others]
    exact h.id x (hout x hx)
  · rw [World.memory_others]
    exact h.path

/-- A step that changes neither the nodes nor the record. -/
theorem LockClient.Holds.same (h : c.Holds session p) (hs : World.Same c.world c'.world)
    (hmain : ∀ q, c'.main = some q → c.main = some q ∨
      Triple (placeContract session p .main : Contract Op.Res (World srv Unit)) (fun _ => True) q
        fun _ _ => True)
    (hwatcher : ∀ q, c'.watcher = some q → c.watcher = some q ∨
      Triple (placeContract session p .watcher : Contract Op.Res (World srv Unit)) (fun _ => True) q
        fun _ _ => True) : c'.Holds session p where
  inv := h.inv.same hs
  main q hq := by
    rcases hmain q hq with hold | hnew
    · exact (h.main q hold).rely (Undisturbed.same hs _)
    · exact hnew.safe (fun _ => Contract.Stable.true _) trivial
  watcher q hq := by
    rcases hwatcher q hq with hold | hnew
    · exact (h.watcher q hold).rely (Undisturbed.same hs _)
    · exact hnew.safe (fun _ => Contract.Stable.true _) trivial

/-- **One step.** -/
theorem LockClient.Holds.step (h : c.Holds session p) (hok : InitsAlone session p c l)
    (hstep : c.step session p l = some c') : c'.Holds session p := by
  obtain ⟨hothers, hinit⟩ := hok
  cases l with
  | call f =>
    simp only [LockClient.step] at hstep
    split at hstep
    · obtain rfl := Option.some.inj hstep
      refine h.same ⟨rfl, rfl, rfl⟩ (fun q hq => .inr ?_) fun q hq => .inl hq
      rw [← Option.some.inj hq]
      exact PlaceInv.triple_lockFn f
    · cases hstep
  | main d =>
    simp only [LockClient.step] at hstep
    cases hmain : c.main with
    | none => simp [hmain] at hstep
    | some q =>
      rw [hmain] at hstep
      obtain ⟨⟨q', s'⟩, hadv, rfl⟩ := Option.map_eq_some_iff.mp hstep
      obtain ⟨hinv, hsafe, hrest⟩ := safe_advance h.inv (h.main q hmain)
        (fun o ho => hinit o (by simp [performs, hmain, ho])) hadv
      refine ⟨hinv, fun q₁ hq₁ => ?_, fun q₁ hq₁ => ?_⟩
      · rw [← Option.some.inj hq₁]
        exact hsafe
      · exact (h.watcher q₁ hq₁).rely (hrest .watcher (by decide))
  | returned =>
    simp only [LockClient.step] at hstep
    split at hstep
    · obtain rfl := Option.some.inj hstep
      exact h.same ⟨rfl, rfl, rfl⟩ (fun q hq => by cases hq) fun q hq => .inl hq
    · cases hstep
  | sessionEvent =>
    simp only [LockClient.step] at hstep
    split at hstep
    · cases hstep
    · obtain rfl := Option.some.inj hstep
      exact h.same ⟨rfl, rfl, rfl⟩ (fun q hq => .inl hq) fun q hq => .inl hq
  | notify =>
    simp only [LockClient.step] at hstep
    split at hstep
    · split_ifs at hstep
      obtain rfl := Option.some.inj hstep
      refine h.same ⟨rfl, rfl, rfl⟩ (fun q hq => .inl hq) fun q hq => .inr ?_
      rw [← Option.some.inj hq]
      exact PlaceInv.roundRules.lockWatcherFn
    · cases hstep
  | watcher d =>
    simp only [LockClient.step] at hstep
    cases hwatcher : c.watcher with
    | none => simp [hwatcher] at hstep
    | some q =>
      rw [hwatcher] at hstep
      obtain ⟨⟨q', s'⟩, hadv, rfl⟩ := Option.map_eq_some_iff.mp hstep
      obtain ⟨hinv, hsafe, hrest⟩ := safe_advance h.inv (h.watcher q hwatcher)
        (fun o ho => hinit o (by simp [performs, hwatcher, ho])) hadv
      refine ⟨hinv, fun q₁ hq₁ => ?_, fun q₁ hq₁ => ?_⟩
      · exact (h.main q₁ hq₁).rely (hrest .main (by decide))
      · rw [← Option.some.inj hq₁]
        exact hsafe
  | watcherDone =>
    simp only [LockClient.step] at hstep
    split at hstep
    · obtain rfl := Option.some.inj hstep
      exact h.same ⟨rfl, rfl, rfl⟩ (fun q hq => .inl hq) fun q hq => by cases hq
    · cases hstep
  | others tree touched =>
    obtain rfl := Option.some.inj hstep
    have hrely : ∀ th, Undisturbed session p th c.world
        (c.world.others tree (fun _ => c.world.tree :: c.world.views ()) touched) := by
      intro th hth
      refine ⟨?_, by rw [World.memory_others], fun x hx => hothers x ?_⟩
      · unfold World.pmutex
        rw [World.memory_others]
        exact hth
      · rwa [World.nodes_others] at hx
    exact ⟨h.inv.others hothers, fun q hq => (h.main q hq).rely (hrely _),
      fun q hq => (h.watcher q hq).rely (hrely _)⟩

/-- **At most one place in the queue**, in every run in which `zkr_lock_init` leaves a `pmutex`
alone that `lock_watcher_fn` holds. -/
theorem one_place {c₀ : LockClient srv} (h₀ : c₀.IsInitial session p)
    (h : LockClient.Reaches session p (InitsAlone session p) c₀ c) : c.OnePlace session p := by
  have hinit : c₀.Holds session p := by
    refine ⟨⟨fun T hT x y hx _ => ?_, fun T hT => ?_, fun x hx => absurd hx (h₀.noNode x), ?_⟩,
      fun q hq => ?_, fun q hq => ?_⟩
    · rw [h₀.views, List.mem_singleton] at hT
      subst hT
      exact absurd hx (h₀.noNode x)
    · simp [h₀.views] at hT
    · simp [h₀.memory]
    · simp [h₀.main] at hq
    · simp [h₀.watcher] at hq
  have hholds : c.Holds session p := by
    induction h with
    | refl => exact hinit
    | step _ hok hstep ih => exact ih.step hok hstep
  exact ⟨hholds.inv.one _ List.mem_cons_self, hholds.inv.id⟩

end System

/-! ### Two runs -/

namespace LockClient

/-- The state after a step; a step that is not possible is left out. -/
def after (session : Sid) (p : CString) (c : LockClient srv) (l : LockLabel srv) :
    LockClient srv :=
  (c.step session p l).getD c

/-- The state after a list of steps. -/
def run (session : Sid) (p : CString) (c : LockClient srv) (ls : List (LockLabel srv)) :
    LockClient srv :=
  ls.foldl (after session p) c

/-- Each step of the list passes the check. -/
def checks (session : Sid) (p : CString) (check : LockClient srv → LockLabel srv → Bool) :
    LockClient srv → List (LockLabel srv) → Bool
  | _, [] => true
  | c, l :: ls => check c l && checks session p check (c.after session p l) ls

theorem Reaches.run_of_checks {session : Sid} {p : CString}
    {ok : LockClient srv → LockLabel srv → Prop} {check : LockClient srv → LockLabel srv → Bool}
    (hcheck : ∀ c l, check c l = true → ok c l) {c₀ c : LockClient srv}
    (h : Reaches session p ok c₀ c) {ls : List (LockLabel srv)}
    (hls : c.checks session p check ls = true) : Reaches session p ok c₀ (c.run session p ls) := by
  induction ls generalizing c with
  | nil => exact h
  | cons l ls ih =>
    obtain ⟨hl, hls⟩ := Bool.and_eq_true_iff.mp hls
    refine ih (c := c.after session p l) ?_ hls
    unfold after
    cases hstep : c.step session p l with
    | none => exact h
    | some c' => exact h.step (hcheck c l hl) hstep

end LockClient

/-- A lock directory. -/
def placePath : CString := "/l".toList

/-- The node of another client that is first of the queue. -/
def placeBefore : CString := childOf placePath (lockName 0 0)

/-- A client that has done nothing yet, and the node of another one. -/
def placeClient : LockClient treeServer where
  world := { tree := [(placePath, { cseq := 1 }), (placeBefore, { ephemeralOwner := some 0 })] }

/-- Steps of the thread that runs `lock_watcher_fn`. -/
def placeWatcher (n : ℕ) : List (LockLabel treeServer) :=
  List.replicate n (.watcher { choice := {} })

/-- A call of the main thread, from its start to its return. -/
def placeCall (f : LockFn) : List (LockLabel treeServer) :=
  .call f :: List.replicate 40 (.main { choice := {} }) ++ [.returned]

/-- The client is second of the queue. -/
def waitingSteps : List (LockLabel treeServer) :=
  placeCall (.zkrLockInit (some .zooOpenAclUnsafe)) ++ placeCall .zkrLockLock

/-- The client gives up its place; the node it watched goes, and `lock_watcher_fn` comes to its
`create`; the client makes the lock anew and locks it; and `lock_watcher_fn` goes on. -/
def twicePlacedSteps : List (LockLabel treeServer) :=
  waitingSteps ++ placeCall .zkrLockUnlock ++
    [.others [(placePath, { cseq := 2 })] (some placeBefore), .notify] ++ placeWatcher 11 ++
    waitingSteps ++ placeWatcher 1

/-- Others make no node. -/
def checkKeepOut (c : LockClient treeServer) : LockLabel treeServer → Bool
  | .others tree _ => (TreeState.names tree placePath).all fun x =>
    x ∈ TreeState.names c.world.tree placePath
  | _ => true

/-- The step makes no `pmutex` anew that is held. -/
def checkInits (c : LockClient treeServer) (l : LockLabel treeServer) : Bool :=
  checkKeepOut c l && c.world.pmutex () ≠ some .watcher

theorem othersKeepOut_of_check {c : LockClient treeServer} {l : LockLabel treeServer}
    (h : checkKeepOut c l = true) : OthersKeepOut 1 placePath c l := by
  cases l with
  | others tree touched =>
    intro x hx
    have hmem := (TreeState.mem_names tree placePath x).mpr ⟨hx.1.2, hx.2⟩
    have hold : x ∈ TreeState.names c.world.tree placePath := by
      simpa using List.all_eq_true.mp h x hmem
    exact ⟨hx.1, ((TreeState.mem_names c.world.tree placePath x).mp hold).2⟩
  | _ => trivial

theorem initsAlone_of_check {c : LockClient treeServer} {l : LockLabel treeServer}
    (h : checkInits c l = true) : InitsAlone 1 placePath c l := by
  obtain ⟨hout, hfree⟩ := Bool.and_eq_true_iff.mp h
  exact ⟨othersKeepOut_of_check hout, fun _ _ _ => by simpa using hfree⟩

theorem placeClient_isInitial : placeClient.IsInitial 1 placePath := by
  refine ⟨rfl, rfl, rfl, rfl, fun x hx => ?_⟩
  have hmem := (TreeState.mem_names placeClient.world.tree placePath x).mpr ⟨hx.1.2, hx.2⟩
  rw [show TreeState.names placeClient.world.tree placePath = [lockName 0 0] by decide +kernel,
    List.mem_singleton] at hmem
  subst hmem
  exact absurd (hx.1.unique (ownName_lockName 0 0)) (by decide)

/-- A client that waits. -/
theorem one_place_waiting : (placeClient.run 1 placePath waitingSteps).OnePlace 1 placePath ∧
    OwnNode 1 placePath (placeClient.run 1 placePath waitingSteps).world.nodes
      (lockName 1 1) := by
  have hreach : LockClient.Reaches 1 placePath (InitsAlone 1 placePath) placeClient
      (placeClient.run 1 placePath waitingSteps) :=
    LockClient.Reaches.refl.run_of_checks (fun _ _ => initsAlone_of_check) (by decide +kernel)
  exact ⟨one_place placeClient_isInitial hreach, ownName_lockName 1 1, by decide +kernel⟩

/-- The client has two nodes. -/
theorem two_places :
    ¬ ∀ c : LockClient treeServer,
      LockClient.Reaches 1 placePath (OthersKeepOut 1 placePath) placeClient c →
        c.OnePlace 1 placePath := by
  intro h
  have hreach : LockClient.Reaches 1 placePath (OthersKeepOut 1 placePath) placeClient
      (placeClient.run 1 placePath twicePlacedSteps) :=
    LockClient.Reaches.refl.run_of_checks (fun _ _ => othersKeepOut_of_check) (by decide +kernel)
  have hone := (h _ hreach).one (lockName 1 2) (lockName 1 3)
    ⟨ownName_lockName 1 2, by decide +kernel⟩ ⟨ownName_lockName 1 3, by decide +kernel⟩
  exact absurd hone (by decide +kernel)

end PhpZookeeper
