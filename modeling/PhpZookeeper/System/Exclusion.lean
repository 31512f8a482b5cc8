import PhpZookeeper.Session.Rules
import PhpZookeeper.System.LockOps
import PhpZookeeper.System.Outline

/-!
# At most one owner

Any number of workers use one lock directory `p`, whatever fails and however often
`lock_watcher_fn` is called. A client takes itself for the owner when `id` and `ownerid` are the
same name; `ownerid` is as old as the listing it comes from. It stays right (`HeldOk`) as long as
the client's number does not come back, which it can when the directory has been deleted and made
again. In the runs in which no client is given back a number that it remembers as the owner's there
is at most one owner (`lock_exclusive`); `lock_shared` is a run with two.
-/

namespace PhpZookeeper

open Theory Prog Status

variable {srv : Server} {W : Type}

/-- If the client has the node `x`, then `x` is the first of the queue. -/
def HeldOk (session : Sid) (p : CString) (t : Nodes) (x : CString) : Prop :=
  ∀ q n, IsQueue t p q → x = lockName session n → (session, n) ∈ q.waiting → q.Served session n

/-- What holds of the world whoever acts. -/
structure LockInv (sid : W → Sid) (p : CString) (s : World srv W) : Prop where
  queue : ∃ q, IsQueue s.nodes p q
  record : ∀ w, RecordOk (sid w) p (s.memory w)
  ownerid : ∀ w x, (s.memory w).lock.ownerid = some x → HeldOk (sid w) p s.nodes x
  /-- What a worker may still see of the queue. -/
  views : ∀ w, ∀ T ∈ s.views w, ∃ q' q, IsQueue (srv.nodes T) p q' ∧ IsQueue s.nodes p q ∧
    TicketQueue.Before (sid w) q' q

/-- What both threads of a worker rely on, and what they promise of their operations. -/
def lockContract [DecidableEq W] (sid : W → Sid) (p : CString) (w : W) (th : Thread) :
    Contract Op.Res (World srv W) where
  sem o s r s' := LockInv sid p s ∧ ∃ d, s.perform w (sid w) th d o = some (r, s')
  rely o s s' := ∀ x, o = some (.store (.lockOwnerid (some x))) →
    HeldOk (sid w) p s.nodes x → HeldOk (sid w) p s'.nodes x
  guar o s _ _ := LockOp (sid w) p o ∨
    ∃ x, o = .store (.lockOwnerid (some x)) ∧ HeldOk (sid w) p s.nodes x

/-! ### The queue -/

section Queue

variable {session a : Sid} {p x : CString} {t t' : Nodes} {q q' : TicketQueue Sid}

theorem IsQueue.waiting_eq (h : IsQueue t p q) (h' : IsQueue t p q') : q.waiting = q'.waiting :=
  h.waiting.trans h'.waiting.symm

/-- The first name of a listing, which the client may have got from an earlier state. -/
theorem heldOk_of_first {T : Nodes} {names rest : List CString} (hq' : IsQueue T p q')
    (hq : IsQueue t p q) (hbefore : TicketQueue.Before session q' q)
    (hnames : ∀ y, y ∈ names ↔ '/' ∉ y ∧ T (childOf p y) ≠ none)
    (h : sortChildren names = some (x :: rest)) : HeldOk session p t x := by
  intro q₁ n hq₁ hx hn
  obtain ⟨s, m, hm, hname, hserved⟩ := hq'.served_first hnames h
  have hlt := (hq₁.mem_waiting.mp hn).1
  have hsame : lockName s m = lockName session n := hname.symm.trans hx
  have hown : OwnName session (lockName s m) := by
    rw [hsame]
    exact ownName_lockName session n
  obtain rfl := hown.unique (ownName_lockName s m)
  obtain rfl := lockName_inj hm hlt hsame
  rw [hq₁.waiting_eq hq] at hn
  have hserved' := hbefore.served hserved hn
  rw [← hq₁.waiting_eq hq] at hn
  refine ⟨hn, fun c k hk => hserved'.2 c k ?_⟩
  rwa [← hq₁.waiting_eq hq]

/-- The step of a client `a`: a number that the client remembers does not come back while others
wait. -/
theorem HeldOk.step (h : HeldOk session p t x) (hq : IsQueue t p q) (hq' : IsQueue t' p q')
    (hs : TicketQueue.Step a q q')
    (hfresh : OwnName session x → t (childOf p x) = none → t' (childOf p x) ≠ none →
      ∀ y, '/' ∉ y → t (childOf p y) = none) : HeldOk session p t' x := by
  intro q₁ n hq₁ hx hn
  subst hx
  rw [hq₁.waiting_eq hq'] at hn
  have hserved : q'.Served session n := by
    by_cases hold : (session, n) ∈ q.waiting
    · exact hs.served (h q n hq rfl hold) hn
    · obtain ⟨hlt, hpresent⟩ := hq'.mem_waiting.mp hn
      have hnone : t (childOf p (lockName session n)) = none :=
        not_not.mp fun hne => hold (hq.mem_waiting.mpr ⟨hlt, hne⟩)
      have hempty := hfresh (ownName_lockName session n) hnone hpresent
      obtain ⟨rfl, hw, -⟩ := hs.taken hn hold
      refine ⟨hn, fun c k hk => ?_⟩
      rw [hw] at hk
      rcases Set.mem_insert_iff.mp hk with heq | hk
      · exact (Prod.mk.inj heq).2.ge
      · exact absurd (hempty _ (ownName_lockName c k).2) (hq.mem_waiting.mp hk).2
  refine ⟨hq₁.waiting_eq hq' ▸ hn, fun c k hk => hserved.2 c k ?_⟩
  rwa [← hq₁.waiting_eq hq']

end Queue

/-! ### One operation -/

/-- Only its assignment puts a name into `ownerid`. -/
theorem ownerid_effect {o : Op} {th : Thread} {m : PhpZookeeperSession} {x : CString}
    (h : (o.effect th m).lock.ownerid = some x) :
    m.lock.ownerid = some x ∨ o = .store (.lockOwnerid (some x)) := by
  cases o with
  | store a =>
    cases a with
    | lockOwnerid y => exact .inr (by rw [← h]; rfl)
    | lockInit p acl => cases h
    | _ => exact .inl h
  | _ => exact .inl h

section Operations

variable [DecidableEq W] {sid : W → Sid} {p : CString} {s s' : World srv W} {w : W} {th : Thread}
  {d : Decision srv} {o : Op} {r : o.Res}

/-- An operation is a step of the queue, while the numbers are below 2³¹. -/
theorem World.queue_step (h : s.perform w (sid w) th d o = some (r, s'))
    (ho : ∀ req, o = .zoo req → QueueReq (sid w) p req)
    (hbound : ∀ d, s'.nodes p = some d → d.cseq ≤ 2 ^ 31) {q : TicketQueue Sid}
    (hq : IsQueue s.nodes p q) : ∃ q', TicketQueue.Step (sid w) q q' ∧ IsQueue s'.nodes p q' := by
  rcases World.perform_nodes h with ⟨htree, -⟩ | ⟨req, a, hreq, hans, -⟩
  · refine ⟨q, .idle rfl (.inl le_rfl), ?_⟩
    unfold World.nodes
    rwa [htree]
  · exact hq.step hans (ho req hreq) hbound

/-- What the promise of an operation says of its requests. -/
theorem queueReq_of_guar (hg : (lockContract sid p w th).guar o s r s') (req : Req)
    (ho : o = .zoo req) : QueueReq (sid w) p req := by
  subst ho
  rcases hg with hg | ⟨x, hx, -⟩
  · exact hg
  · cases hx

/-- **The invariant**, over one operation that keeps its promise: a name that a client remembers
stays right, when it does not come back while others wait. -/
theorem LockInv.perform (hinv : LockInv sid p s) (hsid : Function.Injective sid)
    (h : s.perform w (sid w) th d o = some (r, s'))
    (hg : (lockContract sid p w th).guar o s r s')
    (hbound : ∀ d, s'.nodes p = some d → d.cseq ≤ 2 ^ 31)
    (hheld : ∀ v x, (s.memory v).lock.ownerid = some x → HeldOk (sid v) p s.nodes x →
      HeldOk (sid v) p s'.nodes x) : LockInv sid p s' := by
  obtain ⟨q, hq⟩ := hinv.queue
  obtain ⟨q', hstep, hq'⟩ := World.queue_step h (queueReq_of_guar hg) hbound hq
  have hmem := World.perform_memory h
  refine ⟨⟨q', hq'⟩, fun v => ?_, fun v x hx => ?_, fun v T hT => ?_⟩
  · rw [hmem]
    by_cases hv : v = w
    · subst hv
      rw [Function.update_self]
      refine (hinv.record v).effect ?_ th
      rcases hg with hg | ⟨x, hx, -⟩
      · exact .inl hg
      · exact .inr ⟨_, hx⟩
    · rw [Function.update_of_ne hv]
      exact hinv.record v
  · rw [hmem] at hx
    by_cases hv : v = w
    · subst hv
      rw [Function.update_self] at hx
      rcases ownerid_effect hx with hx | rfl
      · exact hheld v x hx (hinv.ownerid v x hx)
      · rcases hg with hg | ⟨y, hy, hheld'⟩
        · exact hg.elim
        · obtain rfl : x = y := by simpa using hy
          obtain rfl := congrArg Prod.snd (Option.some.inj h)
          exact hheld'
    · rw [Function.update_of_ne hv] at hx
      exact hheld v x hx (hinv.ownerid v x hx)
  · rcases World.perform_nodes h with ⟨htree, hviews⟩ | ⟨req, a, -, -, hviews⟩
    · obtain ⟨q₀, q₁, hq₀, hq₁, hbefore⟩ := hinv.views v T (hviews v hT)
      unfold World.nodes
      rw [htree]
      exact ⟨q₀, q₁, hq₀, hq₁, hbefore⟩
    · rw [hviews] at hT
      by_cases hv : v = w
      · simp [hv] at hT
      · have hne : sid v ≠ sid w := fun heq => hv (hsid heq)
        simp only [if_neg hv] at hT
        rcases List.mem_cons.mp hT with rfl | hT
        · exact ⟨q, q', hq, hq', (TicketQueue.Before.of_waiting_eq rfl).step hstep hne⟩
        · obtain ⟨q₀, q₁, hq₀, hq₁, hbefore⟩ := hinv.views v T hT
          obtain ⟨q₁', hstep₁, hq₁'⟩ := World.queue_step h (queueReq_of_guar hg) hbound hq₁
          exact ⟨q₀, q₁', hq₀, hq₁', hbefore.step hstep₁ hne⟩

end Operations

/-! ### The code -/

section Code

variable [DecidableEq W] {sid : W → Sid} {p : CString} {w : W} {th : Thread}

/-- What is known of results. -/
theorem knownResults_of_sem {o : Op} {s s' : World srv W} {r : o.Res}
    (h : (lockContract sid p w th).sem o s r s') : KnownResults (RecordOk (sid w) p) o r := by
  obtain ⟨hinv, d, hperf⟩ := h
  cases o with
  | load =>
    obtain rfl := congrArg Prod.fst (Option.some.inj hperf)
    exact hinv.record w
  | zoo req => exact knownReply_of_perform hperf
  | _ => trivial

/-- The code that does not assign `ownerid`. -/
theorem triple_of_performs {α : Type} {code : Code α} {Q : α → Prop}
    (h : Performs (LockOp (sid w) p) (KnownResults (RecordOk (sid w) p)) code Q) :
    Triple (lockContract sid p w th : Contract Op.Res (World srv W)) (fun _ => True) code
      fun _ _ => True := by
  refine (h.triple (fun _ => Contract.Stable.true _) fun o s r s' ho _ hsem => ?_).post
    fun _ _ _ => trivial
  exact ⟨knownResults_of_sem hsem, .inl ho, trivial⟩

/-- The first name of a listing is right. -/
theorem heldOk_of_listing {s s' : World srv W} {a : Reply} {x : CString} {rest : List CString}
    (h : (lockContract sid p w th).sem (.zoo (.zooGetChildren p)) s a s') (ha : a.rc = ZOK)
    (hfirst : sortChildren a.strings = some (x :: rest)) : HeldOk (sid w) p s'.nodes x := by
  obtain ⟨hinv, d, hperf⟩ := h
  have hnodes : s'.nodes = s.nodes := by
    rcases World.perform_nodes hperf with ⟨htree, -⟩ | ⟨req, b, hreq, hans, -⟩
    · unfold World.nodes
      rw [htree]
    · refine hans.of_isRead ?_
      rw [← Op.zoo.inj hreq]
      rfl
  obtain ⟨T, hT, b, t, hans, hab⟩ := World.answers_of_read hperf rfl ha
  obtain rfl : a = b := hab
  rw [hnodes]
  have hnames := hans.zooGetChildren.2
  rw [ha] at hnames
  obtain ⟨-, -, hnames⟩ : ZOK = ZOK ∧ a.strings.Nodup ∧
      ∀ x, x ∈ a.strings ↔ '/' ∉ x ∧ srv.nodes T (childOf p x) ≠ none := by simpa using hnames
  rcases List.mem_cons.mp hT with rfl | hT
  · obtain ⟨q, hq⟩ := hinv.queue
    exact heldOk_of_first hq hq (TicketQueue.Before.of_waiting_eq rfl) hnames hfirst
  · obtain ⟨q', q, hq', hq, hbefore⟩ := hinv.views w T hT
    exact heldOk_of_first hq' hq hbefore hnames hfirst

/-- The rules of `zkr_lock_lock`: nothing need be known but the first name of a listing. -/
theorem lockRules (hp : p ≠ []) :
    LockRules (lockContract sid p w th : Contract Op.Res (World srv W))
    (sid w) (LockOp (sid w) p) (KnownResults (RecordOk (sid w) p)) (fun _ => True) (fun _ => True)
    (fun x s => HeldOk (sid w) p s.nodes x) fun _ => True where
  effects := queueEffects_lockOp hp
  stable _ := Contract.Stable.true _
  stableIn _ := Contract.Stable.true _
  inside _ _ _ _ ho _ hsem := ⟨knownResults_of_sem hsem, .inl ho, trivial⟩
  first p' s a s' x rest hknown _ hsem ha hfirst := by
    obtain ⟨m, hm, hpath⟩ := hknown
    obtain rfl := hm.lockPath p' hpath
    exact heldOk_of_listing hsem ha hfirst
  stableFirst _ _ _ hr hs := hr _ rfl hs
  setOwnerid _ _ _ _ _ hs _ := ⟨.inr ⟨_, rfl, hs⟩, trivial⟩
  giveUp := triple_of_performs closeEffects_lockOp.giveUp
  lock _ _ _ _ _ := ⟨.inl trivial, trivial⟩
  unlock _ _ _ _ _ := ⟨.inl trivial, trivial⟩
  isowner _ _ _ _ _ := ⟨.inl trivial, trivial, fun _ => trivial⟩

/-- `PS_READ` of a key whose lock is `p`. -/
theorem triple_psRead (g : Globals) {key : CString} (hkey : lockPath key = p) :
    Triple (lockContract sid p w th : Contract Op.Res (World srv W)) (fun _ => True)
      (psRead (sid w) g key) fun _ _ => True := by
  have hp : p ≠ [] := hkey ▸ lockPath_ne_nil key
  have hinit : Triple (lockContract sid p w th : Contract Op.Res (World srv W)) (fun _ => True)
      (zkrLockInit (lockPath key) (some .zooOpenAclUnsafe)) fun _ _ => True :=
    triple_of_performs (Q := fun _ => True)
      (.step hkey fun _ _ => .step trivial fun _ _ => .ret trivial)
  have hlock : Triple (lockContract sid p w th : Contract Op.Res (World srv W)) (fun _ => True)
      (phpZookeeperSessLock (sid w) g key) fun _ _ => True :=
    ((lockRules hp).toRoundRules.phpZookeeperSessLock (Q := fun _ => True) hinit
      (fun _ => Contract.Stable.true _) (fun _ _ _ _ _ _ => ⟨.inl trivial, trivial⟩)
      (fun _ _ _ _ _ _ => ⟨.inl trivial, trivial⟩) g).post fun _ _ _ => trivial
  have hdata : Triple (lockContract sid p w th : Contract Op.Res (World srv W)) (fun _ => True)
      (psReadData g key) fun _ _ => True :=
    triple_of_performs (dataEffects_lockOp.psReadData (hkey ▸ length_sessionPath_lt key) g)
  unfold psRead
  split
  · refine hlock.bind fun locked => ?_
    split
    · exact .ret fun _ _ => trivial
    · exact hdata
  · exact hdata

/-- The callbacks of a worker that only reads sessions whose lock is `p`. -/
theorem triple_callback (hp : p ≠ phpZkParentNode) {cb : Callback}
    (hkey : ∀ g key, cb = .psRead g key → lockPath key = p) :
    Triple (lockContract sid p w th : Contract Op.Res (World srv W)) (fun _ => True)
      (cb.code (sid w)) fun _ _ => True := by
  cases cb with
  | psOpen => exact .ret fun _ _ => trivial
  | psRead g key => exact triple_psRead g (hkey g key rfl)
  | psWrite key val =>
    exact (triple_of_performs (dataEffects_lockOp.psWrite key val)).bind fun _ =>
      .ret fun _ _ => trivial
  | psDestroy key =>
    exact (triple_of_performs (dataEffects_lockOp.psDestroy key)).bind fun _ =>
      .ret fun _ _ => trivial
  | psGc g =>
    exact (triple_of_performs ((gcEffects_lockOp hp).psGc g)).bind fun _ => .ret fun _ _ => trivial
  | psClose =>
    exact (triple_of_performs closeEffects_lockOp.psClose).bind fun _ => .ret fun _ _ => trivial

end Code

/-! ### The system -/

section System

variable [DecidableEq W] {sid : W → Sid} {key : CString} {c : Config srv W} {l : Label srv W}

/-- The name `x` is the `ownerid` of the worker `w`, or one of its threads is about to make it
that. -/
def Config.Remembers (c : Config srv W) (w : W) (x : CString) : Prop :=
  (c.world.memory w).lock.ownerid = some x ∨
    (∃ cb q, c.main w = some (cb, q) ∧ q.next = some (.store (.lockOwnerid (some x)))) ∨
      ∃ q, c.watcher w = some q ∧ q.next = some (.store (.lockOwnerid (some x)))

/-- The steps of workers that use one lock, that of `key`, the numbers of which stay below
2³¹. -/
structure SharesLock (sid : W → Sid) (key : CString) (c : Config srv W) (l : Label srv W) :
    Prop where
  oneLock : ∀ w g k, l = .start w (.psRead g k) → lockPath k = lockPath key
  bounded : ∀ d, (c.after sid l).world.nodes (lockPath key) = some d → d.cseq ≤ 2 ^ 31

/-- The steps in which, moreover, no client is given back a number that it remembers as the
owner's, unless nobody else waits. -/
structure LockRun (sid : W → Sid) (key : CString) (c : Config srv W) (l : Label srv W) : Prop
    extends SharesLock sid key c l where
  fresh : ∀ w x, c.Remembers w x → OwnName (sid w) x →
    c.world.nodes (childOf (lockPath key) x) = none →
    (c.after sid l).world.nodes (childOf (lockPath key) x) ≠ none →
    ∀ y, '/' ∉ y → c.world.nodes (childOf (lockPath key) y) = none

/-- The worker `w` takes itself for the owner, and has a node. -/
def Config.Owns (c : Config srv W) (key : CString) (w : W) : Prop :=
  (c.world.memory w).lock.isowner = true ∧
    ∃ x, (c.world.memory w).lock.id = some x ∧ c.world.nodes (childOf (lockPath key) x) ≠ none

/-- Nobody runs, and nobody has a lock. -/
structure Config.IsInitial (c : Config srv W) : Prop where
  main : ∀ w, c.main w = none
  watcher : ∀ w, c.watcher w = none
  memory : ∀ w, c.world.memory w = {}
  views : ∀ w, c.world.views w = []

/-- Both threads of each worker keep their contracts. -/
def lockOutline (sid : W → Sid) (key : CString) : Outline srv W where
  inv := LockInv sid (lockPath key)
  idle _ _ := True
  main w _ := lockContract sid (lockPath key) w .main
  post _ _ _ _ := True
  watcher w := lockContract sid (lockPath key) w .watcher

/-- **The queue**, over one operation of the system: the invariant is kept, and with it what each
worker remembers. -/
theorem lockOutline_step {w : W} {th : Thread} {d : Decision srv} {o : Op} {r : o.Res}
    {s' : World srv W} (hsid : Function.Injective sid) (hinv : LockInv sid (lockPath key) c.world)
    (hok : LockRun sid key c l) (hafter : (c.after sid l).world = s')
    (h : c.world.perform w (sid w) th d o = some (r, s'))
    (hg : (lockContract sid (lockPath key) w th).guar o c.world r s') :
    LockInv sid (lockPath key) s' ∧ (∀ v, (lockOutline sid key).MainRelies c s' v) ∧
      ∀ v, (lockOutline sid key).WatcherRelies c s' v := by
  have hbound := hok.bounded
  rw [hafter] at hbound
  obtain ⟨q, hq⟩ := hinv.queue
  obtain ⟨q', hstep, hq'⟩ := World.queue_step h (queueReq_of_guar hg) hbound hq
  have hheld : ∀ v x, c.Remembers v x → HeldOk (sid v) (lockPath key) c.world.nodes x →
      HeldOk (sid v) (lockPath key) s'.nodes x := by
    intro v x hrem hheld
    refine hheld.step hq hq' hstep fun hown hnone hsome => ?_
    exact hok.fresh v x hrem hown hnone (hafter ▸ hsome)
  refine ⟨hinv.perform hsid h hg hbound fun v x hx => hheld v x (.inl hx), fun v => ?_, ?_⟩
  · unfold Outline.MainRelies
    cases hmain : c.main v with
    | none => exact fun _ => trivial
    | some x => exact fun y hy => hheld v y (.inr (.inl ⟨x.1, x.2, hmain, hy⟩))
  · intro v p hp y hy
    exact hheld v y (.inr (.inr ⟨p, hp, hy⟩))

omit [DecidableEq W] in
theorem LockInv.same {p : CString} {s s' : World srv W} (hs : World.Same s s')
    (h : LockInv sid p s) : LockInv sid p s' := by
  refine ⟨?_, ?_, ?_, ?_⟩
  · rw [hs.nodes]
    exact h.queue
  · rw [hs.memory]
    exact h.record
  · rw [hs.memory, hs.nodes]
    exact h.ownerid
  · rw [hs.views, hs.nodes]
    exact h.views

theorem lockOutline_sound (hsid : Function.Injective sid) :
    (lockOutline sid key : Outline srv W).Sound sid (LockRun sid key) where
  invSame hs h := h.same hs
  idleSame _ _ := trivial
  mainSame hs := fun x _ hx => by rwa [hs.nodes]
  watcherSame hs := fun x _ hx => by rwa [hs.nodes]
  postStable _ _ _ := Contract.Stable.true _
  start {c w cb} _ hok _ :=
    (triple_callback (lockPath_ne_parentNode key) fun g k hcb =>
      hok.oneLock w g k (hcb ▸ rfl)).safe (fun _ => Contract.Stable.true _) trivial
  finish _ _ _ _ := trivial
  notify _ _ _ :=
    (lockRules (lockPath_ne_nil key)).toRoundRules.lockWatcherFn.safe
      (fun _ => Contract.Stable.true _) trivial
  mainOp {c w d cb p o r s'} h hok hmain hnext hperf := by
    obtain ⟨c', hstep, hs'⟩ := Config.step_main hmain hnext hperf
    refine ⟨⟨h.inv, d, hperf⟩, fun hg => ?_⟩
    obtain ⟨hinv, hmains, hwatchers⟩ := lockOutline_step hsid h.inv hok
      (by rw [Config.after_of_step hstep, hs']) hperf hg
    exact ⟨hinv, fun v _ => hmains v, hwatchers⟩
  watcherOp {c w d p o r s'} h hok hwatcher hnext hperf := by
    obtain ⟨c', hstep, hs'⟩ := Config.step_watcher hwatcher hnext hperf
    refine ⟨⟨h.inv, d, hperf⟩, fun hg => ?_⟩
    obtain ⟨hinv, hmains, hwatchers⟩ := lockOutline_step hsid h.inv hok
      (by rw [Config.after_of_step hstep, hs']) hperf hg
    exact ⟨hinv, hmains, fun v _ => hwatchers v⟩

omit [DecidableEq W] in
/-- The owner's node is the first of the queue. -/
theorem LockInv.served_of_owns (hinv : LockInv sid (lockPath key) c.world)
    {q : TicketQueue Sid} (hq : IsQueue c.world.nodes (lockPath key) q) {w : W}
    (h : c.Owns key w) : ∃ n, q.Served (sid w) n := by
  obtain ⟨howner, x, hid, hpresent⟩ := h
  have hownerid : (c.world.memory w).lock.ownerid = some x := by
    unfold ZkrLockMutex.isowner at howner
    rw [hid] at howner
    cases hy : (c.world.memory w).lock.ownerid with
    | none => simp [hy] at howner
    | some y =>
      rw [hy, beq_iff_eq, strcmp_eq_iff] at howner
      rw [howner]
  have hown := (hinv.record w).id x hid
  obtain ⟨s, n, hn, rfl⟩ := hq.named x hown.2 hpresent
  obtain rfl := hown.unique (ownName_lockName s n)
  exact ⟨n, hinv.ownerid w _ hownerid q n hq rfl (hq.mem_waiting.mpr ⟨hn, hpresent⟩)⟩

/-- **At most one owner**, in every run in which no client is given back a number that it remembers
as the owner's. The workers' handles have connected before, and have different session ids. -/
theorem lock_exclusive {c₀ : Config srv W} (hsid : Function.Injective sid) (h₀ : c₀.IsInitial)
    (hqueue : ∃ q, IsQueue c₀.world.nodes (lockPath key) q)
    (h : Config.Reaches sid (LockRun sid key) c₀ c) {v w : W} (hv : c.Owns key v)
    (hw : c.Owns key w) : v = w := by
  have hrecord : ∀ w, RecordOk (sid w) (lockPath key) ({} : PhpZookeeperSession) := fun w =>
    ⟨by simp, by simp, List.length_pos_iff.mpr (lockPath_ne_nil key)⟩
  have hinit : (lockOutline sid key).Holds c₀ := by
    refine ⟨⟨hqueue, fun w => ?_, fun w x hx => ?_, fun w T hT => ?_⟩, fun w => ?_,
      fun w p hp => ?_⟩
    · rw [h₀.memory]
      exact hrecord w
    · simp [h₀.memory] at hx
    · simp [h₀.views] at hT
    · simp [Outline.MainOk, h₀.main, lockOutline]
    · simp [h₀.watcher] at hp
  have hinv := (Outline.holds_of_reaches (lockOutline_sound hsid) hinit h).inv
  obtain ⟨q, hq⟩ := hinv.queue
  obtain ⟨m, hm⟩ := hinv.served_of_owns hq hv
  obtain ⟨n, hn⟩ := hinv.served_of_owns hq hw
  exact hsid (hm.unique hn).1

end System

/-! ### Two runs -/

/-- The key of the one session. -/
def lockKey : CString := ['k']

/-- Sessions expire that were last changed before 560 s. -/
def expiring : Globals := { globalRequestTime := 2000 }

/-- The second worker is behind the first one in the queue when that closes its session, and gets
the lock before it is notified. It closes its session too; the lock directory is collected; the
first worker makes it again, and has the lock; and then the second worker is notified, and makes a
node of the same name as before. -/
def sharingSteps : List (Label treeServer Bool) :=
  callbackSteps false (.psRead {} lockKey) ++
    [.start true (.psRead {} lockKey)] ++ mainSteps true 30 ++
    callbackSteps false .psClose ++ mainSteps true 60 ++ [.finish true] ++
    [.start true .psClose] ++ mainSteps true 8 ++
    callbackSteps false (.psGc expiring) ++ callbackSteps false (.psRead {} lockKey) ++
    [.notify true] ++ watcherSteps true 13

/-- The step is one of workers that share the lock. -/
def checkShares (c : Config treeServer Bool) (l : Label treeServer Bool) : Bool :=
  (match l with
    | .start _ (.psRead _ k) => lockPath k = lockPath lockKey
    | _ => true) &&
  ((c.after twoSids l).world.nodes (lockPath lockKey)).all fun d => d.cseq ≤ 2 ^ 31

theorem sharesLock_of_check {c : Config treeServer Bool} {l : Label treeServer Bool}
    (h : checkShares c l = true) : SharesLock twoSids lockKey c l := by
  obtain ⟨hl, hd⟩ := Bool.and_eq_true_iff.mp h
  refine ⟨fun w g k hk => ?_, fun d hd' => ?_⟩
  · subst hk
    simpa using hl
  · rw [hd'] at hd
    simpa using hd

/-- The name `x` is the worker's `ownerid`, or about to be. -/
def Config.remembers (c : Config treeServer Bool) (w : Bool) (x : CString) : Bool :=
  decide ((c.world.memory w).lock.ownerid = some x) ||
    (c.main w).any (fun y => decide (y.2.next = some (.store (.lockOwnerid (some x))))) ||
    (c.watcher w).any fun q => decide (q.next = some (.store (.lockOwnerid (some x))))

theorem Config.remembers_of_remembers {c : Config treeServer Bool} {w : Bool} {x : CString}
    (h : c.Remembers w x) : c.remembers w x = true := by
  unfold Config.remembers
  rcases h with h | ⟨cb, q, hmain, hnext⟩ | ⟨q, hwatcher, hnext⟩
  · simp [h]
  · simp [hmain, hnext]
  · simp [hwatcher, hnext]

/-- The step makes no node in the lock directory whose name a worker remembers. -/
def checkForgotten (c : Config treeServer Bool) (l : Label treeServer Bool) : Bool :=
  checkShares c l &&
    ((c.after twoSids l).world.tree.names (lockPath lockKey)).all fun x =>
      decide (x ∈ c.world.tree.names (lockPath lockKey)) ||
        (!c.remembers false x && !c.remembers true x)

theorem lockRun_of_checkForgotten {c : Config treeServer Bool} {l : Label treeServer Bool}
    (h : checkForgotten c l = true) : LockRun twoSids lockKey c l := by
  obtain ⟨hshares, hnames⟩ := Bool.and_eq_true_iff.mp h
  refine ⟨sharesLock_of_check hshares, fun w x hrem hown hnone hsome => ?_⟩
  have hx := ((c.after twoSids l).world.tree.mem_names (lockPath lockKey) x).mpr ⟨hown.2, hsome⟩
  rcases Bool.or_eq_true_iff.mp (List.all_eq_true.mp hnames x hx) with hold | hforgotten
  · have hold' := (c.world.tree.mem_names (lockPath lockKey) x).mp (of_decide_eq_true hold)
    exact absurd hnone hold'.2
  · have hrem' := c.remembers_of_remembers hrem
    cases w <;> simp [hrem'] at hforgotten

/-- The worker takes itself for the owner, and its node `x` is there. -/
def Config.ownsBy (c : Config treeServer Bool) (w : Bool) (x : CString) : Bool :=
  (c.world.memory w).lock.isowner && decide ((c.world.memory w).lock.id = some x) &&
    (c.world.nodes (childOf (lockPath lockKey) x)).isSome

theorem Config.owns_of_ownsBy {c : Config treeServer Bool} {w : Bool} {x : CString}
    (h : c.ownsBy w x = true) : c.Owns lockKey w := by
  simp only [ownsBy, Bool.and_eq_true, decide_eq_true_eq] at h
  obtain ⟨⟨howner, hid⟩, hnode⟩ := h
  exact ⟨howner, x, hid, Option.isSome_iff_ne_none.mp hnode⟩

theorem twoWorkers_isInitial : twoWorkers.IsInitial :=
  ⟨fun _ => rfl, fun _ => rfl, fun _ => rfl, fun _ => rfl⟩

theorem twoWorkers_isQueue : IsQueue twoWorkers.world.nodes (lockPath lockKey) .empty := by
  refine IsQueue.empty (by decide +kernel) fun ⟨x, hx, hpresent⟩ => ?_
  have hmem := (twoWorkers.world.tree.mem_names (lockPath lockKey) x).mpr ⟨hx, hpresent⟩
  rw [show twoWorkers.world.tree.names (lockPath lockKey) = [] by decide +kernel] at hmem
  cases hmem

/-- The second worker takes a place behind the first one, which owns the lock. -/
def queueingSteps : List (Label treeServer Bool) :=
  callbackSteps false (.psRead {} lockKey) ++ [.start true (.psRead {} lockKey)] ++
    mainSteps true 30

/-- The first worker closes its session, and the second one gets the lock. -/
def handingSteps : List (Label treeServer Bool) :=
  queueingSteps ++ callbackSteps false .psClose ++ mainSteps true 60 ++ [.finish true]

/-- Two workers contend: the one that waits becomes the owner when the other one has closed its
session. -/
theorem lock_exclusive_two :
    (twoWorkers.run twoSids queueingSteps).Owns lockKey false ∧
      (twoWorkers.run twoSids queueingSteps).world.nodes
        (childOf (lockPath lockKey) (lockName 1 1)) ≠ none ∧
      ¬ (twoWorkers.run twoSids queueingSteps).Owns lockKey true ∧
      (twoWorkers.run twoSids handingSteps).Owns lockKey true ∧
      ¬ (twoWorkers.run twoSids handingSteps).Owns lockKey false := by
  have hqueueing : Config.Reaches twoSids (LockRun twoSids lockKey) twoWorkers
      (twoWorkers.run twoSids queueingSteps) :=
    Config.Reaches.refl.run_of_checks (fun _ _ => lockRun_of_checkForgotten) (by decide +kernel)
  have hhanding : Config.Reaches twoSids (LockRun twoSids lockKey) twoWorkers
      (twoWorkers.run twoSids handingSteps) :=
    Config.Reaches.refl.run_of_checks (fun _ _ => lockRun_of_checkForgotten) (by decide +kernel)
  have hfirst : (twoWorkers.run twoSids queueingSteps).Owns lockKey false :=
    Config.owns_of_ownsBy (x := lockName 0 0) (by decide +kernel)
  have hsecond : (twoWorkers.run twoSids handingSteps).Owns lockKey true :=
    Config.owns_of_ownsBy (x := lockName 1 1) (by decide +kernel)
  refine ⟨hfirst, by decide +kernel, fun h => ?_, hsecond, fun h => ?_⟩
  · exact absurd (lock_exclusive twoSids_injective twoWorkers_isInitial ⟨_, twoWorkers_isQueue⟩
      hqueueing h hfirst) (by decide)
  · exact absurd (lock_exclusive twoSids_injective twoWorkers_isInitial ⟨_, twoWorkers_isQueue⟩
      hhanding h hsecond) (by decide)

/-- Two workers own the lock at once. -/
theorem lock_shared :
    ¬ ∀ c : Config treeServer Bool,
      Config.Reaches twoSids (SharesLock twoSids lockKey) twoWorkers c →
        ∀ v w, c.Owns lockKey v → c.Owns lockKey w → v = w := by
  intro h
  have hreach : Config.Reaches twoSids (SharesLock twoSids lockKey) twoWorkers
      (twoWorkers.run twoSids sharingSteps) :=
    Config.Reaches.refl.run_of_checks (fun _ _ => sharesLock_of_check) (by decide +kernel)
  have hfirst : (twoWorkers.run twoSids sharingSteps).Owns lockKey false :=
    Config.owns_of_ownsBy (x := lockName 0 0) (by decide +kernel)
  have hsecond : (twoWorkers.run twoSids sharingSteps).Owns lockKey true :=
    Config.owns_of_ownsBy (x := lockName 1 1) (by decide +kernel)
  exact absurd (h _ hreach false true hfirst hsecond) (by decide)

end PhpZookeeper
