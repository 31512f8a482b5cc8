import PhpZookeeper.System.Holding

/-!
# The callbacks of a cycle

What `PS_READ`, `PS_WRITE` and `PS_CLOSE` of one worker do while other workers use the same session.
`PS_READ` returns when the worker is in turn, with the data that is stored (`triple_psRead`);
`PS_WRITE` stores its data and nothing else (`triple_psWrite`); until `PS_CLOSE` the worker stays in
turn (`InCycle`), and afterwards it has not locked the session (`triple_psClose`).
-/

namespace PhpZookeeper

open Theory Prog Status

variable {srv : Server} {W : Type}

/-- The data that a callback has read, if there is any. -/
def Outcome.data : Outcome (Option Bytes) → Option (Option Bytes)
  | .success data => some data
  | _ => none

/-- An answer to `exists`, and the node. -/
theorem Answers.held_of_exists {session : Sid} {p : CString} {t t' : Nodes} {a : Reply}
    (h : Answers session (.zooExists p) t a t') :
    a.rc ≠ ZOK ∧ (t.held p = none ∨ validPath p false = false) ∨
      a.rc = ZOK ∧ ∃ n, t.held p = some n ∧ a.stat = n.stat := by
  rcases h.zooExists.2 with ⟨hv, hrc⟩ | ⟨hn, hrc⟩ | ⟨n, hn, -, hrc, hstat⟩
  · exact .inl ⟨by simp [hrc], .inr hv⟩
  · exact .inl ⟨by simp [hrc], .inl (by simp [Nodes.held, hn])⟩
  · exact .inr ⟨hrc, n.content, by simp [Nodes.held, hn], hstat⟩

/-- An answer to `get`, for a buffer of the data's length. -/
theorem Answers.received_of_get {session : Sid} {p : CString} {t t' : Nodes} {a : Reply}
    {n : Znode} {len : ℕ} (h : Answers session (.zooGet p len) t a t') (hn : t.held p = some n)
    (hv : validPath p false = true) (hlen : len = n.stat.dataLength) :
    a.rc = ZOK ∧ (a.received (.zooGet p len)).value = n.data := by
  obtain ⟨n', hn', rfl⟩ := Option.map_eq_some_iff.mp hn
  rcases h.zooGet.2 with ⟨hv', -⟩ | ⟨hnone, -⟩ | ⟨n'', hn'', -, hrc, hvalue, -⟩
  · rw [hv] at hv'
    cases hv'
  · rw [hn'] at hnone
    cases hnone
  · obtain rfl := Option.some.inj (hn'.symm.trans hn'')
    refine ⟨hrc, ?_⟩
    subst hlen
    rw [Reply.received, hvalue]
    cases hdata : n'.data with
    | none => simp [Znode.content, hdata]
    | some b => simp [Znode.content, hdata, Znode.stat]

/-- `create` of a node that is not there, in a directory: only the path can be wrong. -/
theorem Answers.data_of_create {session : Sid} {p : CString} {t t' : Nodes} {a : Reply}
    {val : Bytes} {acl : Acl} {len : ℕ}
    (h : Answers session (.zooCreate p (some val) (some acl) {} len) t a t')
    (hdir : t.IsDirectory (parentOf p)) (hp : t p = none) :
    a.rc = ZOK ∧ (t' p).map Znode.data = some (some val) ∨
      a.rc ≠ ZOK ∧ t' = t ∧ validPath p false = false := by
  rcases h.zooCreate with ⟨d, n, q, k, hrc, -, -, -, rfl, -, hdata, -, -, -, rfl⟩ | ⟨rfl, hrc, hwhy⟩
  · rw [Function.update_self, Option.map_some, hdata]
    exact .inl ⟨hrc, rfl⟩
  · rcases hwhy with hv | hacl | hnodir | ⟨d, k, -, hsome⟩
    · exact .inr ⟨hrc, rfl, hv⟩
    · cases hacl
    · exact absurd hdir hnodir
    · rw [if_neg (by decide)] at hsome
      exact absurd hp hsome

/-- `set` of a node that is there: only the path can be wrong. -/
theorem Answers.data_of_set {session : Sid} {p : CString} {t t' : Nodes} {a : Reply} {val : Bytes}
    (h : Answers session (.zooSet p val (-1)) t a t') (hp : t p ≠ none) :
    a.rc = ZOK ∧ (t' p).map Znode.data = some (some val) ∨
      a.rc ≠ ZOK ∧ t' = t ∧ validPath p false = false := by
  rcases h.zooSet with ⟨n, mtime, -, -, hrc, rfl⟩ | ⟨rfl, hrc, hv | hnone⟩
  · rw [Function.update_self]
    exact .inl ⟨hrc, rfl⟩
  · exact .inr ⟨hrc, rfl, hv⟩
  · exact absurd hnone hp

namespace Cycles

/-- Between its `PS_READ` and its `PS_CLOSE` a worker is in turn. -/
structure InCycle (sid : W → Sid) (key : CString) (w : W) (s : World srv W) : Prop where
  isLocked : (s.memory w).isLocked = true
  path : (s.memory w).path = sessionPath key
  inTurn : InTurn sid key w s

/-- The worker has locked the session, and is in turn. -/
def Locked (sid : W → Sid) (key : CString) (w : W) (s : World srv W) : Prop :=
  (s.memory w).isLocked = true ∧ InTurn sid key w s

variable {sid : W → Sid} {key x : CString} {w : W} {cb : Option Callback} {s s' : World srv W}

theorem Quiet.inCycle (h : Quiet sid key w s s') (hs : InCycle sid key w s) :
    InCycle sid key w s' :=
  ⟨h.isLocked.trans hs.isLocked, h.path.trans hs.path, (h.inTurn hs.inTurn).1⟩

theorem stored_of_held {x : Option Znode} (h : s.nodes.held (sessionPath key) = x) :
    s.stored key = x.map Znode.data := by
  subst h
  rw [World.stored, Nodes.held, Option.map_map]
  rfl

theorem Outside.not_leaving (hs : Outside w .main s) : ¬ Leaving w s := by
  rintro ⟨-, hlocked⟩
  rw [hs rfl] at hlocked
  cases hlocked

variable [DecidableEq W] {o : Op} {r : o.Res} {a : Reply} {req : Req}

/-- A request of these runs is answered. -/
theorem rc_of_sem {th : Thread}
    (hsem : (cycleContract sid key w th cb : Contract Op.Res (World srv W)).sem (.zoo req) s a
      s') : a.rc ≠ ZCONNECTIONLOSS := by
  obtain ⟨-, -, d, hd, hperf⟩ := hsem
  cases hread : req.isRead with
  | true =>
    obtain ⟨T, b, -, hans, rfl, -⟩ := World.perform_read hperf hread hd
    rw [Reply.received_rc]
    exact hans.rc_ne_failure
  | false =>
    obtain ⟨b, hans, rfl, -⟩ := World.perform_change hperf hread hd
    rw [Reply.received_rc]
    exact hans.rc_ne_failure

/-! ### The lock -/

/-- `zkr_lock_init` -/
theorem triple_zkrLockInit (hsid : Function.Injective sid) (hkey : ShortKey key)
    (acl : Option Acl) :
    Triple (cycleContract sid key w .main cb : Contract Op.Res (World srv W)) (Outside w .main)
      (zkrLockInit (lockPath key) acl) fun _ => Outside w .main := by
  have hinit : ∀ {o : Op} {r : o.Res} {s s' : World srv W}, o.Inits → Outside w .main s →
      (cycleContract sid key w .main cb : Contract Op.Res (World srv W)).sem o s r s' →
      (Moves sid key w s s' → Kept sid key w s s' → RecordInv sid key w s') →
      (o.effect .main (s.memory w)).isLocked = (s.memory w).isLocked →
      (cycleContract sid key w .main cb : Contract Op.Res (World srv W)).guar o s r s' ∧
        Outside w .main s' := by
    intro o r s s' ho hs hsem hrecord hlocked
    have hzoo : ∀ req, o ≠ .zoo req := by
      rintro req rfl
      exact ho
    obtain ⟨hg, -, -⟩ := guar_of_inside hsid hkey hsem hzoo hrecord (fun th' hne hth' => by
      cases th' with
      | main => exact absurd rfl hne
      | watcher => exact absurd hth' (hsem.2.1.init ho)) nofun
    refine ⟨hg, fun hth => ?_⟩
    rw [memory_of_sem hsem]
    exact hlocked.trans (hs hth)
  refine .step (o := .store (.lockInit (lockPath key) acl)) (fun _ => Outside w .main)
    (fun _ hs => hs) (stable_outside _) (fun s r s' hs hsem => ?_) fun _ => ?_
  · refine hinit trivial hs hsem (fun _ _ => ?_) rfl
    refine ⟨?_, ?_, ?_, ?_⟩ <;> rw [memory_of_sem hsem] <;> intro x hx
    · exact (Option.mem_some.mp hx).symm
    · cases hx
    · cases hx
    · cases hx
  refine .step (o := .pthreadMutexInit) (fun _ => Outside w .main) (fun _ hs => hs)
    (stable_outside _) (fun s r s' hs hsem => ?_) fun _ => ?_
  swap
  · exact .ret fun _ hs => hs
  refine hinit trivial hs hsem (fun hmoves hkept => ?_) rfl
  have hrecord := hsem.1.record w
  refine hrecord.present hsem.1 hmoves hkept (hrecord.present_of_not_leaving hs.not_leaving)
    ?_ ?_ ?_ <;> rw [memory_of_sem hsem]
  · exact hrecord.lockPath
  · rfl
  · rfl

/-- `php_zookeeper_sess_lock` -/
theorem triple_phpZookeeperSessLock (hsid : Function.Injective sid) (hkey : ShortKey key)
    (g : Globals) :
    Triple (cycleContract sid key w .main cb : Contract Op.Res (World srv W)) (Outside w .main)
      (phpZookeeperSessLock (sid w) g key) fun b s =>
        if b then Locked sid key w s else Outside w .main s := by
  have hrules : RoundRules (cycleContract sid key w .main cb : Contract Op.Res (World srv W))
    (sid w) (VisitOp key) (Known key) (Outside w .main) (Inside w .main)
    (Owner sid key w .main) := roundRules hsid hkey
  refine hrules.phpZookeeperSessLock (triple_zkrLockInit hsid hkey _) stable_owner
    (fun s r s' hs hturn hsem => ?_) (fun usec s r s' hs hsem => ?_) g
  · have hinv := hsem.1
    have hmem := memory_of_sem hsem
    obtain ⟨hg, hmoves, hkept⟩ := guar_of_inside hsid hkey hsem (fun req hreq => by cases hreq)
      (fun hmoves hkept => by
        have hrecord := hinv.record w
        refine hrecord.present hinv hmoves hkept
          (hrecord.present_of_not_leaving hs.not_leaving) ?_ ?_ ?_ <;> rw [hmem]
        · exact hrecord.lockPath
        · rfl
        · rfl)
      (fun th' hne hth' => by
        rw [World.pmutex, hmem]
        exact ⟨hth', rfl⟩) nofun
    refine ⟨hg, ?_, (hturn rfl).moves hmoves hkept⟩
    rw [hmem]
    rfl
  · obtain ⟨hg, -, -, hlock⟩ := guar_of_lockReq hsid hkey hsem (fun req hreq => by cases hreq)
      (.refl _) fun _ => rfl
    exact ⟨hg, fun hth => hlock.isLocked.trans (hs hth)⟩

/-! ### The data -/

theorem stable_inCycle (o : Option Op) :
    (cycleContract sid key w .main cb : Contract Op.Res (World srv W)).Stable o
      (InCycle sid key w) :=
  fun _ _ hr hs => (hr.2.2 rfl).inCycle hs

/-- The data stays while the worker is in turn. -/
theorem stable_held (x : Option Znode) (o : Option Op) :
    (cycleContract sid key w .main cb : Contract Op.Res (World srv W)).Stable o fun s =>
      InCycle sid key w s ∧ s.nodes.held (sessionPath key) = x :=
  fun _ _ hr hs => ⟨(hr.2.2 rfl).inCycle hs.1,
    ((hr.2.2 rfl).inTurn hs.1.inTurn).2.trans hs.2⟩

/-- **A worker in turn reads what there is**, whatever state answers it. -/
theorem guar_of_read (hsid : Function.Injective sid) (hkey : ShortKey key)
    (hs : InCycle sid key w s) (hread : req.isRead = true)
    (hsem : (cycleContract sid key w .main cb : Contract Op.Res (World srv W)).sem (.zoo req) s a
      s') :
    (cycleContract sid key w .main cb : Contract Op.Res (World srv W)).guar (.zoo req) s a s' ∧
      InCycle sid key w s' ∧
      s'.nodes.held (sessionPath key) = s.nodes.held (sessionPath key) ∧
      ∃ t b, Answers (sid w) req t b t ∧ a = b.received req ∧
        t.held (sessionPath key) = s.nodes.held (sessionPath key) := by
  have hmem := memory_of_sem hsem
  obtain ⟨hg, hmoves, hkept, hlock⟩ := guar_of_lockReq hsid hkey hsem (fun req' hreq => by
    obtain rfl := Op.zoo.inj hreq
    exact .read hread) (.refl _) nofun
  obtain ⟨hinv, -, d, hd, hperf⟩ := hsem
  obtain ⟨T, b, hT, hans, hab, htree, -⟩ := World.perform_read hperf hread hd
  refine ⟨hg, ⟨hlock.isLocked.trans hs.isLocked, ?_, hs.inTurn.moves hmoves hkept⟩, ?_,
    _, b, hans, hab, ?_⟩
  · rw [hmem]
    exact hs.path
  · rw [World.nodes, htree]
    rfl
  · have hseen := hinv.seen_of_read hT List.mem_cons_self
    exact (hseen.data (hs.inTurn T (List.mem_of_getElem? hT))).symm

/-- What `exists` has told a worker in turn. -/
structure Found (sid : W → Sid) (key : CString) (w : W) (a : Reply) (s : World srv W) : Prop
    extends InCycle sid key w s where
  node : a.rc ≠ ZOK ∧ s.nodes.held (sessionPath key) = none ∨
    a.rc = ZOK ∧ validPath (sessionPath key) false = true ∧
      ∃ n, s.nodes.held (sessionPath key) = some n ∧ a.stat = n.stat

theorem stable_found (a : Reply) (o : Option Op) :
    (cycleContract sid key w .main cb : Contract Op.Res (World srv W)).Stable o
      (Found sid key w a) := by
  intro s s' hr hs
  have hquiet := hr.2.2 rfl
  refine ⟨hquiet.inCycle hs.toInCycle, ?_⟩
  rw [(hquiet.inTurn hs.inTurn).2]
  exact hs.node

/-- What is found has not expired. -/
def Unexpired (cb : Option Callback) (a : Reply) : Prop :=
  ∀ g k, cb = some (.psRead g k) → a.rc = ZOK → g.expirationTime ≤ a.stat.mtime

/-- The session's `exists` -/
theorem triple_zooExists (hsid : Function.Injective sid) (hkey : ShortKey key) (status : Status) :
    Triple (cycleContract sid key w .main cb : Contract Op.Res (World srv W))
      (InCycle sid key w) (retryLoop (fun _ => .zooExists (sessionPath key)) status)
      fun a s => Unexpired cb a ∧ Found sid key w a s := by
  refine .retryLoop stable_inCycle fun s a s' hs hsem => ?_
  obtain ⟨hg, hs', hheld, t, b, hans, rfl, ht⟩ := guar_of_read hsid hkey hs rfl hsem
  have habsent : validPath (sessionPath key) false = false →
      s.nodes.held (sessionPath key) = none := fun hv => by
    rw [Nodes.held, hsem.1.absent hv, Option.map_none]
  have hfound := hans.held_of_exists
  rw [ht] at hfound
  refine ⟨hg, rc_of_sem hsem, fun g k hcb hrc => ?_, hs', ?_⟩
  · obtain ⟨-, n, hn, hstat⟩ := hfound.resolve_left fun h => h.1 hrc
    obtain ⟨n, hnode, rfl⟩ := Option.map_eq_some_iff.mp hn
    exact (hsem.2.1.unexpired g k n hcb hnode).trans_eq (congrArg Stat.mtime hstat).symm
  · rw [hheld]
    rcases hfound with ⟨hrc, hnone⟩ | ⟨hrc, n, hn, hstat⟩
    · exact .inl ⟨hrc, hnone.elim id habsent⟩
    · refine .inr ⟨hrc, ?_, n, hn, hstat⟩
      by_contra hv
      rw [habsent (Bool.eq_false_iff.mpr hv)] at hn
      cases hn

/-- The record that is read holds the session's path. -/
theorem triple_load {α : Type} {f : PhpZookeeperSession → Code α} {K : World srv W → Prop}
    {Q : α → World srv W → Prop} (hsid : Function.Injective sid) (hkey : ShortKey key)
    (hst : (cycleContract sid key w .main cb).Stable (some .load) K)
    (hK : ∀ s, K s → InCycle sid key w s)
    (hf : ∀ m, m.path = sessionPath key → Triple (cycleContract sid key w .main cb) K (f m) Q) :
    Triple (cycleContract sid key w .main cb) K ((act .load).bind f) Q := by
  refine .step (fun m s => m.path = sessionPath key ∧ K s) (fun _ hs => hs) hst
    (fun s m s' hs hsem => ?_) fun m => ?_
  · obtain ⟨hg, -, -, -⟩ := guar_of_lockReq hsid hkey hsem (fun req hreq => by cases hreq)
      (.refl _) fun _ => rfl
    obtain ⟨-, -, d, -, hperf⟩ := hsem
    obtain ⟨rfl, rfl⟩ := Prod.mk.inj (Option.some.inj hperf)
    exact ⟨hg, (hK s hs).path, hs⟩
  · by_cases hm : m.path = sessionPath key
    · exact (hf m hm).pre fun _ hs => hs.2
    · exact .of_false fun _ hs => hm hs.1

/-- The session's `get`, of a buffer of the length that `exists` has told. -/
theorem triple_zooGet (hsid : Function.Injective sid) (hkey : ShortKey key) {a : Reply}
    (ha : a.rc = ZOK) (status : Status) :
    Triple (cycleContract sid key w .main cb : Contract Op.Res (World srv W)) (Found sid key w a)
      (retryLoop (fun _ => .zooGet (sessionPath key) a.stat.dataLength) status)
      fun b s => b.rc = ZOK ∧ InCycle sid key w s ∧ s.stored key = some b.value := by
  refine .retryLoop (stable_found a) fun s b s' hs hsem => ?_
  obtain ⟨hg, hs', hheld, t, b', hans, rfl, ht⟩ := guar_of_read hsid hkey hs.toInCycle rfl hsem
  obtain ⟨-, hv, n, hn, hstat⟩ := hs.node.resolve_left fun h => h.1 ha
  obtain ⟨hrc, hvalue⟩ :=
    hans.received_of_get (ht.trans hn) hv (congrArg Stat.dataLength hstat)
  refine ⟨hg, rc_of_sem hsem, by rwa [Reply.received_rc], hs', ?_⟩
  rw [stored_of_held (hheld.trans hn), hvalue]
  rfl

/-- `PS_READ`, after the lock. -/
theorem triple_psReadData (hsid : Function.Injective sid) (hkey : ShortKey key) (g : Globals)
    (k : CString) :
    Triple (cycleContract sid key w .main (some (.psRead g k)) : Contract Op.Res (World srv W))
      (Locked sid key w) (psReadData g key) fun out s => (∀ message, out ≠ .error message) ∧
        InCycle sid key w s ∧ s.stored key = out.data := by
  refine Triple.step (o := Op.store (.path (sessionPath key))) (K := Locked sid key w)
    (fun _ => InCycle sid key w) (fun _ hs => hs) (fun s s' hr hs => ?_)
    (fun s r s' hs hsem => ?_) fun _ => ?_
  · have hquiet := hr.2.2 rfl
    exact ⟨hquiet.isLocked.trans hs.1, (hquiet.inTurn hs.2).1⟩
  · obtain ⟨hg, hmoves, hkept, hlock⟩ := guar_of_lockReq hsid hkey hsem
      (fun req hreq => by cases hreq) ⟨rfl, rfl, rfl, rfl, rfl⟩ nofun
    refine ⟨hg, hlock.isLocked.trans hs.1, ?_, hs.2.moves hmoves hkept⟩
    rw [memory_of_sem hsem]
    rfl
  refine triple_load hsid hkey (stable_inCycle _) (fun _ hs => hs) fun m hm => ?_
  rw [hm]
  refine (triple_zooExists hsid hkey ZOK).bind fun a => ?_
  split_ifs with hrc hexpired
  · refine .ret fun s hs => ⟨nofun, hs.2.toInCycle, ?_⟩
    rw [stored_of_held (hs.2.node.resolve_right fun h => hrc h.1).2]
    rfl
  · exact .of_false fun s hs => (hs.1 g k rfl (not_not.mp hrc)).not_gt hexpired
  · refine Triple.pre (P := Found sid key w a) ?_ fun _ hs => hs.2
    refine triple_load hsid hkey (stable_found a _) (fun _ hs => hs.toInCycle) fun m hm => ?_
    rw [hm]
    refine (triple_zooGet hsid hkey (not_not.mp hrc) a.rc).bind fun b => ?_
    split_ifs with hb
    · exact .of_false fun s hs => hb hs.1
    · exact .ret fun s hs => ⟨nofun, hs.2⟩

/-- **`PS_READ`** returns with the data that is stored, when the worker is in turn, or has not
locked the session. -/
theorem triple_psRead (hsid : Function.Injective sid) (hkey : ShortKey key) {g : Globals}
    (hlock : g.sessionLock = true) (k : CString) :
    Triple (cycleContract sid key w .main (some (.psRead g k)) : Contract Op.Res (World srv W))
      (Outside w .main) (psRead (sid w) g key) fun out s =>
        (∃ message, out = .error message) ∧ Outside w .main s ∨
        (∀ message, out ≠ .error message) ∧ InCycle sid key w s ∧ s.stored key = out.data := by
  unfold psRead
  rw [if_pos hlock]
  refine (triple_phpZookeeperSessLock hsid hkey g).bind fun locked => ?_
  cases locked with
  | false => exact .ret fun s hs => .inl ⟨⟨_, rfl⟩, by simpa using hs⟩
  | true =>
    refine ((triple_psReadData hsid hkey g k).pre fun s hs => ?_).post fun _ _ hs => .inr hs
    simpa using hs

/-- `PS_WRITE` has stored the data, unless the path is not accepted. -/
def Wrote (key : CString) (val : Bytes) (a : Reply) (s : World srv W) : Prop :=
  a.rc = ZOK ∧ s.stored key = some (some val) ∨
    a.rc ≠ ZOK ∧ validPath (sessionPath key) false = false

/-- A worker in turn changes the data. -/
theorem guar_of_write {k : CString} {val : Bytes} (hsid : Function.Injective sid)
    (hkey : ShortKey key) (hs : InCycle sid key w s)
    (hsem : (cycleContract sid key w .main (some (.psWrite k val)) :
      Contract Op.Res (World srv W)).sem (.zoo req) s a s')
    (hturn : TurnReq (sid w) key s.nodes req) (hread : req.isRead = false)
    (hdelete : ∀ p version, req ≠ .zooDelete p version)
    (hans : ∀ b t', Answers (sid w) req s.nodes b t' →
      b.rc = ZOK ∧ (t' (sessionPath key)).map Znode.data = some (some val) ∨
        b.rc ≠ ZOK ∧ t' = s.nodes ∧ validPath (sessionPath key) false = false) :
    (cycleContract sid key w .main (some (.psWrite k val)) :
      Contract Op.Res (World srv W)).guar (.zoo req) s a s' ∧ a.rc ≠ ZCONNECTIONLOSS ∧
      InCycle sid key w s' ∧ Wrote key val a s' := by
  have hmem := memory_of_sem hsem
  have hwrote : Wrote key val a s' ∧ (s'.nodes.held (sessionPath key) =
      s.nodes.held (sessionPath key) ∨ s'.stored key = some (some val)) := by
    obtain ⟨-, -, d, hd, hperf⟩ := hsem
    obtain ⟨b, hb, rfl, -⟩ := World.perform_change hperf hread hd
    unfold Wrote
    rw [Reply.received_rc]
    rcases hans b _ hb with ⟨hrc, hdata⟩ | ⟨hrc, hsame, hv⟩
    · exact ⟨.inl ⟨hrc, hdata⟩, .inr hdata⟩
    · exact ⟨.inr ⟨hrc, hv⟩, .inl (by rw [hsame])⟩
  obtain ⟨hg, hmoves, hkept, hlock⟩ := guar_of_aside hsid hkey hsem (fun req' hreq => by
    obtain rfl := Op.zoo.inj hreq
    exact ⟨hturn, hdelete⟩) (.refl _) nofun
    (hwrote.2.imp_right fun hdata => ⟨rfl, k, val, rfl, hdata⟩)
  refine ⟨hg, rc_of_sem hsem, ⟨hlock.isLocked.trans hs.isLocked, ?_,
    hs.inTurn.moves hmoves hkept⟩, hwrote.1⟩
  rw [hmem]
  exact hs.path

/-- The session's `create` or `set`. -/
theorem triple_write (hsid : Function.Injective sid) (hkey : ShortKey key) (k : CString)
    (val : Bytes) (a : Reply) :
    Triple (cycleContract sid key w .main (some (.psWrite k val)) : Contract Op.Res (World srv W))
      (Found sid key w a)
      (retryLoop (fun status => if status ≠ ZOK then
          .zooCreate (sessionPath key) (some val) (some .zooOpenAclUnsafe) {} 0
        else .zooSet (sessionPath key) val (-1)) a.rc)
      fun b s => InCycle sid key w s ∧ Wrote key val b s := by
  refine .retryLoop (stable_found a) fun s b s' hs hsem => ?_
  have hserves := hs.inTurn.serves
  rcases hs.node with ⟨hrc, hnone⟩ | ⟨hrc, -, n, hsome, -⟩
  · rw [if_pos hrc] at hsem ⊢
    rw [Nodes.held, Option.map_eq_none_iff] at hnone
    refine guar_of_write hsid hkey hs.toInCycle hsem (.make val _ 0 hserves) rfl nofun
      fun b t' hans => hans.data_of_create ?_ hnone
    rw [hkey.parentOf_sessionPath]
    exact hsem.1.parent
  · rw [if_neg (not_not.mpr hrc)] at hsem ⊢
    obtain ⟨n', hn', -⟩ := Option.map_eq_some_iff.mp hsome
    exact guar_of_write hsid hkey hs.toInCycle hsem (.set val (-1) hserves) rfl nofun
      fun b t' hans => hans.data_of_set (by simp [hn'])

/-- **`PS_WRITE`** stores its data, unless the path is not accepted. -/
theorem triple_psWrite (hsid : Function.Injective sid) (hkey : ShortKey key) (k : CString)
    (val : Bytes) :
    Triple (cycleContract sid key w .main (some (.psWrite k val)) : Contract Op.Res (World srv W))
      (InCycle sid key w) (psWrite k val) fun out s => InCycle sid key w s ∧
        (out = .success () ∧ s.stored key = some (some val) ∨
          out = .failure ∧ validPath (sessionPath key) false = false) := by
  refine triple_load hsid hkey (stable_inCycle _) (fun _ hs => hs) fun m hm => ?_
  rw [hm]
  refine (triple_zooExists hsid hkey ZOK).bind fun a => ?_
  refine Triple.pre (P := Found sid key w a) ?_ fun _ hs => hs.2
  refine (triple_write hsid hkey k val a).bind fun b => ?_
  split_ifs with hb
  · exact .ret fun s hs => ⟨hs.1, .inl ⟨rfl, (hs.2.resolve_right fun h => h.1 hb).2⟩⟩
  · exact .ret fun s hs => ⟨hs.1, .inr ⟨rfl, (hs.2.resolve_left fun h => hb h.1).2⟩⟩

/-! ### The end of a cycle -/

/-- `PS_CLOSE` holds `pmutex` and has read the name of the worker's node, which is there unless `rc`
says that it is gone. -/
structure Closing (sid : W → Sid) (key : CString) (w : W) (name : Option CString) (rc : Status)
    (s : World srv W) : Prop where
  leaving : Leaving w s
  id : (s.memory w).lock.id = name
  node : (rc = ZOK ∨ rc = ZNONODE) ∨ Named sid key w name s

variable {name : Option CString} {rc : Status}

omit [DecidableEq W] in
theorem Closing.step (h : Closing sid key w name rc s) (hpmutex : s'.pmutex w = some .main)
    (hlocked : (s'.memory w).isLocked = (s.memory w).isLocked)
    (hid : (s'.memory w).lock.id = (s.memory w).lock.id) (hkept : Kept sid key w s s') :
    Closing sid key w name rc s' :=
  ⟨⟨hpmutex, hlocked.trans h.leaving.2⟩, hid.trans h.id,
    h.node.imp_right fun hx y hy => ⟨(hx y hy).1, hkept y (hx y hy).1 (hx y hy).2⟩⟩

theorem stable_closing (o : Option Op) :
    (cycleContract sid key w .main cb : Contract Op.Res (World srv W)).Stable o
      (Closing sid key w name rc) := by
  intro s s' hr hs
  obtain ⟨hpmutex, hid, hkept⟩ := hr.1 hs.leaving.1
  exact hs.step hpmutex (hr.2.2 rfl).isLocked hid hkept

/-- An operation of `PS_CLOSE` that leaves the lock as it is. -/
theorem closing_aside {α : Type} {f : o.Res → Code α} {Q : α → World srv W → Prop}
    (hsid : Function.Injective sid) (hkey : ShortKey key) (hzoo : ∀ req, o ≠ .zoo req)
    (hlock : ∀ m, SameLock m (o.effect .main m))
    (hf : ∀ r, Triple (cycleContract sid key w .main cb) (Closing sid key w name rc) (f r) Q) :
    Triple (cycleContract sid key w .main cb) (Closing sid key w name rc) ((act o).bind f) Q := by
  refine .step (fun _ => Closing sid key w name rc) (fun _ hs => hs) (stable_closing _)
    (fun s r s' hs hsem => ?_) hf
  obtain ⟨hg, -, hkept, hsame⟩ := guar_of_lockReq hsid hkey hsem
    (fun req hreq => absurd hreq (hzoo req)) (hlock _) nofun
  exact ⟨hg, hs.step (hsame.pmutex.trans hs.leaving.1) hsame.isLocked hsame.id hkept⟩

/-- The worker's node is deleted. -/
theorem guar_of_leave (hsid : Function.Injective sid) (hkey : ShortKey key)
    (hs : Closing sid key w (some x) rc s) (hrc : ¬ (rc = ZOK ∨ rc = ZNONODE))
    (hsem : (cycleContract sid key w .main (some .psClose) : Contract Op.Res (World srv W)).sem
      (.zoo (.zooDelete (childOf (lockPath key) x) (-1))) s a s') :
    (cycleContract sid key w .main (some .psClose) : Contract Op.Res (World srv W)).guar
      (.zoo (.zooDelete (childOf (lockPath key) x) (-1))) s a s' ∧
      Closing sid key w (some x) a.rc s' := by
  have hmem : s'.memory w = s.memory w := memory_of_sem hsem
  obtain ⟨hown, hpresent⟩ := hs.node.resolve_left hrc x rfl
  obtain ⟨hinv, hallowed, d, hd, hperf⟩ := hsem
  have hmoves := moves_of_perform hkey hperf hd hallowed.bounded fun req hreq => by
    obtain rfl := Op.zoo.inj hreq
    exact .leave (-1) hown
  have hleaving : Leaving w s' := by
    rw [Leaving, World.pmutex, hmem]
    exact hs.leaving
  have hrecord : RecordInv sid key w s' := by
    obtain ⟨hpath, hown, -, hownerid⟩ := hinv.record w
    refine ⟨?_, ?_, fun _ _ => .inr hleaving, fun y hy => ?_⟩
    · rwa [hmem]
    · rwa [hmem]
    · rw [hmem] at hy
      exact (hownerid y hy).moves hinv hmoves
  have hheld : s'.nodes.held (sessionPath key) = s.nodes.held (sessionPath key) :=
    held_of_not_mayTouch hperf fun req hreq => by
      obtain rfl := Op.zoo.inj hreq
      exact fun heq => hkey.childOf_lockPath_ne hown.2 heq.symm
  refine ⟨guar_of_holding hs.leaving.1 (hinv.moves hmoves hsid
    (fun v hv => memory_of_ne hperf hv) hrecord) hmoves ⟨.inl hheld, .inl rfl⟩
    (fun hth => by cases hth), hleaving, ?_, ?_⟩
  · rw [hmem]
    exact hs.id
  · obtain ⟨b, hans, rfl, -⟩ := World.perform_change hperf rfl hd
    have hnamed : s'.nodes = s.nodes → Named sid key w (some x) s' := by
      rintro ht y hy
      obtain rfl := Option.mem_some.mp hy
      exact ⟨hown, by rwa [Present, ht]⟩
    rcases hans.zooDelete with ⟨n, k, -, -, -, hok, -⟩ | ⟨ht, ⟨-, -⟩ | ⟨-, hno⟩ | ⟨-, -⟩⟩
    · exact .inl (.inl hok)
    · exact .inr (hnamed ht)
    · exact .inl (.inr hno)
    · exact .inr (hnamed ht)

/-- The loop of `zkr_lock_unlock`. -/
theorem triple_unlockDelete (hsid : Function.Injective sid) (hkey : ShortKey key) :
    Triple (cycleContract sid key w .main (some .psClose) : Contract Op.Res (World srv W))
      (Closing sid key w (some x) ZCONNECTIONLOSS) (unlockDelete (childOf (lockPath key) x))
      fun rc => Closing sid key w (some x) rc := by
  refine Triple.bind ((Triple.whileLoop (I := fun b : Status × ℕ =>
    Closing sid key w (some x) b.1) (fun b _ => stable_closing none) fun b hb => ?_).pre
    fun s hs => hs) fun b => .ret fun _ hs => hs.1
  have hlost : b.1 = ZCONNECTIONLOSS := by
    simp only [Bool.and_eq_true, decide_eq_true_eq] at hb
    exact hb.1
  refine .step (o := Op.zoo (.zooDelete (childOf (lockPath key) x) (-1)))
    (fun (a : Reply) => Closing sid key w (some x) a.rc) (fun _ hs => hs) (stable_closing _)
    (fun s a s' hs hsem => guar_of_leave hsid hkey hs (by simp [hlost]) hsem) fun a => ?_
  split_ifs with ha
  · refine closing_aside (o := .nanosleep) hsid hkey nofun .refl fun _ => ?_
    exact .ret fun _ hs => hs
  · exact .ret fun _ hs => hs

/-- The end of `zkr_lock_unlock`. -/
theorem triple_unlocked (hsid : Function.Injective sid) (hkey : ShortKey key)
    (hname : name = none ∨ ¬ (rc = ZOK ∨ rc = ZNONODE)) (ret : Status) :
    Triple (cycleContract sid key w .main cb : Contract Op.Res (World srv W))
      (Closing sid key w name rc) ((act .pthreadMutexUnlock).bind fun _ => .ret ret)
      fun _ s => s.pmutex w ≠ some .main := by
  refine .step (fun _ s => s.pmutex w ≠ some .main) (fun _ hs => hs) (stable_closing _)
    (fun s r s' hs hsem => ?_) fun _ => .ret fun _ hs => hs
  have hid : ∀ y ∈ (s.memory w).lock.id, Present key y s := by
    intro y hy
    rw [hs.id] at hy
    rcases hname with rfl | hrc
    · cases hy
    · exact (hs.node.resolve_left hrc y hy).2
  obtain ⟨hg, hfree, -⟩ := unlockMutex hsid hkey hs.leaving.1 hid hsem
  exact ⟨hg, by simp [hfree]⟩

/-- `zkr_lock_unlock` forgets the name. -/
theorem triple_forget (hsid : Function.Injective sid) (hkey : ShortKey key) :
    Triple (cycleContract sid key w .main cb : Contract Op.Res (World srv W))
      (Closing sid key w name rc) (do
        callCompletion 1
        store (.lockId none)
        act .pthreadMutexUnlock
        return ZOK) fun _ s => s.pmutex w ≠ some .main := by
  have hcall : Triple (cycleContract sid key w .main cb : Contract Op.Res (World srv W))
      (Closing sid key w name rc) (callCompletion 1) fun _ => Closing sid key w name rc := by
    refine closing_aside (o := .load) hsid hkey nofun .refl fun m => ?_
    split_ifs
    · exact closing_aside (o := .completion 1) hsid hkey nofun .refl fun _ => .ret fun _ hs => hs
    · exact .ret fun _ hs => hs
  refine hcall.bind fun _ => ?_
  refine Triple.step (o := Op.store (.lockId none)) (fun _ => Closing sid key w none ZOK)
    (fun _ hs => hs) (stable_closing _) (fun s r s' hs hsem => ?_)
    fun _ => triple_unlocked hsid hkey (.inl rfl) ZOK
  obtain ⟨hg, hpmutex, hlocked, hid⟩ :=
    setId hsid hkey hs.leaving.1 (fun y hy => by cases hy) hsem
  exact ⟨hg, ⟨hpmutex, hlocked.trans hs.leaving.2⟩, hid, .inl (.inl rfl)⟩

/-- `zkr_lock_unlock` -/
theorem triple_zkrLockUnlock (hsid : Function.Injective sid) (hkey : ShortKey key) :
    Triple (cycleContract sid key w .main (some .psClose) : Contract Op.Res (World srv W))
      (fun s => (s.memory w).isLocked = true) zkrLockUnlock fun _ s => s.pmutex w ≠ some .main := by
  refine Triple.step (o := Op.pthreadMutexLock) (fun _ (s : World srv W) =>
    Leaving w s ∧ Named sid key w (s.memory w).lock.id s) (fun _ hs => hs)
    (fun s s' hr hs => (hr.2.2 rfl).isLocked.trans hs) (fun s r s' hs hsem => ?_) fun _ => ?_
  · obtain ⟨hg, hpmutex, hlocked, hpresent⟩ := lockMutex hsid hkey hsem
    exact ⟨hg, ⟨hpmutex, hlocked.trans hs⟩, fun y hy => ⟨(hg.1.record w).own y hy, hpresent y hy⟩⟩
  refine Triple.step (o := Op.load) (fun (m : PhpZookeeperSession) s =>
    (∀ p ∈ m.lock.path, p = lockPath key) ∧ Closing sid key w m.lock.id ZCONNECTIONLOSS s)
    (fun _ hs => hs) (fun s s' hr hs => ?_) (fun s m s' hs hsem => ?_) fun m => ?_
  · have hclosing : Closing sid key w (s.memory w).lock.id ZCONNECTIONLOSS s' :=
      stable_closing _ s s' hr ⟨hs.1, rfl, .inr hs.2⟩
    refine ⟨hclosing.leaving, ?_⟩
    rw [hclosing.id]
    exact hclosing.node.resolve_left (by simp)
  · obtain ⟨hg, -, -, -⟩ := guar_of_lockReq hsid hkey hsem (fun req hreq => by cases hreq)
      (.refl _) nofun
    obtain ⟨hinv, -, d, -, hperf⟩ := hsem
    obtain ⟨rfl, rfl⟩ := Prod.mk.inj (Option.some.inj hperf)
    exact ⟨hg, (hinv.record w).lockPath, hs.1, rfl, .inr hs.2⟩
  cases hid : m.lock.id with
  | none =>
    exact (triple_unlocked hsid hkey (.inl rfl) _).pre fun s hs => hs.2
  | some x =>
    cases hpath : m.lock.path with
    | none => exact .fault
    | some p =>
      by_cases hp : p = lockPath key
      · subst hp
        refine ((triple_unlockDelete hsid hkey).pre fun s hs => hs.2).bind fun rc => ?_
        split_ifs with hrc
        · exact triple_forget hsid hkey
        · exact triple_unlocked hsid hkey (.inr hrc) _
      · exact .of_false fun s hs => hp (hs.1 p rfl)

/-- The path is freed, `zkr_lock_destroy`, and the mark that the session is locked no more. -/
theorem triple_zkrLockDestroy (hsid : Function.Injective sid) (hkey : ShortKey key) :
    Triple (cycleContract sid key w .main cb : Contract Op.Res (World srv W))
      (fun s => s.pmutex w ≠ some .main)
      ((act .efreePath).bind fun _ => zkrLockDestroy.bind fun _ =>
        (act (.store (.isLocked false))).bind fun _ => .ret (Outcome.success ()))
      fun _ => Outside w .main := by
  have hstep : ∀ {o : Op} {r : o.Res} {s s' : World srv W}, (∀ req, o ≠ .zoo req) →
      (∀ m, (∀ p ∈ (o.effect .main m).lock.path, p ∈ m.lock.path) ∧
        (o.effect .main m).lock.id = m.lock.id ∧
        (o.effect .main m).lock.ownerid = m.lock.ownerid ∧
        (o.effect .main m).lock.pmutex = m.lock.pmutex) → s.pmutex w ≠ some .main →
      (cycleContract sid key w .main cb : Contract Op.Res (World srv W)).sem o s r s' →
      (cycleContract sid key w .main cb : Contract Op.Res (World srv W)).guar o s r s' ∧
        s'.pmutex w ≠ some .main := by
    intro o r s s' hzoo heffect hs hsem
    obtain ⟨hpath, hid, hownerid, hpmutex⟩ := heffect (s.memory w)
    rw [← memory_of_sem hsem] at hpath hid hownerid hpmutex
    have hrecord := hsem.1.record w
    obtain ⟨hg, -, -⟩ := guar_of_inside hsid hkey hsem hzoo
      (fun hmoves hkept => hrecord.present hsem.1 hmoves hkept
        (hrecord.present_of_not_leaving fun hl => hs hl.1)
        (fun p hp => hrecord.lockPath p (hpath p hp)) hid hownerid)
      (fun th' _ hth' => ⟨hpmutex.trans hth', hid⟩) nofun
    exact ⟨hg, fun hmain => hs (hpmutex.symm.trans hmain)⟩
  have hfree : ∀ o, (cycleContract sid key w .main cb : Contract Op.Res (World srv W)).Stable o
      fun s => s.pmutex w ≠ some .main := fun _ _ _ hr hs => (hr.2.2 rfl).pmutex hs
  refine Triple.step (o := Op.efreePath) (fun _ s => s.pmutex w ≠ some .main)
    (fun _ hs => hs) (hfree _)
    (fun s r s' hs hsem => hstep nofun (fun m => ⟨fun _ hp => hp, rfl, rfl, rfl⟩) hs hsem)
    fun _ => ?_
  refine Triple.step (o := Op.store .lockDestroy) (fun _ s => s.pmutex w ≠ some .main)
    (fun _ hs => hs) (hfree _)
    (fun s r s' hs hsem => hstep nofun (fun m => ⟨nofun, rfl, rfl, rfl⟩) hs hsem) fun _ => ?_
  refine Triple.step (o := Op.pthreadMutexDestroy) (fun _ s => s.pmutex w ≠ some .main)
    (fun _ hs => hs) (hfree _)
    (fun s r s' hs hsem => hstep nofun (fun m => ⟨fun _ hp => hp, rfl, rfl, rfl⟩) hs hsem)
    fun _ => ?_
  refine Triple.step (o := Op.store (.lockIsOwner false)) (fun _ s => s.pmutex w ≠ some .main)
    (fun _ hs => hs) (hfree _)
    (fun s r s' hs hsem => hstep nofun (fun m => ⟨fun _ hp => hp, rfl, rfl, rfl⟩) hs hsem)
    fun _ => ?_
  refine Triple.step (o := Op.store (.isLocked false)) (fun _ => Outside w .main)
    (fun _ hs => hs) (hfree _) (fun s r s' hs hsem => ?_) fun _ => .ret fun _ hs => hs
  obtain ⟨hg, -⟩ := hstep (o := Op.store (.isLocked false)) nofun
    (fun m => ⟨fun _ hp => hp, rfl, rfl, rfl⟩) hs hsem
  refine ⟨hg, fun _ => ?_⟩
  rw [memory_of_sem hsem]
  rfl

/-- **`PS_CLOSE`** leaves the session unlocked. -/
theorem triple_psClose (hsid : Function.Injective sid) (hkey : ShortKey key) :
    Triple (cycleContract sid key w .main (some .psClose) : Contract Op.Res (World srv W))
      (fun _ => True) psClose fun _ => Outside w .main := by
  refine Triple.step (o := Op.load) (fun (m : PhpZookeeperSession) s =>
    (s.memory w).isLocked = m.isLocked) (fun _ hs => hs) (Contract.Stable.true _)
    (fun s m s' hs hsem => ?_) fun m => ?_
  · obtain ⟨hg, -, -, -⟩ := guar_of_lockReq hsid hkey hsem (fun req hreq => by cases hreq)
      (.refl _) nofun
    obtain ⟨-, -, d, -, hperf⟩ := hsem
    obtain ⟨rfl, rfl⟩ := Prod.mk.inj (Option.some.inj hperf)
    exact ⟨hg, rfl⟩
  split_ifs with hlocked
  · exact ((triple_zkrLockUnlock hsid hkey).pre fun s hs => hs.trans hlocked).bind fun _ =>
      triple_zkrLockDestroy hsid hkey
  · exact .ret fun s hs _ => hs.trans (Bool.eq_false_iff.mpr hlocked)

end Cycles

end PhpZookeeper
