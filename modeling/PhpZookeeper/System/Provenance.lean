import PhpZookeeper.System.Confinement

/-!
# Where the nodes and their data come from

In any run of any number of workers: data goes from a worker that has been asked to write it to one
that reads a key with the same path, and nowhere else; a read gives the beginning of what was
written, or was there at first (`Config.Reaches.provenance`). And each node that a run leaves and
was not there at first is one that outlives its worker, at the path of a key, or a place in a
queue, whose name tells its owner (`Config.Reaches.owners`).
-/

namespace PhpZookeeper

open Theory Prog Status

/-! ### Data -/

/-- The node at `q` holds the data `b`. -/
def Nodes.Stored (t : Nodes) (q : CString) (b : Bytes) : Prop :=
  ∃ n, t q = some n ∧ n.data = some b

/-- The path of the data of a key in `K`, or none. -/
def DataPath (K : Set CString) (p : CString) : Prop := p = [] ∨ ∃ k ∈ K, p = sessionPath k

/-- The data `b` was stored at `q` at first, or a worker that reads a key with the path `q` writes
it; or it is empty, as that of the nodes of a lock. -/
def Source {W : Type} (K : W → Set CString) (V : W → Set Bytes) (t : Nodes) (q : CString)
    (b : Bytes) : Prop :=
  t.Stored q b ∨ b = [] ∨ ∃ w, (∃ k ∈ K w, q = sessionPath k) ∧ b ∈ V w

/-- The operations that store only values in `V`, at paths of keys in `K`, and no bytes
elsewhere. -/
def StoreOp (K : Set CString) (V : Set Bytes) : Op → Prop
  | .zoo (.zooSet p val _) => DataPath K p ∧ val ∈ V
  | .zoo (.zooCreate p (some val) _ flags _) => flags.sequence = false ∧ DataPath K p ∧ val ∈ V
  | .store (.path p) => DataPath K p
  | _ => True

/-- The callback reads a key in `K`, if it reads one, and writes a value in `V`, if it writes
one. -/
def Callback.Moves (K : Set CString) (V : Set Bytes) : Callback → Prop
  | .psRead _ key => key ∈ K
  | .psWrite _ val => val ∈ V
  | _ => True

/-- What a callback may return: a read, the beginning of some data. -/
def ReadsFrom (source : Bytes → Prop) : Callback → Outcome (Option Bytes) → Prop
  | .psRead _ _, .success (some b) => ∃ b', source b' ∧ b <+: b'
  | _, _ => True

/-- Workers read keys in `K` and write values in `V`. -/
def dataFlow {W : Type} (K : W → Set CString) (V : W → Set Bytes) (t : Nodes) : Policy W where
  op w := StoreOp (K w) (V w)
  nodes t' := ∀ q b, t'.Stored q b → Source K V t q b
  record w m := DataPath (K w) m.path
  reply r a := match r with
    | .zooGet p _ => a.rc = ZOK → validPath p false = true ∧
        ∀ b, a.value = some b → ∃ b', Source K V t p b' ∧ b <+: b'
    | _ => True
  outcome w := ReadsFrom fun b => ∃ k ∈ K w, Source K V t (sessionPath k) b

section Stored

variable {t : Nodes} {q p : CString} {b : Bytes} {n : Znode}

theorem Nodes.stored_bump {k : ℕ} : (t.bump p k).Stored q b ↔ t.Stored q b := by
  have hcontent := t.bump_content p k q
  unfold Nodes.Stored
  cases hq : t q <;> cases hbump : t.bump p k q <;> simp_all [Znode.content]

theorem Nodes.stored_update (h : Nodes.Stored (Function.update t p (some n)) q b) :
    q = p ∧ n.data = some b ∨ t.Stored q b := by
  obtain ⟨m, hm, hb⟩ := h
  by_cases hq : q = p
  · subst hq
    rw [Function.update_self, Option.some.injEq] at hm
    exact .inl ⟨rfl, hm ▸ hb⟩
  · rw [Function.update_of_ne hq] at hm
    exact .inr ⟨m, hm, hb⟩

/-- What a request may store. -/
theorem StoreOp.stored {K : Set CString} {V : Set Bytes} {session : Sid} {r : Req} {a : Reply}
    {t' : Nodes} (ho : StoreOp K V (.zoo r)) (hans : Answers session r t a t')
    (h : t'.Stored q b) : t.Stored q b ∨ b = [] ∨ (∃ k ∈ K, q = sessionPath k) ∧ b ∈ V := by
  have hpath : DataPath K q → validPath q false = true → ∃ k ∈ K, q = sessionPath k := by
    rintro (rfl | hk) hv
    · cases hv
    · exact hk
  cases hans with
  | @createOk _ _ d n value _ flags _ k _ hv _ _ hq _ hvalue =>
    rcases Nodes.stored_update h with ⟨rfl, hb⟩ | h
    · rw [hvalue, Option.some.injEq] at hb
      subst hb
      cases value with
      | none => exact .inr (.inl rfl)
      | some val =>
        obtain ⟨hseq, hp, hV⟩ := ho
        simp only [hseq, Bool.false_eq_true, if_false] at hq hv
        subst hq
        exact .inr (.inr ⟨hpath hp hv, hV⟩)
    · exact .inl (Nodes.stored_bump.mp h)
  | setOk hv hn =>
    rcases Nodes.stored_update h with ⟨rfl, hb⟩ | h
    · obtain ⟨hp, hV⟩ := ho
      exact .inr (.inr ⟨hpath hp hv, Option.some.inj hb ▸ hV⟩)
    · exact .inl h
  | @deleteOk p _ _ _ k _ _ _ _ =>
    obtain ⟨m, hm, hb⟩ := h
    by_cases hq : q = p
    · subst hq
      rw [Function.update_self] at hm
      cases hm
    · rw [Function.update_of_ne hq] at hm
      exact .inl (Nodes.stored_bump.mp ⟨m, hm, hb⟩)
  | _ => exact .inl h

end Stored

/-! ### The callbacks -/

section Callbacks

variable {W : Type} {K : W → Set CString} {V : W → Set Bytes} {t : Nodes} {w : W} {session : Sid}

theorem attemptEffects_storeOp :
    AttemptEffects session (StoreOp (K w) (V w)) ((dataFlow K V t).Known w) where
  load := trivial
  fault := trivial
  nanosleep := trivial
  completion _ := trivial
  clearId := trivial
  mutexLock := trivial
  mutexUnlock := trivial
  setIsOwner _ := trivial
  setOwnerid _ := trivial
  setId _ _ := trivial
  dequeue _ _ _ _ _ _ := trivial
  exists_ _ _ := trivial
  mkdir _ _ _ := trivial
  list _ _ := trivial
  enqueue _ _ _ _ := trivial
  enqueued _ _ _ _ ha hrc := ha.1.2 rfl hrc
  watch _ _ _ _ := trivial
  names _ _ ha := ha.1.1
  usleep _ := trivial
  isLocked _ := trivial

/-- `PS_READ`, after its lock, gives the beginning of some data of a key of its worker. -/
theorem performs_psReadData {key : CString} (hkey : key ∈ K w) (g : Globals) :
    Performs (StoreOp (K w) (V w)) ((dataFlow K V t).Known w) (psReadData g key)
      ((dataFlow K V t).outcome w (.psRead g key)) := by
  refine .step (.inr ⟨key, hkey, rfl⟩) fun _ _ => .step trivial fun m _ =>
    (performs_retryLoop fun _ => trivial).bind fun a _ => ?_
  split_ifs
  · exact .ret trivial
  · exact .step trivial fun m _ =>
      (performs_retryLoop fun _ => trivial).bind fun _ _ => .ret trivial
  · refine .step trivial fun m hm => (performs_retryLoop fun _ => trivial).bind fun b hb => ?_
    split_ifs with hrc
    · exact .ret trivial
    · refine .ret ?_
      obtain ⟨-, -, hreply⟩ := hb
      obtain ⟨hv, hvalue⟩ := hreply (not_not.mp hrc)
      obtain ⟨k, hk, hpath⟩ : ∃ k ∈ K w, m.path = sessionPath k := by
        refine Or.resolve_left hm fun hnil => ?_
        rw [hnil] at hv
        cases hv
      cases hb : b.value with
      | none => trivial
      | some v =>
        obtain ⟨b', hsource, hprefix⟩ := hvalue v hb
        exact ⟨b', ⟨k, hk, hpath ▸ hsource⟩, hprefix⟩

theorem performs_psRead {key : CString} (hkey : key ∈ K w) (g : Globals) :
    Performs (StoreOp (K w) (V w)) ((dataFlow K V t).Known w) (psRead session g key)
      ((dataFlow K V t).outcome w (.psRead g key)) := by
  have hlock : Performs (StoreOp (K w) (V w)) ((dataFlow K V t).Known w)
      (phpZookeeperSessLock session g key) fun _ => True := by
    have hinit : Performs (StoreOp (K w) (V w)) ((dataFlow K V t).Known w)
        (zkrLockInit (lockPath key) (some .zooOpenAclUnsafe)) fun _ => True :=
      .step trivial fun _ _ => .step trivial fun _ _ => .ret trivial
    refine hinit.bind fun ret _ => ?_
    split_ifs
    · exact .ret trivial
    · exact attemptEffects_storeOp.lockAttempts _ _
  unfold psRead
  split_ifs
  · refine hlock.bind fun locked _ => ?_
    split_ifs
    · exact .ret trivial
    · exact performs_psReadData hkey g
  · exact performs_psReadData hkey g

/-- `PS_WRITE` stores its value at the path in the record. -/
theorem performs_psWrite {val : Bytes} (hval : val ∈ V w) (key : CString) :
    Performs (StoreOp (K w) (V w)) ((dataFlow K V t).Known w) (psWrite key val) fun _ => True := by
  refine .step trivial fun m hm => (performs_retryLoop fun _ => trivial).bind fun a _ =>
    (performs_retryLoop fun st => ?_).bind fun b _ => ?_
  · split_ifs
    · exact ⟨rfl, hm, hval⟩
    · exact ⟨hm, hval⟩
  · split_ifs
    · exact .ret trivial
    · exact .ret trivial

/-- **How data moves**, in each callback. -/
theorem performs_moves {cb : Callback} (hcb : cb.Moves (K w) (V w)) :
    Performs (StoreOp (K w) (V w)) ((dataFlow K V t).Known w) (cb.code session)
      ((dataFlow K V t).outcome w cb) := by
  cases cb with
  | psOpen => exact .ret trivial
  | psRead g key => exact performs_psRead hcb g
  | psWrite key val => exact (performs_psWrite hcb key).bind fun _ _ => .ret trivial
  | psDestroy key =>
    refine Performs.bind (M := fun _ => True) ?_ fun _ _ => .ret trivial
    refine .step trivial fun m _ => (performs_retryLoop fun _ => trivial).bind fun a _ => ?_
    split_ifs
    · exact .ret trivial
    · exact .ret trivial
  | psGc g =>
    have hgc : GcEffects (StoreOp (K w) (V w)) ((dataFlow K V t).Known w) :=
      ⟨trivial, fun _ _ => trivial, fun _ _ => trivial, fun _ ha => ha.1.1⟩
    exact (hgc.psGc g).bind fun _ _ => .ret trivial
  | psClose =>
    have hattempt : AttemptEffects session (StoreOp (K w) (V w)) ((dataFlow K V t).Known w) :=
      attemptEffects_storeOp
    have hclose : CloseEffects (StoreOp (K w) (V w)) ((dataFlow K V t).Known w) :=
      { hattempt.toUnlockEffects with
        efreePath := trivial
        lockDestroy := trivial
        mutexDestroy := trivial
        clearIsOwner := trivial
        clearIsLocked := trivial }
    exact hclose.psClose.bind fun _ _ => .ret trivial

end Callbacks

/-! ### Runs -/

section Runs

variable {W : Type} {K : W → Set CString} {V : W → Set Bytes} {t : Nodes} {sid : W → Sid}

theorem dataFlow_sound : (dataFlow K V t).Sound sid fun w cb => cb.Moves (K w) (V w) where
  effect {w th o m} ho hm := by
    cases o with
    | store a =>
      cases a with
      | path p => exact ho
      | _ => exact hm
    | _ => exact hm
  change {w} _ _ _ _ ho ht hans q b h := (ho.stored hans h).elim (ht q b) fun hb =>
    .inr (hb.imp_right fun hw => ⟨w, hw⟩)
  answered {session r t' a t''} ht hans := by
    cases r with
    | zooGet p len =>
      intro hrc
      rw [Reply.received_rc] at hrc
      rcases hans.zooGet.2 with ⟨-, hrc'⟩ | ⟨-, hrc'⟩ | ⟨n, hn, hv, -, hvalue, -⟩
      · simp [hrc] at hrc'
      · simp [hrc] at hrc'
      · refine ⟨hv, fun b hb => ?_⟩
        obtain ⟨b', hb', rfl⟩ := Option.map_eq_some_iff.mp hb
        exact ⟨b', ht p b' ⟨n, hn, hvalue ▸ hb'⟩, List.take_prefix _ _⟩
    | _ => trivial
  failed r why := by
    cases r with
    | zooGet p len => exact fun hrc => absurd hrc why.status_ne.1
    | _ => trivial
  callback hcb := performs_moves hcb
  watcher _ := attemptEffects_storeOp.toLockEffects.lockWatcherFn

/-- **Where data comes from**: what is stored was there at first, or is empty, or a worker that
reads a key with that path has written it; what a read gives is the beginning of such data, at the
path of a key that its worker reads. -/
theorem Config.Reaches.provenance {srv : Server} [DecidableEq W] {T : srv.State} {c : Config srv W}
    (h : Config.Reaches sid (Policy.Calls fun w cb => cb.Moves (K w) (V w))
      { world := { tree := T } } c) :
    (∀ q b, c.world.nodes.Stored q b → Source K V (srv.nodes T) q b) ∧
      ∀ e ∈ c.history, ∀ g key b, e.callback = .psRead g key → e.outcome = .success (some b) →
        ∃ k ∈ K e.worker, ∃ b', Source K V (srv.nodes T) (sessionPath k) b' ∧ b <+: b' := by
  have hholds := Policy.holds_of_reaches (dataFlow_sound (t := srv.nodes T))
    (Policy.holds_initial (fun _ _ hb => .inl hb) fun _ => .inl rfl) h
  refine ⟨hholds.nodes, fun e he g key b hcb hout => ?_⟩
  have hread := hholds.history e he
  simp only [dataFlow, hcb, hout, ReadsFrom] at hread
  obtain ⟨b', ⟨k, hk, hsource⟩, hprefix⟩ := hread
  exact ⟨k, hk, b', hsource, hprefix⟩

end Runs

/-! ### Owners -/

/-- A node is ephemeral when it is sequential. -/
def PlainFlags : Op → Prop
  | .zoo (.zooCreate _ _ _ flags _) => flags.ephemeral = flags.sequence
  | _ => True

/-- The owner of the node at `q` is the one that it had at first; or none, at the path of a key that
is read; or the client whose name the node has, in the queue of such a key. -/
def OwnerKnown {W : Type} (sid : W → Sid) (K : Set CString) (t : Nodes) (q : CString)
    (owner : Option Sid) : Prop :=
  (∃ m, t q = some m ∧ owner = m.ephemeralOwner) ∨
  (owner = none ∧ ∃ k ∈ K, KeyPath k q) ∨
  ∃ w n, owner = some (sid w) ∧ ∃ k ∈ K, q = childOf (lockPath k) (lockName (sid w) n)

/-- Workers read keys in `K`. -/
def ownership {W : Type} (sid : W → Sid) (K : Set CString) (gc : Prop) (t : Nodes) : Policy W where
  op w o := WorkerOp (sid w) K gc o ∧ PlainFlags o
  nodes t' := ∀ q n, t' q = some n → OwnerKnown sid K t q n.ephemeralOwner
  record w := KeyRecord (sid w) K

section Owners

variable {W : Type} {sid : W → Sid} {K : Set CString} {gc : Prop} {t : Nodes}

theorem handlerEffects_plainFlags {session : Sid} {key : CString}
    {J : PhpZookeeperSession → Prop} :
    HandlerEffects session key PlainFlags (KnownResults J) where
  load := trivial
  fault := trivial
  nanosleep := trivial
  completion _ := trivial
  clearId := trivial
  mutexLock := trivial
  mutexUnlock := trivial
  mutexInit := trivial
  mutexDestroy := trivial
  usleep _ := trivial
  isLocked _ := trivial
  setIsOwner _ := trivial
  setOwnerid _ := trivial
  setId _ _ := trivial
  lockInit := trivial
  efreePath := trivial
  lockDestroy := trivial
  setPath := trivial
  dequeue _ _ _ _ _ _ := trivial
  exists_ _ _ := trivial
  mkdir _ _ _ := rfl
  list _ _ := trivial
  enqueue _ _ _ _ := rfl
  enqueued _ _ _ _ ha hrc := ha.2 rfl hrc
  watch _ _ _ _ := trivial
  names _ _ ha := ha.1
  dataExists _ _ := trivial
  dataGet _ _ _ := trivial
  dataCreate _ _ _ := rfl
  dataSet _ _ _ := trivial
  dataDelete _ _ := trivial

theorem performs_plainFlags {session : Sid} (cb : Callback) {J : PhpZookeeperSession → Prop} :
    Performs PlainFlags (KnownResults J) (cb.code session) fun _ => True := by
  have hgc : GcEffects PlainFlags (KnownResults J) :=
    ⟨trivial, fun _ _ => trivial, fun _ _ => trivial, fun _ ha => ha.1⟩
  obtain ⟨key, hkey⟩ : ∃ key, cb.IsFor key := by
    cases cb with
    | psRead g key => exact ⟨key, rfl⟩
    | psWrite key val => exact ⟨key, rfl⟩
    | psDestroy key => exact ⟨key, rfl⟩
    | _ => exact ⟨[], trivial⟩
  exact performs_callback handlerEffects_plainFlags hkey fun _ _ => hgc

/-- A node that a request leaves has the owner it had, or has been made with its owner. -/
theorem ownerKnown_of_answers {w : W} {r : Req} {a : Reply} {t₁ t₂ : Nodes} {q : CString}
    {n : Znode} (ho : WorkerOp (sid w) K gc (.zoo r)) (hflags : PlainFlags (.zoo r))
    (h₁ : ∀ q n, t₁ q = some n → OwnerKnown sid K t q n.ephemeralOwner)
    (hans : Answers (sid w) r t₁ a t₂) (hn : t₂ q = some n) :
    OwnerKnown sid K t q n.ephemeralOwner := by
  have hbump : ∀ {p k}, t₁.bump p k q = some n → OwnerKnown sid K t q n.ephemeralOwner := by
    intro p k hq
    have hcontent := t₁.bump_content p k q
    rw [hq, Option.map_some] at hcontent
    obtain ⟨m, hm, heq⟩ := Option.map_eq_some_iff.mp hcontent.symm
    have howner : m.content.ephemeralOwner = n.content.ephemeralOwner := by rw [heq]
    exact howner ▸ h₁ q m hm
  cases hans with
  | @createOk p _ d n' value acl flags len k q' hv _ _ hq _ _ howner =>
    by_cases hqq : q = q'
    swap
    · rw [Function.update_of_ne hqq] at hn
      exact hbump hn
    subst hqq
    rw [Function.update_self, Option.some.injEq] at hn
    subst hn
    obtain hkey | ⟨-, hread | ⟨x, -, hx⟩⟩ := ho
    · obtain ⟨key, hkey, hfor⟩ := hkey hv
      have hsame : flags.ephemeral = flags.sequence := hflags
      rw [howner, hsame]
      simp only [Req.IsFor] at hfor
      split_ifs at hfor hq ⊢
      · refine .inr (.inr ⟨w, d.cseq + k, rfl, key, hkey, ?_⟩)
        rw [hq, hfor]
        simp [childOf, lockName]
      · exact .inr (.inl ⟨rfl, key, hkey, hq ▸ hfor⟩)
    · cases hread
    · cases hx
  | @setOk p _ n' _ _ _ _ hp =>
    by_cases hqq : q = p
    · subst hqq
      rw [Function.update_self, Option.some.injEq] at hn
      subst hn
      exact h₁ q n' hp
    · rw [Function.update_of_ne hqq] at hn
      exact h₁ q n hn
  | @deleteOk p =>
    by_cases hqq : q = p
    · subst hqq
      rw [Function.update_self] at hn
      cases hn
    · rw [Function.update_of_ne hqq] at hn
      exact hbump hn
  | _ => exact h₁ q n hn

theorem ownership_sound : (ownership sid K gc t).Sound sid fun _ cb => cb.ReadsIn K gc where
  effect ho hm := hm.workerOp ho.1 _
  change ho ht hans _ _ hn := ownerKnown_of_answers ho.1 ho.2 ht hans hn
  answered _ _ := trivial
  failed _ _ := trivial
  callback {_ cb} hcb := (((performs_readsIn hcb).and (performs_plainFlags cb)).mono
    fun _ _ => trivial).weaken (fun _ h => h) fun _ _ h => h.knownResults
  watcher w := by
    have hplain : HandlerEffects (sid w) [] PlainFlags (KnownResults (KeyRecord (sid w) K)) :=
      handlerEffects_plainFlags
    exact ((performs_lockWatcherFn.and hplain.toLockEffects.lockWatcherFn).mono
      fun _ _ => trivial).weaken (fun _ h => h) fun _ _ h => h.knownResults

/-- **Whose the nodes are.** A node that was not there at first outlives its worker, and is at the
path of a key that has been read; or it is a place in the queue of such a key, whose name tells its
owner, the id that its worker's handle has had from the beginning. -/
theorem Config.Reaches.owners {srv : Server} [DecidableEq W] {T : srv.State} {c : Config srv W}
    (h : Config.Reaches sid (Policy.Calls fun _ cb => cb.ReadsIn K gc) { world := { tree := T } } c)
    {q : CString} {n : Znode} (hn : c.world.nodes q = some n) :
    OwnerKnown sid K (srv.nodes T) q n.ephemeralOwner := by
  have hsound : (ownership sid K gc (srv.nodes T)).Sound sid fun _ cb => cb.ReadsIn K gc :=
    ownership_sound
  have hholds := Policy.holds_of_reaches hsound
    (Policy.holds_initial (fun _ m hm => .inl ⟨m, hm, rfl⟩) fun _ => keyRecord_initial) h
  exact hholds.nodes q n hn

end Owners

/-! ### Two runs -/

/-- One worker writes to `k`, and the other one reads it. -/
def sharedSteps : List (Label treeServer Bool) :=
  callbackSteps false (.psRead { sessionLock := false } ['k']) ++
    callbackSteps false (.psWrite ['k'] [1]) ++
    callbackSteps true (.psRead { sessionLock := false } ['k'])

/-- The step reads no key but `k`, and only the first worker writes, and only `[1]`. -/
def checkMoves (_ : Config treeServer Bool) : Label treeServer Bool → Bool
  | .start _ (.psRead _ key) => key = ['k']
  | .start w (.psWrite _ val) => !w && decide (val = [1])
  | _ => true

theorem moves_of_check {c : Config treeServer Bool} {l : Label treeServer Bool}
    (h : checkMoves c l = true) :
    Policy.Calls (fun w cb => cb.Moves {['k']} (if w then ∅ else {[1]})) c l := by
  rintro w cb rfl
  cases cb with
  | psRead g key => simpa [checkMoves, Callback.Moves] using h
  | psWrite key val =>
    simp only [checkMoves, Bool.and_eq_true, Bool.not_eq_true', decide_eq_true_eq] at h
    obtain ⟨rfl, rfl⟩ := h
    rfl
  | _ => trivial

theorem provenance_shared : ⟨true, .psRead { sessionLock := false } ['k'], .success (some [1])⟩ ∈
      (twoWorkers.run twoSids sharedSteps).history ∧
    ∃ k ∈ ({['k']} : Set CString), ∃ b', Source (fun _ : Bool => {['k']})
      (fun w => if w then ∅ else {[1]}) (treeServer.nodes twoWorkers.world.tree) (sessionPath k)
      b' ∧ [1] <+: b' := by
  have hreach : Config.Reaches twoSids
      (Policy.Calls fun w cb => cb.Moves {['k']} (if w then ∅ else {[1]})) twoWorkers
      (twoWorkers.run twoSids sharedSteps) :=
    Config.Reaches.refl.run_of_checks (fun _ _ => moves_of_check) (by decide +kernel)
  have hmem : ⟨true, .psRead { sessionLock := false } ['k'], .success (some [1])⟩ ∈
      (twoWorkers.run twoSids sharedSteps).history := by decide +kernel
  exact ⟨hmem, hreach.provenance.2 _ hmem _ _ _ rfl rfl⟩

/-- Both workers read `k`, and the second one waits behind the first one. -/
def lockedSteps : List (Label treeServer Bool) :=
  callbackSteps false (.psRead {} ['k']) ++ .start true (.psRead {} ['k']) :: mainSteps true 30

/-- The step reads no key but `k`, and collects nothing. -/
def checkReadsOne (_ : Config treeServer Bool) : Label treeServer Bool → Bool
  | .start _ (.psRead _ key) => key = ['k']
  | .start _ (.psGc _) => false
  | _ => true

theorem readsOne_of_check {c : Config treeServer Bool} {l : Label treeServer Bool}
    (h : checkReadsOne c l = true) : Policy.Calls (fun _ cb => cb.ReadsIn {['k']} False) c l := by
  rintro w cb rfl
  cases cb with
  | psRead g key => simpa [checkReadsOne, Callback.ReadsIn] using h
  | psGc g => cases h
  | _ => trivial

/-- The place of the first worker in the queue of `k`. -/
theorem owners_locked : OwnerKnown twoSids {['k']} (treeServer.nodes twoWorkers.world.tree)
    (childOf (lockPath ['k']) (lockName 0 0)) (some 0) := by
  have hreach : Config.Reaches twoSids (Policy.Calls fun _ cb => cb.ReadsIn {['k']} False)
      twoWorkers (twoWorkers.run twoSids lockedSteps) :=
    Config.Reaches.refl.run_of_checks (fun _ _ => readsOne_of_check) (by decide +kernel)
  have hnode : (twoWorkers.run twoSids lockedSteps).world.nodes
      (childOf (lockPath ['k']) (lockName 0 0)) =
      some { data := some [], ephemeralOwner := some 0 } := by
    decide +kernel
  exact hreach.owners hnode

end PhpZookeeper
