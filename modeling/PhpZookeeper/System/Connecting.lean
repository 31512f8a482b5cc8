import PhpZookeeper.Session.Handlers
import Mathlib.Data.Fin.Basic

/-!
# Making the parent node

Any number of workers run `php_zookeeper_session_init`: each asks whether the parent node is there
and makes it if not, and what others do in between, or a reply that is lost, is not foreseen. A
step is one request of one worker, which is answered or whose reply is lost, after the service has
applied it or before. `connects_iff` says which steps lead to a worker that opens no session, and
`connect_fails` is a run of each kind.

A handle has been got from `zookeeper_init`, and each request sees what the requests before it have
done.
-/

namespace PhpZookeeper

open Theory Prog Status

variable {W : Type}

/-! ### The workers -/

/-- The nodes, and what each worker has still to do. -/
structure Connecting (W : Type) where
  nodes : Nodes
  code : W → Code (Outcome Unit)

/-- A step of a worker. -/
inductive ConnectStep (W : Type) where
  /-- Its request is answered. -/
  | answered (w : W)
  /-- The reply to its request is lost. -/
  | lost (w : W) (applied : Bool)
  /-- It enters a round of the loop. -/
  | round (w : W)

/-- Every worker is at the beginning. -/
def Connecting.begin (t : Nodes) : Connecting W where
  nodes := t
  code _ := phpZookeeperSessionInit true

/-- The request that makes the parent node. -/
def createParent : Req := .zooCreate phpZkParentNode none (some .zooOpenAclUnsafe) {} 0

/-- What follows the loop. -/
def afterCreate (b : Reply) : Code (Outcome Unit) :=
  if b.rc ≠ ZOK then .ret (.error "Failed to create parent node for sessions")
  else .ret (.success ())

/-- The code of a worker that is to enter a round of the loop. -/
def createLoop (status : Status) : Code (Outcome Unit) :=
  (retryLoop (fun _ => createParent) status).bind afterCreate

/-- The code of a worker that is to make the parent node. -/
def createRound : Code (Outcome Unit) :=
  .op (.zoo createParent) fun a =>
    if a.rc = ZCONNECTIONLOSS then createLoop ZCONNECTIONLOSS else afterCreate a

/-- The worker has been told that there is no parent node, and has not yet made it. -/
def Asks (p : Code (Outcome Unit)) : Prop := (∃ status, p = createLoop status) ∨ p = createRound

namespace Connecting

variable [DecidableEq W]

/-- The worker `w` goes on with `p`, and leaves the nodes `t`. -/
def goesOn (c : Connecting W) (w : W) (t : Nodes) (p : Code (Outcome Unit)) : Connecting W where
  nodes := t
  code := Function.update c.code w p

/-- One step. -/
inductive Step (sid : W → Sid) (c : Connecting W) : ConnectStep W → Connecting W → Prop where
  | answered {w : W} {r : Req} {k : Reply → Code (Outcome Unit)} {a : Reply} {t : Nodes} :
      c.code w = .op (.zoo r) k → Answers (sid w) r c.nodes a t →
      Step sid c (.answered w) (c.goesOn w t (k (a.received r)))
  | lost {w : W} {r : Req} {k : Reply → Code (Outcome Unit)} {a : Reply} {t : Nodes}
      {applied : Bool} : c.code w = .op (.zoo r) k → Answers (sid w) r c.nodes a t →
      Step sid c (.lost w applied)
        (c.goesOn w (if applied then t else c.nodes) (k { rc := ZCONNECTIONLOSS }))
  | round {w : W} {β γ : Type} {body : β → Code (β ⊕ γ)} {b : β} {k : γ → Code (Outcome Unit)} :
      c.code w = .iter body b k →
      Step sid c (.round w) (c.goesOn w c.nodes ((body b).bind (again body k)))

/-- `Reaches sid ok c₀ c`: a run from `c₀` to `c` whose steps are `ok`. -/
inductive Reaches (sid : W → Sid) (ok : Connecting W → ConnectStep W → Prop)
    (c₀ : Connecting W) : Connecting W → Prop where
  | refl : Reaches sid ok c₀ c₀
  | step {c c' : Connecting W} {l : ConnectStep W} : Reaches sid ok c₀ c → ok c l →
      Step sid c l c' → Reaches sid ok c₀ c'

omit [DecidableEq W] in
/-- The parent node is made by a worker that is told so, while no other one is about to make it. -/
def Orderly (c : Connecting W) : ConnectStep W → Prop
  | .answered w => c.code w = createRound → c.nodes phpZkParentNode = none →
      ∀ v, v ≠ w → ¬ Asks (c.code v)
  | .lost w applied => c.code w = createRound → c.nodes phpZkParentNode = none → applied = false
  | .round _ => True

end Connecting

/-- What a worker may do while no other one acts and its requests are answered. -/
def answeredSem (session : Sid) : (o : Op) → Nodes → o.Res → Nodes → Prop
  | .zoo r, t, a, t' => ∃ b, Answers session r t b t' ∧ a = b.received r
  | _, _, _, _ => False

/-- A worker that is left alone ends, with an open session. -/
def OpensSession (session : Sid) (t : Nodes) (p : Code (Outcome Unit)) : Prop :=
  (∃ a t', Returns (answeredSem session) p t a t') ∧
    ∀ a t', Returns (answeredSem session) p t a t' → a = .success ()

/-! ### The code -/

/-- The code before the loop. -/
theorem sessionInit_eq : phpZookeeperSessionInit true = .op (.zoo (.zooExists phpZkParentNode))
    fun a => if a.rc = ZNONODE then createLoop a.rc else .ret (.success ()) := by
  unfold phpZookeeperSessionInit createLoop
  simp only [Bool.not_true, Bool.false_eq_true, if_false, bind_eq, perform_bind]
  rfl

/-- One round of the loop. -/
theorem createLoop_eq (status : Status) : ∃ (body : Status × ℤ → Code ((Status × ℤ) ⊕ Reply)),
    createLoop status = .iter body (status, 3) afterCreate ∧
      (body (status, 3)).bind (again body afterCreate) = createRound := by
  refine ⟨_, rfl, congrArg (Prog.op (Op.zoo createParent)) (funext fun a => ?_)⟩
  by_cases ha : a.rc = ZCONNECTIONLOSS
  · simp only [ha, true_and, if_true, ret_bind]
    rfl
  · simp only [ha, false_and, if_false, ret_bind]
    rfl

/-- A worker that enters a round is to make the parent node. -/
theorem round_of_createLoop {status : Status} {β γ : Type} {body : β → Code (β ⊕ γ)} {b : β}
    {k : γ → Code (Outcome Unit)} (h : createLoop status = .iter body b k) :
    (body b).bind (again body k) = createRound := by
  obtain ⟨body', heq, hround⟩ := createLoop_eq status
  rw [heq] at h
  cases h
  exact hround

theorem zoo_inj {r r' : Req} {k k' : Reply → Code (Outcome Unit)}
    (h : (Prog.op (.zoo r) k : Code (Outcome Unit)) = .op (.zoo r') k') : r = r' ∧ k = k' := by
  simp only [Prog.op.injEq, Op.zoo.injEq] at h
  obtain ⟨rfl, hk⟩ := h
  exact ⟨rfl, eq_of_heq hk⟩

theorem createLoop_ne_op (status : Status) (o : Op) (k : o.Res → Code (Outcome Unit)) :
    createLoop status ≠ .op o k := by
  intro h
  obtain ⟨body, heq, -⟩ := createLoop_eq status
  rw [heq] at h
  cases h

theorem sessionInit_ne_createRound : phpZookeeperSessionInit true ≠ createRound := by
  intro h
  rw [sessionInit_eq] at h
  cases (zoo_inj h).1

theorem validPath_parentNode : validPath phpZkParentNode false = true := by decide

theorem parentOf_parentNode : parentOf phpZkParentNode = [] := by decide

theorem parentNode_ne_nil : ([] : CString) ≠ phpZkParentNode := by decide

/-! ### The parent node -/

section Answer

variable {sid : Sid} {t t' : Nodes} {a : Reply}

/-- What the first request tells. -/
theorem answers_exists (h : Answers sid (.zooExists phpZkParentNode) t a t') :
    t' = t ∧ (a.rc = ZNONODE → t phpZkParentNode = none) := by
  obtain ⟨ht, hrest⟩ := h.zooExists
  refine ⟨ht, fun hrc => ?_⟩
  rcases hrest with ⟨hv, -⟩ | ⟨hnone, -⟩ | ⟨n, -, -, hok, -⟩
  · exact absurd validPath_parentNode (by simp [hv])
  · exact hnone
  · simp [hrc] at hok

/-- Whoever finds no parent node makes it. -/
theorem answers_create (h : Answers sid createParent t a t') (hdir : t.IsDirectory [])
    (hnone : t phpZkParentNode = none) :
    a.rc = ZOK ∧ t' phpZkParentNode ≠ none ∧ t'.IsDirectory [] := by
  rcases h.zooCreate with ⟨d, n, q, k, hrc, -, hd, he, hq, -, -, -, -, -, ht'⟩ | ⟨-, -, hfail⟩
  · have hq' : q = phpZkParentNode := hq
    rw [parentOf_parentNode] at hd ht'
    rw [hq'] at ht'
    refine ⟨hrc, by rw [ht']; simp, { d with cseq := d.cseq + (k + 1) }, ?_, he⟩
    rw [ht', Function.update_of_ne parentNode_ne_nil, Nodes.bump, Function.update_self, hd]
    rfl
  · rcases hfail with hv | hacl | hdir' | ⟨d, k, -, hsome⟩
    · exact absurd validPath_parentNode (by simpa using hv)
    · cases hacl
    · rw [parentOf_parentNode] at hdir'
      exact absurd hdir hdir'
    · exact absurd hnone hsome

/-- Whoever finds it there is told so. -/
theorem answers_create_there (h : Answers sid createParent t a t')
    (hsome : t phpZkParentNode ≠ none) : a.rc ≠ ZOK ∧ a.rc ≠ ZCONNECTIONLOSS := by
  refine ⟨?_, h.rc_ne_failure⟩
  rcases h.zooCreate with ⟨d, n, q, k, -, -, -, -, hq, hnone, -⟩ | ⟨-, hrc, -⟩
  · rw [show q = phpZkParentNode from hq] at hnone
    exact absurd hnone hsome
  · exact hrc

/-- There is an answer to each of the requests. -/
theorem exists_answers_exists (sid : Sid) (t : Nodes) :
    ∃ a t', Answers sid (.zooExists phpZkParentNode) t a t' := by
  cases ht : t phpZkParentNode with
  | none => exact ⟨_, _, .existsNoNode validPath_parentNode ht⟩
  | some n => exact ⟨_, _, .existsOk validPath_parentNode ht⟩

theorem exists_answers_create (sid : Sid) (hdir : t.IsDirectory []) :
    ∃ a t', Answers sid createParent t a t' := by
  obtain ⟨d, hd, he⟩ := hdir
  rw [← parentOf_parentNode] at hd
  cases ht : t phpZkParentNode with
  | none =>
    exact ⟨_, _, .createOk (n := { data := some [] }) (k := 0) validPath_parentNode hd he rfl ht rfl
      rfl rfl⟩
  | some n => exact ⟨_, _, .createNodeExists (k := 0) validPath_parentNode hd ht⟩

end Answer

/-! ### A worker that is left alone -/

section Alone

variable {sid : Sid} {t : Nodes} {p : Code (Outcome Unit)}

theorem returns_createRound {a : Outcome Unit} {t' : Nodes}
    (h : Returns (answeredSem sid) createRound t a t') :
    ∃ b, Answers sid createParent t b t' ∧ Returns (answeredSem sid) (afterCreate b) t' a t' := by
  obtain ⟨r, t₁, ⟨b, hb, rfl⟩, hrest⟩ := returns_op_iff.mp h
  have hloss : (b.received createParent).rc ≠ ZCONNECTIONLOSS := by
    rw [Reply.received_rc]
    exact hb.rc_ne_failure
  rw [if_neg hloss] at hrest
  have hafter : afterCreate (b.received createParent) = afterCreate b := by
    simp only [afterCreate, Reply.received_rc]
  rw [hafter] at hrest
  have ht : t' = t₁ := by
    unfold afterCreate at hrest
    split_ifs at hrest <;> exact (returns_ret_iff.mp hrest).2
  subst ht
  exact ⟨b, hb, hrest⟩

theorem returns_createRound_of {a : Reply} {t' : Nodes} (h : Answers sid createParent t a t') :
    ∃ b, Returns (answeredSem sid) createRound t b t' := by
  have hloss : (a.received createParent).rc ≠ ZCONNECTIONLOSS := by
    rw [Reply.received_rc]
    exact h.rc_ne_failure
  refine ⟨if a.rc ≠ ZOK then .error "Failed to create parent node for sessions" else .success (),
    returns_op_iff.mpr ⟨_, _, ⟨a, h, rfl⟩, ?_⟩⟩
  rw [if_neg hloss]
  unfold afterCreate
  rw [Reply.received_rc]
  split_ifs <;> exact returns_ret_iff.mpr ⟨rfl, rfl⟩

theorem returns_asks {a : Outcome Unit} {t' : Nodes} (hp : Asks p) :
    Returns (answeredSem sid) p t a t' ↔ Returns (answeredSem sid) createRound t a t' := by
  rcases hp with ⟨status, rfl⟩ | rfl
  · obtain ⟨body, heq, hround⟩ := createLoop_eq status
    rw [heq, returns_iter_iff, hround]
  · rfl

/-- A worker that is about to make the parent node opens a session if and only if it is not there
yet. -/
theorem opensSession_asks_iff (sid : Sid) (hdir : t.IsDirectory []) (hp : Asks p) :
    OpensSession sid t p ↔ t phpZkParentNode = none := by
  constructor
  · rintro ⟨⟨a, t', hr⟩, hall⟩
    obtain rfl := hall a t' hr
    by_contra hsome
    obtain ⟨b, hb, hafter⟩ := returns_createRound ((returns_asks hp).mp hr)
    rw [afterCreate, if_pos (answers_create_there hb hsome).1] at hafter
    cases (returns_ret_iff.mp hafter).1
  · intro hnone
    constructor
    · obtain ⟨a, t', ha⟩ := exists_answers_create sid hdir
      obtain ⟨b, hb⟩ := returns_createRound_of ha
      exact ⟨b, t', (returns_asks hp).mpr hb⟩
    · intro a t' hr
      obtain ⟨b, hb, hafter⟩ := returns_createRound ((returns_asks hp).mp hr)
      rw [afterCreate, if_neg (not_not.mpr (answers_create hb hdir hnone).1)] at hafter
      exact (returns_ret_iff.mp hafter).1

theorem opensSession_start (hdir : t.IsDirectory []) :
    OpensSession sid t (phpZookeeperSessionInit true) := by
  rw [sessionInit_eq]
  constructor
  · obtain ⟨a, t', ha⟩ := exists_answers_exists sid t
    obtain ⟨rfl, hnone⟩ := answers_exists ha
    by_cases hrc : a.rc = ZNONODE
    · obtain ⟨⟨b, t₂, hb⟩, -⟩ := (opensSession_asks_iff sid hdir
        (.inl ⟨a.rc, rfl⟩)).mpr (hnone hrc)
      refine ⟨b, t₂, returns_op_iff.mpr ⟨_, _, ⟨a, ha, rfl⟩, ?_⟩⟩
      simpa only [Reply.received, hrc, if_true] using hb
    · refine ⟨.success (), t', returns_op_iff.mpr ⟨_, _, ⟨a, ha, rfl⟩, ?_⟩⟩
      simp only [Reply.received, hrc, if_false]
      exact returns_ret_iff.mpr ⟨rfl, rfl⟩
  · intro b t' hr
    obtain ⟨r, t₁, ⟨a, ha, rfl⟩, hrest⟩ := returns_op_iff.mp hr
    obtain ⟨rfl, hnone⟩ := answers_exists ha
    split_ifs at hrest with hrc
    · exact ((opensSession_asks_iff sid hdir (.inl ⟨_, rfl⟩)).mpr (hnone hrc)).2 b t' hrest
    · exact (returns_ret_iff.mp hrest).1

theorem opensSession_opened : OpensSession sid t (.ret (.success ())) :=
  ⟨⟨_, t, returns_ret_iff.mpr ⟨rfl, rfl⟩⟩, fun _ _ h => (returns_ret_iff.mp h).1⟩

end Alone

/-! ### Runs -/

/-- Where a worker may be. -/
inductive Worker (t : Nodes) : Code (Outcome Unit) → Prop where
  | start : Worker t (phpZookeeperSessionInit true)
  | asks {p : Code (Outcome Unit)} : Asks p → t phpZkParentNode = none → Worker t p
  | opened : Worker t (.ret (.success ()))

theorem Worker.cases {t : Nodes} {p : Code (Outcome Unit)} (h : Worker t p) :
    p = phpZookeeperSessionInit true ∨
      ((∃ status, p = createLoop status) ∨ p = createRound) ∧ t phpZkParentNode = none ∨
      p = .ret (.success ()) := by
  cases h with
  | start => exact .inl rfl
  | asks hp hnone => exact .inr (.inl ⟨hp, hnone⟩)
  | opened => exact .inr (.inr rfl)

/-- A worker that is not about to make the parent node does not mind it. -/
theorem Worker.mono {t t' : Nodes} {p : Code (Outcome Unit)} (h : Worker t p)
    (ht : t phpZkParentNode = none → t' phpZkParentNode ≠ none → ¬ Asks p) : Worker t' p := by
  cases h with
  | start => exact .start
  | asks hp hnone =>
    by_cases ht' : t' phpZkParentNode = none
    · exact .asks hp ht'
    · exact absurd hp (ht hnone ht')
  | opened => exact .opened

theorem Worker.opensSession {sid : Sid} {t : Nodes} {p : Code (Outcome Unit)} (h : Worker t p)
    (hdir : t.IsDirectory []) : OpensSession sid t p := by
  cases h with
  | start => exact opensSession_start hdir
  | asks hp hnone => exact (opensSession_asks_iff _ hdir hp).mpr hnone
  | opened => exact opensSession_opened

namespace Connecting

variable [DecidableEq W] {sid : W → Sid} {c c' : Connecting W} {l : ConnectStep W}

omit [DecidableEq W] in
/-- Every worker is where it may be. -/
structure Fine (c : Connecting W) : Prop where
  root : c.nodes.IsDirectory []
  worker : ∀ w, Worker c.nodes (c.code w)

/-- A step that has made no parent node. -/
theorem Fine.goesOn (h : c.Fine) {w : W} {t : Nodes} {p : Code (Outcome Unit)}
    (hroot : t.IsDirectory []) (hp : Worker t p)
    (hothers : ∀ v, v ≠ w → c.nodes phpZkParentNode = none → t phpZkParentNode ≠ none →
      ¬ Asks (c.code v)) : (c.goesOn w t p).Fine := by
  refine ⟨hroot, fun v => ?_⟩
  by_cases hv : v = w
  · subst hv
    simpa [Connecting.goesOn] using hp
  · simpa [Connecting.goesOn, hv] using (h.worker v).mono (hothers v hv)

theorem Fine.goesOn_same (h : c.Fine) {w : W} {p : Code (Outcome Unit)} (hp : Worker c.nodes p) :
    (c.goesOn w c.nodes p).Fine :=
  h.goesOn h.root hp fun _ _ hnone hsome => absurd hnone hsome

omit [DecidableEq W] in
/-- What becomes of a worker that is about to make a node that another one has made. -/
theorem not_opensSession (hroot : c.nodes.IsDirectory []) {w : W}
    (hsome : c.nodes phpZkParentNode ≠ none) (hw : Asks (c.code w)) :
    ¬ OpensSession (sid w) c.nodes (c.code w) :=
  fun h => hsome ((opensSession_asks_iff _ hroot hw).mp h)

/-- A request that is answered. -/
theorem Fine.answered (h : c.Fine) {w : W} {r : Req} {k : Reply → Code (Outcome Unit)} {a : Reply}
    {t : Nodes} (hcode : c.code w = .op (.zoo r) k) (hans : Answers (sid w) r c.nodes a t) :
    (Orderly c (.answered w) → (c.goesOn w t (k (a.received r))).Fine) ∧
      (¬ Orderly c (.answered w) → ∃ v, ¬ OpensSession (sid v) t
        ((c.goesOn w t (k (a.received r))).code v)) := by
  rcases (h.worker w).cases with hw | ⟨⟨status, hw⟩ | hw, hnone⟩ | hw
  · refine ⟨fun _ => ?_, fun hnot => absurd (fun hround => ?_) hnot⟩
    · rw [hw, sessionInit_eq] at hcode
      obtain ⟨rfl, rfl⟩ := zoo_inj hcode
      obtain ⟨rfl, hnode⟩ := answers_exists hans
      refine h.goesOn_same ?_
      dsimp only
      split_ifs with hrc
      · exact .asks (.inl ⟨_, rfl⟩) (hnode hrc)
      · exact .opened
    · exact absurd (hw.symm.trans hround) sessionInit_ne_createRound
  · exact absurd (hw.symm.trans hcode) (createLoop_ne_op status _ _)
  · rw [hw] at hcode
    obtain ⟨rfl, rfl⟩ := zoo_inj hcode
    obtain ⟨hrc, hsome, hroot⟩ := answers_create hans h.root hnone
    have hrc' : (a.received createParent).rc = ZOK := by rw [Reply.received_rc, hrc]
    dsimp only
    rw [hrc', if_neg (by decide), afterCreate, if_neg (not_not.mpr hrc')]
    refine ⟨fun hok => h.goesOn hroot .opened fun v hv _ _ => hok hw hnone v hv, fun hnot => ?_⟩
    simp only [Orderly, hw, hnone, forall_const, not_forall, not_not] at hnot
    obtain ⟨v, hv, hasks⟩ := hnot
    refine ⟨v, not_opensSession (c := c.goesOn w t (.ret (.success ()))) hroot hsome ?_⟩
    simpa [Connecting.goesOn, hv] using hasks
  · rw [hw] at hcode
    cases hcode

/-- A request whose reply is lost. -/
theorem Fine.lost (h : c.Fine) {w : W} {r : Req} {k : Reply → Code (Outcome Unit)} {a : Reply}
    {t : Nodes} {applied : Bool} (hcode : c.code w = .op (.zoo r) k)
    (hans : Answers (sid w) r c.nodes a t) :
    (Orderly c (.lost w applied) →
      (c.goesOn w (if applied then t else c.nodes) (k { rc := ZCONNECTIONLOSS })).Fine) ∧
      (¬ Orderly c (.lost w applied) → ∃ v, ¬ OpensSession (sid v)
        (if applied then t else c.nodes)
        ((c.goesOn w (if applied then t else c.nodes) (k { rc := ZCONNECTIONLOSS })).code v)) := by
  rcases (h.worker w).cases with hw | ⟨⟨status, hw⟩ | hw, hnone⟩ | hw
  · refine ⟨fun _ => ?_, fun hnot => absurd (fun hround => ?_) hnot⟩
    · rw [hw, sessionInit_eq] at hcode
      obtain ⟨rfl, rfl⟩ := zoo_inj hcode
      obtain ⟨rfl, -⟩ := answers_exists hans
      rw [ite_self]
      exact h.goesOn_same .opened
    · exact absurd (hw.symm.trans hround) sessionInit_ne_createRound
  · exact absurd (hw.symm.trans hcode) (createLoop_ne_op status _ _)
  · rw [hw] at hcode
    obtain ⟨rfl, rfl⟩ := zoo_inj hcode
    cases applied with
    | false =>
      exact ⟨fun _ => h.goesOn_same (.asks (.inl ⟨_, rfl⟩) hnone), fun hnot => absurd
        (fun _ _ => rfl) hnot⟩
    | true =>
      obtain ⟨-, hsome, hroot⟩ := answers_create hans h.root hnone
      refine ⟨fun hok => absurd (hok hw hnone) (by decide), fun _ => ⟨w, ?_⟩⟩
      refine not_opensSession (c := c.goesOn w t (createLoop ZCONNECTIONLOSS)) hroot hsome ?_
      exact .inl ⟨ZCONNECTIONLOSS, by simp [Connecting.goesOn]⟩
  · rw [hw] at hcode
    cases hcode

/-- A round is entered. -/
theorem Fine.round (h : c.Fine) {w : W} {β γ : Type} {body : β → Code (β ⊕ γ)} {b : β}
    {k : γ → Code (Outcome Unit)} (hcode : c.code w = .iter body b k) :
    (c.goesOn w c.nodes ((body b).bind (again body k))).Fine := by
  rcases (h.worker w).cases with hw | ⟨⟨status, hw⟩ | hw, hnone⟩ | hw
  · rw [hw, sessionInit_eq] at hcode
    cases hcode
  · rw [round_of_createLoop (hw.symm.trans hcode)]
    exact h.goesOn_same (.asks (.inr rfl) hnone)
  · rw [hw, createRound] at hcode
    cases hcode
  · rw [hw] at hcode
    cases hcode

/-- **One step**: an orderly one leaves every worker where it may be, another one leaves a worker
that will open no session. -/
theorem Fine.step (h : c.Fine) (hstep : Step sid c l c') : (Orderly c l → c'.Fine) ∧
    (¬ Orderly c l → ∃ w, ¬ OpensSession (sid w) c'.nodes (c'.code w)) := by
  cases hstep with
  | answered hcode hans => exact h.answered hcode hans
  | lost hcode hans => exact h.lost hcode hans
  | round hcode => exact ⟨fun _ => h.round hcode, fun hnot => absurd trivial hnot⟩

omit [DecidableEq W] in
theorem fine_begin {t : Nodes} (ht : t.IsDirectory []) : (begin t : Connecting W).Fine :=
  ⟨ht, fun _ => .start⟩

theorem Fine.reaches {c₀ : Connecting W} (h₀ : c₀.Fine) (h : Reaches sid Orderly c₀ c) :
    c.Fine := by
  induction h with
  | refl => exact h₀
  | step _ hok hstep ih => exact (ih.step hstep).1 hok

/-- **In every state that a run reaches whose steps are orderly, each worker that goes on alone ends
with an open session; and the first step that is not orderly leaves a worker that does not.** -/
theorem connects_iff (sid : W → Sid) {t : Nodes} (ht : t.IsDirectory []) {c : Connecting W}
    (h : Reaches sid Orderly (begin t) c) :
    (∀ w, OpensSession (sid w) c.nodes (c.code w)) ∧
      ∀ l c', Step sid c l c' →
        ((∀ w, OpensSession (sid w) c'.nodes (c'.code w)) ↔ Orderly c l) := by
  have hfine := (fine_begin ht).reaches h
  refine ⟨fun w => (hfine.worker w).opensSession hfine.root, fun l c' hstep => ?_⟩
  obtain ⟨hok, hnot⟩ := hfine.step hstep
  constructor
  · intro hall
    by_contra hbad
    obtain ⟨w, hw⟩ := hnot hbad
    exact hw (hall w)
  · intro horderly w
    have hfine' := hok horderly
    exact (hfine'.worker w).opensSession hfine'.root

/-! ### Two runs -/

section Steps

variable (sid)

/-- A worker is told that there is no parent node. -/
theorem step_exists {w : W} (hw : c.code w = phpZookeeperSessionInit true)
    (hnone : c.nodes phpZkParentNode = none) :
    Step sid c (.answered w) (c.goesOn w c.nodes (createLoop ZNONODE)) := by
  rw [sessionInit_eq] at hw
  exact .answered hw (.existsNoNode validPath_parentNode hnone)

theorem step_round {w : W} (status : Status) (hw : c.code w = createLoop status) :
    Step sid c (.round w) (c.goesOn w c.nodes createRound) := by
  obtain ⟨body, heq, hround⟩ := createLoop_eq status
  rw [heq] at hw
  rw [← hround]
  exact .round hw

/-- A worker is told that there is a parent node, and is done. -/
theorem step_found {w : W} {n : Znode} (hw : c.code w = phpZookeeperSessionInit true)
    (hn : c.nodes phpZkParentNode = some n) :
    Step sid c (.answered w) (c.goesOn w c.nodes (.ret (.success ()))) := by
  rw [sessionInit_eq] at hw
  exact .answered hw (.existsOk validPath_parentNode hn)

/-- A worker makes the parent node, and is told so. -/
theorem exists_step_create {w : W} (hw : c.code w = createRound) (hroot : c.nodes.IsDirectory [])
    (hnone : c.nodes phpZkParentNode = none) : ∃ t, t.IsDirectory [] ∧
      t phpZkParentNode ≠ none ∧
      Step sid c (.answered w) (c.goesOn w t (.ret (.success ()))) := by
  obtain ⟨a, t, ha⟩ := exists_answers_create (sid w) hroot
  obtain ⟨hrc, hsome, hroot'⟩ := answers_create ha hroot hnone
  have hnext : (if (a.received createParent).rc = ZCONNECTIONLOSS then createLoop ZCONNECTIONLOSS
      else afterCreate (a.received createParent)) = .ret (.success ()) := by
    rw [Reply.received_rc, hrc, if_neg (by decide), afterCreate, Reply.received_rc, hrc,
      if_neg (by decide)]
  refine ⟨t, hroot', hsome, ?_⟩
  rw [← hnext]
  exact .answered hw ha

/-- A worker's request to make the parent node is lost on the way. -/
theorem step_lost_before {w : W} (hw : c.code w = createRound) (hroot : c.nodes.IsDirectory []) :
    Step sid c (.lost w false) (c.goesOn w c.nodes (createLoop ZCONNECTIONLOSS)) := by
  obtain ⟨a, t, ha⟩ := exists_answers_create (sid w) hroot
  have hstep : Step sid c (.lost w false) _ := .lost hw ha
  exact hstep

/-- A worker makes the parent node, and is not told so. -/
theorem exists_step_lost {w : W} (hw : c.code w = createRound) (hroot : c.nodes.IsDirectory [])
    (hnone : c.nodes phpZkParentNode = none) : ∃ t, t.IsDirectory [] ∧
      t phpZkParentNode ≠ none ∧
      Step sid c (.lost w true) (c.goesOn w t (createLoop ZCONNECTIONLOSS)) := by
  obtain ⟨a, t, ha⟩ := exists_answers_create (sid w) hroot
  obtain ⟨-, hsome, hroot'⟩ := answers_create ha hroot hnone
  have hstep : Step sid c (.lost w true) _ := .lost hw ha
  exact ⟨t, hroot', hsome, hstep⟩

/-- A worker is told that there is a parent node already. -/
theorem exists_step_error {w : W} (hw : c.code w = createRound) (hroot : c.nodes.IsDirectory [])
    (hsome : c.nodes phpZkParentNode ≠ none) :
    ∃ t, Step sid c (.answered w)
      (c.goesOn w t (.ret (.error "Failed to create parent node for sessions"))) := by
  obtain ⟨a, t, ha⟩ := exists_answers_create (sid w) hroot
  obtain ⟨hrc, hloss⟩ := answers_create_there ha hsome
  have hnext : (if (a.received createParent).rc = ZCONNECTIONLOSS then createLoop ZCONNECTIONLOSS
      else afterCreate (a.received createParent)) =
      .ret (.error "Failed to create parent node for sessions") := by
    rw [Reply.received_rc, if_neg hloss, afterCreate, Reply.received_rc, if_pos hrc]
  refine ⟨t, ?_⟩
  rw [← hnext]
  exact .answered hw ha

end Steps

/-- The nodes of a service that has only just been set up. -/
def onlyRoot : Nodes := fun p => if p = [] then some {} else none

theorem onlyRoot_isDirectory : onlyRoot.IsDirectory [] := ⟨{}, by decide, rfl⟩

/-- The sessions of two workers. -/
def twoSids (w : Bool) : Sid := if w then 1 else 0

theorem not_asks_start : ¬ Asks (phpZookeeperSessionInit true) := by
  rintro (⟨status, hloop⟩ | hround)
  · rw [sessionInit_eq] at hloop
    exact createLoop_ne_op status _ _ hloop.symm
  · exact sessionInit_ne_createRound hround

/-- One worker asks, loses a request, and makes the node; the other one finds it. -/
theorem connects_two : ∃ c : Connecting Bool, Reaches twoSids Orderly (begin onlyRoot) c ∧
    c.nodes phpZkParentNode ≠ none ∧ (∀ w, c.code w = .ret (.success ())) ∧
    (∀ w, OpensSession (twoSids w) c.nodes (c.code w)) ∧
    ∀ l c', Step twoSids c l c' →
      ((∀ w, OpensSession (twoSids w) c'.nodes (c'.code w)) ↔ Orderly c l) := by
  let c₁ := (begin onlyRoot).goesOn false onlyRoot (createLoop ZNONODE)
  let c₂ := c₁.goesOn false onlyRoot createRound
  let c₃ := c₂.goesOn false onlyRoot (createLoop ZCONNECTIONLOSS)
  let c₄ := c₃.goesOn false onlyRoot createRound
  have hask : Step twoSids (begin onlyRoot) (.answered false) c₁ :=
    step_exists twoSids rfl (by decide)
  have hround : Step twoSids c₁ (.round false) c₂ :=
    step_round twoSids ZNONODE (by simp [c₁, goesOn])
  have hlost : Step twoSids c₂ (.lost false false) c₃ :=
    step_lost_before twoSids (by simp [c₂, goesOn]) onlyRoot_isDirectory
  have hagain : Step twoSids c₃ (.round false) c₄ :=
    step_round twoSids ZCONNECTIONLOSS (by simp [c₃, goesOn])
  obtain ⟨t, hroot, hsome, hmake⟩ := exists_step_create twoSids (w := false) (c := c₄)
    (by simp [c₄, goesOn]) onlyRoot_isDirectory (by decide)
  obtain ⟨n, hn⟩ := Option.ne_none_iff_exists'.mp hsome
  have hfound := step_found twoSids (w := true) (c := c₄.goesOn false t (.ret (.success ())))
    (by simp [c₄, c₃, c₂, c₁, goesOn, begin]) hn
  have h₁ : Reaches twoSids Orderly (begin onlyRoot) c₁ :=
    .step (l := .answered false) .refl (fun h => absurd h sessionInit_ne_createRound) hask
  have h₂ : Reaches twoSids Orderly (begin onlyRoot) c₂ :=
    .step (l := .round false) h₁ trivial hround
  have h₃ : Reaches twoSids Orderly (begin onlyRoot) c₃ :=
    .step (l := .lost false false) h₂ (fun _ _ => rfl) hlost
  have h₄ : Reaches twoSids Orderly (begin onlyRoot) c₄ :=
    .step (l := .round false) h₃ trivial hagain
  -- the second worker has not asked yet
  have hmade := h₄.step (l := .answered false) (fun _ _ v hv hasks => by
    obtain rfl : v = true := by simpa using hv
    exact not_asks_start (by simpa [c₄, c₃, c₂, c₁, goesOn, begin] using hasks)) hmake
  have hreaches := hmade.step (l := .answered true) (fun h _ _ _ _ =>
    absurd (by simpa [c₄, c₃, c₂, c₁, goesOn, begin] using h) sessionInit_ne_createRound) hfound
  refine ⟨_, hreaches, hsome, fun w => ?_, connects_iff twoSids onlyRoot_isDirectory hreaches⟩
  cases w <;> simp [goesOn]

/-- A worker that may make the parent node: all it has done is to ask whether it is there. -/
theorem exists_reaches_createRound (w : Bool) : ∃ c : Connecting Bool,
    Reaches twoSids (fun _ _ => True) (begin onlyRoot) c ∧ c.code w = createRound ∧
      c.code (!w) = phpZookeeperSessionInit true ∧ c.nodes = onlyRoot := by
  have hasked := step_exists twoSids (c := begin onlyRoot) (w := w) rfl (by decide)
  have hround := step_round twoSids ZNONODE
    (c := (begin onlyRoot).goesOn w onlyRoot (createLoop ZNONODE)) (w := w) (by simp [goesOn])
  refine ⟨_, (Reaches.refl.step trivial hasked).step trivial hround, ?_, ?_, rfl⟩
  · simp [goesOn]
  · cases w <;> rfl

/-- Two workers are told that there is no parent node, and the second to make it raises the error;
and so does one worker alone whose first reply is lost. -/
theorem connect_fails :
    (∃ c : Connecting Bool, Reaches twoSids (fun _ _ => True) (begin onlyRoot) c ∧
      c.code true = .ret (.error "Failed to create parent node for sessions")) ∧
    ∃ c : Connecting Bool, Reaches twoSids (fun _ _ => True) (begin onlyRoot) c ∧
      c.code false = phpZookeeperSessionInit true ∧
      c.code true = .ret (.error "Failed to create parent node for sessions") := by
  obtain ⟨c, hreaches, hround, hstart, hnodes⟩ := exists_reaches_createRound true
  have hroot : c.nodes.IsDirectory [] := hnodes ▸ onlyRoot_isDirectory
  have hnone : c.nodes phpZkParentNode = none := hnodes ▸ (by decide)
  constructor
  · -- the other worker asks, and makes the node first
    have hasked := step_exists twoSids (w := false) hstart hnone
    have hround' := step_round twoSids ZNONODE
      (c := c.goesOn false c.nodes (createLoop ZNONODE)) (w := false) (by simp [goesOn])
    obtain ⟨t, hroot', hsome, hmade⟩ := exists_step_create twoSids (w := false)
      (c := (c.goesOn false c.nodes (createLoop ZNONODE)).goesOn false c.nodes createRound)
      (by simp [goesOn]) hroot hnone
    obtain ⟨t', herror⟩ := exists_step_error twoSids (w := true)
      (c := ((c.goesOn false c.nodes (createLoop ZNONODE)).goesOn false c.nodes
        createRound).goesOn false t (.ret (.success ()))) (by simpa [goesOn] using hround) hroot'
      hsome
    refine ⟨_, ((((hreaches.step trivial hasked).step trivial hround').step trivial hmade).step
      trivial herror), ?_⟩
    simp [goesOn]
  · obtain ⟨t, hroot', hsome, hlost⟩ := exists_step_lost twoSids hround hroot hnone
    have hround' := step_round twoSids ZCONNECTIONLOSS
      (c := c.goesOn true t (createLoop ZCONNECTIONLOSS)) (w := true) (by simp [goesOn])
    obtain ⟨t', herror⟩ := exists_step_error twoSids (w := true)
      (c := (c.goesOn true t (createLoop ZCONNECTIONLOSS)).goesOn true t createRound)
      (by simp [goesOn]) hroot' hsome
    refine ⟨_, ((hreaches.step trivial hlost).step trivial hround').step trivial herror, ?_, ?_⟩
    · simpa [goesOn] using hstart
    · simp [goesOn]

end Connecting

end PhpZookeeper
