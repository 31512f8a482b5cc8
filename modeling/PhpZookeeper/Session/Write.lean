import PhpZookeeper.Session.Retry
import PhpZookeeper.Server.Tree
import PhpZookeeper.System.Workers

/-!
# A write whose requests are lost

`PS_WRITE` asks whether its node exists, and makes the node or sets its data; the second loop
decides between the two by the status of its own last request, so a lost `set` is followed by a
`create`. `writeStores_iff` says which losses a write survives.
-/

namespace PhpZookeeper

open Theory Prog Status

variable {srv : Server} {W : Type} [DecidableEq W]

/-! ### Losses -/

/-- Which requests are lost: for each in turn, `none` when it is answered, else whether the
service has applied it. When the list has ended, every request is answered. -/
abbrev Losses := List (Option Bool)

/-- What becomes of the next request. -/
def Losses.fate (π : Losses) : Fate :=
  match π.head?.join with
  | none => .answered
  | some applied => .failed .connectionLoss applied

/-- The operations of a worker's main thread, alone with the service, when the requests `π` are
lost. -/
def lossySem (w : W) (sid : Sid) :
    (o : Op) → World srv W × Losses → o.Res → World srv W × Losses → Prop
  | .zoo r, s, a, s' =>
    ∃ c, s.1.perform w sid .main { choice := c, fate := s.2.fate } (.zoo r) = some (a, s'.1) ∧
      s'.2 = s.2.tail
  | o, s, a, s' => ∃ d, s.1.perform w sid .main d o = some (a, s'.1) ∧ s'.2 = s.2

/-- The losses before the next answer: whether each was applied. -/
def Losses.leading : Losses → List Bool
  | some applied :: π => applied :: Losses.leading π
  | _ => []

/-- What follows the next answer. -/
def Losses.afterAnswer : Losses → Losses
  | some _ :: π => Losses.afterAnswer π
  | none :: π => π
  | [] => []

/-- The losses of the second loop of `PS_WRITE`, which begins after the first answer. -/
def Losses.ofStore (π : Losses) : List Bool := π.afterAnswer.leading

theorem Losses.of_answered {π : Losses} (h : π.head?.join = none) :
    π.afterAnswer = π.tail ∧ π.leading = [] := by
  match π, h with
  | [], _ => exact ⟨rfl, rfl⟩
  | none :: π, _ => exact ⟨rfl, rfl⟩

theorem Losses.of_lost {π : Losses} {applied : Bool} (h : π.head?.join = some applied) :
    π.afterAnswer = Losses.afterAnswer π.tail ∧ π.leading = applied :: Losses.leading π.tail := by
  match π, h with
  | some _ :: π, rfl => exact ⟨rfl, rfl⟩

/-! ### What a write is to do -/

/-- The write returns, and whenever it does it has succeeded and the node's data is `val`. -/
def WriteStores (w : W) (sid : Sid) (key : CString) (val : Bytes) (s : World srv W) (π : Losses) :
    Prop :=
  (∃ a s', Returns (lossySem w sid) (psWrite key val) (s, π) a s') ∧
    ∀ a s', Returns (lossySem w sid) (psWrite key val) (s, π) a s' → a = .success () ∧
      ∃ n, s'.1.nodes (s.memory w).path = some n ∧ n.data = some val

/-- The losses that a write survives: of a node that is there, none of a `set`; of a node that is
not, none of a `create` that has been applied. -/
def WriteSurvives (w : W) (s : World srv W) (π : Losses) : Prop :=
  validPath (s.memory w).path false ∧
    match s.nodes (s.memory w).path with
    | some _ => π.ofStore = []
    | none => s.nodes.IsDirectory (parentOf (s.memory w).path) ∧ true ∉ π.ofStore

/-! ### Requests that may be lost -/

section Requests

variable {w : W} {sid : Sid} {r : Req} {s s' : World srv W × Losses} {a : Reply}

/-- A request is answered, or its reply is lost, as the losses say. -/
theorem lossySem_zoo (h : lossySem w sid (.zoo r) s a s') :
    s'.1.memory = s.1.memory ∧ s'.2 = s.2.tail ∧
      ∃ b t, Answers sid r s.1.nodes b t ∧
        match s.2.head?.join with
        | none => a = b.received r ∧ s'.1.nodes = t
        | some applied => a.rc = ZCONNECTIONLOSS ∧
            s'.1.nodes = if applied then t else s.1.nodes := by
  obtain ⟨c, h, htail⟩ := h
  obtain ⟨b, t, hans, hmem, hres⟩ :=
    s.1.request_spec w sid (d := { choice := c, fate := s.2.fate }) rfl r
  simp only [World.perform, Option.some.injEq] at h
  rw [h] at hmem hres
  refine ⟨hmem, htail, b, t, hans, ?_⟩
  unfold Losses.fate at hres
  cases hπ : s.2.head?.join with
  | none => simpa only [hπ] using hres
  | some applied =>
    simp only [hπ] at hres
    exact ⟨by rw [hres.1]; rfl, hres.2⟩

/-- The request that is answered ends its loop, the one that is lost begins another round. -/
theorem lossySem_rc (h : lossySem w sid (.zoo r) s a s') :
    a.rc = ZCONNECTIONLOSS ↔ s.2.head?.join ≠ none := by
  obtain ⟨-, -, b, t, hans, hres⟩ := lossySem_zoo h
  cases hπ : s.2.head?.join with
  | none =>
    simp only [hπ] at hres
    simp [hres.1, hans.rc_ne_failure]
  | some applied =>
    simp only [hπ] at hres
    simp [hres.1]

theorem exists_lossySem (w : W) (sid : Sid) (r : Req) (s : World srv W × Losses) :
    ∃ a s', lossySem w sid (.zoo r) s a s' := by
  obtain ⟨c⟩ := srv.answers
  exact ⟨_, (_, s.2.tail), c, rfl, rfl⟩

/-- A retry loop ends when the losses have. -/
theorem exists_returns_retryLoop (w : W) (sid : Sid) (request : Status → Req) (status : Status)
    (s : World srv W × Losses) :
    ∃ a s', Returns (lossySem w sid) (retryLoop request status) s a s' := by
  obtain ⟨s, π⟩ := s
  induction π generalizing s status with
  | nil =>
    obtain ⟨a, s', h⟩ := exists_lossySem w sid (request status) (s, [])
    have hrc : a.rc ≠ ZCONNECTIONLOSS := by
      rw [ne_eq, lossySem_rc h]
      simp
    exact ⟨a, s', returns_retryLoop_iff.mpr ⟨a, s', h, by rw [if_neg hrc]; exact ⟨rfl, rfl⟩⟩⟩
  | cons x π ih =>
    obtain ⟨a, s', h⟩ := exists_lossySem w sid (request status) (s, x :: π)
    by_cases hrc : a.rc = ZCONNECTIONLOSS
    · obtain ⟨b, s'', h'⟩ := ih ZCONNECTIONLOSS s'.1
      have hπ : s'.2 = π := (lossySem_zoo h).2.1
      exact ⟨b, s'', returns_retryLoop_iff.mpr ⟨a, s', h, by
        rw [if_pos hrc, show s' = (s'.1, π) by rw [← hπ]]
        exact h'⟩⟩
    · exact ⟨a, s', returns_retryLoop_iff.mpr ⟨a, s', h, by rw [if_neg hrc]; exact ⟨rfl, rfl⟩⟩⟩

end Requests

/-! ### The two loops of a write -/

/-- The request of the second loop of `PS_WRITE`. -/
def storeRequest (p : CString) (val : Bytes) (status : Status) : Req :=
  if status ≠ ZOK then .zooCreate p (some val) (some .zooOpenAclUnsafe) {} 0
  else .zooSet p val (-1)

/-- A `create` of the node cannot succeed, now or later in the loop. -/
def Blocked (p : CString) (s : World srv W × Losses) : Prop :=
  validPath p false = false ∨ s.1.nodes p ≠ none ∨ ¬ s.1.nodes.IsDirectory (parentOf p) ∨
    true ∈ s.2.leading

section Loops

variable {w : W} {sid : Sid} {p : CString} {val : Bytes} {status : Status}
  {s s' : World srv W × Losses} {a : Reply}

theorem returns_psWrite_iff {key : CString} {out : Outcome Unit} :
    Returns (lossySem w sid) (psWrite key val) s out s' ↔
      ∃ a s₁ b, Returns (lossySem w sid)
          (retryLoop (fun _ => .zooExists (s.1.memory w).path) ZOK) s a s₁ ∧
        Returns (lossySem w sid)
          (retryLoop (storeRequest (s.1.memory w).path val) a.rc) s₁ b s' ∧
        out = if b.rc = ZOK then .success () else .failure := by
  simp only [psWrite, bind_eq, perform_bind, returns_op_iff, returns_bind_iff, lossySem,
    World.perform]
  constructor
  · rintro ⟨_, t, ⟨-, h, ht⟩, a, s₁, h₁, b, s₂, h₂, hout⟩
    obtain ⟨rfl, hs⟩ := Prod.mk.inj (Option.some.inj h)
    obtain rfl : s = t := Prod.ext hs ht.symm
    refine ⟨a, s₁, b, h₁, ?_, ?_⟩
    · split_ifs at hout <;> obtain ⟨-, rfl⟩ := returns_ret_iff.mp hout <;> exact h₂
    · split_ifs at hout ⊢ <;> exact (returns_ret_iff.mp hout).1
  · rintro ⟨a, s₁, b, h₁, h₂, rfl⟩
    obtain ⟨c⟩ := srv.answers
    refine ⟨_, s, ⟨{ choice := c }, rfl, rfl⟩, a, s₁, h₁, b, s', h₂, ?_⟩
    split_ifs <;> exact returns_ret_iff.mpr ⟨rfl, rfl⟩

/-- The first loop finds out whether the node is there, and ends with the first answer. -/
theorem returns_existsLoop
    (h : Returns (lossySem w sid) (retryLoop (fun _ => .zooExists p) status) s a s') :
    s'.1.nodes = s.1.nodes ∧ s'.2 = s.2.afterAnswer ∧
      (a.rc = ZOK ↔ validPath p false ∧ s.1.nodes p ≠ none) := by
  refine retryLoop_induction h
    (P := fun _ t => t.1.nodes = s.1.nodes ∧ t.2.afterAnswer = s.2.afterAnswer)
    (Q := fun a s' => s'.1.nodes = s.1.nodes ∧ s'.2 = s.2.afterAnswer ∧
      (a.rc = ZOK ↔ validPath p false ∧ s.1.nodes p ≠ none)) ⟨rfl, rfl⟩ ?_
  rintro - t b t' ⟨hn, hπ⟩ hz
  obtain ⟨-, htail, b', u, hans, hres⟩ := lossySem_zoo hz
  obtain ⟨rfl, hcases⟩ := hans.zooExists
  have hrc := lossySem_rc hz
  rw [htail]
  cases hl : t.2.head?.join with
  | some applied =>
    simp only [hl, ite_self] at hres
    rw [if_pos (hrc.mpr (by simp [hl]))]
    exact ⟨hres.2.trans hn, by rw [← hπ, (Losses.of_lost hl).1]⟩
  | none =>
    simp only [hl] at hres
    rw [if_neg (fun h => hrc.mp h hl), hres.1, hres.2, ← hπ, (Losses.of_answered hl).1]
    refine ⟨hn, rfl, ?_⟩
    rw [hn] at hcases
    rcases hcases with ⟨hv, hrc⟩ | ⟨hv, hrc⟩ | ⟨n, hv, hval, hrc, -⟩
    · simp [hrc, hv]
    · simp [hrc, hv]
    · simp [hrc, hv, hval]

/-- A `create` that cannot succeed leaves the loop with an error, whatever is lost. -/
theorem rc_ne_of_blocked
    (h : Returns (lossySem w sid) (retryLoop (storeRequest p val) status) s a s')
    (hst : status ≠ ZOK) (hb : Blocked p s) : a.rc ≠ ZOK := by
  refine retryLoop_induction h (P := fun status t => status ≠ ZOK ∧ Blocked p t)
    (Q := fun a _ => a.rc ≠ ZOK) ⟨hst, hb⟩ ?_
  rintro status t b t' ⟨hst, hb⟩ hz
  rw [storeRequest, if_pos hst] at hz
  obtain ⟨-, htail, b', u, hans, hres⟩ := lossySem_zoo hz
  have hcreate := hans.zooCreate
  simp only [Bool.false_eq_true, if_false] at hcreate
  have hrc := lossySem_rc hz
  cases hl : t.2.head?.join with
  | some applied =>
    simp only [hl] at hres
    rw [if_pos (hrc.mpr (by simp [hl]))]
    refine ⟨by simp, ?_⟩
    rw [Blocked, (Losses.of_lost hl).2] at hb
    rw [Blocked, htail, hres.2]
    cases applied with
    | false => simpa using hb
    | true =>
      -- the lost `create` was applied: the node is there from now on
      rcases hcreate with ⟨d, n, q, k, -, -, -, -, rfl, -, -, -, -, -, rfl⟩ | ⟨rfl, -, hno⟩
      · exact .inr (.inl (by simp))
      · rcases hno with hv | hacl | hdir | ⟨d, k, -, hp⟩
        · exact .inl hv
        · simp at hacl
        · exact .inr (.inr (.inl hdir))
        · exact .inr (.inl hp)
  | none =>
    simp only [hl] at hres
    rw [if_neg (fun h => hrc.mp h hl), hres.1, Reply.received_rc]
    rw [Blocked, (Losses.of_answered hl).2] at hb
    rcases hcreate with ⟨d, n, q, k, -, -, hd, he, rfl, hnone, -, -, -, hv, -⟩ | ⟨-, hrc, -⟩
    · rcases hb with hv' | hp | hdir | hmem
      · simp [hv] at hv'
      · exact absurd hnone hp
      · exact absurd ⟨d, hd, he⟩ hdir
      · simp at hmem
    · exact hrc

/-- A `create` of a node that is not there succeeds, unless one is lost after it was applied. -/
theorem stored_of_create
    (h : Returns (lossySem w sid) (retryLoop (storeRequest p val) status) s a s')
    (hst : status ≠ ZOK) (hv : validPath p false) (hp : s.1.nodes p = none)
    (hdir : s.1.nodes.IsDirectory (parentOf p)) (hπ : true ∉ s.2.leading) :
    a.rc = ZOK ∧ ∃ n, s'.1.nodes p = some n ∧ n.data = some val := by
  refine retryLoop_induction h
    (P := fun status t => status ≠ ZOK ∧ t.1.nodes = s.1.nodes ∧ true ∉ t.2.leading)
    (Q := fun a t => a.rc = ZOK ∧ ∃ n, t.1.nodes p = some n ∧ n.data = some val) ⟨hst, rfl, hπ⟩ ?_
  rintro status t b t' ⟨hst, hn, hπ⟩ hz
  rw [storeRequest, if_pos hst] at hz
  obtain ⟨-, htail, b', u, hans, hres⟩ := lossySem_zoo hz
  have hrc := lossySem_rc hz
  cases hl : t.2.head?.join with
  | some applied =>
    rw [(Losses.of_lost hl).2, List.mem_cons, not_or] at hπ
    simp only [hl] at hres
    rw [if_pos (hrc.mpr (by simp [hl])), htail]
    rw [Bool.eq_false_iff.mpr (Ne.symm hπ.1)] at hres
    exact ⟨by simp, hres.2.trans hn, hπ.2⟩
  | none =>
    simp only [hl] at hres
    rw [if_neg (fun h => hrc.mp h hl), hres.1, hres.2, Reply.received_rc]
    have hcreate := hans.zooCreate
    rw [hn] at hcreate
    simp only [Bool.false_eq_true, if_false] at hcreate
    rcases hcreate with ⟨d, n, q, k, hok, -, -, -, rfl, -, hdata, -, -, -, rfl⟩ | ⟨-, -, hno⟩
    · exact ⟨hok, n, by simp, hdata⟩
    · rcases hno with hv' | hacl | hdir' | ⟨d, k, -, hp'⟩
      · simp [hv] at hv'
      · simp at hacl
      · exact absurd hdir hdir'
      · exact absurd hp hp'

/-- A `set` of a node that is there succeeds, when it is not lost. -/
theorem stored_of_set (h : Returns (lossySem w sid) (retryLoop (storeRequest p val) ZOK) s a s')
    (hv : validPath p false) (hp : s.1.nodes p ≠ none) (hπ : s.2.leading = []) :
    a.rc = ZOK ∧ ∃ n, s'.1.nodes p = some n ∧ n.data = some val := by
  obtain ⟨b, s₁, hz, hk⟩ := returns_retryLoop_iff.mp h
  obtain ⟨-, -, b', u, hans, hres⟩ := lossySem_zoo hz
  cases hl : s.2.head?.join with
  | some applied => simp [(Losses.of_lost hl).2] at hπ
  | none =>
    have hrc : b.rc ≠ ZCONNECTIONLOSS := fun h => (lossySem_rc hz).mp h hl
    rw [if_neg hrc] at hk
    obtain ⟨rfl, rfl⟩ := hk
    simp only [hl] at hres
    rw [hres.1, hres.2, Reply.received_rc]
    rcases hans.zooSet with ⟨n, m, -, -, hrc', rfl⟩ | ⟨-, -, hv' | hp'⟩
    · exact ⟨hrc', _, Function.update_self .., rfl⟩
    · simp [hv] at hv'
    · exact absurd hp' hp

/-- A `set` that is lost is followed by a `create` of a node that is there. -/
theorem rc_ne_of_set_lost
    (h : Returns (lossySem w sid) (retryLoop (storeRequest p val) ZOK) s a s')
    (hp : s.1.nodes p ≠ none) (hπ : s.2.leading ≠ []) : a.rc ≠ ZOK := by
  obtain ⟨b, s₁, hz, hk⟩ := returns_retryLoop_iff.mp h
  obtain ⟨-, -, b', u, hans, hres⟩ := lossySem_zoo hz
  cases hl : s.2.head?.join with
  | none => exact absurd (Losses.of_answered hl).2 hπ
  | some applied =>
    rw [if_pos ((lossySem_rc hz).mpr (by simp [hl]))] at hk
    simp only [hl] at hres
    refine rc_ne_of_blocked hk (by simp) (.inr (.inl ?_))
    rw [hres.2]
    split_ifs
    · rcases hans.zooSet with ⟨n, m, -, -, -, rfl⟩ | ⟨rfl, -⟩
      · simp
      · exact hp
    · exact hp

/-- **What a write survives.** A write succeeds and leaves its value, whatever the service
decides, exactly when none of the losses comes between the first `set` and its answer, and none
between an applied `create` and its answer. -/
theorem writeStores_iff (w : W) (sid : Sid) (key : CString) (val : Bytes) (s : World srv W)
    (π : Losses) : WriteStores w sid key val s π ↔ WriteSurvives w s π := by
  have hruns : ∃ a s', Returns (lossySem w sid) (psWrite key val) (s, π) a s' := by
    obtain ⟨a, s₁, h₁⟩ := exists_returns_retryLoop w sid
      (fun _ => .zooExists (s.memory w).path) ZOK (s, π)
    obtain ⟨b, s₂, h₂⟩ := exists_returns_retryLoop w sid
      (storeRequest (s.memory w).path val) a.rc s₁
    exact ⟨_, s₂, returns_psWrite_iff.mpr ⟨a, s₁, b, h₁, h₂, rfl⟩⟩
  constructor
  · rintro ⟨-, hall⟩
    obtain ⟨out, s', h⟩ := hruns
    obtain ⟨rfl, -⟩ := hall out s' h
    obtain ⟨a, s₁, b, h₁, h₂, hout⟩ := returns_psWrite_iff.mp h
    obtain ⟨hn, hπ, hrc⟩ := returns_existsLoop h₁
    have hok : b.rc = ZOK := by
      by_contra hne
      simp [hne] at hout
    have hfail : a.rc ≠ ZOK → ¬ Blocked (s.memory w).path s₁ := fun ha hb =>
      rc_ne_of_blocked h₂ ha hb hok
    rw [Blocked, hn, hπ] at hfail
    unfold WriteSurvives Losses.ofStore
    cases hp : s.nodes (s.memory w).path with
    | none =>
      have ha : a.rc ≠ ZOK := by simp [hrc, hp]
      have hnb := hfail ha
      simp only [not_or] at hnb
      exact ⟨by simpa using hnb.1, not_not.mp hnb.2.2.1, hnb.2.2.2⟩
    | some n =>
      by_cases ha : a.rc = ZOK
      · refine ⟨(hrc.mp ha).1, ?_⟩
        by_contra hl
        rw [ha] at h₂
        exact rc_ne_of_set_lost h₂ (by simp [hn, hp]) (by simpa [hπ] using hl) hok
      · exact absurd (.inr (.inl (by simp [hp]))) (hfail ha)
  · rintro ⟨hv, hsurv⟩
    refine ⟨hruns, fun out s' h => ?_⟩
    obtain ⟨a, s₁, b, h₁, h₂, rfl⟩ := returns_psWrite_iff.mp h
    obtain ⟨hn, hπ, hrc⟩ := returns_existsLoop h₁
    unfold Losses.ofStore at hsurv
    have hstored : b.rc = ZOK ∧ ∃ n, s'.1.nodes (s.memory w).path = some n ∧ n.data = some val := by
      cases hp : s.nodes (s.memory w).path with
      | none =>
        simp only [hp] at hsurv
        have ha : a.rc ≠ ZOK := by simp [hrc, hp]
        exact stored_of_create h₂ ha hv (by simp [hn, hp]) (by rw [hn]; exact hsurv.1)
          (by rw [hπ]; exact hsurv.2)
      | some n =>
        simp only [hp] at hsurv
        have ha : a.rc = ZOK := hrc.mpr ⟨hv, by simp [hp]⟩
        rw [ha] at h₂
        exact stored_of_set h₂ hv (by simp [hn, hp]) (by rw [hπ]; exact hsurv)
    exact ⟨by rw [if_pos hstored.1], hstored.2⟩

end Loops

/-! ### A write that is spoilt -/

/-- The session `k` with the data `1`, and a worker that has read it. -/
def writtenWorld : World treeServer Unit where
  tree := [(phpZkParentNode, {}), (sessionPath ['k'], { data := some [1] })]
  memory _ := { path := sessionPath ['k'] }

/-- The `exists` is answered, the `set` is applied and its reply is lost: the write fails. -/
theorem write_spoilt :
    ¬ ∀ (s : World treeServer Unit) (val : Bytes) (π : Losses),
      validPath (s.memory ()).path false → s.nodes.IsDirectory (parentOf (s.memory ()).path) →
      WriteStores () 0 ['k'] val s π := by
  intro h
  have hdir : writtenWorld.nodes.IsDirectory (parentOf (writtenWorld.memory ()).path) :=
    ⟨{}, by decide, rfl⟩
  obtain ⟨⟨out, s', hrun⟩, hall⟩ := h writtenWorld [2] [none, some true] (by decide) hdir
  obtain ⟨rfl, -⟩ := hall out s' hrun
  obtain ⟨a, s₁, b, h₁, h₂, hout⟩ := returns_psWrite_iff.mp hrun
  obtain ⟨hn, hπ, hrc⟩ := returns_existsLoop h₁
  have hpresent : writtenWorld.nodes (writtenWorld.memory ()).path ≠ none := by decide
  rw [hrc.mpr ⟨by decide, hpresent⟩] at h₂
  have hfail := rc_ne_of_set_lost h₂ (by rw [hn]; exact hpresent) (by rw [hπ]; decide)
  simp [hfail] at hout

end PhpZookeeper
