import PhpZookeeper.Session.Handlers

/-!
# The retry loops of the session handler

Each loop sets `retry_count = 3`, adds one after a request, and takes one away when it goes
round again: the count never changes, and a loop ends only with a reply that is no connection
loss. `run_retryLoop_iff` is what one round of a loop does, for any service; the rest of the
module counts the requests of each handler against a stream of replies.
-/

namespace PhpZookeeper

open Theory Prog Status

/-! ### One round -/

section Round

variable {S : Type} {sem : (o : Op) → S → o.Res → S → Prop} {s s' : S} {a : Reply}
  {request : Status → Req} {status : Status}

/-- A retry loop makes its request, and starts afresh when the connection is lost. -/
theorem run_retryLoop_iff {tr : List Op} :
    Run sem (retryLoop request status) s tr a s' ↔
      ∃ b s₁ tr', sem (.zoo (request status)) s b s₁ ∧
        (if b.rc = ZCONNECTIONLOSS then Run sem (retryLoop request ZCONNECTIONLOSS) s₁ tr' a s'
          else tr' = [] ∧ a = b ∧ s' = s₁) ∧ tr = .zoo (request status) :: tr' := by
  conv_lhs => unfold retryLoop loop
  rw [run_iter_iff]
  simp only [bind_eq, perform_bind, op_bind, run_op_iff]
  refine exists_congr fun b => exists_congr fun s₁ => exists_congr fun tr' =>
    and_congr_right fun _ => and_congr_left fun _ => ?_
  by_cases h : b.rc = ZCONNECTIONLOSS
  · simp only [h, true_and, if_true]
    rfl
  · simp only [h, false_and, if_false, pure_eq, ret_bind, again_inr, run_ret_iff]

theorem returns_retryLoop_iff :
    Returns sem (retryLoop request status) s a s' ↔
      ∃ b s₁, sem (.zoo (request status)) s b s₁ ∧
        if b.rc = ZCONNECTIONLOSS then Returns sem (retryLoop request ZCONNECTIONLOSS) s₁ a s'
        else a = b ∧ s' = s₁ := by
  constructor
  · rintro ⟨tr, h⟩
    obtain ⟨b, s₁, tr', hs, hk, rfl⟩ := run_retryLoop_iff.mp h
    refine ⟨b, s₁, hs, ?_⟩
    split_ifs at hk ⊢ with hb
    · exact ⟨tr', hk⟩
    · exact hk.2
  · rintro ⟨b, s₁, hs, hk⟩
    split_ifs at hk with hb
    · obtain ⟨tr', hk⟩ := hk
      exact ⟨_, run_retryLoop_iff.mpr ⟨b, s₁, tr', hs, by rwa [if_pos hb], rfl⟩⟩
    · exact ⟨_, run_retryLoop_iff.mpr ⟨b, s₁, [], hs, by rw [if_neg hb]; exact ⟨rfl, hk⟩, rfl⟩⟩

/-- Induction over the rounds of a retry loop: `P` holds before each request, with the status
that decides it, and `Q` of the reply the loop ends with. -/
theorem retryLoop_induction {P : Status → S → Prop} {Q : Reply → S → Prop}
    (h : Returns sem (retryLoop request status) s a s') (hP : P status s)
    (round : ∀ status s b s₁, P status s → sem (.zoo (request status)) s b s₁ →
      if b.rc = ZCONNECTIONLOSS then P ZCONNECTIONLOSS s₁ else Q b s₁) : Q a s' := by
  obtain ⟨tr, h⟩ := h
  induction tr generalizing status s with
  | nil =>
    obtain ⟨_, _, _, _, _, h⟩ := run_retryLoop_iff.mp h
    cases h
  | cons o tr ih =>
    obtain ⟨b, s₁, tr', hs, hk, htr⟩ := run_retryLoop_iff.mp h
    obtain ⟨rfl, rfl⟩ := List.cons.inj htr
    have hr := round _ _ _ _ hP hs
    split_ifs at hk hr with hb
    · exact ih hr hk
    · obtain ⟨-, rfl, rfl⟩ := hk
      exact hr

end Round

/-! ### Streams of replies -/

/-- A worker and the number of requests that have been answered. -/
structure Served where
  memory : PhpZookeeperSession
  served : ℕ := 0

/-- The operations of a worker whose `i`-th request gets the reply `ρ i`. -/
def streamSem (ρ : ℕ → Reply) : (o : Op) → Served → o.Res → Served → Prop
  | .zoo _, s, a, s' => a = ρ s.served ∧ s' = { s with served := s.served + 1 }
  | .load, s, m, s' => m = s.memory ∧ s' = s
  | .store v, s, _, s' => s' = { s with memory := v.apply s.memory }
  | _, s, _, s' => s' = s

/-- `i` is the first request, from the `n`-th on, that gets a reply other than
`ZCONNECTIONLOSS`. -/
def FirstAnswer (ρ : ℕ → Reply) (n i : ℕ) : Prop :=
  n ≤ i ∧ (ρ i).rc ≠ ZCONNECTIONLOSS ∧ ∀ j, n ≤ j → j < i → (ρ j).rc = ZCONNECTIONLOSS

/-- The handlers that retry their requests. -/
inductive RetryHandler where
  | sessionInit
  | read (g : Globals) (key : CString)
  | write (key : CString) (val : Bytes)
  | destroy (key : CString)

/-- The code of a handler, `PS_READ` without its lock. -/
def RetryHandler.code : RetryHandler → Code Unit
  | .sessionInit => do
    let _ ← phpZookeeperSessionInit true
    return ()
  | .read g key => do
    let _ ← psReadData g key
    return ()
  | .write key val => do
    let _ ← psWrite key val
    return ()
  | .destroy key => do
    let _ ← psDestroy key
    return ()

/-- The handler returns after at most `K` requests, when the replies are `ρ`. -/
def RetryHandler.ReturnsWithin (K : ℕ) (h : RetryHandler) (ρ : ℕ → Reply)
    (m : PhpZookeeperSession) : Prop :=
  ∃ s, Returns (streamSem ρ) h.code { memory := m } () s ∧ s.served ≤ K

/-- Enough of the first `K` replies are no connection losses: one for each of the handler's
loops that is entered. -/
def RetryHandler.Answered (K : ℕ) (ρ : ℕ → Reply) : RetryHandler → Prop
  | .sessionInit =>
    1 ≤ K ∧ ((ρ 0).rc = ZNONODE → ∃ i, 1 ≤ i ∧ i < K ∧ (ρ i).rc ≠ ZCONNECTIONLOSS)
  | .read _ _ =>
    ∃ i, i < K ∧ FirstAnswer ρ 0 i ∧
      ((ρ i).rc = ZOK → ∃ j, i < j ∧ j < K ∧ (ρ j).rc ≠ ZCONNECTIONLOSS)
  | .write _ _ =>
    ∃ i j, i < j ∧ j < K ∧ (ρ i).rc ≠ ZCONNECTIONLOSS ∧ (ρ j).rc ≠ ZCONNECTIONLOSS
  | .destroy _ => ∃ i, i < K ∧ (ρ i).rc ≠ ZCONNECTIONLOSS

variable {ρ : ℕ → Reply}

theorem FirstAnswer.exists_of {n i : ℕ} (hn : n ≤ i) (hi : (ρ i).rc ≠ ZCONNECTIONLOSS) :
    ∃ j, FirstAnswer ρ n j ∧ j ≤ i := by
  classical
  have hex : ∃ j, n ≤ j ∧ (ρ j).rc ≠ ZCONNECTIONLOSS := ⟨i, hn, hi⟩
  refine ⟨Nat.find hex, ⟨(Nat.find_spec hex).1, (Nat.find_spec hex).2, fun j hj hlt => ?_⟩,
    Nat.find_min' hex ⟨hn, hi⟩⟩
  by_contra h
  exact Nat.find_min hex hlt ⟨hj, h⟩

theorem FirstAnswer.unique {n i j : ℕ} (hi : FirstAnswer ρ n i) (hj : FirstAnswer ρ n j) :
    i = j := by
  rcases Nat.lt_trichotomy i j with h | h | h
  · exact absurd (hj.2.2 i hi.1 h) hi.2.1
  · exact h
  · exact absurd (hi.2.2 j hj.1 h) hj.2.1

/-- A retry loop returns the first reply that is no connection loss, and has made every request
up to it; without such a reply it does not return. -/
theorem returns_retryLoop_stream {request : Status → Req} {status : Status} {s s' : Served}
    {a : Reply} :
    Returns (streamSem ρ) (retryLoop request status) s a s' ↔
      ∃ i, FirstAnswer ρ s.served i ∧ a = ρ i ∧ s' = { s with served := i + 1 } := by
  constructor
  · intro h
    refine retryLoop_induction h
      (P := fun _ t => s.memory = t.memory ∧ s.served ≤ t.served ∧
        ∀ j, s.served ≤ j → j < t.served → (ρ j).rc = ZCONNECTIONLOSS)
      (Q := fun a s' => ∃ i, FirstAnswer ρ s.served i ∧ a = ρ i ∧ s' = { s with served := i + 1 })
      ⟨rfl, le_rfl, fun j h₁ h₂ => by omega⟩ ?_
    rintro - ⟨m, n⟩ b _ ⟨hm, hle, hlost⟩ ⟨rfl, rfl⟩
    dsimp only at hm hle hlost
    split_ifs with hb
    · refine ⟨hm, by dsimp only; omega, fun j h₁ h₂ => ?_⟩
      dsimp only at h₂
      rcases Nat.lt_or_eq_of_le (Nat.le_of_lt_succ h₂) with h₂ | rfl
      · exact hlost j h₁ h₂
      · exact hb
    · exact ⟨n, ⟨hle, hb, hlost⟩, rfl, by rw [hm]⟩
  · rintro ⟨i, hi, rfl, rfl⟩
    obtain ⟨d, hd⟩ := Nat.exists_eq_add_of_le hi.1
    induction d generalizing s status with
    | zero =>
      obtain rfl : i = s.served := hd
      refine returns_retryLoop_iff.mpr ⟨_, _, ⟨rfl, rfl⟩, ?_⟩
      rw [if_neg hi.2.1]
      exact ⟨rfl, rfl⟩
    | succ d ih =>
      have hlost := hi.2.2 s.served le_rfl (by omega)
      refine returns_retryLoop_iff.mpr ⟨_, _, ⟨rfl, rfl⟩, ?_⟩
      rw [if_pos hlost]
      exact ih (s := { s with served := s.served + 1 })
        ⟨by dsimp only; omega, hi.2.1, fun j hj => hi.2.2 j (by dsimp only at hj; omega)⟩
        (by dsimp only; omega)

/-! ### The handlers -/

section Handlers

variable {s s' : Served} {m : PhpZookeeperSession}

theorem returns_ignore_iff {α S : Type} {sem : (o : Op) → S → o.Res → S → Prop} {p : Code α}
    {s s' : S} :
    Returns sem (do let _ ← p; return ()) s () s' ↔ ∃ a, Returns sem p s a s' := by
  simp

/-- `PS_DESTROY` returns with the first answer. -/
theorem returns_psDestroy_stream {key : CString} :
    (∃ a, Returns (streamSem ρ) (psDestroy key) s a s') ↔
      ∃ i, FirstAnswer ρ s.served i ∧ s' = { s with served := i + 1 } := by
  simp only [psDestroy, bind_eq, perform_bind, returns_op_iff, returns_bind_iff,
    returns_retryLoop_stream, streamSem]
  constructor
  · rintro ⟨_, _, _, ⟨rfl, rfl⟩, _, _, ⟨i, hi, rfl, rfl⟩, h⟩
    refine ⟨i, hi, ?_⟩
    split_ifs at h <;> exact (returns_ret_iff.mp h).2
  · rintro ⟨i, hi, rfl⟩
    refine ⟨if (ρ i).rc = ZOK then .success () else .failure, s.memory, s, ⟨rfl, rfl⟩, _, _,
      ⟨i, hi, rfl, rfl⟩, ?_⟩
    split_ifs <;> exact returns_ret_iff.mpr ⟨rfl, rfl⟩

/-- `PS_WRITE` returns with the second answer: one for each of its loops. -/
theorem returns_psWrite_stream {key : CString} {val : Bytes} :
    (∃ a, Returns (streamSem ρ) (psWrite key val) s a s') ↔
      ∃ i j, FirstAnswer ρ s.served i ∧ FirstAnswer ρ (i + 1) j ∧
        s' = { s with served := j + 1 } := by
  simp only [psWrite, bind_eq, perform_bind, returns_op_iff, returns_bind_iff,
    returns_retryLoop_stream, streamSem]
  constructor
  · rintro ⟨_, _, _, ⟨rfl, rfl⟩, _, _, ⟨i, hi, rfl, rfl⟩, _, _, ⟨j, hj, rfl, rfl⟩, h⟩
    refine ⟨i, j, hi, hj, ?_⟩
    split_ifs at h <;> exact (returns_ret_iff.mp h).2
  · rintro ⟨i, j, hi, hj, rfl⟩
    refine ⟨if (ρ j).rc = ZOK then .success () else .failure, s.memory, s, ⟨rfl, rfl⟩, _, _,
      ⟨i, hi, rfl, rfl⟩, _, _, ⟨j, hj, rfl, rfl⟩, ?_⟩
    split_ifs <;> exact returns_ret_iff.mpr ⟨rfl, rfl⟩

/-- `PS_READ`, after its lock, returns with the first answer when that is an error, and else
with the second. -/
theorem returns_psReadData_stream {g : Globals} {key : CString} :
    (∃ a, Returns (streamSem ρ) (psReadData g key) s a s') ↔
      ∃ i, FirstAnswer ρ s.served i ∧
        ((ρ i).rc ≠ ZOK ∧ s' = ⟨(Assign.path (sessionPath key)).apply s.memory, i + 1⟩ ∨
          (ρ i).rc = ZOK ∧ ∃ j, FirstAnswer ρ (i + 1) j ∧
            s' = ⟨(Assign.path (sessionPath key)).apply s.memory, j + 1⟩) := by
  simp only [psReadData, bind_eq, perform_bind, returns_op_iff, returns_bind_iff,
    returns_retryLoop_stream, streamSem]
  constructor
  · rintro ⟨_, _, _, rfl, _, _, ⟨rfl, rfl⟩, _, _, ⟨i, hi, rfl, rfl⟩, h⟩
    refine ⟨i, hi, ?_⟩
    split_ifs at h with hrc hexp
    · exact .inl ⟨hrc, (returns_ret_iff.mp h).2⟩
    · simp only [returns_op_iff, returns_bind_iff, returns_retryLoop_stream] at h
      obtain ⟨_, _, ⟨rfl, rfl⟩, _, _, ⟨j, hj, rfl, rfl⟩, h⟩ := h
      exact .inr ⟨not_not.mp hrc, j, hj, (returns_ret_iff.mp h).2⟩
    · simp only [returns_op_iff, returns_bind_iff, returns_retryLoop_stream] at h
      obtain ⟨_, _, ⟨rfl, rfl⟩, _, _, ⟨j, hj, rfl, rfl⟩, h⟩ := h
      refine .inr ⟨not_not.mp hrc, j, hj, ?_⟩
      split_ifs at h <;> exact (returns_ret_iff.mp h).2
  · rintro ⟨i, hi, ⟨hrc, rfl⟩ | ⟨hrc, j, hj, rfl⟩⟩
    · refine ⟨.failure, (), _, rfl, _, _, ⟨rfl, rfl⟩, _, _, ⟨i, hi, rfl, rfl⟩, ?_⟩
      rw [if_pos hrc]
      exact returns_ret_iff.mpr ⟨rfl, rfl⟩
    · by_cases hexp : (ρ i).stat.mtime < g.expirationTime
      · refine ⟨.failure, (), _, rfl, _, _, ⟨rfl, rfl⟩, _, _, ⟨i, hi, rfl, rfl⟩, ?_⟩
        rw [if_neg (not_not.mpr hrc), if_pos hexp]
        simp only [returns_op_iff, returns_bind_iff, returns_retryLoop_stream]
        exact ⟨_, _, ⟨rfl, rfl⟩, _, _, ⟨j, hj, rfl, rfl⟩, returns_ret_iff.mpr ⟨rfl, rfl⟩⟩
      · refine ⟨if (ρ j).rc ≠ ZOK then .failure else .success (ρ j).value, (), _, rfl, _, _,
          ⟨rfl, rfl⟩, _, _, ⟨i, hi, rfl, rfl⟩, ?_⟩
        rw [if_neg (not_not.mpr hrc), if_neg hexp]
        simp only [returns_op_iff, returns_bind_iff, returns_retryLoop_stream]
        refine ⟨_, _, ⟨rfl, rfl⟩, _, _, ⟨j, hj, rfl, rfl⟩, ?_⟩
        split_ifs <;> exact returns_ret_iff.mpr ⟨rfl, rfl⟩

/-- `php_zookeeper_session_init` returns with its first reply, unless that is `ZNONODE`; then it
returns with the first answer to its `create`. -/
theorem returns_sessionInit_stream :
    (∃ a, Returns (streamSem ρ) (phpZookeeperSessionInit true) s a s') ↔
      (ρ s.served).rc ≠ ZNONODE ∧ s' = { s with served := s.served + 1 } ∨
      (ρ s.served).rc = ZNONODE ∧
        ∃ i, FirstAnswer ρ (s.served + 1) i ∧ s' = { s with served := i + 1 } := by
  simp only [phpZookeeperSessionInit, Bool.not_true, Bool.false_eq_true, if_false, bind_eq,
    perform_bind, returns_op_iff, streamSem]
  constructor
  · rintro ⟨_, _, _, ⟨rfl, rfl⟩, h⟩
    split_ifs at h with hrc
    · simp only [returns_bind_iff, returns_retryLoop_stream] at h
      obtain ⟨_, _, ⟨i, hi, rfl, rfl⟩, h⟩ := h
      refine .inr ⟨hrc, i, hi, ?_⟩
      split_ifs at h <;> exact (returns_ret_iff.mp h).2
    · exact .inl ⟨hrc, (returns_ret_iff.mp h).2⟩
  · rintro (⟨hrc, rfl⟩ | ⟨hrc, i, hi, rfl⟩)
    · refine ⟨.success (), _, _, ⟨rfl, rfl⟩, ?_⟩
      rw [if_neg hrc]
      exact returns_ret_iff.mpr ⟨rfl, rfl⟩
    · refine ⟨if (ρ i).rc ≠ ZOK then .error "Failed to create parent node for sessions"
        else .success (), _, _, ⟨rfl, rfl⟩, ?_⟩
      rw [if_pos hrc]
      simp only [returns_bind_iff, returns_retryLoop_stream]
      refine ⟨_, _, ⟨i, hi, rfl, rfl⟩, ?_⟩
      split_ifs <;> exact returns_ret_iff.mpr ⟨rfl, rfl⟩

/-- **When a handler returns.** A handler returns within `K` requests exactly when enough of
the first `K` replies are no connection losses; how many were lost before does not count. -/
theorem returnsWithin_iff (K : ℕ) (h : RetryHandler) (ρ : ℕ → Reply) (m : PhpZookeeperSession) :
    h.ReturnsWithin K ρ m ↔ h.Answered K ρ := by
  cases h with
  | sessionInit =>
    simp only [RetryHandler.ReturnsWithin, RetryHandler.code, returns_ignore_iff,
      returns_sessionInit_stream, RetryHandler.Answered]
    constructor
    · rintro ⟨s, ⟨hrc, rfl⟩ | ⟨hrc, i, hi, rfl⟩, hK⟩
      · exact ⟨hK, fun h => absurd h hrc⟩
      · exact ⟨by dsimp only at hK; omega, fun _ => ⟨i, hi.1, hK, hi.2.1⟩⟩
    · rintro ⟨hK, h⟩
      by_cases hrc : (ρ 0).rc = ZNONODE
      · obtain ⟨i, h₁, hiK, hi⟩ := h hrc
        obtain ⟨j, hj, hji⟩ := FirstAnswer.exists_of h₁ hi
        exact ⟨_, .inr ⟨hrc, j, hj, rfl⟩, by dsimp only; omega⟩
      · exact ⟨_, .inl ⟨hrc, rfl⟩, hK⟩
  | read g key =>
    simp only [RetryHandler.ReturnsWithin, RetryHandler.code, returns_ignore_iff,
      returns_psReadData_stream, RetryHandler.Answered]
    constructor
    · rintro ⟨s, ⟨i, hi, ⟨hrc, rfl⟩ | ⟨hrc, j, hj, rfl⟩⟩, hK⟩
      · exact ⟨i, hK, hi, fun h => absurd h hrc⟩
      · exact ⟨i, by have := hj.1; dsimp only at hK; omega, hi, fun _ => ⟨j, hj.1, hK, hj.2.1⟩⟩
    · rintro ⟨i, hiK, hi, h⟩
      by_cases hrc : (ρ i).rc = ZOK
      · obtain ⟨j, hij, hjK, hj⟩ := h hrc
        obtain ⟨j', hj', hle⟩ := FirstAnswer.exists_of (Nat.succ_le_of_lt hij) hj
        exact ⟨_, ⟨i, hi, .inr ⟨hrc, j', hj', rfl⟩⟩, by dsimp only; omega⟩
      · exact ⟨_, ⟨i, hi, .inl ⟨hrc, rfl⟩⟩, hiK⟩
  | write key val =>
    simp only [RetryHandler.ReturnsWithin, RetryHandler.code, returns_ignore_iff,
      returns_psWrite_stream, RetryHandler.Answered]
    constructor
    · rintro ⟨s, ⟨i, j, hi, hj, rfl⟩, hK⟩
      exact ⟨i, j, hj.1, hK, hi.2.1, hj.2.1⟩
    · rintro ⟨i, j, hij, hjK, hi, hj⟩
      obtain ⟨i', hi', hle⟩ := FirstAnswer.exists_of (Nat.zero_le i) hi
      obtain ⟨j', hj', hle'⟩ := FirstAnswer.exists_of (n := i' + 1) (by omega) hj
      exact ⟨_, ⟨i', j', hi', hj', rfl⟩, by dsimp only; omega⟩
  | destroy key =>
    simp only [RetryHandler.ReturnsWithin, RetryHandler.code, returns_ignore_iff,
      returns_psDestroy_stream, RetryHandler.Answered]
    constructor
    · rintro ⟨s, ⟨i, hi, rfl⟩, hK⟩
      exact ⟨i, hK, hi.2.1⟩
    · rintro ⟨i, hiK, hi⟩
      obtain ⟨j, hj, hle⟩ := FirstAnswer.exists_of (Nat.zero_le i) hi
      exact ⟨_, ⟨j, hj, rfl⟩, by dsimp only; omega⟩

/-- No number of requests bounds `PS_DESTROY`: while the connection is lost it goes on. -/
theorem destroy_unbounded :
    ¬ ∃ K, ∀ (h : RetryHandler) (ρ : ℕ → Reply) (m : PhpZookeeperSession),
      h.ReturnsWithin K ρ m := by
  rintro ⟨K, h⟩
  have hK := h (.destroy ['k']) (fun _ => { rc := ZCONNECTIONLOSS }) {}
  obtain ⟨s, hs, -⟩ := hK
  obtain ⟨i, hi, -⟩ := returns_psDestroy_stream.mp (returns_ignore_iff.mp hs)
  exact hi.2.1 rfl

end Handlers

end PhpZookeeper
