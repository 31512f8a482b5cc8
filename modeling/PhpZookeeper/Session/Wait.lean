import Mathlib.Tactic.Linarith
import PhpZookeeper.Lock.Call
import PhpZookeeper.Session.Handlers
import PhpZookeeper.Theory.Rounds

/-!
# How long a session waits for its lock

`php_zookeeper_sess_lock` calls `zkr_lock_lock`, sleeps for `lock_wait` when it is refused, and goes
round as often as `lock_wait` fits into `lock_maxwait`, but once at least. `waitBounded_iff` says
for which settings that keeps to `lock_maxwait`.
-/

namespace PhpZookeeper

open Theory Prog Status

/-- The settings that the ini handlers accept: `max_execution_time` is a `long`, and
`OnUpdateLongGEZero` refuses a negative `sess_lock_wait`. -/
structure AcceptedGlobals extends Globals where
  maxExecutionTime_range : -2 ^ 63 ≤ maxExecutionTime ∧ maxExecutionTime < 2 ^ 63
  sessLockWait_range : 0 ≤ sessLockWait ∧ sessLockWait < 2 ^ 63

/-- How long `usleep(usec)` sleeps, in microseconds: its argument is a `useconds_t` of 32 bits. -/
def usleepTime (usec : ℤ) : ℤ := usec % 2 ^ 32

/-- `lock_maxwait`, in microseconds. -/
def Globals.maxwaitUsec (g : Globals) : ℤ := g.lockMaxwait * 1000000

/-- `Attempts sem session wait calls slept s b s'`: `zkr_lock_lock` has been called `calls` times,
each time but the last in vain; after each call in vain there has been a sleep, `slept`
microseconds in all. -/
inductive Attempts {S : Type} (sem : (o : Op) → S → o.Res → S → Prop) (session : Sid) (wait : ℤ) :
    ℕ → ℤ → S → Bool → S → Prop where
  /-- The lock is obtained. -/
  | locked {s s₁ s₂ : S} {r : Unit} : Returns sem (zkrLockLock session) s true s₁ →
      sem (.store (.isLocked true)) s₁ r s₂ → Attempts sem session wait 1 0 s true s₂
  /-- The last call is in vain. -/
  | refused {s s₁ s₂ : S} {r : Unit} : Returns sem (zkrLockLock session) s false s₁ →
      sem (.usleep wait) s₁ r s₂ → Attempts sem session wait 1 (usleepTime wait) s false s₂
  /-- A call in vain, and more. -/
  | again {calls : ℕ} {slept : ℤ} {s s₁ s₂ s₃ : S} {r : Unit} {b : Bool} :
      Returns sem (zkrLockLock session) s false s₁ → sem (.usleep wait) s₁ r s₂ →
      Attempts sem session wait calls slept s₂ b s₃ →
      Attempts sem session wait (calls + 1) (slept + usleepTime wait) s b s₃

/-- The wait for the lock is bounded by `lock_maxwait`, in every run that returns. Whether the calls
of `zkr_lock_lock` in it come back is up to the server's replies. -/
structure WaitBounded (g : Globals) : Prop where
  divisor : g.lockWait ≠ 0
  /-- The product and the quotient are numbers of 64 bits. -/
  noOverflow : -2 ^ 63 ≤ g.maxwaitUsec ∧ g.maxwaitUsec < 2 ^ 63 ∧
    g.attempts = g.maxwaitUsec / g.lockWait
  /-- A run that returns has made so many calls, and has slept no longer than that in all. -/
  runs : ∀ {S : Type} {sem : (o : Op) → S → o.Res → S → Prop} {session : Sid} {key : CString}
    {s s' : S} {b : Bool}, Returns sem (phpZookeeperSessLock session g key) s b s' →
    ∃ s₁ calls slept, Returns sem (zkrLockInit (lockPath key) (some .zooOpenAclUnsafe)) s 0 s₁ ∧
      Attempts sem session g.lockWait calls slept s₁ b s' ∧ 1 ≤ calls ∧
      (b = false → (calls : ℤ) = max 1 (g.maxwaitUsec / g.lockWait)) ∧ slept ≤ g.maxwaitUsec

variable {S : Type} {sem : (o : Op) → S → o.Res → S → Prop} {session : Sid} {s s' : S} {b : Bool}

/-! ### The loop -/

/-- What has been slept: once for each call in vain. -/
theorem Attempts.slept_eq {wait slept : ℤ} {calls : ℕ}
    (h : Attempts sem session wait calls slept s b s') :
    1 ≤ calls ∧ slept = (if b then calls - 1 else calls : ℤ) * usleepTime wait := by
  induction h with
  | locked _ _ => simp
  | refused _ _ => simp
  | @again calls slept _ _ _ _ _ b _ _ _ ih =>
    obtain ⟨-, rfl⟩ := ih
    refine ⟨Nat.le_add_left .., ?_⟩
    cases b
    · simp only [Bool.false_eq_true, if_false]
      push_cast
      ring
    · simp only [if_true]
      push_cast
      ring

/-- One round of the loop. -/
def lockAttempt (session : Sid) (wait n : ℤ) : Code (ℤ ⊕ Bool) := do
  let owner ← zkrLockLock session
  if owner then
    store (.isLocked true)
    return .inr true
  else
    if wait > 0 then
      act (.usleep wait)
      return if n - 1 > 0 then .inl (n - 1) else .inr false
    else
      return if n - 1 > 0 then .inl (n - 1) else .inr false

theorem lockAttempts_eq (session : Sid) (wait n : ℤ) :
    lockAttempts session wait n = loop (lockAttempt session wait) n := rfl

/-- A round obtains the lock, or calls `zkr_lock_lock` in vain and sleeps. -/
theorem returns_lockAttempt {wait n : ℤ} {x : ℤ ⊕ Bool} (hwait : 0 < wait)
    (h : Returns sem (lockAttempt session wait n) s x s') :
    ∃ s₁ r, (Returns sem (zkrLockLock session) s true s₁ ∧ sem (.store (.isLocked true)) s₁ r s' ∧
        x = .inr true) ∨
      (Returns sem (zkrLockLock session) s false s₁ ∧ sem (.usleep wait) s₁ r s' ∧
        x = if n - 1 > 0 then .inl (n - 1) else .inr false) := by
  obtain ⟨owner, s₁, hlock, hrest⟩ := returns_bind_iff.mp h
  cases owner with
  | true =>
    obtain ⟨r, s₂, hstore, hret⟩ := returns_op_iff.mp hrest
    obtain ⟨rfl, rfl⟩ := returns_ret_iff.mp hret
    exact ⟨s₁, r, .inl ⟨hlock, hstore, rfl⟩⟩
  | false =>
    simp only [Bool.false_eq_true, if_false, gt_iff_lt, hwait, if_true] at hrest
    obtain ⟨r, s₂, hsleep, hret⟩ := returns_op_iff.mp hrest
    obtain ⟨rfl, rfl⟩ := returns_ret_iff.mp hret
    exact ⟨s₁, r, .inr ⟨hlock, hsleep, rfl⟩⟩

/-- **The loop calls `zkr_lock_lock` as often as `attempts` says, and once at least**, unless it
obtains the lock before. -/
theorem attempts_of_returns {wait n : ℤ} (hwait : 0 < wait)
    (h : Returns sem (lockAttempts session wait n) s b s') :
    ∃ calls slept, Attempts sem session wait calls slept s b s' ∧ (calls : ℤ) ≤ max 1 n ∧
      (b = false → (calls : ℤ) = max 1 n) := by
  rw [lockAttempts_eq, returns_loop_iff] at h
  obtain ⟨k, h⟩ := h
  induction h with
  | last hround =>
    obtain ⟨s₁, r, ⟨hlock, hstore, hx⟩ | ⟨hlock, hsleep, hx⟩⟩ := returns_lockAttempt hwait hround
    · obtain rfl := Sum.inr.inj hx
      refine ⟨1, 0, .locked hlock hstore, by simp, ?_⟩
      simp
    · split_ifs at hx with hn
      obtain rfl := Sum.inr.inj hx
      refine ⟨1, _, .refused hlock hsleep, by simp, fun _ => ?_⟩
      rw [max_eq_left (by omega)]
      rfl
  | next hround _ ih =>
    obtain ⟨s₁, r, ⟨-, -, hx⟩ | ⟨hlock, hsleep, hx⟩⟩ := returns_lockAttempt hwait hround
    · cases hx
    · split_ifs at hx with hn
      obtain rfl := Sum.inl.inj hx
      obtain ⟨calls, slept, hcalls, hle, heq⟩ := ih
      refine ⟨calls + 1, _, .again hlock hsleep hcalls, ?_, fun hb => ?_⟩
      · push_cast
        omega
      · have := heq hb
        push_cast
        omega

/-! ### The settings -/

theorem Globals.lockMaxwait_pos (g : Globals) : 0 < g.lockMaxwait := by
  unfold Globals.lockMaxwait
  split_ifs with h
  · decide
  · omega

theorem AcceptedGlobals.lockWait_pos (g : AcceptedGlobals) : 0 < g.toGlobals.lockWait := by
  have := g.sessLockWait_range.1
  unfold Globals.lockWait
  split_ifs with h
  · decide
  · omega

/-- `attempts`, when the product does not overflow. -/
theorem Globals.attempts_eq {g : Globals} (h : g.maxwaitUsec < 2 ^ 63) :
    g.attempts = g.maxwaitUsec / g.lockWait := by
  have hpos := g.lockMaxwait_pos
  have hmod : Int.bmod g.maxwaitUsec (2 ^ 64) = g.maxwaitUsec := by
    refine Int.bmod_eq_of_le ?_ ?_ <;> unfold maxwaitUsec at * <;> omega
  rw [attempts, ← maxwaitUsec, hmod, Int.tdiv_eq_ediv_of_nonneg]
  unfold maxwaitUsec
  omega

theorem usleepTime_nonneg (usec : ℤ) : 0 ≤ usleepTime usec := Int.emod_nonneg _ (by decide)

theorem usleepTime_le {usec : ℤ} (h : 0 < usec) : usleepTime usec ≤ usec := by
  unfold usleepTime
  omega

/-- What is slept in all is not more than `maxwait`, when one sleep is not. -/
theorem slept_le {maxwait wait calls : ℤ} (hwait : 0 < wait)
    (hcalls : calls ≤ max 1 (maxwait / wait)) (hone : usleepTime wait ≤ maxwait) :
    calls * usleepTime wait ≤ maxwait := by
  have hnonneg := usleepTime_nonneg wait
  have hmul := mul_le_mul_of_nonneg_right hcalls hnonneg
  rcases le_total (maxwait / wait) 1 with hfew | hmany
  · rw [max_eq_left hfew, one_mul] at hmul
    exact hmul.trans hone
  · rw [max_eq_right hmany] at hmul
    calc calls * usleepTime wait ≤ maxwait / wait * usleepTime wait := hmul
      _ ≤ maxwait / wait * wait :=
        mul_le_mul_of_nonneg_left (usleepTime_le hwait) (zero_le_one.trans hmany)
      _ ≤ maxwait := Int.ediv_mul_le maxwait hwait.ne'

/-- The loop after `zkr_lock_init`, which does not fail. -/
theorem returns_sessLock {g : Globals} {key : CString}
    (h : Returns sem (phpZookeeperSessLock session g key) s b s') :
    ∃ s₁, Returns sem (zkrLockInit (lockPath key) (some .zooOpenAclUnsafe)) s 0 s₁ ∧
      Returns sem (lockAttempts session g.lockWait g.attempts) s₁ b s' := by
  obtain ⟨ret, s₁, hinit, hrest⟩ := returns_bind_iff.mp h
  have hret : ret = 0 := by
    obtain ⟨_, _, -, hinit⟩ := returns_op_iff.mp hinit
    obtain ⟨_, _, -, hinit⟩ := returns_op_iff.mp hinit
    exact (returns_ret_iff.mp hinit).1
  subst hret
  exact ⟨s₁, hinit, hrest⟩

/-- The wait is bounded, when the product does not overflow and one sleep is short enough. -/
theorem waitBounded_of_le {g : Globals} (hwait : 0 < g.lockWait) (hproduct : g.maxwaitUsec < 2 ^ 63)
    (hone : usleepTime g.lockWait ≤ g.maxwaitUsec) : WaitBounded g where
  divisor := hwait.ne'
  noOverflow := by
    have hpos := g.lockMaxwait_pos
    refine ⟨?_, hproduct, Globals.attempts_eq hproduct⟩
    unfold Globals.maxwaitUsec
    omega
  runs h := by
    obtain ⟨s₁, hinit, hloop⟩ := returns_sessLock h
    obtain ⟨calls, slept, hattempts, hle, hrefused⟩ := attempts_of_returns hwait hloop
    obtain ⟨hcalls, hslept⟩ := hattempts.slept_eq
    rw [Globals.attempts_eq hproduct] at hle hrefused
    refine ⟨s₁, calls, slept, hinit, hattempts, hcalls, hrefused, ?_⟩
    rw [hslept]
    refine slept_le hwait ?_ hone
    split_ifs <;> omega

/-! ### A run that is refused -/

/-- The service refuses each request. -/
def noAuth (_ : Talk) (_ : Req) : Reply := { rc := ZNOAUTH }

/-- The state after `zkr_lock_init`. -/
def afterInit : LockCall where
  memory := { lock := { path := some (lockPath []), acl := some .zooOpenAclUnsafe } }

theorem returns_init : Returns (callSem .main anyReply)
    (zkrLockInit (lockPath []) (some .zooOpenAclUnsafe)) { memory := {} } 0 afterInit := by
  have heval : exec (callPerform .main noAuth) 3
      (zkrLockInit (lockPath []) (some .zooOpenAclUnsafe)) { memory := {} } =
        some (0, afterInit) := rfl
  exact returns_of_exec callSem_of_perform heval

theorem lock_refused :
    ∃ s₁, Returns (callSem .main anyReply) (zkrLockLock 0) afterInit false s₁ := by
  have heval : (exec (callPerform .main noAuth) 60 (zkrLockLock 0) afterInit).any
      (fun x => x.1 = false) = true := by decide +kernel
  obtain ⟨⟨b, s₁⟩, hexec, hb⟩ := (Option.any_eq_true _ _).mp heval
  obtain rfl : b = false := by simpa using hb
  exact ⟨s₁, returns_of_exec callSem_of_perform hexec⟩

/-- A run of `php_zookeeper_sess_lock` with one call, in vain, and one sleep. -/
theorem sessLock_refused {g : Globals} (hwait : 0 < g.lockWait) (hn : g.attempts ≤ 1) :
    ∃ s', Returns (callSem .main anyReply) (phpZookeeperSessLock 0 g []) { memory := {} } false
      s' := by
  obtain ⟨s₁, hlock⟩ := lock_refused
  refine ⟨s₁, returns_bind_iff.mpr ⟨0, afterInit, returns_init, ?_⟩⟩
  show Returns _ (lockAttempts 0 g.lockWait g.attempts) _ _ _
  rw [lockAttempts_eq, returns_loop_iff]
  refine ⟨1, .last (returns_bind_iff.mpr ⟨false, s₁, hlock, ?_⟩)⟩
  simp only [Bool.false_eq_true, if_false, gt_iff_lt, hwait, if_true]
  refine returns_op_iff.mpr ⟨(), s₁, rfl, returns_ret_iff.mpr ⟨?_, rfl⟩⟩
  rw [if_neg (by omega)]

/-- When the wait is bounded, one sleep is short enough. -/
theorem WaitBounded.usleepTime_le {g : Globals} (h : WaitBounded g) (hwait : 0 < g.lockWait) :
    usleepTime g.lockWait ≤ g.maxwaitUsec := by
  by_contra hlong
  have hlt := (not_le.mp hlong).trans_le (PhpZookeeper.usleepTime_le hwait)
  have hnonneg : 0 ≤ g.maxwaitUsec := by
    have := g.lockMaxwait_pos
    unfold Globals.maxwaitUsec
    omega
  have hn : g.attempts = 0 := by
    rw [h.noOverflow.2.2]
    exact Int.ediv_eq_zero_of_lt hnonneg hlt
  obtain ⟨s', hrun⟩ := sessLock_refused hwait (hn.le.trans zero_le_one)
  obtain ⟨s₁, calls, slept, -, hattempts, hcalls, -, hslept⟩ := h.runs hrun
  rw [hattempts.slept_eq.2] at hslept
  have hmul : (1 : ℤ) * usleepTime g.lockWait ≤ calls * usleepTime g.lockWait :=
    mul_le_mul_of_nonneg_right (by exact_mod_cast hcalls) (usleepTime_nonneg _)
  simp only [Bool.false_eq_true, if_false] at hslept
  omega

/-- **When the wait for the lock is bounded as configured**: exactly when `lock_maxwait` in
microseconds is a number of 63 bits, and is not exceeded by a single sleep. -/
theorem waitBounded_iff (g : AcceptedGlobals) : WaitBounded g.toGlobals ↔
    g.maxwaitUsec < 2 ^ 63 ∧ usleepTime g.lockWait ≤ g.maxwaitUsec :=
  ⟨fun h => ⟨h.noOverflow.2.1, h.usleepTime_le g.lockWait_pos⟩,
    fun h => waitBounded_of_le g.lockWait_pos h.1 h.2⟩

/-- One second to wait, and two seconds between two calls. -/
def longWait : AcceptedGlobals where
  maxExecutionTime := 1
  sessLockWait := 2000000
  maxExecutionTime_range := by decide
  sessLockWait_range := by decide

/-- A limit that a `long` holds in seconds and not in microseconds. -/
def longLimit : AcceptedGlobals where
  maxExecutionTime := 9223372036855
  maxExecutionTime_range := by decide
  sessLockWait_range := by decide

/-- The session waits for longer than it may, or cannot compute its attempts. -/
theorem wait_unbounded :
    ¬ WaitBounded longWait.toGlobals ∧ ¬ WaitBounded longLimit.toGlobals := by
  refine ⟨fun h => ?_, fun h => ?_⟩
  · exact absurd (h.usleepTime_le longWait.lockWait_pos) (by decide)
  · exact absurd h.noOverflow.2.1 (by decide)

end PhpZookeeper
