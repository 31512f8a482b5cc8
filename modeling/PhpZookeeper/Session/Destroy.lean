import PhpZookeeper.Session.Write

/-!
# A session that is destroyed while requests are lost

`PS_DESTROY` deletes its node again while the connection is lost, and takes only `ZOK` for success.
When a lost `delete` has been applied, the next one finds no node, and the session is gone but
`PS_DESTROY` fails; `zkr_lock_unlock` takes `ZNONODE` for success too. `destroyDeletes_iff` says
which losses it survives.
-/

namespace PhpZookeeper

open Theory Prog Status

variable {srv : Server} {W : Type} [DecidableEq W]

/-- `PS_DESTROY` returns, and whenever it does the node is absent and it has succeeded. -/
def DestroyDeletes (w : W) (sid : Sid) (key : CString) (s : World srv W) (π : Losses) : Prop :=
  (∃ a s', Returns (lossySem w sid) (psDestroy key) (s, π) a s') ∧
    ∀ a s', Returns (lossySem w sid) (psDestroy key) (s, π) a s' →
      s'.1.nodes (s.memory w).path = none ∧ a = .success ()

/-- The node is there and can be deleted, and no `delete` is lost that has been applied. -/
def DestroySurvives (w : W) (s : World srv W) (π : Losses) : Prop :=
  validPath (s.memory w).path false ∧ s.nodes (s.memory w).path ≠ none ∧
    ¬ s.nodes.HasChild (s.memory w).path ∧ true ∉ π.leading

/-- A `delete` of the node cannot succeed, now or later in the loop. -/
def Undeletable (p : CString) (s : World srv W × Losses) : Prop :=
  validPath p false = false ∨ s.1.nodes p = none ∨ s.1.nodes.HasChild p ∨ true ∈ s.2.leading

section Loop

variable {w : W} {sid : Sid} {p : CString} {status : Status} {s s' : World srv W × Losses}
  {a : Reply}

theorem returns_psDestroy_iff {key : CString} {out : Outcome Unit} :
    Returns (lossySem w sid) (psDestroy key) s out s' ↔
      ∃ a, Returns (lossySem w sid)
          (retryLoop (fun _ => .zooDelete (s.1.memory w).path (-1)) ZOK) s a s' ∧
        out = if a.rc = ZOK then .success () else .failure := by
  simp only [psDestroy, bind_eq, perform_bind, returns_op_iff, returns_bind_iff, lossySem,
    World.perform]
  constructor
  · rintro ⟨_, t, ⟨-, h, ht⟩, a, s₁, h₁, hout⟩
    obtain ⟨rfl, hs⟩ := Prod.mk.inj (Option.some.inj h)
    obtain rfl : s = t := Prod.ext hs ht.symm
    refine ⟨a, ?_, ?_⟩
    · split_ifs at hout <;> obtain ⟨-, rfl⟩ := returns_ret_iff.mp hout <;> exact h₁
    · split_ifs at hout ⊢ <;> exact (returns_ret_iff.mp hout).1
  · rintro ⟨a, h₁, rfl⟩
    obtain ⟨c⟩ := srv.answers
    refine ⟨_, s, ⟨{ choice := c }, rfl, rfl⟩, a, s', h₁, ?_⟩
    split_ifs <;> exact returns_ret_iff.mpr ⟨rfl, rfl⟩

/-- A `delete` that cannot succeed leaves the loop with an error, whatever is lost. -/
theorem rc_ne_of_undeletable
    (h : Returns (lossySem w sid) (retryLoop (fun _ => .zooDelete p (-1)) status) s a s')
    (hb : Undeletable p s) : a.rc ≠ ZOK := by
  refine retryLoop_induction h (P := fun _ t => Undeletable p t) (Q := fun a _ => a.rc ≠ ZOK) hb ?_
  rintro - t b t' hb hz
  obtain ⟨-, htail, b', u, hans, hres⟩ := lossySem_zoo hz
  have hrc := lossySem_rc hz
  cases hl : t.2.head?.join with
  | some applied =>
    simp only [hl] at hres
    rw [if_pos (hrc.mpr (by simp [hl]))]
    rw [Undeletable, (Losses.of_lost hl).2] at hb
    rw [Undeletable, htail, hres.2]
    cases applied with
    | false => simpa using hb
    | true =>
      -- the lost `delete` was applied: the node is gone from now on
      rcases hans.zooDelete with ⟨n, k, -, -, -, -, rfl⟩ | ⟨rfl, hno⟩
      · exact .inr (.inl (by simp))
      · rcases hno with ⟨hv, -⟩ | ⟨hp, -⟩ | ⟨hc, -⟩
        · exact .inl hv
        · exact .inr (.inl hp)
        · exact .inr (.inr (.inl hc))
  | none =>
    simp only [hl] at hres
    rw [if_neg (fun h => hrc.mp h hl), hres.1, Reply.received_rc]
    rw [Undeletable, (Losses.of_answered hl).2] at hb
    rcases hans.zooDelete with ⟨n, k, hp, hv, hc, -, -⟩ | ⟨-, hno⟩
    · rcases hb with hv' | hp' | hc' | hmem
      · simp [hv] at hv'
      · simp [hp] at hp'
      · exact absurd hc' hc
      · simp at hmem
    · rcases hno with ⟨-, hrc⟩ | ⟨-, hrc⟩ | ⟨-, hrc⟩ <;> simp [hrc]

/-- A `delete` of a node without children succeeds, unless one is lost after it was applied. -/
theorem deleted_of_present
    (h : Returns (lossySem w sid) (retryLoop (fun _ => .zooDelete p (-1)) status) s a s')
    (hv : validPath p false) (hp : s.1.nodes p ≠ none) (hc : ¬ s.1.nodes.HasChild p)
    (hπ : true ∉ s.2.leading) : a.rc = ZOK ∧ s'.1.nodes p = none := by
  refine retryLoop_induction h
    (P := fun _ t => t.1.nodes = s.1.nodes ∧ true ∉ t.2.leading)
    (Q := fun a t => a.rc = ZOK ∧ t.1.nodes p = none) ⟨rfl, hπ⟩ ?_
  rintro - t b t' ⟨hn, hπ⟩ hz
  obtain ⟨-, htail, b', u, hans, hres⟩ := lossySem_zoo hz
  have hrc := lossySem_rc hz
  cases hl : t.2.head?.join with
  | some applied =>
    rw [(Losses.of_lost hl).2, List.mem_cons, not_or] at hπ
    simp only [hl] at hres
    rw [if_pos (hrc.mpr (by simp [hl])), htail]
    rw [Bool.eq_false_iff.mpr (Ne.symm hπ.1)] at hres
    exact ⟨hres.2.trans hn, hπ.2⟩
  | none =>
    simp only [hl] at hres
    rw [if_neg (fun h => hrc.mp h hl), hres.1, hres.2, Reply.received_rc]
    have hdelete := hans.zooDelete
    rw [hn] at hdelete
    rcases hdelete with ⟨n, k, -, -, -, hok, rfl⟩ | ⟨-, hno⟩
    · exact ⟨hok, by simp⟩
    · rcases hno with ⟨hv', -⟩ | ⟨hp', -⟩ | ⟨hc', -⟩
      · simp [hv] at hv'
      · exact absurd hp' hp
      · exact absurd hc' hc

/-- **What a destroy survives.** `PS_DESTROY` leaves no node and succeeds, whatever the service
decides, exactly when the node was there and had no children, and no `delete` was lost that had
been applied. -/
theorem destroyDeletes_iff (w : W) (sid : Sid) (key : CString) (s : World srv W) (π : Losses) :
    DestroyDeletes w sid key s π ↔ DestroySurvives w s π := by
  have hruns : ∃ a s', Returns (lossySem w sid) (psDestroy key) (s, π) a s' := by
    obtain ⟨a, s₁, h₁⟩ := exists_returns_retryLoop w sid
      (fun _ => .zooDelete (s.memory w).path (-1)) ZOK (s, π)
    exact ⟨_, s₁, returns_psDestroy_iff.mpr ⟨a, h₁, rfl⟩⟩
  constructor
  · rintro ⟨-, hall⟩
    obtain ⟨out, s', h⟩ := hruns
    obtain ⟨-, rfl⟩ := hall out s' h
    obtain ⟨a, h₁, hout⟩ := returns_psDestroy_iff.mp h
    have hok : a.rc = ZOK := by
      by_contra hne
      simp [hne] at hout
    have hnb : ¬ Undeletable (s.memory w).path (s, π) := fun hb => rc_ne_of_undeletable h₁ hb hok
    simp only [Undeletable, not_or] at hnb
    exact ⟨by simpa using hnb.1, hnb.2.1, hnb.2.2.1, hnb.2.2.2⟩
  · rintro ⟨hv, hp, hc, hπ⟩
    refine ⟨hruns, fun out s' h => ?_⟩
    obtain ⟨a, h₁, rfl⟩ := returns_psDestroy_iff.mp h
    obtain ⟨hok, hnone⟩ := deleted_of_present h₁ hv hp hc hπ
    exact ⟨hnone, if_pos hok⟩

end Loop

/-- The `delete` is applied and its reply is lost: the node is gone, and `PS_DESTROY` fails. -/
theorem destroy_denied :
    ¬ ∀ (s : World treeServer Unit) (π : Losses), validPath (s.memory ()).path false →
      ¬ s.nodes.HasChild (s.memory ()).path → DestroyDeletes () 0 ['k'] s π := by
  intro h
  have hchild : ¬ writtenWorld.nodes.HasChild (writtenWorld.memory ()).path := fun hc =>
    absurd ((TreeState.hasChild_iff writtenWorld.tree _).mpr hc) (by decide)
  have hsurvives := (destroyDeletes_iff () 0 ['k'] writtenWorld [some true]).mp
    (h writtenWorld [some true] (by decide) hchild)
  exact hsurvives.2.2.2 (by decide)

end PhpZookeeper
