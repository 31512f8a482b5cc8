import PhpZookeeper.Session.Handlers

/-!
# The paths of a session

`PS_READ` puts a key into a path of 511 characters at most, and `php_zookeeper_sess_lock` puts
the key and `-lock` into one of 517. The two cuts fall at different places of the key, so two
keys may share their data and not their lock: `lock_guards_data_iff` says exactly which.
-/

namespace PhpZookeeper

open Theory

theorem length_phpZkParentNode : phpZkParentNode.length = 11 := by decide

/-- The data node of a key is named by the key's first 499 characters. -/
theorem sessionPath_eq (key : CString) :
    sessionPath key = childOf phpZkParentNode (key.take 499) := by
  rw [sessionPath, childOf, take_append_cons (by rw [length_phpZkParentNode]; decide),
    length_phpZkParentNode]
  rfl

/-- The lock directory of a key is named by the first 505 characters of the key and `-lock`. -/
theorem lockPath_eq (key : CString) :
    lockPath key = childOf phpZkParentNode ((key ++ "-lock".toList).take 505) := by
  rw [lockPath, childOf, take_append_cons (by rw [length_phpZkParentNode]; decide),
    length_phpZkParentNode]
  rfl

theorem childOf_left_inj (p : CString) {x y : CString} : childOf p x = childOf p y ↔ x = y := by
  simp [childOf]

theorem sessionPath_inj (k₁ k₂ : CString) :
    sessionPath k₁ = sessionPath k₂ ↔ k₁.take 499 = k₂.take 499 := by
  rw [sessionPath_eq, sessionPath_eq, childOf_left_inj]

theorem lockPath_inj (k₁ k₂ : CString) :
    lockPath k₁ = lockPath k₂ ↔
      (k₁ ++ "-lock".toList).take 505 = (k₂ ++ "-lock".toList).take 505 := by
  rw [lockPath_eq, lockPath_eq, childOf_left_inj]

theorem length_sessionPath (key : CString) :
    (sessionPath key).length = 12 + min 499 key.length := by
  rw [sessionPath_eq, childOf, List.length_append, List.length_cons, length_phpZkParentNode,
    List.length_take]
  omega

theorem length_lockPath (key : CString) :
    (lockPath key).length = 12 + min 505 (key.length + 5) := by
  rw [lockPath_eq, childOf, List.length_append, List.length_cons, length_phpZkParentNode,
    List.length_take, List.length_append, show "-lock".toList.length = 5 from rfl]
  omega

/-- The lock of a key is not in the way of its data. -/
theorem length_sessionPath_lt (key : CString) :
    (sessionPath key).length < (lockPath key).length := by
  rw [length_sessionPath, length_lockPath]
  omega

/-- A key that is not cut shares its data node with no other. -/
theorem sessionPath_ne {k key : CString} (hlen : key.length < 499) (hne : k ≠ key) :
    sessionPath k ≠ sessionPath key := by
  rw [ne_eq, sessionPath_inj, List.take_of_length_le hlen.le]
  intro h
  have hk := congrArg List.length h
  rw [List.length_take] at hk
  exact hne (by rw [← h, List.take_of_length_le (by omega)])

/-- Different keys with one data node are cut, both of them. -/
theorem length_of_take_eq {k₁ k₂ : CString} (hne : k₁ ≠ k₂) (h : k₁.take 499 = k₂.take 499) :
    499 ≤ k₁.length := by
  by_contra hlt
  have h₁ : k₁.take 499 = k₁ := List.take_of_length_le (by omega)
  have hlen := congrArg List.length h
  rw [h₁, List.length_take] at hlen
  have h₂ : k₂.take 499 = k₂ := List.take_of_length_le (by omega)
  exact hne (by rw [← h₁, h, h₂])

/-- `k₂` starts with the name of the lock directory of `k₁`, which has been cut. -/
def StartsWithLock (k₁ k₂ : CString) : Prop :=
  500 ≤ k₁.length ∧ k₁.length < 505 ∧ (k₁ ++ "-lock".toList).take 505 <+: k₂

/-- One key's lock name is cut inside the suffix, the other's before it. -/
theorem lock_take_eq_iff {k₁ k₂ : CString} (h₁ : 499 ≤ k₁.length) (h₁' : k₁.length < 505)
    (h₂ : 505 ≤ k₂.length) :
    (k₁ ++ "-lock".toList).take 505 = (k₂ ++ "-lock".toList).take 505 ↔
      StartsWithLock k₁ k₂ := by
  have hk₂ : (k₂ ++ "-lock".toList).take 505 = k₂.take 505 := List.take_append_of_le_length h₂
  rw [hk₂]
  constructor
  · intro h
    have hlen := congrArg List.length h
    simp at hlen
    refine ⟨by omega, h₁', ?_⟩
    rw [h]
    exact List.take_prefix _ _
  · rintro ⟨hlo, -, hpre⟩
    have hlen : ((k₁ ++ "-lock".toList).take 505).length = 505 := by
      simp
      omega
    rw [List.prefix_iff_eq_take, hlen] at hpre
    exact hpre

/-- **When the lock guards the data.** Two keys with one data node have one lock directory
exactly when they are the same key, or agree on the first 505 characters, or one of 500 to
504 characters has its lock name cut to the beginning of the other. -/
theorem lock_guards_data_iff (k₁ k₂ : CString) :
    (sessionPath k₁ = sessionPath k₂ → lockPath k₁ = lockPath k₂) ↔
      k₁ = k₂ ∨ k₁.take 499 ≠ k₂.take 499 ∨
      (505 ≤ k₁.length ∧ 505 ≤ k₂.length ∧ k₁.take 505 = k₂.take 505) ∨
      StartsWithLock k₁ k₂ ∨ StartsWithLock k₂ k₁ := by
  rw [sessionPath_inj, lockPath_inj]
  by_cases heq : k₁ = k₂
  · simp [heq]
  by_cases htake : k₁.take 499 = k₂.take 499
  · have h₁ := length_of_take_eq heq htake
    have h₂ := length_of_take_eq (Ne.symm heq) htake.symm
    simp only [heq, htake, ne_eq, not_true_eq_false, false_or, true_implies]
    rcases Nat.lt_or_ge k₁.length 505 with hk₁ | hk₁ <;>
      rcases Nat.lt_or_ge k₂.length 505 with hk₂ | hk₂
    · -- both locks are named in full up to the suffix
      constructor
      · intro h
        exact absurd (take_append_suffix_inj (by decide) hk₁ hk₂ h) heq
      · rintro (⟨h, -⟩ | ⟨hlo, -, h⟩ | ⟨hlo, -, h⟩)
        · omega
        · have := h.length_le
          simp at this
          omega
        · have := h.length_le
          simp at this
          omega
    · rw [lock_take_eq_iff h₁ hk₁ hk₂]
      constructor
      · exact fun h => .inr (.inl h)
      · rintro (⟨h, -⟩ | h | ⟨-, h, -⟩)
        · omega
        · exact h
        · omega
    · rw [eq_comm, lock_take_eq_iff h₂ hk₂ hk₁]
      constructor
      · exact fun h => .inr (.inr h)
      · rintro (⟨-, h, -⟩ | ⟨-, h, -⟩ | h)
        · omega
        · omega
        · exact h
    · rw [List.take_append_of_le_length hk₁, List.take_append_of_le_length hk₂]
      constructor
      · exact fun h => .inl ⟨hk₁, hk₂, h⟩
      · rintro (⟨-, -, h⟩ | ⟨-, h, -⟩ | ⟨-, h, -⟩)
        · exact h
        · omega
        · omega
  · simp [htake]

/-- A key of 499 characters, and the key with one more: one data node, two locks. -/
theorem lock_misses_data :
    ¬ ∀ k₁ k₂ : CString, sessionPath k₁ = sessionPath k₂ → lockPath k₁ = lockPath k₂ := by
  intro h
  have hdata : sessionPath (List.replicate 499 'a') = sessionPath (List.replicate 500 'a') := by
    rw [sessionPath_inj, List.take_replicate, List.take_replicate]
    rfl
  have hlock := (lockPath_inj _ _).mp (h _ _ hdata)
  have hlen := congrArg List.length hlock
  rw [List.length_take, List.length_take, List.length_append, List.length_append,
    List.length_replicate, List.length_replicate] at hlen
  revert hlen
  decide

end PhpZookeeper
