import PhpZookeeper.Lock.ZooLock
import Mathlib.Data.Int.Basic

/-!
# Names in a lock directory

A client's node is called `x-`, the id of its session, `-` and the number the service has given
it. Two clients' names differ, numbers below 2³¹ are in the order of their names' last parts, and
`sort_children` puts a name with the least number first.
-/

namespace PhpZookeeper

open Theory

/-! ### The prefix -/

theorem length_lockPrefix (session : Sid) : (lockPrefix session).length = 19 := by
  simp [lockPrefix]

/-- The prefix is not cut. -/
theorem lockPrefix_eq (session : Sid) :
    lockPrefix session = ['x', '-'] ++ fixedDigits 16 16 session.val ++ ['-'] := by
  rw [lockPrefix, List.take_of_length_le (by simp)]

theorem slash_notMem_lockPrefix (session : Sid) : '/' ∉ lockPrefix session := by
  rw [lockPrefix_eq]
  have := notMem_fixedDigits (b := 16) (by decide) le_rfl (c := '/') (by decide) 16 session.val
  simp [this]

theorem lockPrefix_inj {s s' : Sid} (h : lockPrefix s = lockPrefix s') : s = s' := by
  have hlt : ∀ s : Sid, s.val < 16 ^ 16 := fun s => s.isLt
  rw [lockPrefix_eq, lockPrefix_eq, List.append_cancel_right_eq, List.append_cancel_left_eq,
    fixedDigits_inj (by decide) le_rfl (hlt s) (hlt s')] at h
  exact Fin.ext h

/-- A name with the client's prefix. -/
def OwnName (session : Sid) (x : CString) : Prop := lockPrefix session <+: x ∧ '/' ∉ x

theorem OwnName.unique {s s' : Sid} {x : CString} (h : OwnName s x) (h' : OwnName s' x) :
    s = s' := by
  refine lockPrefix_inj ?_
  have hlen : (lockPrefix s).length = (lockPrefix s').length := by
    rw [length_lockPrefix, length_lockPrefix]
  exact (List.prefix_of_prefix_length_le h.1 h'.1 hlen.le).eq_of_length hlen

/-- A name that is looked up by the client's prefix is one of its own. -/
theorem ownName_of_lookupnode {session : Sid} {vector : List CString} {x : CString}
    (h : lookupnode vector (lockPrefix session) = some x) (hv : ∀ y ∈ vector, '/' ∉ y) :
    x ∈ vector ∧ OwnName session x := by
  have hmem := List.mem_of_find?_eq_some h
  exact ⟨hmem, List.isPrefixOf_iff_prefix.mp (List.find?_some h), hv x hmem⟩

/-- A client that looks up its prefix finds a node, when it has one. -/
theorem lookupnode_ne_none {session : Sid} {vector : List CString} {x : CString}
    (hx : x ∈ vector) (hown : OwnName session x) :
    lookupnode vector (lockPrefix session) ≠ none := by
  intro h
  have := List.find?_eq_none.mp h x hx
  exact this (List.isPrefixOf_iff_prefix.mpr hown.1)

/-! ### The sequence number -/

theorem length_format010d_le (z : ℤ) : (format010d z).length ≤ 11 := by
  cases z with
  | ofNat m => simp [format010d]
  | negSucc m =>
    simp only [format010d, List.length_cons, length_fixedDigits]
    split <;> simp

theorem length_sprintf010d_le (n : ℕ) : (sprintf010d n).length ≤ 11 := length_format010d_le _

theorem slash_notMem_format010d (z : ℤ) : '/' ∉ format010d z := by
  have hdigits : ∀ w m, '/' ∉ fixedDigits 10 w m :=
    notMem_fixedDigits (by decide) (by decide) (by decide)
  cases z with
  | ofNat m => exact hdigits _ _
  | negSucc m => simp [format010d, hdigits]

theorem slash_notMem_sprintf010d (n : ℕ) : '/' ∉ sprintf010d n := slash_notMem_format010d _

/-- A number below 2³¹ is printed as it is. -/
theorem sprintf010d_of_lt {n : ℕ} (h : n < 2 ^ 31) : sprintf010d n = fixedDigits 10 10 n := by
  have hmod : Int.bmod (n : ℤ) (2 ^ 32) = Int.ofNat n := by
    rw [Int.bmod_def, Int.ofNat_eq_natCast]
    omega
  rw [sprintf010d, hmod, format010d]

/-- The name of the node that the service makes for a client, with the number `n`. -/
def lockName (session : Sid) (n : ℕ) : CString := lockPrefix session ++ sprintf010d n

theorem ownName_lockName (session : Sid) (n : ℕ) : OwnName session (lockName session n) := by
  refine ⟨List.prefix_append .., ?_⟩
  simp [lockName, slash_notMem_lockPrefix, slash_notMem_sprintf010d]

/-- The name the client finds in its buffer is the whole name. -/
theorem getName_enqueued (session : Sid) (p : CString) (n : ℕ) :
    getName ((childOf p (lockPrefix session) ++ sprintf010d n).take (p.length + 41 - 1)) =
      some (lockName session n) := by
  have hlen := length_sprintf010d_le n
  rw [List.take_of_length_le (by simp [childOf, length_lockPrefix]; omega)]
  have happend : childOf p (lockPrefix session) ++ sprintf010d n =
      p ++ '/' :: lockName session n := by
    simp [childOf, lockName]
  rw [happend, getName, afterLast_append (ownName_lockName session n).2]

theorem lt_ten_pow {n : ℕ} (h : n < 2 ^ 31) : n < 10 ^ 10 := h.trans (by norm_num)

theorem afterLast_lockName {session : Sid} {n : ℕ} (h : n < 2 ^ 31) :
    afterLast '-' (lockName session n) = some (fixedDigits 10 10 n) := by
  have hdash : '-' ∉ fixedDigits 10 10 n :=
    notMem_fixedDigits (by decide) (by decide) (by decide) 10 n
  have happend : lockName session n =
      (['x', '-'] ++ fixedDigits 16 16 session.val) ++ '-' :: fixedDigits 10 10 n := by
    rw [lockName, lockPrefix_eq, sprintf010d_of_lt h]
    simp
  rw [happend, afterLast_append hdash]

/-- Names with different numbers differ. -/
theorem lockName_inj {s s' : Sid} {m n : ℕ} (hm : m < 2 ^ 31) (hn : n < 2 ^ 31)
    (h : lockName s m = lockName s' n) : m = n := by
  have hlast := congrArg (afterLast '-') h
  rw [afterLast_lockName hm, afterLast_lockName hn, Option.some.injEq,
    fixedDigits_inj (by decide) (by decide) (lt_ten_pow hm) (lt_ten_pow hn)] at hlast
  exact hlast

theorem vstrcmp_lockName {s s' : Sid} {m n : ℕ} (hm : m < 2 ^ 31) (hn : n < 2 ^ 31) :
    vstrcmp (lockName s m) (lockName s' n) = some (compare m n) := by
  have hcmp := strcmp_fixedDigits (by decide) (by decide) (lt_ten_pow hm) (lt_ten_pow hn)
  rw [vstrcmp, afterLast_lockName hm, afterLast_lockName hn, ← hcmp]

/-! ### The first of the queue -/

/-- `sort_children` puts names in the order of the numbers that `vstrcmp` compares. -/
theorem sortChildren_map {α : Type} {name : α → CString} {number : α → ℕ} {l : List α}
    (h : ∀ a ∈ l, ∀ b ∈ l, vstrcmp (name a) (name b) = some (compare (number a) (number b))) :
    sortChildren (l.map name) =
      some ((l.insertionSort fun a b => number a ≤ number b).map name) := by
  have hdash : (l.map name).any (fun x => (afterLast '-' x).isNone) = false := by
    simp only [List.any_eq_false, List.mem_map]
    rintro _ ⟨a, ha, rfl⟩
    have hself := h a ha a ha
    unfold vstrcmp at hself
    cases hlast : afterLast '-' (name a) with
    | none => simp [hlast] at hself
    | some x => simp
  rw [sortChildren, hdash, Bool.and_false, if_neg (by decide), Option.some.injEq]
  refine (List.map_insertionSort (fun a b => number a ≤ number b)
    (fun a b => vstrcmpLe a b = true) name l fun a ha b hb => ?_).symm
  simp [vstrcmpLe, h a ha b hb, Nat.compare_ne_gt]

/-- `sort_children` keeps the names. -/
theorem mem_sortChildren {vector sorted : List CString} (h : sortChildren vector = some sorted)
    (y : CString) : y ∈ sorted ↔ y ∈ vector := by
  unfold sortChildren at h
  split at h
  · cases h
  rw [← Option.some.inj h]
  exact List.mem_insertionSort _

/-- The name that `child_floor` finds is one of the names. -/
theorem mem_of_childFloor {sorted : List CString} {element x : CString}
    (h : childFloor sorted element = some x) : x ∈ sorted :=
  List.mem_of_mem_filter (List.mem_of_getLast? h)

/-- The first of the sorted names is one of the names, and no other comes before it. -/
theorem first_of_sortChildren {vector rest : List CString} {x : CString}
    (h : sortChildren vector = some (x :: rest))
    (hdash : ∀ y ∈ vector, afterLast '-' y ≠ none) :
    x ∈ vector ∧ ∀ y ∈ vector, vstrcmp x y ≠ some .gt := by
  have hmem := mem_sortChildren h
  unfold sortChildren at h
  split at h
  · cases h
  rw [Option.some.injEq] at h
  refine ⟨(hmem x).mp List.mem_cons_self, ?_⟩
  -- the parts that `vstrcmp` compares are ordered by `strcmp`
  let part : CString → CString := fun y => (afterLast '-' y).getD []
  let le : CString → CString → Prop := fun a b => strcmp a b ≠ .gt
  have hpart : ∀ a ∈ vector, ∀ b ∈ vector, vstrcmp a b = some (strcmp (part a) (part b)) := by
    intro a ha b hb
    obtain ⟨u, hu⟩ := Option.ne_none_iff_exists'.mp (hdash a ha)
    obtain ⟨v, hv⟩ := Option.ne_none_iff_exists'.mp (hdash b hb)
    simp only [vstrcmp, part, hu, hv, Option.getD_some]
  have hmap := List.map_insertionSort (fun a b => vstrcmpLe a b = true) le part vector
    fun a ha b hb => by simp [vstrcmpLe, hpart a ha b hb, le]
  have : Std.Total le := ⟨strcmp_total⟩
  have : IsTrans CString le := ⟨fun _ _ _ => strcmp_trans⟩
  have hsorted := List.pairwise_insertionSort le (vector.map part)
  rw [← hmap, h, List.map_cons, List.pairwise_cons] at hsorted
  intro y hy
  rw [hpart x ((hmem x).mp List.mem_cons_self) y hy]
  rcases List.mem_cons.mp ((hmem y).mpr hy) with rfl | hrest
  · simp
  · simpa [le] using hsorted.1 (part y) (List.mem_map_of_mem hrest)

end PhpZookeeper
