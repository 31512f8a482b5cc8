import PhpZookeeper.Client.Acl
import PhpZookeeper.Lock.Call
import PhpZookeeper.Lock.Effects

/-!
# The buffers for sequence nodes

The service ends the name of a sequence node with a number of 32 bits, of 10 or 11 characters.
`Zookeeper::create` and `zkr_lock_operation` provide buffers whose sizes are computed from the path:
they hold the whole name, so `create` returns it (`Kept.created`), and the lock remembers the name
that a listing shows (`Kept.id_eq`, `Kept.listed`) and finds it again (`Kept.found`).
-/

namespace PhpZookeeper

open Theory Prog Status AclList

/-- A buffer of `size` bytes holds the text and the NUL that ends it. -/
def FitsIn (text : CString) (size : ℕ) : Prop := text.length + 1 ≤ size

/-- What `snprintf` makes of `"x-%016lx-"`, before it is cut. -/
def prefixText (session : Sid) : CString := ['x', '-'] ++ fixedDigits 16 16 session.val ++ ['-']

/-- The name that the service gives to the node with the counter `c`. -/
def childName (session : Sid) (c : Int32) : CString := prefixText session ++ format010d c.toInt

/-- The request of `zkr_lock_operation` for its node, with a buffer of `size` bytes. -/
def nodeRequest (session : Sid) (path : CString) (acl : Option Acl) (size : ℕ) : Req :=
  .zooCreate (childOf path (prefixText session)) none acl { ephemeral := true, sequence := true }
    size

/-- Replies when the service gives the counter `c` to the next sequence node: the client library
puts as much of the node's path into the caller's buffer as it holds. -/
def numbered (c : Int32) (_ : Talk) (r : Req) (a : Reply) : Prop :=
  ∃ b : Reply, a = b.received r ∧ ∀ p value acl flags size,
    r = .zooCreate p value acl flags size → flags.sequence = true → b.rc = ZOK →
      b.realPath = p ++ format010d c.toInt

/-- The name of the node with the counter `c` is kept whole, whatever buffer it goes through. -/
structure Kept (path : CString) (session : Sid) (c : Int32) : Prop where
  width : 10 ≤ (format010d c.toInt).length ∧ (format010d c.toInt).length ≤ 11
  /-- `prefix[30]` -/
  prefix_fits : FitsIn (prefixText session) 30 ∧ lockPrefix session = prefixText session
  /-- `buf` -/
  buf_fits : FitsIn (childOf path (prefixText session))
    (path.length + (lockPrefix session).length + 2)
  /-- The lock asks for a node with its whole prefix, and `retbuf` holds the node's path. -/
  asks : ∀ {th allowed s tr rc s'}, Run (callSem th allowed) (createNode session (some path)) s tr
    rc s' → ∀ r, Op.zoo r ∈ tr → ∃ acl size, r = nodeRequest session path acl size ∧
      FitsIn (childOf path (childName session c)) size
  /-- `mutex->id` is the name of the child. -/
  id_eq : ∀ {th s s'}, Returns (callSem th (numbered c)) (createNode session (some path)) s ZOK s' →
    s'.memory.lock.id = some (childName session c)
  /-- The child is listed under this name, as long as it is there. -/
  listed : ∀ {acl size t a t'}, Answers session (nodeRequest session path acl size) t a t' →
    a.rc = ZOK → a.realPath = childOf path (childName session c) →
    t' (childOf path (childName session c)) ≠ none ∧
    ∀ {sid u b u'}, Answers sid (.zooGetChildren path) u b u' → b.rc = ZOK →
      u (childOf path (childName session c)) ≠ none → childName session c ∈ b.strings
  /-- `lookupnode` finds it: a node of the client's own, and this one if there is no other. -/
  found : ∀ {vector}, childName session c ∈ vector →
    (∃ x ∈ vector, lookupnode vector (lockPrefix session) = some x ∧ lockPrefix session <+: x) ∧
    ((∀ x ∈ vector, lockPrefix session <+: x → x = childName session c) →
      lookupnode vector (lockPrefix session) = some (childName session c))
  /-- `Zookeeper::create` returns the whole path. -/
  created : ∀ {o : ZkObject} {value acl flags reply h}, o.zk ≠ none → flags &&& zooSequence ≠ 0 →
    reply.rc = ZOK → reply.realPath = cStringOf path ++ format010d c.toInt →
    realpathMax path flags = path.length + 12 ∧ FitsIn reply.realPath (realpathMax path flags) ∧
      (create o path value acl flags reply h).value = .string reply.realPath

variable {path : CString} {session : Sid} {c : Int32}

/-! ### Lengths -/

theorem le_length_format010d (z : ℤ) : 10 ≤ (format010d z).length := by
  cases z with
  | ofNat m => simp [format010d]
  | negSucc m =>
    simp only [format010d, List.length_cons, length_fixedDigits]
    split <;> simp

theorem prefixText_eq (session : Sid) : prefixText session = lockPrefix session :=
  (lockPrefix_eq session).symm

@[simp] theorem length_prefixText (session : Sid) : (prefixText session).length = 19 := by
  simp [prefixText]

@[simp] theorem length_childOf (p x : CString) :
    (childOf p x).length = p.length + x.length + 1 := by
  simp [childOf, Nat.add_assoc]

theorem length_childName_le (session : Sid) (c : Int32) : (childName session c).length ≤ 30 := by
  have := length_format010d_le c.toInt
  rw [childName, List.length_append, length_prefixText]
  omega

/-- `retbuf` has room for the path of the child. -/
theorem fits_retbuf (path : CString) (session : Sid) (c : Int32) :
    FitsIn (childOf path (childName session c)) (path.length + 41) := by
  have := length_childName_le session c
  rw [FitsIn, length_childOf]
  omega

theorem childOf_prefixText_append (path : CString) (session : Sid) (c : Int32) :
    childOf path (prefixText session) ++ format010d c.toInt =
      childOf path (childName session c) := by
  simp [childOf, childName]

theorem slash_notMem_childName (session : Sid) (c : Int32) : '/' ∉ childName session c := by
  rw [childName, prefixText_eq, List.mem_append, not_or]
  exact ⟨slash_notMem_lockPrefix session, slash_notMem_format010d _⟩

/-- A text that fits is not cut. -/
theorem FitsIn.take {text : CString} {size : ℕ} (h : FitsIn text size) :
    text.take (size - 1) = text :=
  List.take_of_length_le (Nat.le_sub_one_of_lt h)

theorem length_cStringOf_le (s : CString) : (cStringOf s).length ≤ s.length :=
  (List.takeWhile_prefix _).length_le

/-! ### The lock -/

/-- The requests of `createNode`. -/
theorem asks_of_run {th : Thread} {allowed : Talk → Req → Reply → Prop} {s s' : LockCall}
    {tr : List Op} {rc : Status}
    (h : Run (callSem th allowed) (createNode session (some path)) s tr rc s') (r : Req)
    (hr : Op.zoo r ∈ tr) : ∃ acl size, r = nodeRequest session path acl size ∧
      FitsIn (childOf path (childName session c)) size := by
  rw [createNode_some, ← prefixText_eq] at h
  obtain ⟨m, s₁, tr₁, -, h₁, rfl⟩ := run_op_iff.mp h
  obtain ⟨a, s₂, tr₂, -, h₂, rfl⟩ := run_op_iff.mp h₁
  simp only [bind_eq, ret_bind] at h₂
  have hrest : Op.zoo r ∉ tr₂ := by
    split_ifs at h₂
    · obtain ⟨rfl, -⟩ := run_ret_iff.mp h₂
      simp
    · obtain ⟨_, _, tr₃, -, h₃, rfl⟩ := run_op_iff.mp h₂
      obtain ⟨rfl, -⟩ := run_ret_iff.mp h₃
      simp
  simp only [List.mem_cons, reduceCtorEq, false_or, Op.zoo.injEq, hrest, or_false] at hr
  exact ⟨_, _, hr, fits_retbuf path session c⟩

/-- The name that `createNode` remembers is the child's. -/
theorem id_of_returns {th : Thread} {s s' : LockCall}
    (h : Returns (callSem th (numbered c)) (createNode session (some path)) s ZOK s') :
    s'.memory.lock.id = some (childName session c) := by
  rw [createNode_some, ← prefixText_eq] at h
  obtain ⟨m, s₁, -, h⟩ := returns_op_iff.mp h
  obtain ⟨a, s₂, ⟨⟨b, rfl, hnumber⟩, -⟩, h⟩ := returns_op_iff.mp h
  simp only [bind_eq, ret_bind, Reply.received_rc] at h
  split_ifs at h with hrc
  · exact absurd (returns_ret_iff.mp h).1.symm hrc
  obtain ⟨_, s₃, hstore, h⟩ := returns_op_iff.mp h
  obtain ⟨-, rfl⟩ := returns_ret_iff.mp h
  have hpath : b.realPath = childOf path (childName session c) := by
    rw [← childOf_prefixText_append]
    exact hnumber _ _ _ _ _ rfl rfl (by simpa using hrc)
  rw [hstore]
  show getName (b.realPath.take _) = _
  rw [hpath, (fits_retbuf path session c).take, getName, childOf,
    afterLast_append (slash_notMem_childName session c)]

/-- The service gives its node one of the counters, and the node is there. -/
theorem exists_counter {acl : Option Acl} {size : ℕ} {t t' : Nodes} {a : Reply}
    (h : Answers session (nodeRequest session path acl size) t a t') (hrc : a.rc = ZOK) :
    (∃ c, a.realPath = childOf path (childName session c)) ∧ t' a.realPath ≠ none := by
  cases h with
  | @createOk _ _ d _ _ _ _ _ k q _ _ _ hq =>
    refine ⟨⟨Int32.ofInt ((d.cseq + k : ℕ) : ℤ), ?_⟩, by simp⟩
    rw [← childOf_prefixText_append, Int32.toInt_ofInt, hq, if_pos rfl]
    rfl
  | _ => cases hrc

/-- The child is found by the prefix. -/
theorem found_of_mem {vector : List CString} (h : childName session c ∈ vector) :
    ∃ x ∈ vector, lookupnode vector (lockPrefix session) = some x ∧ lockPrefix session <+: x := by
  have hown : OwnName session (childName session c) := by
    refine ⟨?_, slash_notMem_childName session c⟩
    rw [childName, prefixText_eq]
    exact List.prefix_append ..
  obtain ⟨x, hx⟩ := Option.ne_none_iff_exists'.mp (lookupnode_ne_none h hown)
  exact ⟨x, List.mem_of_find?_eq_some hx, hx,
    List.isPrefixOf_iff_prefix.mp (List.find?_some hx)⟩

/-! ### `Zookeeper::create` -/

theorem realpathMax_of_sequence {flags : Int64} (h : flags &&& zooSequence ≠ 0) :
    realpathMax path flags = path.length + 12 := by
  rw [realpathMax, if_pos h]

/-- `realpath` has room for the path of a sequence node. -/
theorem fits_realpath {flags : Int64} (h : flags &&& zooSequence ≠ 0) :
    FitsIn (cStringOf path ++ format010d c.toInt) (realpathMax path flags) := by
  have hname := length_format010d_le c.toInt
  have hpath := length_cStringOf_le path
  rw [FitsIn, realpathMax_of_sequence h, List.length_append]
  omega

/-- The name of the node with the counter `c` is kept. -/
theorem kept (path : CString) (session : Sid) (c : Int32) : Kept path session c where
  width := ⟨le_length_format010d _, length_format010d_le _⟩
  prefix_fits := ⟨by simp [FitsIn], lockPrefix_eq session⟩
  buf_fits := by
    rw [FitsIn, length_childOf, ← prefixText_eq]
  asks := asks_of_run
  id_eq := id_of_returns
  listed h hrc hpath := by
    refine ⟨hpath ▸ (exists_counter h hrc).2, fun hlist hb hthere => ?_⟩
    rcases hlist.zooGetChildren.2 with ⟨-, hbad⟩ | ⟨-, hbad⟩ | ⟨-, -, hmem⟩
    · simp [hb] at hbad
    · simp [hb] at hbad
    · exact (hmem _).mpr ⟨slash_notMem_childName session c, hthere⟩
  found h := by
    refine ⟨found_of_mem h, fun honly => ?_⟩
    obtain ⟨x, hmem, hx, hown⟩ := found_of_mem h
    rw [hx, honly x hmem hown]
  created {o value acl flags reply h} hzk hflags hrc hpath := by
    have hfits : FitsIn (cStringOf path ++ format010d c.toInt) _ := fits_realpath hflags
    rw [← hpath] at hfits
    refine ⟨realpathMax_of_sequence hflags, hfits, ?_⟩
    obtain ⟨zk, hzk⟩ := Option.ne_none_iff_exists'.mp hzk
    simp [create, hzk, hrc, hfits.take]

/-- **Sequential names are never cut**, for any path, session and counter; and the service gives
the lock's node one of these names. -/
theorem names_kept (path : CString) (session : Sid) :
    (∀ c, Kept path session c) ∧
    ∀ acl size t a t', Answers session (nodeRequest session path acl size) t a t' → a.rc = ZOK →
      ∃ c, a.realPath = childOf path (childName session c) :=
  ⟨kept path session, fun _ _ _ _ _ h hrc => (exists_counter h hrc).1⟩

/-- The widest number. -/
example : childName 10 (-2147483648) = "x-000000000000000a--2147483648".toList := by decide

end PhpZookeeper
