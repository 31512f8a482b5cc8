import PhpZookeeper.Client.Get
import PhpZookeeper.Session.Retry

/-!
# Reads of a node that others change

`Zookeeper::get` without a `max_size` and `PS_READ` ask for the length of a node's data and then
for the data. Others may change the node in between. `reads_whole_iff` says when what comes back is
nevertheless whole.
-/

namespace PhpZookeeper

open Theory Prog Status

/-- A node at `path` has had the data `d`, at one of the moments. -/
def HasHeld {N : Type} (data : N → Option Bytes) (moments : List (CString → Option N))
    (path : CString) (d : Bytes) : Prop :=
  ∃ t ∈ moments, ∃ n, t path = some n ∧ (data n).getD [] = d

/-- `d` is what is left when the data of the node at `path` is cut off. -/
def CutOff {N : Type} (data : N → Option Bytes) (t : CString → Option N) (path : CString)
    (d : Bytes) : Prop :=
  ∃ n, t path = some n ∧ d <+: (data n).getD [] ∧ d ≠ (data n).getD []

/-- The data that the second request finds is no longer than the first one has said. -/
def NoLonger {N : Type} (data : N → Option Bytes) (path : CString)
    (looked fetched : CString → Option N) : Prop :=
  ∀ n₀ n₁, looked path = some n₀ → fetched path = some n₁ →
    ((data n₁).getD []).length ≤ ((data n₀).getD []).length

/-- What a length brings is whole when the data is no longer, and only then. -/
theorem whole_take_iff {N : Type} {d : N → Option Bytes}
    {moments : List (CString → Option N)} {path : CString} {looked fetched : CString → Option N}
    {n₀ n₁ : N} (h₀ : looked path = some n₀) (h₁ : fetched path = some n₁)
    (hmem : fetched ∈ moments) :
    (HasHeld d moments path (((d n₁).getD []).take ((d n₀).getD []).length) ∧
      ¬ CutOff d fetched path (((d n₁).getD []).take ((d n₀).getD []).length)) ↔
      NoLonger d path looked fetched := by
  constructor
  · rintro ⟨-, hwhole⟩ n₀' n₁' h₀' h₁'
    obtain rfl : n₀ = n₀' := Option.some.inj (h₀.symm.trans h₀')
    obtain rfl : n₁ = n₁' := Option.some.inj (h₁.symm.trans h₁')
    by_contra hlonger
    refine hwhole ⟨n₁, h₁, List.take_prefix _ _, fun heq => hlonger ?_⟩
    simpa using congrArg List.length heq
  · intro h
    rw [List.take_of_length_le (h n₀ n₁ h₀ h₁)]
    refine ⟨⟨fetched, hmem, n₁, h₁, rfl⟩, ?_⟩
    rintro ⟨n, hn, -, hne⟩
    obtain rfl : n₁ = n := Option.some.inj (h₁.symm.trans hn)
    exact hne rfl

/-! ### `Zookeeper::get` -/

/-- The bytes of a value; `NULL` has none. -/
def Zval.bytes : Zval → Bytes
  | .string s => s
  | _ => []

/-- A call of `get` that succeeds returns what the node has held at a moment of the call, and not
the data that it has fetched, cut off. -/
def GetWhole (path : CString) (v : MethodResult) (s : Call) : Prop :=
  HasHeld FullNode.data s.moments path v.value.bytes ∧
    ∀ t, s.fetched = some (t, ZOK) → ¬ CutOff FullNode.data t path v.value.bytes

/-- The node has not grown between the two requests of a call of `get`. -/
def GetNoLonger (path : CString) (s : Call) : Prop :=
  ∀ t₀ t₁, s.looked = some t₀ → s.fetched = some (t₁, ZOK) → NoLonger FullNode.data path t₀ t₁

theorem FullNode.toNat_dataLength (n : FullNode) :
    n.stat.dataLength.toInt.toNat = (n.data.getD []).length := by
  rw [n.dataLength, Int.toNat_natCast]

/-- The bytes that `get` returns for the length `L`. -/
theorem bytes_result {path : CString} {L : Int32} {statInfo : Bool} {t : FullNodes} {n : FullNode}
    {a : GetReply} (hn : t path = some n) (hrc : a.rc = ZOK) (h : a.Documented t path L) :
    (a.result statInfo).value.bytes = (n.data.getD []).take L.toInt.toNat := by
  rw [(result_of_documented statInfo hn hrc h).2]
  cases n.data <;> simp [Zval.bytes]

open Call in
theorem getWhole_iff {E : FullNodes → FullNodes → Prop} {object : Ptr} {path : CString}
    {fci : Option Callable} {statInfo : Bool} {maxSize : Int64} {s s' : Call} {tr : List ExtOp}
    {v : MethodResult} (hmax : maxSize ≤ 0) (hlooked : s.looked = none)
    (hfetched : s.fetched = none)
    (h : Run (sem E) (Zookeeper.get object path fci statInfo maxSize) s tr v s')
    (hwarn : ¬ Warned tr) : GetWhole path v s' ↔ GetNoLonger path s' := by
  rcases run_get h with ⟨hwarned, -⟩ | ⟨zk, cbData, L, s₀, tr₀, tr₁, -, rfl, hasked, -, hsame, -, -,
    hmem, hrest⟩
  · exact absurd hwarned hwarn
  · rw [AskedLength, if_pos hmax] at hasked
    obtain ⟨t₀, n₀, ht₀, hn₀, rfl⟩ := hasked
    have hmem₀ : t₀ ∈ s₀.moments := by
      rcases hmem t₀ ht₀ with hmem | hnone
      · exact hmem
      · rw [hlooked] at hnone
        cases hnone
    rcases run_getLength hrest with ⟨hL, -, rfl, rfl⟩ | ⟨hL, a, s₁, tr', hdoc, hlater, hlater', rfl,
      htr'⟩
    · have hnone : ∀ t, s'.fetched ≠ some (t, ZOK) := by simp [hsame, hfetched]
      refine iff_of_true ⟨⟨t₀, hmem₀, n₀, hn₀, ?_⟩, fun t ht => absurd ht (hnone t)⟩
        fun _ t₁ _ ht₁ => absurd ht₁ (hnone t₁)
      · have hle := Int32.le_iff_toInt_le.mp hL
        rw [n₀.dataLength, Int32.toInt_zero] at hle
        exact List.eq_nil_of_length_eq_zero (by omega)
    · have hrc : a.rc = ZOK := by
        by_contra hne
        rw [if_neg hne] at htr'
        exact hwarn (.inr ⟨a.rc, by simp [htr']⟩)
      rw [if_pos hrc] at htr'
      obtain ⟨-, rfl⟩ := htr'
      have hlater₁ := Later.same hlater
      have hlater₂ := Later.same hlater'
      have hlooked' : s'.looked = some t₀ := by
        rw [hlater₂.looked, looked_fetch, hlater₁.looked, ht₀]
      have hfetched' : s'.fetched = some (s₁.nodes, ZOK) := by
        rw [hlater₂.fetched, fetched_fetch, hrc]
      have hmem₁ : s₁.nodes ∈ s'.moments :=
        hlater₂.subset (by rw [moments_fetch]; exact s₁.nodes_mem_moments)
      have hdoc' := hdoc
      rw [GetReply.Documented, if_pos hrc] at hdoc'
      obtain ⟨n₁, hn₁, -⟩ := hdoc'
      have hwhole := whole_take_iff (d := FullNode.data) hn₀ hn₁ hmem₁
      rw [GetWhole, bytes_result hn₁ hrc hdoc, n₀.toNat_dataLength]
      constructor
      · intro h t₀' t₁' ht₀' ht₁'
        rw [hlooked', Option.some.injEq] at ht₀'
        rw [hfetched', Option.some.injEq, Prod.mk.injEq] at ht₁'
        exact ht₀' ▸ ht₁'.1 ▸ hwhole.mp ⟨h.1, h.2 _ hfetched'⟩
      · intro h
        have hboth := hwhole.mpr (h t₀ s₁.nodes hlooked' hfetched')
        refine ⟨hboth.1, fun t ht => ?_⟩
        rw [hfetched', Option.some.injEq, Prod.mk.injEq] at ht
        exact ht.1 ▸ hboth.2

/-! ### `PS_READ` -/

/-- What a call of `PS_READ` acts on, and what has happened since it began. -/
structure Reading where
  nodes : Nodes
  /-- The nodes at earlier moments of the call, the last ones first. -/
  before : List Nodes := []
  memory : PhpZookeeperSession := {}
  /-- The nodes when `zoo_exists` succeeded. -/
  looked : Option Nodes := none
  /-- The nodes when `zoo_get` succeeded. -/
  fetched : Option Nodes := none

namespace Reading

/-- The nodes at the moments of the call. -/
def moments (s : Reading) : List Nodes := s.nodes :: s.before

/-- The nodes change. -/
def change (s : Reading) (t : Nodes) : Reading := { s with nodes := t, before := s.moments }

/-- Another client changes the nodes. -/
def Other (s s' : Reading) : Prop := ∃ t, s' = s.change t

/-- A request that is answered. -/
def answer (s : Reading) (r : Req) (a : Reply) (t : Nodes) : Reading :=
  match r with
  | .zooExists _ => if a.rc = ZOK then { s with looked := some s.nodes } else s
  | .zooGet _ _ => if a.rc = ZOK then { s with fetched := some s.nodes } else s
  | _ => s.change t

/-- One operation: a request is answered, or it fails, applied or not. -/
def operation (sid : Sid) : (o : Op) → Reading → o.Res → Reading → Prop
  | .zoo r, s, a, s' =>
    (∃ b t, Answers sid r s.nodes b t ∧ a = b.received r ∧ s' = s.answer r b t) ∨
      ∃ why : Failure, a = { rc := why.status } ∧
        (s' = s ∨ ∃ b t, Answers sid r s.nodes b t ∧ s' = s.change t)
  | .load, s, m, s' => m = s.memory ∧ s' = s
  | .store v, s, _, s' => s' = { s with memory := v.apply s.memory }
  | _, s, _, s' => s' = s

/-- One operation, before which others may change the nodes. -/
def sem (sid : Sid) (o : Op) (s : Reading) (r : o.Res) (s' : Reading) : Prop :=
  ∃ s₁, Relation.ReflTransGen Other s s₁ ∧ operation sid o s₁ r s'

/-- What a call leaves alone until a request succeeds. -/
structure Same (s s' : Reading) : Prop where
  memory : s'.memory = s.memory
  looked : s'.looked = s.looked
  fetched : s'.fetched = s.fetched
  moments : s.moments ⊆ s'.moments

theorem Same.refl (s : Reading) : Same s s := ⟨rfl, rfl, rfl, List.Subset.refl _⟩

theorem Same.trans {s₁ s₂ s₃ : Reading} (h : Same s₁ s₂) (h' : Same s₂ s₃) : Same s₁ s₃ :=
  ⟨h'.memory.trans h.memory, h'.looked.trans h.looked, h'.fetched.trans h.fetched,
    List.Subset.trans h.moments h'.moments⟩

theorem Same.change (s : Reading) (t : Nodes) : Same s (s.change t) :=
  ⟨rfl, rfl, rfl, List.subset_cons_self ..⟩

theorem same_of_others {s s' : Reading} (h : Relation.ReflTransGen Other s s') : Same s s' := by
  induction h with
  | refl => exact .refl s
  | tail _ hstep ih =>
    obtain ⟨t, rfl⟩ := hstep
    exact ih.trans (.change _ t)

theorem nodes_mem_moments (s : Reading) : s.nodes ∈ s.moments := List.mem_cons_self

variable {sid : Sid} {r : Req} {s s' : Reading} {a : Reply}

/-- A request that does not succeed leaves everything as it is, but for the nodes. -/
theorem sem_failed (h : sem sid (.zoo r) s a s') (ha : a.rc ≠ ZOK) : Same s s' := by
  obtain ⟨s₁, hothers, ⟨b, t, hans, rfl, rfl⟩ | ⟨why, rfl, rfl | ⟨b, t, -, rfl⟩⟩⟩ := h
  · rw [Reply.received_rc] at ha
    refine (same_of_others hothers).trans ?_
    cases r <;> simp only [answer, if_neg ha]
    all_goals first | exact .refl _ | exact .change _ _
  · exact same_of_others hothers
  · exact (same_of_others hothers).trans (.change _ t)

/-- An `exists` that succeeds. -/
theorem sem_exists {p : CString} (h : sem sid (.zoo (.zooExists p)) s a s') (ha : a.rc = ZOK) :
    s'.memory = s.memory ∧ s'.fetched = s.fetched ∧
      ∃ t n, s'.looked = some t ∧ t ∈ s'.moments ∧ t p = some n ∧ a.stat = n.stat := by
  obtain ⟨s₁, hothers, ⟨b, t, hans, rfl, rfl⟩ | ⟨why, rfl, -⟩⟩ := h
  · have hsame := same_of_others hothers
    simp only [answer, if_pos ha]
    refine ⟨hsame.memory, hsame.fetched, ?_⟩
    rcases hans.zooExists.2 with ⟨-, hrc⟩ | ⟨-, hrc⟩ | ⟨n, hn, -, -, hstat⟩
    · rw [ha] at hrc
      cases hrc
    · rw [ha] at hrc
      cases hrc
    · exact ⟨_, n, rfl, s₁.nodes_mem_moments, hn, hstat⟩
  · exact absurd ha why.status_ne.1

/-- A `get` that succeeds. -/
theorem sem_get {p : CString} {len : ℕ} (h : sem sid (.zoo (.zooGet p len)) s a s')
    (ha : a.rc = ZOK) :
    s'.looked = s.looked ∧ s.moments ⊆ s'.moments ∧
      ∃ t n, s'.fetched = some t ∧ t ∈ s'.moments ∧ t p = some n ∧
        a.value = n.data.map (·.take len) := by
  obtain ⟨s₁, hothers, ⟨b, t, hans, rfl, rfl⟩ | ⟨why, rfl, -⟩⟩ := h
  · have hsame := same_of_others hothers
    rw [Reply.received_rc] at ha
    simp only [answer, if_pos ha]
    refine ⟨hsame.looked, hsame.moments, ?_⟩
    rcases hans.zooGet.2 with ⟨-, hrc⟩ | ⟨-, hrc⟩ | ⟨n, hn, -, -, hvalue, -⟩
    · rw [ha] at hrc
      cases hrc
    · rw [ha] at hrc
      cases hrc
    · exact ⟨_, n, rfl, s₁.nodes_mem_moments, hn, by simp [Reply.received, hvalue]⟩
  · exact absurd ha why.status_ne.1

/-- A `delete`, whatever comes of it. -/
theorem sem_delete {p : CString} {version : ℤ} (h : sem sid (.zoo (.zooDelete p version)) s a s') :
    Same s s' := by
  obtain ⟨s₁, hothers, ⟨b, t, -, rfl, rfl⟩ | ⟨why, rfl, rfl | ⟨b, t, -, rfl⟩⟩⟩ := h
  · exact (same_of_others hothers).trans (.change _ t)
  · exact same_of_others hothers
  · exact (same_of_others hothers).trans (.change _ t)

/-- A retry loop ends with a reply that is no connection loss, and until then only the nodes have
changed. -/
theorem returns_retryLoop {request : Status → Req} {status : Status}
    (hconst : ∀ status, request status = r)
    (h : Returns (sem sid) (retryLoop request status) s a s') :
    ∃ s₁, Same s s₁ ∧ sem sid (.zoo r) s₁ a s' :=
  retryLoop_induction h (P := fun _ s₁ => Same s s₁)
    (Q := fun a s' => ∃ s₁, Same s s₁ ∧ sem sid (.zoo r) s₁ a s') (.refl s)
    fun status s₁ b s₂ hsame hsem => by
      rw [hconst] at hsem
      split_ifs with hb
      · exact hsame.trans (sem_failed hsem (by simp [hb]))
      · exact ⟨s₁, hsame, hsem⟩

end Reading

/-- A `PS_READ` that succeeds stores a length that is not negative, and bytes that the node has held
at a moment of the call, which are not the data that it has fetched, cut off. -/
def ReadWhole (key : CString) (v : Outcome (Option Bytes)) (s : Reading) : Prop :=
  ∀ b, v = .success b → ∃ d, b = some d ∧ HasHeld Znode.data s.moments (sessionPath key) d ∧
    ∀ t, s.fetched = some t → ¬ CutOff Znode.data t (sessionPath key) d

/-- The node has not grown between the two requests of a call of `PS_READ`, and the value found is
not `NULL`. -/
def ReadNoLonger (key : CString) (s : Reading) : Prop :=
  ∀ t₀ t₁, s.looked = some t₀ → s.fetched = some t₁ →
    NoLonger Znode.data (sessionPath key) t₀ t₁ ∧
      ∀ n, t₁ (sessionPath key) = some n → n.data ≠ none

open Reading in
theorem readWhole_iff {sid session : Sid} {g : Globals} {key : CString} {s s' : Reading}
    {v : Outcome (Option Bytes)} (hlock : g.sessionLock = false) (hfetched : s.fetched = none)
    (h : Returns (sem sid) (psRead session g key) s v s') :
    ReadWhole key v s' ↔ ReadNoLonger key s' := by
  -- every way out but the last is a failure, and has fetched nothing
  have hfailed : ∀ {s' : Reading}, s'.fetched = none →
      (ReadWhole key .failure s' ↔ ReadNoLonger key s') := fun hnone =>
    iff_of_true nofun fun _ _ _ ht₁ => by
      rw [hnone] at ht₁
      cases ht₁
  simp only [psRead, hlock, Bool.false_eq_true, if_false, psReadData, bind_eq, perform_bind,
    returns_op_iff, returns_bind_iff] at h
  obtain ⟨-, s₁, ⟨s₀, hothers₀, rfl⟩, m, s₂, ⟨s₁', hothers₁, rfl, rfl⟩, a, s₃, hexists, h⟩ := h
  have hsame₀ := same_of_others hothers₀
  have hsame₁ := same_of_others hothers₁
  have hpath : s₂.memory.path = sessionPath key := by
    rw [hsame₁.memory]
    rfl
  have hfetched₂ : s₂.fetched = none := by
    rw [hsame₁.fetched]
    exact hsame₀.fetched.trans hfetched
  obtain ⟨s₂', hsame₂, hlook⟩ := returns_retryLoop (fun _ => rfl) hexists
  have hfetched₂' : s₂'.fetched = none := hsame₂.fetched.trans hfetched₂
  split_ifs at h with hrc hexpired
  · obtain ⟨rfl, rfl⟩ := returns_ret_iff.mp h
    exact hfailed ((sem_failed hlook hrc).fetched.trans hfetched₂')
  · simp only [returns_op_iff, returns_bind_iff] at h
    obtain ⟨m, s₄, ⟨s₃', hothers₃, rfl, rfl⟩, b, s₅, hdelete, h⟩ := h
    obtain ⟨rfl, rfl⟩ := returns_ret_iff.mp h
    obtain ⟨s₄', hsame₄, hdeleted⟩ := returns_retryLoop (fun _ => rfl) hdelete
    have hsame := ((same_of_others hothers₃).trans hsame₄).trans (sem_delete hdeleted)
    exact hfailed (hsame.fetched.trans
      ((sem_exists hlook (not_not.mp hrc)).2.1.trans hfetched₂'))
  · simp only [returns_op_iff, returns_bind_iff] at h
    obtain ⟨m, s₄, ⟨s₃', hothers₃, rfl, rfl⟩, b, s₅, hget, h⟩ := h
    obtain ⟨hmemory₃, hfetched₃, t₀, n₀, hlooked₃, hmem₀, hn₀, hstat⟩ :=
      sem_exists hlook (not_not.mp hrc)
    obtain ⟨s₄', hsame₄, hfetch⟩ := returns_retryLoop (fun _ => rfl) hget
    have hsame := (same_of_others hothers₃).trans hsame₄
    rw [hpath] at hn₀
    have hpath₄ : s₄.memory.path = sessionPath key := by
      rw [(same_of_others hothers₃).memory, hmemory₃, hsame₂.memory, hpath]
    split_ifs at h with hrc₁
    · obtain ⟨rfl, rfl⟩ := returns_ret_iff.mp h
      exact hfailed ((sem_failed hfetch hrc₁).fetched.trans
        (hsame.fetched.trans (hfetched₃.trans hfetched₂')))
    · obtain ⟨rfl, rfl⟩ := returns_ret_iff.mp h
      obtain ⟨hlooked', hmoments', t₁, n₁, hfetched', hmem₁, hn₁, hvalue⟩ :=
        sem_get hfetch (not_not.mp hrc₁)
      rw [hpath₄] at hn₁
      rw [hsame.looked, hlooked₃] at hlooked'
      have hlen : a.stat.dataLength = (n₀.data.getD []).length := by
        rw [hstat, Znode.stat_dataLength]
      rw [hlen] at hvalue
      have hcut := whole_take_iff (d := Znode.data) hn₀ hn₁ hmem₁
      constructor
      · intro hwhole t₀' t₁' ht₀' ht₁'
        obtain rfl : t₀ = t₀' := Option.some.inj (hlooked'.symm.trans ht₀')
        obtain rfl : t₁ = t₁' := Option.some.inj (hfetched'.symm.trans ht₁')
        obtain ⟨d, hd, hheld, hnotCut⟩ := hwhole _ rfl
        rw [hvalue] at hd
        obtain ⟨d₁, hd₁, rfl⟩ := Option.map_eq_some_iff.mp hd
        rw [hd₁, Option.getD_some] at hcut
        refine ⟨hcut.mp ⟨hheld, hnotCut _ hfetched'⟩, fun n hn => ?_⟩
        obtain rfl : n₁ = n := Option.some.inj (hn₁.symm.trans hn)
        rw [hd₁]
        simp
      · intro hnot b' hb'
        obtain rfl : b.value = b' := by simpa using hb'
        obtain ⟨hlonger, hnull⟩ := hnot t₀ t₁ hlooked' hfetched'
        obtain ⟨d₁, hd₁⟩ := Option.ne_none_iff_exists'.mp (hnull n₁ hn₁)
        rw [hd₁, Option.getD_some] at hcut
        obtain ⟨hheld, hnotCut⟩ := hcut.mpr hlonger
        refine ⟨_, by rw [hvalue, hd₁]; rfl, hheld, fun t ht => ?_⟩
        obtain rfl : t₁ = t := Option.some.inj (hfetched'.symm.trans ht)
        exact hnotCut

/-! ### Both reads -/

/-- A call that reads, its result, and what has happened during the call. -/
inductive ReadCall where
  | get (path : CString) (v : MethodResult) (s : Call)
  | psRead (key : CString) (v : Outcome (Option Bytes)) (s : Reading)

namespace ReadCall

/-- The calls there are: `get` without a `max_size` that raises no warning, and `PS_READ` without
`session_lock`. -/
inductive Made : ReadCall → Prop where
  | get {E : FullNodes → FullNodes → Prop} {object : Ptr} {path : CString} {fci : Option Callable}
      {statInfo : Bool} {maxSize : Int64} {s s' : Call} {tr : List ExtOp} {v : MethodResult} :
      maxSize ≤ 0 → s.looked = none → s.fetched = none →
      Run (Call.sem E) (Zookeeper.get object path fci statInfo maxSize) s tr v s' → ¬ Warned tr →
      Made (.get path v s')
  | psRead {sid session : Sid} {g : Globals} {key : CString} {s s' : Reading}
      {v : Outcome (Option Bytes)} : g.sessionLock = false → s.fetched = none →
      Returns (Reading.sem sid) (PhpZookeeper.psRead session g key) s v s' →
      Made (.psRead key v s')

/-- What comes back, if anything does, is what the node has held at a moment of the call, and not
cut off. -/
def Whole : ReadCall → Prop
  | .get path v s => GetWhole path v s
  | .psRead key v s => ReadWhole key v s

/-- The node has not grown between the two requests; and a session's value is not `NULL`. -/
def NoLonger : ReadCall → Prop
  | .get path _ s => GetNoLonger path s
  | .psRead key _ s => ReadNoLonger key s

end ReadCall

/-- **When a read is whole**, whatever others do between its two requests: exactly when the data
that is fetched is no longer than the data that was looked up; and, for the length of `PS_READ`,
when the value is not `NULL`. -/
theorem reads_whole_iff {c : ReadCall} (h : c.Made) : c.Whole ↔ c.NoLonger := by
  cases h with
  | get hmax hlooked hfetched hrun hwarn => exact getWhole_iff hmax hlooked hfetched hrun hwarn
  | psRead hlock hfetched hrun => exact readWhole_iff hlock hfetched hrun

/-- A node with the given data. -/
def nodeWith (d : Bytes) (h : d.length < 2 ^ 31) : FullNode where
  data := some d
  stat := { dataLength := Int32.ofNat d.length }
  acl := []
  dataLength := Int32.toInt_ofNat_of_lt h

/-- A call of `get` for the node at `/a`, when another client changes the data `01` into that of `n`
between the two requests. -/
def changedCall (n : FullNode) : Call :=
  let s : Call := { nodes := fun _ => some (nodeWith [1] (by decide)) }
  (({ s with looked := some s.nodes } : Call).change fun _ => some n).fetch ['/', 'a'] none ZOK

theorem exists_run_changed (n : FullNode) :
    ∃ tr v, Run (Call.sem Call.Shared) (Zookeeper.get 0 ['/', 'a'] none false 0)
      { nodes := fun _ => some (nodeWith [1] (by decide)) } tr v (changedCall n) ∧ ¬ Warned tr ∧
      v.value.bytes = (n.data.getD []).take 1 := by
  let n₀ := nodeWith [1] (by decide)
  let s : Call := { nodes := fun _ => some n₀ }
  let s₁ : Call := { s with looked := some s.nodes }
  let s₂ : Call := s₁.change fun _ => some n
  have hexists : StatReply.Documented s.nodes ['/', 'a'] { rc := ZOK, stat := n₀.stat } :=
    ⟨fun _ => ⟨n₀, rfl, rfl⟩, nofun⟩
  have hget : (n.getReply 1).Documented s₂.nodes ['/', 'a'] 1 :=
    FullNode.getReply_documented rfl 1
  have hrest : Run (Call.sem Call.Shared) (if (n.getReply 1).length = -1 then
      .ret ⟨.null, fillStatInfo false n.stat⟩
    else .ret ⟨.string ((n.getReply 1).buffer.take (n.getReply 1).length.toInt.toNat),
      fillStatInfo false n.stat⟩) (changedCall n) [] ((n.getReply 1).result false)
      (changedCall n) := by
    unfold GetReply.result
    split_ifs
    · exact .ret
    · exact .ret
  refine ⟨_, _, run_op_iff.mpr ⟨{ zk := some 0 }, s, _, ⟨s, .refl, rfl⟩,
      run_op_iff.mpr ⟨{ rc := ZOK, stat := n₀.stat }, s₁, _, ⟨s, .refl, hexists, rfl⟩,
        run_op_iff.mpr ⟨(), s₂, _, ⟨s₂, .single ⟨_, trivial, rfl⟩, rfl⟩,
          run_op_iff.mpr ⟨n.getReply 1, changedCall n, _, ⟨s₂, .refl, hget, rfl⟩,
            run_op_iff.mpr ⟨(), changedCall n, _, ⟨_, .refl, rfl⟩, hrest, rfl⟩, rfl⟩, rfl⟩, rfl⟩,
      rfl⟩, by simp [Warned], bytes_result (t := s₂.nodes) rfl rfl hget⟩

/-- A call of `PS_READ` for the session `a`, when another client changes the data `01 02` into `03`
between the two requests. -/
def shrunkReading : Reading :=
  let memory : PhpZookeeperSession := { path := sessionPath ['a'] }
  let s : Reading := { nodes := fun _ => some { data := some [1, 2] }, memory := memory }
  let s' : Reading := ({ s with looked := some s.nodes } : Reading).change fun _ =>
    some { data := some [3] }
  { s' with fetched := some s'.nodes }

theorem returns_shrunk :
    Returns (Reading.sem 0) (psRead 0 { sessionLock := false } ['a'])
      { nodes := fun _ => some { data := some [1, 2] } } (.success (some [3])) shrunkReading := by
  let first : Znode := { data := some [1, 2] }
  let second : Znode := { data := some [3] }
  let s : Reading := { nodes := fun _ => some first, memory := { path := sessionPath ['a'] } }
  let s₁ : Reading := { s with looked := some s.nodes }
  let s₂ : Reading := s₁.change fun _ => some second
  let found : Reply := { rc := ZOK, stat := first.stat }
  let got : Reply := { rc := ZOK, value := some [3], stat := second.stat }
  have hvalid : validPath (sessionPath ['a']) false = true := by decide
  have hexists : Reading.sem 0 (.zoo (.zooExists (sessionPath ['a']))) s found s₁ :=
    ⟨s, .refl, .inl ⟨found, s.nodes, .existsOk hvalid rfl, rfl, rfl⟩⟩
  have hget : Reading.sem 0 (.zoo (.zooGet (sessionPath ['a']) 2)) s₂ got shrunkReading :=
    ⟨s₂, .refl, .inl ⟨got, s₂.nodes, .getOk hvalid rfl, rfl, rfl⟩⟩
  have hlook : Returns (Reading.sem 0) (retryLoop (fun _ => .zooExists (sessionPath ['a'])) ZOK) s
      found s₁ := returns_retryLoop_iff.mpr ⟨found, s₁, hexists, rfl, rfl⟩
  have hfetch : Returns (Reading.sem 0) (retryLoop (fun _ => .zooGet (sessionPath ['a']) 2) ZOK) s₂
      got shrunkReading := returns_retryLoop_iff.mpr ⟨got, shrunkReading, hget, rfl, rfl⟩
  have hload : Reading.sem 0 .load s s.memory s := ⟨s, .refl, rfl, rfl⟩
  -- the other client acts before the path is read again
  have hchange : Reading.sem 0 .load s₁ s.memory s₂ := ⟨s₂, .single ⟨_, rfl⟩, rfl, rfl⟩
  simp only [psRead, psReadData, bind_eq, perform_bind, returns_op_iff, returns_bind_iff,
    Bool.false_eq_true, if_false]
  refine ⟨(), s, ⟨_, .refl, rfl⟩, s.memory, s, hload, found, s₁, hlook, ?_⟩
  exact returns_op_iff.mpr ⟨s.memory, s₂, hchange,
    returns_bind_iff.mpr ⟨got, shrunkReading, hfetch, returns_ret_iff.mpr ⟨rfl, rfl⟩⟩⟩

/-- Another client changes the data `01` into `02` between the two requests of `get`, and makes that
of a session shorter between those of `PS_READ`. -/
theorem reads_whole_changed :
    (∃ v, ReadCall.Made (.get ['/', 'a'] v (changedCall (nodeWith [2] (by decide)))) ∧
      v.value.bytes = [2] ∧
      ReadCall.Whole (.get ['/', 'a'] v (changedCall (nodeWith [2] (by decide))))) ∧
    ReadCall.Made (.psRead ['a'] (.success (some [3])) shrunkReading) ∧
    ReadCall.Whole (.psRead ['a'] (.success (some [3])) shrunkReading) := by
  obtain ⟨tr, v, hrun, hwarn, hv⟩ := exists_run_changed (nodeWith [2] (by decide))
  have hget := ReadCall.Made.get (by decide) rfl rfl hrun hwarn
  have hread := ReadCall.Made.psRead rfl rfl returns_shrunk
  refine ⟨⟨v, hget, hv, (reads_whole_iff hget).mpr ?_⟩, hread, (reads_whole_iff hread).mpr ?_⟩
  · intro t₀ t₁ h₀ h₁ n₀ n₁ hn₀ hn₁
    cases h₀
    cases h₁
    cases hn₀
    cases hn₁
    decide
  · intro t₀ t₁ h₀ h₁
    cases h₀
    cases h₁
    refine ⟨fun n₀ n₁ hn₀ hn₁ => ?_, fun n hn => ?_⟩
    · cases hn₀
      cases hn₁
      decide
    · cases hn
      decide

/-- The data changes from `01` to `02 03` between the two requests, and `02` comes back. -/
theorem get_cut : ¬ ∀ c : ReadCall, c.Made → c.Whole := by
  intro h
  let n := nodeWith [2, 3] (by decide)
  obtain ⟨tr, v, hrun, hwarn, hv⟩ := exists_run_changed n
  obtain ⟨⟨t, ht, n', hn', hdata⟩, -⟩ := h _ (.get (by decide) rfl rfl hrun hwarn)
  rw [hv] at hdata
  have hmoments : t ['/', 'a'] = some n ∨ t ['/', 'a'] = some (nodeWith [1] (by decide)) := by
    rw [changedCall, Call.moments_fetch] at ht
    rcases List.mem_pair.mp ht with rfl | rfl
    · exact .inl rfl
    · exact .inr rfl
  rcases hmoments with hn | hn
  · obtain rfl : n = n' := Option.some.inj (hn.symm.trans hn')
    revert hdata
    decide
  · obtain rfl := Option.some.inj (hn.symm.trans hn')
    revert hdata
    decide

end PhpZookeeper
