import PhpZookeeper.Client.Get
import PhpZookeeper.Theory.Effects
import PhpZookeeper.Theory.Versions

/-!
# Updates of a node by scripts

A script calls methods of an object one after another, and other clients change the nodes before,
between and during its calls. A `set` with the version that a `get` has given replaces what the
`get` has seen (`set_replaces_seen`): whoever changes the node in between makes the version another
one, unless the node is deleted, or written so often that the version comes round. And as long as
nobody else writes to a node, a `get` of it gives what the last `set` has left
(`get_returns_last_set`).
-/

namespace PhpZookeeper

open Theory Prog Status Call

/-! ### Scripts -/

/-- A call of a method. -/
inductive ScriptCall where
  | connect (fci : Option Callable) (recvTimeout : Int64)
  | delete (path : CString) (version : Int64)
  | getChildren (path : CString) (fci : Option Callable)
  | get (path : CString) (fci : Option Callable) (statInfo : Bool) (maxSize : Int64)
  | exists (path : CString) (fci : Option Callable)
  | set (path : CString) (value : Option PhpString) (version : Int64) (statInfo : Bool)
  | setAcl (path : CString) (version : Int64) (acl : List AclEntry)
  | addAuth (scheme cert : Bytes) (fci : Option Callable)
  | setWatcher (fci : Callable)

/-- The code of the method. -/
def ScriptCall.code (object : Ptr) : ScriptCall → ExtCode MethodResult
  | .connect fci recvTimeout => Zookeeper.connect object fci recvTimeout
  | .delete path version => Zookeeper.delete object path version
  | .getChildren path fci => Zookeeper.getChildren object path fci
  | .get path fci statInfo maxSize => Zookeeper.get object path fci statInfo maxSize
  | .exists path fci => Zookeeper.exists object path fci
  | .set path value version statInfo => Zookeeper.set object path value version statInfo
  | .setAcl path version acl => Zookeeper.setAcl object path version acl
  | .addAuth scheme cert fci => Zookeeper.addAuth object scheme cert fci
  | .setWatcher fci => Zookeeper.setWatcher object fci

/-- A call that a script has made. -/
structure ScriptStep where
  call : ScriptCall
  trace : List ExtOp
  result : MethodResult
  /-- The nodes at the moments of the call, the last ones first. -/
  moments : List FullNodes
  /-- The nodes at the moments before the call, the last ones first. -/
  before : List FullNodes

/-- The calls of a script and the moments so far, the last ones first. Others change the nodes as
`E` allows. -/
inductive ScriptRun (E : FullNodes → FullNodes → Prop) (object : Ptr) :
    List ScriptStep → List FullNodes → Prop where
  | start {t : FullNodes} : ScriptRun E object [] [t]
  /-- Between two calls. -/
  | others {past : List ScriptStep} {t t' : FullNodes} {ts : List FullNodes} :
      ScriptRun E object past (t :: ts) → E t t' → ScriptRun E object past (t' :: t :: ts)
  | call {past : List ScriptStep} {c : ScriptCall} {t : FullNodes} {ts : List FullNodes}
      {tr : List ExtOp} {r : MethodResult} {s : Call} : ScriptRun E object past (t :: ts) →
      Run (sem E) (c.code object) { nodes := t } tr r s →
      ScriptRun E object (⟨c, tr, r, s.moments, ts⟩ :: past) (s.moments ++ ts)

/-- The service adds one to the version of a node when its data are written, and leaves the version
alone otherwise. -/
def CountsWrites (path : CString) (t t' : FullNodes) : Prop :=
  ∀ n n', t path = some n → t' path = some n' →
    n'.stat.version = n.stat.version ∧ n'.data = n.data ∨ n'.stat.version = n.stat.version + 1

/-- What `get` returns of the data of a node, with a buffer for `L` bytes. -/
def shownData (data : Option Bytes) (L : ℕ) : Zval :=
  match data with
  | none => .null
  | some d => .string (d.take L)

variable {E : FullNodes → FullNodes → Prop} {object : Ptr} {path : CString} {s s' : Call}
  {tr : List ExtOp} {r : MethodResult}

/-! ### Moments -/

theorem Call.Later.suffix (h : Later E s s') : s.moments <:+ s'.moments := by
  induction h with
  | refl => exact List.suffix_rfl
  | tail _ hstep ih =>
    obtain ⟨t, -, rfl⟩ := hstep
    exact ih.trans (List.suffix_cons ..)

/-- Only a request that may be carried out makes a new moment. -/
theorem moments_of_operation {o : ExtOp} {a : o.Res} (h : operation o s a s') :
    s'.moments = s.moments ∨ ∃ rc t, Carried o rc s.nodes t ∧ s' = s.change t := by
  cases o with
  | phpCbDataNew fci oneshot =>
    obtain ⟨-, rfl⟩ := h
    exact .inl rfl
  | zooExists zk p =>
    obtain ⟨-, rfl⟩ := h
    exact .inl rfl
  | zooWexists zk p context =>
    obtain ⟨-, rfl⟩ := h
    split_ifs <;> simp
  | zooWget zk p context length =>
    obtain ⟨-, rfl⟩ := h
    exact .inl (moments_fetch s p context a.rc)
  | zooWgetChildren zk p context =>
    obtain rfl := h
    split_ifs <;> simp
  | zooSet2 zk p value version =>
    obtain ⟨t, hcarried, rfl⟩ := h
    exact .inr ⟨_, t, hcarried, rfl⟩
  | zooDelete zk p version =>
    obtain ⟨t, hcarried, rfl⟩ := h
    exact .inr ⟨_, t, hcarried, rfl⟩
  | zooSetAcl zk p version acl =>
    obtain ⟨t, hcarried, rfl⟩ := h
    exact .inr ⟨_, t, hcarried, rfl⟩
  | error message => exact a.elim
  | _ =>
    obtain rfl := h
    exact .inl rfl

theorem suffix_of_operation {o : ExtOp} {a : o.Res} (h : operation o s a s') :
    s.moments <:+ s'.moments := by
  rcases moments_of_operation h with hmoments | ⟨rc, t, -, rfl⟩
  · rw [hmoments]
  · exact List.suffix_cons ..

/-- The moments only go on. -/
theorem suffix_of_run {α : Type} {p : ExtCode α} {a : α} (h : Run (sem E) p s tr a s') :
    s.moments <:+ s'.moments := by
  induction h with
  | ret => exact List.suffix_rfl
  | op hs _ ih =>
    obtain ⟨s₁, hlater, hop⟩ := hs
    exact ((Later.suffix hlater).trans (suffix_of_operation hop)).trans ih
  | iter _ ih => exact ih

/-- The calls of a script lie one after another. -/
theorem ScriptRun.mem {past : List ScriptStep} {ts : List FullNodes}
    (h : ScriptRun E object past ts) {e : ScriptStep} (he : e ∈ past) :
    e.moments ++ e.before <:+ ts ∧ ∃ t s, e.moments = s.moments ∧
      Run (sem E) (e.call.code object) { nodes := t } e.trace e.result s := by
  induction h with
  | start => cases he
  | others _ _ ih =>
    obtain ⟨hsuffix, hrun⟩ := ih he
    exact ⟨hsuffix.trans (List.suffix_cons ..), hrun⟩
  | @call past c t ts tr r s _ hrun ih =>
    rcases List.mem_cons.mp he with rfl | he
    · exact ⟨List.suffix_rfl, t, s, rfl, hrun⟩
    · obtain ⟨hsuffix, hrun'⟩ := ih he
      obtain ⟨new, hnew⟩ := suffix_of_run hrun
      refine ⟨hsuffix.trans ⟨new, ?_⟩, hrun'⟩
      rw [← hnew, List.append_assoc]
      rfl

/-- The last call of a script, and what went before it. -/
theorem ScriptRun.last {past : List ScriptStep} {ts : List FullNodes} {e : ScriptStep}
    (h : ScriptRun E object (e :: past) ts) :
    ∃ t s, ScriptRun E object past (t :: e.before) ∧
      Run (sem E) (e.call.code object) { nodes := t } e.trace e.result s ∧
      e.moments = s.moments ∧ e.moments ++ e.before <:+ ts := by
  generalize hpast : e :: past = past' at h
  induction h with
  | start => cases hpast
  | others _ _ ih =>
    obtain ⟨t, s, hrun, hcall, hmoments, hsuffix⟩ := ih hpast
    exact ⟨t, s, hrun, hcall, hmoments, hsuffix.trans (List.suffix_cons ..)⟩
  | call hrun hcall _ =>
    obtain ⟨rfl, rfl⟩ := List.cons.inj hpast
    exact ⟨_, _, hrun, hcall, rfl, List.suffix_rfl⟩

/-! ### What a call has seen and done -/

theorem GetReply.Documented.exists_node {t : FullNodes} {L : Int32} {a : GetReply}
    (h : a.Documented t path L) (hrc : a.rc = ZOK) : ∃ n, t path = some n := by
  unfold GetReply.Documented at h
  rw [if_pos hrc] at h
  obtain ⟨n, hn, -⟩ := h
  exact ⟨n, hn⟩

/-- How many bytes a `get` asks for, of the moments it has come to: `max_size`, as far as it goes
into 32 bits, or the length that the node has had at one of them. -/
def LengthFor (path : CString) (maxSize : Int64) (moments : List FullNodes) (L : Int32) : Prop :=
  if maxSize ≤ 0 then ∃ t ∈ moments, ∃ n, t path = some n ∧ L = n.stat.dataLength
  else L = maxSize.toInt32

/-- A `get` without a failure: its reply, and the moment of the reply. -/
theorem get_answered {fci : Option Callable} {maxSize : Int64} {info : List (String × StatValue)}
    (h : Run (sem E) (Zookeeper.get object path fci true maxSize) s tr r s') (hs : s.looked = none)
    (hwarn : ¬ Warned tr) (hinfo : r.statInfo = some info) :
    ∃ (s₁ : Call) (n : FullNode) (L : Int32), s₁.moments <:+ s'.moments ∧ s₁.nodes path = some n ∧
      info = phpStatToArray n.stat ∧ LengthFor path maxSize s₁.moments L ∧
      r.value = shownData n.data L.toInt.toNat := by
  rcases run_get h with ⟨hwarned, -⟩ | ⟨zk, cbData, L, s₀, tr₀, tr₁, -, rfl, hasked, -, -, -, -,
    hlooked, hrest⟩
  · exact absurd hwarned hwarn
  · rcases run_getLength hrest with ⟨-, -, rfl, -⟩ | ⟨-, a, s₁, tr', hdoc, hfirst, hlater, rfl,
      htr'⟩
    · cases hinfo
    · have hrc : a.rc = ZOK := by
        by_contra hne
        rw [if_neg hne] at htr'
        exact hwarn (.inr ⟨a.rc, by simp [htr']⟩)
      rw [if_pos hrc] at htr'
      obtain ⟨-, rfl⟩ := htr'
      obtain ⟨n, hn⟩ := hdoc.exists_node hrc
      obtain ⟨hstat, hvalue⟩ := result_of_documented true hn hrc hdoc
      refine ⟨s₁, n, L, ?_, hn, ?_, ?_, hvalue⟩
      · simpa using Later.suffix hlater
      · rw [hstat] at hinfo
        exact (Option.some.inj hinfo).symm
      · unfold AskedLength at hasked
        unfold LengthFor
        split_ifs at hasked ⊢
        · obtain ⟨t, m, ht, hm, hL⟩ := hasked
          have hmem : t ∈ s₀.moments := (hlooked t ht).resolve_right (by simp [hs])
          exact ⟨t, (Later.suffix hfirst).subset hmem, m, hm, hL⟩
        · exact hasked

/-- A `set` that has returned `true` has been carried out. -/
theorem set_done {value : Option PhpString} {version : Int64} {statInfo : Bool}
    (h : Run (sem E) (Zookeeper.set object path value version statInfo) s tr r s')
    (hdone : r.value = .bool true) :
    ∃ (zk : Ptr) (s₁ : Call) (t : FullNodes), s.moments <:+ s₁.moments ∧
      Changes (.zooSet2 zk path (value.map (·.val)) version.toInt32) s₁.nodes t ∧
      s' = s₁.change t := by
  obtain ⟨o, s₁, tr₁, ⟨s₁', hs₁, rfl⟩, hset, rfl⟩ := run_op_iff.mp h
  cases hzk : o.zk with
  | none =>
    simp only [ret_bind, hzk] at hset
    obtain ⟨_, s₂, tr₂, -, hret, rfl⟩ := run_op_iff.mp hset
    obtain ⟨-, rfl, -⟩ := run_ret_iff.mp hret
    cases hdone
  | some zk =>
    simp only [ret_bind, hzk] at hset
    obtain ⟨a, s₂, tr₂, ⟨s₂', hs₂, t, hcarried, rfl⟩, hresult, rfl⟩ := run_op_iff.mp hset
    simp only [ret_bind] at hresult
    split_ifs at hresult with hrc
    · obtain ⟨_, s₃, tr₃, -, hret, rfl⟩ := run_op_iff.mp hresult
      obtain ⟨-, rfl, -⟩ := run_ret_iff.mp hret
      cases hdone
    · obtain ⟨-, -, rfl⟩ := run_ret_iff.mp hresult
      rw [ne_eq, not_not] at hrc
      rcases hcarried with hchanges | ⟨-, hne⟩
      · exact ⟨zk, s₂', t, (Later.suffix hs₁).trans (Later.suffix hs₂), hchanges, rfl⟩
      · exact absurd hrc hne

/-! ### Versions that come round -/

theorem iterate_version (k : ℕ) (v : Int32) :
    (Option.map (· + 1))^[k] (some v) = some (v + Int32.ofNat k) := by
  induction k with
  | zero => simp
  | succ k ih =>
    rw [Function.iterate_succ_apply', ih, Option.map_some, Int32.add_assoc, Int32.ofNat_add]
    rfl

/-- It takes 2 ^ 32 writes for a version to come back to what it was. -/
theorem version_round (v : Int32) {k : ℕ} (hpos : 0 < k) (hlt : k < 2 ^ 32) :
    (Option.map (· + 1))^[k] (some v) ≠ some v := by
  rw [iterate_version, ne_eq, Option.some.injEq, Int32.add_eq_left]
  intro hzero
  have hbmod := congrArg Int32.toInt hzero
  rw [Int32.toInt_ofNat', Int32.toInt_zero] at hbmod
  have hle := Int.le_of_dvd (by omega) (Int.dvd_of_bmod_eq_zero hbmod)
  rw [Int32.size] at hle
  omega

/-- While the node is there, its version moves on with each write. -/
theorem CountsWrites.movesOn {t t' : FullNodes} (h : CountsWrites path t t')
    (hn : t path ≠ none) (hn' : t' path ≠ none) :
    MovesOn (fun u : FullNodes => (u path).map (·.stat.version))
      (fun u : FullNodes => (u path).map (·.data)) (Option.map (· + 1)) t t' := by
  obtain ⟨n, hn⟩ := Option.ne_none_iff_exists'.mp hn
  obtain ⟨n', hn'⟩ := Option.ne_none_iff_exists'.mp hn'
  simp only [MovesOn, hn, hn', Option.map_some, Option.some.injEq]
  exact h n n' hn hn'

/-- A version that is found again: nobody has written to the node, unless the node has been deleted
or its version has come round. -/
theorem unwritten_of_version {between : List FullNodes} {t u : FullNodes} {n m : FullNode}
    (h : List.IsChain (fun t' t => CountsWrites path t t') (between ++ [u]))
    (hlast : (between ++ [u]).head? = some t) (hn : u path = some n) (hm : t path = some m)
    (hversion : m.stat.version = n.stat.version) :
    (∃ x ∈ between, x path = none) ∨ 2 ^ 32 ≤ between.length ∨
      ∀ x ∈ between, (x path).map (·.data) = some n.data := by
  by_cases hgone : ∃ x ∈ between, x path = none
  · exact .inl hgone
  by_cases hlong : 2 ^ 32 ≤ between.length
  · exact .inr (.inl hlong)
  refine .inr (.inr fun x hx => ?_)
  have hthere : ∀ x ∈ between ++ [u], x path ≠ none := by
    intro x hx hnone
    rcases List.mem_append.mp hx with hx | hx
    · exact hgone ⟨x, hx, hnone⟩
    · rw [List.mem_singleton.mp hx, hn] at hnone
      cases hnone
  have hchain := h.imp_of_mem_imp fun a b ha hb hcounts =>
    CountsWrites.movesOn hcounts (hthere b hb) (hthere a ha)
  have hsame := MovesOn.eq_of_version_eq hchain hlast
    (fun k hpos hk => by
      rw [hn, Option.map_some]
      exact version_round n.stat.version hpos (by omega))
    (by rw [hm, hn, Option.map_some, Option.map_some, hversion]) (List.mem_append_left _ hx)
  rw [hsame.2, hn, Option.map_some]

/-- The nodes are `t` at a moment of the call, after the moments `earlier`. -/
def ScriptStep.At (e : ScriptStep) (t : FullNodes) (earlier : List FullNodes) : Prop :=
  ∃ l, t :: l <:+ e.moments ∧ earlier = l ++ e.before

/-- The call `e'`, a `set` to `value` with the version `v`, has been carried out at one of its
moments, after the call `e`, a `get` with `maxSize`, has been answered at one of its own: what is
replaced is what was seen then, and nobody has written to the node in between; unless the version
stands for any, the node has been deleted, or its version has come round. -/
def ReplacesSeen (path : CString) (value : Option Bytes) (v : Int32) (maxSize : Int64)
    (e e' : ScriptStep) : Prop :=
  ∃ t' between u l n L zk t, u :: l <:+ e.moments ∧
    e'.At t' (between ++ u :: l ++ e.before) ∧ u path = some n ∧ LengthFor path maxSize (u :: l) L ∧
    e.result.value = shownData n.data L.toInt.toNat ∧ (between ++ [u]).head? = some t ∧
    Changes (.zooSet2 zk path value v) t t' ∧
    (v = -1 ∨ (∃ x ∈ between, x path = none) ∨ 2 ^ 32 ≤ between.length ∨
      ∀ x ∈ between, (x path).map (·.data) = some n.data)

/-- **No update is lost**: a `set` that succeeds with the version that a `get` has given replaces
the data that the `get` has seen. -/
theorem set_replaces_seen {past : List ScriptStep} {ts : List FullNodes} {e e' : ScriptStep}
    {fci : Option Callable} {maxSize : Int64} {value : Option PhpString} {v : Int32}
    {statInfo : Bool} {info : List (String × StatValue)}
    (h : ScriptRun E object (e' :: past) ts)
    (hservice : ts.IsChain fun t' t => CountsWrites path t t')
    (he : e ∈ past) (hget : e.call = .get path fci true maxSize) (hwarn : ¬ Warned e.trace)
    (hinfo : e.result.statInfo = some info) (hv : ("version", .long v) ∈ info)
    (hset : e'.call = .set path value v.toInt64 statInfo) (hdone : e'.result.value = .bool true) :
    ReplacesSeen path (value.map (·.val)) v maxSize e e' := by
  obtain ⟨t₁, s₁, hrun, hcall, hmoments₁, later, rfl⟩ := h.last
  rw [hset] at hcall
  obtain ⟨zk, s₂, t', hsuffix, hchanges, rfl⟩ := set_done hcall hdone
  rw [Int32.toInt32_toInt64] at hchanges
  -- from the moment at which `get` was answered up to the one at which `set` was
  obtain ⟨hbefore, t₀, s₀, hmoments₀, hrun₀⟩ := hrun.mem he
  rw [hget] at hrun₀
  obtain ⟨u, n, L, hu, hn, rfl, hlength, hvalue⟩ := get_answered hrun₀ rfl hwarn hinfo
  rw [← hmoments₀] at hu
  have hanswered := hu
  obtain ⟨x, hx⟩ := hu
  obtain ⟨y, hy⟩ := hbefore
  obtain ⟨z, hz⟩ := hsuffix
  have hbetween : s₂.moments ++ e'.before = (z ++ y ++ x) ++ u.nodes :: (u.before ++ e.before) := by
    calc s₂.moments ++ e'.before = z ++ (t₁ :: e'.before) := by
          rw [← hz, List.append_assoc]
          rfl
      _ = z ++ y ++ (e.moments ++ e.before) := by rw [← hy, List.append_assoc]
      _ = (z ++ y ++ x) ++ u.nodes :: (u.before ++ e.before) := by
          rw [← hx]
          simp [moments]
  have hlast : ((z ++ y ++ x) ++ [u.nodes]).head? = some s₂.nodes := by
    have hhead := congrArg List.head? hbetween
    generalize z ++ y ++ x = between at hhead ⊢
    cases between <;> simpa [moments, eq_comm] using hhead
  have hts : later ++ (e'.moments ++ e'.before) =
      later ++ t' :: ((z ++ y ++ x) ++ u.nodes :: (u.before ++ e.before)) := by
    rw [← hbetween, hmoments₁]
    rfl
  have hset' : e'.At t' ((z ++ y ++ x) ++ u.nodes :: u.before ++ e.before) := by
    refine ⟨s₂.moments, ?_, ?_⟩
    · rw [hmoments₁]
      exact List.suffix_rfl
    · rw [hbetween]
      simp
  rw [hts] at hservice
  have hversion : v = n.stat.version := by simpa [phpStatToArray] using hv
  refine ⟨t', z ++ y ++ x, u.nodes, u.before, n, L, zk, s₂.nodes, hanswered, hset', hn, hlength,
    hvalue, hlast, hchanges, ?_⟩
  have hchain : List.IsChain (fun t' t => CountsWrites path t t') ((z ++ y ++ x) ++ [u.nodes]) :=
    hservice.infix ⟨later ++ [t'], u.before ++ e.before, by simp⟩
  obtain ⟨m, hm, hmatches⟩ : ∃ m, s₂.nodes path = some m ∧ VersionMatches v m.stat.version := by
    cases hchanges with
    | set hm hmatches => exact ⟨_, hm, hmatches⟩
  refine hmatches.imp id fun hfound => ?_
  exact unwritten_of_version hchain hlast hn hm (hfound.symm.trans hversion)

/-! ### A node that nobody else writes to -/

/-- The request writes to the node, or deletes it. -/
def ExtOp.Writes (path : CString) : ExtOp → Prop
  | .zooSet2 _ p _ _ | .zooDelete _ p _ => p = path
  | _ => False

/-- So does the method. -/
def ScriptCall.Writes (path : CString) : ScriptCall → Prop
  | .set p _ _ _ | .delete p _ => p = path
  | _ => False

section Unwritten

variable {D : Option (Option Bytes)}

/-- The data of the node are the same at all moments. -/
def Call.Holds (path : CString) (D : Option (Option Bytes)) (s : Call) : Prop :=
  ∀ t ∈ s.moments, (t path).map (·.data) = D

/-- A change of something else. -/
theorem data_of_changes {o : ExtOp} {t t' : FullNodes} (h : Changes o t t') (ho : ¬ o.Writes path) :
    (t' path).map (·.data) = (t path).map (·.data) := by
  cases h with
  | set hn => rw [Function.update_of_ne fun hp => ho hp.symm]
  | delete hn => rw [Function.update_of_ne fun hp => ho hp.symm]
  | @setAcl zk p version acl t n n' hn _ _ _ hdata =>
    by_cases hp : path = p
    · rw [hp, Function.update_self, hn, Option.map_some, Option.map_some, hdata]
    · rw [Function.update_of_ne hp]

theorem Call.Holds.change {t : FullNodes} (h : s.Holds path D) (ht : (t path).map (·.data) = D) :
    (s.change t).Holds path D := by
  intro u hu
  rcases List.mem_cons.mp hu with rfl | hu
  · exact ht
  · exact h u hu

theorem Call.Holds.carried {o : ExtOp} {rc : Status} {t : FullNodes} (h : s.Holds path D)
    (ho : ¬ o.Writes path) (hcarried : Carried o rc s.nodes t) : (s.change t).Holds path D := by
  have hnodes := h s.nodes s.nodes_mem_moments
  rcases hcarried with hchanges | ⟨rfl, -⟩
  · exact h.change ((data_of_changes hchanges ho).trans hnodes)
  · exact h.change hnodes

variable (hE : ∀ t t', E t t' → t' path = t path)

include hE in
/-- Neither others nor the call's other operations change them. -/
theorem Call.Holds.sem {o : ExtOp} {a : o.Res} (h : s.Holds path D) (ho : ¬ o.Writes path)
    (hsem : sem E o s a s') : s'.Holds path D := by
  obtain ⟨s₁, hlater, hop⟩ := hsem
  have hs₁ : s₁.Holds path D := by
    clear hop
    induction hlater with
    | refl => exact h
    | @tail s₁ s₂ _ hstep ih =>
      obtain ⟨t, ht, rfl⟩ := hstep
      refine ih.change ?_
      rw [hE _ _ ht]
      exact ih _ s₁.nodes_mem_moments
  rcases moments_of_operation hop with hmoments | ⟨rc, t, hcarried, rfl⟩
  · unfold Call.Holds
    rwa [hmoments]
  · exact hs₁.carried ho hcarried

/-- The code makes no request that writes to the node. -/
abbrev Spares (path : CString) {α : Type} (p : ExtCode α) : Prop :=
  Performs (fun o => ¬ o.Writes path) (fun _ _ => True) p fun _ => True

theorem spares_fetchObject {k : Ptr → ExtCode MethodResult} (hk : ∀ zk, Spares path (k zk)) :
    Spares path (fetchObject object k) := by
  refine .step id fun o _ => ?_
  cases o.zk with
  | none => exact .step id fun _ _ => .ret trivial
  | some zk => exact hk zk

theorem spares_newCbData {α : Type} {fci : Option Callable} {oneshot : Bool}
    {k : Option Ptr → ExtCode α} (hk : ∀ cbData, Spares path (k cbData)) :
    Spares path ((newCbData fci oneshot).bind k) := by
  cases fci with
  | none => exact hk none
  | some f => exact .op id fun p _ => hk (some p)

/-- What follows a request: a warning, or the result. -/
theorem spares_status {rc : Status} {b c : MethodResult} :
    Spares path (if rc ≠ ZOK then (do
      extAct (.warningStatus rc)
      return b) else return c) := by
  split_ifs
  · exact .step id fun _ _ => .ret trivial
  · exact .ret trivial

theorem spares_getLength {zk : Ptr} {p : CString} {cbData : Option Ptr} {statInfo : Bool}
    {L : Int32} : Spares path (Zookeeper.getLength zk p cbData statInfo L) := by
  unfold Zookeeper.getLength
  split_ifs
  · exact .ret trivial
  · refine .step id fun _ _ => .step id fun a _ => .step id fun _ _ => ?_
    split_ifs
    · exact .step id fun _ _ => .step id fun _ _ => .ret trivial
    · exact .step id fun _ _ => .step id fun _ _ => .ret trivial
    · exact .ret trivial
    · exact .ret trivial

theorem spares_connect {fci : Option Callable} {recvTimeout : Int64} :
    Spares path (phpZookeeperConnectImpl object fci recvTimeout) := by
  unfold phpZookeeperConnectImpl
  split_ifs
  · exact .step id fun _ _ => .step id fun _ _ => .ret trivial
  · refine spares_newCbData fun cbData => .step id fun zk _ => ?_
    cases zk with
    | none => exact .step id fun e _ => e.elim
    | some zk => exact .step id fun _ _ => .step id fun _ _ => .ret trivial

/-- A method that does not write to the node makes no request that does. -/
theorem spares_code {c : ScriptCall} (hc : ¬ c.Writes path) : Spares path (c.code object) := by
  cases c with
  | connect fci recvTimeout => exact spares_connect
  | delete p version =>
    exact spares_fetchObject fun zk => .step hc fun rc _ => spares_status
  | getChildren p fci =>
    refine spares_fetchObject fun zk => spares_newCbData fun cbData => .step id fun a _ => ?_
    split_ifs
    · exact .step id fun _ _ => .step id fun _ _ => .ret trivial
    · exact .ret trivial
  | get p fci statInfo maxSize =>
    refine spares_fetchObject fun zk => spares_newCbData fun cbData => ?_
    split_ifs
    · refine .step id fun a _ => ?_
      split_ifs
      · exact .step id fun _ _ => .step id fun _ _ => .ret trivial
      · exact spares_getLength
    · exact spares_getLength
  | «exists» p fci =>
    refine spares_fetchObject fun zk => spares_newCbData fun cbData => .step id fun a _ => ?_
    split_ifs
    · exact .step id fun _ _ => .step id fun _ _ => .ret trivial
    · exact .ret trivial
    · exact .ret trivial
  | set p value version statInfo =>
    exact spares_fetchObject fun zk => .step hc fun a _ => spares_status
  | setAcl p version acl =>
    exact spares_fetchObject fun zk => .step id fun rc _ => spares_status
  | addAuth scheme cert fci =>
    exact spares_fetchObject fun zk => spares_newCbData fun cbData =>
      .step id fun rc _ => spares_status
  | setWatcher fci =>
    refine spares_fetchObject fun zk => .step id fun o _ => ?_
    have hrest : Spares path (do
        let cbData ← extAct (.phpCbDataNew fci false)
        extAct (.zooSetWatcher zk)
        extAct (.writeCbData object (some cbData))
        return ({ value := .bool true } : MethodResult)) :=
      .step id fun _ _ => .step id fun _ _ => .step id fun _ _ => .ret trivial
    unfold removeCbData
    cases o.cbData with
    | none => exact hrest
    | some p => exact .op id fun _ _ => .op id fun _ _ => hrest

include hE in
/-- A call that does not write to the node leaves its data alone. -/
theorem holds_of_run {α : Type} {p : ExtCode α} {a : α} (hp : Spares path p)
    (h : Run (sem E) p s tr a s') (hs : s.Holds path D) : s'.Holds path D :=
  (hp.returns (fun _ _ _ _ ho hs hsem => ⟨trivial, hs.sem hE ho hsem⟩) hs ⟨tr, h⟩).2

end Unwritten

/-- What `get` gives of data that a `set` has left. -/
def readBack : Option Bytes → Zval
  | none | some [] => .null
  | some d => .string d

theorem holds_fresh {D : Option (Option Bytes)} {t : FullNodes} (ht : (t path).map (·.data) = D) :
    Call.Holds path D { nodes := t } := by
  intro u hu
  rw [List.mem_singleton.mp hu, ht]

/-- A `get` of a node that nobody writes to. -/
theorem get_gives (hE : ∀ t t', E t t' → t' path = t path) {t : FullNodes} {data : Option Bytes}
    {fci : Option Callable} {statInfo : Bool} {maxSize : Int64}
    (h : Run (sem E) (Zookeeper.get object path fci statInfo maxSize) { nodes := t } tr r s')
    (hmax : maxSize ≤ 0) (hwarn : ¬ Warned tr) (ht : (t path).map (·.data) = some data) :
    r.value = readBack data := by
  have hholds : s'.Holds path (some data) :=
    holds_of_run hE (spares_code (c := .get path fci statInfo maxSize) id) h (holds_fresh ht)
  rcases run_get h with ⟨hwarned, -⟩ | ⟨zk, cbData, L, s₀, tr₀, tr₁, -, rfl, hasked, -, -, -, -,
    hlooked, hrest⟩
  · exact absurd hwarned hwarn
  have hmoments := suffix_of_run hrest
  rw [AskedLength, if_pos hmax] at hasked
  obtain ⟨t₀, n₀, ht₀, hn₀, rfl⟩ := hasked
  have hdata₀ : n₀.data = data := by
    rcases hlooked t₀ ht₀ with hmem | hnone
    · have hsame := hholds t₀ (hmoments.subset hmem)
      rw [hn₀] at hsame
      exact Option.some.inj hsame
    · cases hnone
  have hlength := n₀.dataLength
  rw [hdata₀] at hlength
  rcases run_getLength hrest with ⟨hle, -, rfl, -⟩ | ⟨hpos, a, s₁, tr', hdoc, -, hlater, rfl, htr'⟩
  · rw [Int32.le_iff_toInt_le, Int32.toInt_zero] at hle
    rcases data with - | - | ⟨b, d⟩
    · rfl
    · rfl
    · rw [hlength] at hle
      simp at hle
      omega
  · have hrc : a.rc = ZOK := by
      by_contra hne
      rw [if_neg hne] at htr'
      exact hwarn (.inr ⟨a.rc, by simp [htr']⟩)
    rw [if_pos hrc] at htr'
    obtain ⟨n, hn⟩ := hdoc.exists_node hrc
    have hmem : s₁.nodes ∈ s'.moments := by
      refine (Later.suffix hlater).subset ?_
      rw [moments_fetch]
      exact s₁.nodes_mem_moments
    have hdata : n.data = data := by
      have hsame := hholds _ hmem
      rw [hn] at hsame
      exact Option.some.inj hsame
    rw [Int32.lt_iff_toInt_lt, Int32.toInt_zero, hlength] at hpos
    have hvalue := (result_of_documented statInfo hn hrc hdoc).2
    rw [hdata, hlength] at hvalue
    rw [htr'.2, hvalue]
    rcases data with - | - | ⟨b, d⟩
    · rfl
    · simp at hpos
    · simp [readBack]

/-- After a `set` that has succeeded, the node holds its value until somebody writes to it. -/
theorem ScriptRun.holds_value (hE : ∀ t t', E t t' → t' path = t path)
    {past before l : List ScriptStep} {ts earlier : List FullNodes} {t : FullNodes} {e : ScriptStep}
    {value : Option PhpString} {version : Int64} {statInfo : Bool}
    (h : ScriptRun E object past ts) (hpast : past = l ++ e :: before) (hts : ts = t :: earlier)
    (hset : e.call = .set path value version statInfo) (hdone : e.result.value = .bool true)
    (hl : ∀ e ∈ l, ¬ e.call.Writes path) :
    (t path).map (·.data) = some (value.map (·.val)) := by
  induction h generalizing l t earlier with
  | start => cases l <;> cases hpast
  | @others past u u' us hrun hu ih =>
    obtain ⟨rfl, -⟩ := List.cons.inj hts
    rw [hE _ _ hu]
    exact ih hpast rfl hl
  | @call past c u us tr r s hrun hcall ih =>
    obtain ⟨rfl, -⟩ := List.cons.inj hts
    cases l with
    | nil =>
      obtain ⟨rfl, -⟩ := List.cons.inj hpast
      obtain rfl : c = .set path value version statInfo := hset
      obtain ⟨zk, s₁, t, -, hchanges, rfl⟩ := set_done hcall hdone
      cases hchanges with
      | set _ _ hdata =>
        simp only [Call.change, Function.update_self, Option.map_some, hdata]
    | cons e' l =>
      obtain ⟨rfl, htail⟩ := List.cons.inj hpast
      have hdata := ih htail rfl fun e he => hl e (List.mem_cons_of_mem _ he)
      have hholds := holds_of_run hE (spares_code (hl _ List.mem_cons_self)) hcall
        (holds_fresh hdata)
      exact hholds _ s.nodes_mem_moments

/-- **Reading back**: as long as nobody else writes to a node, a `get` without `max_size` gives the
value of the last `set`, and `NULL` for an empty one. -/
theorem get_returns_last_set (hE : ∀ t t', E t t' → t' path = t path)
    {before l : List ScriptStep} {ts : List FullNodes} {e e' : ScriptStep}
    {value : Option PhpString} {version maxSize : Int64} {statInfo statInfo' : Bool}
    {fci : Option Callable}
    (h : ScriptRun E object (e' :: (l ++ e :: before)) ts)
    (hset : e.call = .set path value version statInfo) (hdone : e.result.value = .bool true)
    (hl : ∀ e ∈ l, ¬ e.call.Writes path)
    (hget : e'.call = .get path fci statInfo' maxSize) (hmax : maxSize ≤ 0)
    (hwarn : ¬ Warned e'.trace) : e'.result.value = readBack (value.map (·.val)) := by
  obtain ⟨t, s, hrun, hcall, -⟩ := h.last
  rw [hget] at hcall
  exact get_gives hE hcall hmax hwarn (hrun.holds_value hE rfl rfl hset hdone hl)

/-! ### A script -/

/-- A node, and no other. -/
def oneNode (n : FullNode) : FullNodes := Function.update (fun _ => none) ['/', 'a'] (some n)

/-- A node that has been written to three times. -/
def seenNode : FullNode := ⟨some [1], { version := 3, dataLength := 1 }, [], by decide⟩

/-- The node after one more write. -/
def leftNode : FullNode := ⟨some [2, 3], { version := 4, dataLength := 2 }, [], by decide⟩

/-- The `set` that makes the one into the other. -/
def setStep : ScriptStep where
  call := .set ['/', 'a'] (some ⟨[2, 3], by decide⟩) 3 false
  trace := [.readObject 0, .zooSet2 0 ['/', 'a'] (some [2, 3]) 3]
  result := { value := .bool true }
  moments := [oneNode leftNode, oneNode seenNode]
  before := []

theorem run_setStep :
    Run (Call.sem Alone) (setStep.call.code 0) { nodes := oneNode seenNode } setStep.trace
      setStep.result (Call.change { nodes := oneNode seenNode } (oneNode leftNode)) := by
  have hchanges : Changes (.zooSet2 0 ['/', 'a'] (some [2, 3]) 3) (oneNode seenNode)
      (Function.update (oneNode seenNode) ['/', 'a'] (some leftNode)) :=
    .set (Function.update_self ..) (.inr rfl) rfl (by decide) rfl
  have hnodes : Function.update (oneNode seenNode) ['/', 'a'] (some leftNode) = oneNode leftNode :=
    Function.update_idem ..
  rw [hnodes] at hchanges
  have hobject : Call.sem Alone (.readObject 0) { nodes := oneNode seenNode } { zk := some 0 }
      { nodes := oneNode seenNode } := Call.sem_alone.mpr rfl
  have hset : Call.sem Alone (.zooSet2 0 ['/', 'a'] (some [2, 3]) 3) { nodes := oneNode seenNode }
      { rc := ZOK } (Call.change { nodes := oneNode seenNode } (oneNode leftNode)) :=
    Call.sem_alone.mpr ⟨_, .inl hchanges, rfl⟩
  exact .op hobject (.op hset .ret)

/-- A `get` before that. -/
def getStep : ScriptStep where
  call := .get ['/', 'a'] none true 0
  trace := [.readObject 0, .zooExists 0 ['/', 'a'], .emalloc 2, .zooWget 0 ['/', 'a'] none 1,
    .terminate 1]
  result := { value := .string [1], statInfo := some (phpStatToArray seenNode.stat) }
  moments := [oneNode seenNode]
  before := []

theorem run_getStep : ∃ s, s.moments = getStep.moments ∧
    Run (Call.sem Alone) (getStep.call.code 0) { nodes := oneNode seenNode } getStep.trace
      getStep.result s := by
  have hn : oneNode seenNode ['/', 'a'] = some seenNode := Function.update_self ..
  let s : Call := { nodes := oneNode seenNode, looked := some (oneNode seenNode) }
  have hobject : Call.sem Alone (.readObject 0) { nodes := oneNode seenNode } { zk := some 0 }
      { nodes := oneNode seenNode } := Call.sem_alone.mpr rfl
  have hexists : Call.sem Alone (.zooExists 0 ['/', 'a']) { nodes := oneNode seenNode }
      { rc := ZOK, stat := seenNode.stat } s :=
    Call.sem_alone.mpr ⟨⟨fun _ => ⟨_, hn, rfl⟩, nofun⟩, rfl⟩
  have hemalloc : Call.sem Alone (.emalloc 2) s () s := Call.sem_alone.mpr rfl
  have hwget : Call.sem Alone (.zooWget 0 ['/', 'a'] none 1) s (seenNode.getReply 1)
      (s.fetch ['/', 'a'] none ZOK) :=
    Call.sem_alone.mpr ⟨FullNode.getReply_documented hn _, rfl⟩
  have hterminate : Call.sem Alone (.terminate 1) (s.fetch ['/', 'a'] none ZOK) ()
      (s.fetch ['/', 'a'] none ZOK) := Call.sem_alone.mpr rfl
  exact ⟨s.fetch ['/', 'a'] none ZOK, rfl,
    .op hobject (.op hexists (.op hemalloc (.op hwget (.op hterminate .ret))))⟩

/-- The node is read, and written to with the version that has been read. -/
theorem set_replaces_seen_once :
    ReplacesSeen ['/', 'a'] (some [2, 3]) 3 0 getStep setStep := by
  obtain ⟨s, hs, hget⟩ := run_getStep
  have hgot : ScriptRun Alone 0 [getStep] [oneNode seenNode] := by
    have hrun := ScriptRun.call .start hget
    rwa [hs] at hrun
  have hrun : ScriptRun Alone 0 [setStep, getStep] [oneNode leftNode, oneNode seenNode] :=
    .call hgot run_setStep
  have hcounts : CountsWrites ['/', 'a'] (oneNode seenNode) (oneNode leftNode) := by
    intro n n' hn hn'
    simp only [oneNode, Function.update_self, Option.some.injEq] at hn hn'
    subst hn hn'
    exact .inr (by decide)
  have hwarn : ¬ Warned getStep.trace := by simp [Warned, getStep]
  have hversion : ("version", StatValue.long 3) ∈ phpStatToArray seenNode.stat := by
    simp [phpStatToArray, seenNode]
  exact set_replaces_seen hrun (List.isChain_pair.mpr hcounts) List.mem_cons_self rfl hwarn rfl
    hversion rfl rfl

/-- The node is written to, and read. -/
theorem get_returns_last_set_read : ∃ tr r s,
    Run (Call.sem Alone) (Zookeeper.get 0 ['/', 'a'] none false 0) { nodes := oneNode leftNode } tr
      r s ∧ r.value = .string [2, 3] := by
  have hn : oneNode leftNode ['/', 'a'] = some leftNode := Function.update_self ..
  obtain ⟨tr, r, s, hget, hwarn⟩ :=
    exists_run_get (E := Alone) (s := { nodes := oneNode leftNode }) 0 ['/', 'a'] none false 0 hn
  have hset : ScriptRun Alone 0 [setStep] setStep.moments :=
    .call .start run_setStep
  have hrun : ScriptRun Alone 0 (⟨.get ['/', 'a'] none false 0, tr, r, _, _⟩ :: [setStep]) _ :=
    .call hset hget
  exact ⟨tr, r, s, hget, get_returns_last_set (l := []) (fun _ _ h => h.elim) hrun rfl rfl
    (by simp) rfl (by decide) hwarn⟩

end PhpZookeeper
