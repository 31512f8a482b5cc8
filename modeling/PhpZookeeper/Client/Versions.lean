import PhpZookeeper.Client.Calls
import Mathlib.Tactic.SplitIfs

/-!
# The version argument

`Zookeeper::set`, `delete` and `setAcl` hand a 64-bit `long` to a parameter of 32 bits. The version
that the service compares is what is left of it: `honoursVersion_iff` says for which versions that
makes no difference.
-/

namespace PhpZookeeper

open Theory Prog Status

/-- The methods that take a version, with their other arguments. -/
inductive VersionCall where
  | set (value : Option PhpString) (statInfo : Bool)
  | delete
  | setAcl (acl : List AclEntry)

namespace VersionCall

/-- The code of a call. -/
def code (m : VersionCall) (object : Ptr) (path : CString) (version : Int64) :
    ExtCode MethodResult :=
  match m with
  | .set value statInfo => Zookeeper.set object path value version statInfo
  | .delete => Zookeeper.delete object path version
  | .setAcl acl => Zookeeper.setAcl object path version acl

/-- The version of a node that the service compares. -/
def current (m : VersionCall) (n : FullNode) : Int32 :=
  match m with
  | .setAcl _ => n.stat.aversion
  | _ => n.stat.version

/-- A call with the version `v` of a node: it changes the node only if `v` is -1 or the node's
version, and for every other `v` it leaves the node alone and raises a warning. -/
def HonoursVersion (m : VersionCall) (object : Ptr) (path : CString) (n : FullNode) (v : Int64) :
    Prop :=
  ∀ s tr a s', s.nodes path = some n → Run (Call.sem Call.Alone) (m.code object path v) s tr a s' →
    v = -1 ∨ v = (m.current n).toInt64 ∨ s'.nodes path = some n ∧ Warned tr

/-- The request of a call, with the 32 bits that are left of the version. -/
def request (m : VersionCall) (zk : Ptr) (path : CString) (version : Int32) : ExtOp :=
  match m with
  | .set value _ => .zooSet2 zk path (value.map (·.val)) version
  | .delete => .zooDelete zk path version
  | .setAcl acl => .zooSetAcl zk path version acl

end VersionCall

open VersionCall

variable {m : VersionCall} {object zk : Ptr} {path : CString} {n : FullNode} {v : Int64}
  {version : Int32} {t t' : FullNodes} {s s' : Call} {tr : List ExtOp} {a : MethodResult}

/-- A method that needs a handle has one, or raises a warning. -/
theorem run_fetchObject {k : Ptr → ExtCode MethodResult}
    (h : Run (Call.sem Call.Alone) (fetchObject object k) s tr a s') :
    s' = s ∧ Warned tr ∨
      ∃ zk tr', Run (Call.sem Call.Alone) (k zk) s tr' a s' ∧ tr = .readObject object :: tr' := by
  obtain ⟨o, s₁, tr₁, hs, hk, rfl⟩ := run_op_iff.mp h
  obtain rfl := Call.sem_alone.mp hs
  cases hzk : o.zk with
  | none =>
    simp only [ret_bind, hzk] at hk
    obtain ⟨_, s₂, tr₂, hs₂, hret, rfl⟩ := run_op_iff.mp hk
    obtain rfl := Call.sem_alone.mp hs₂
    obtain ⟨rfl, -, rfl⟩ := run_ret_iff.mp hret
    exact .inl ⟨rfl, .inl ⟨_, List.mem_cons_of_mem _ List.mem_cons_self⟩⟩
  | some zk =>
    simp only [ret_bind, hzk] at hk
    exact .inr ⟨zk, tr₁, hk, rfl⟩

/-- What follows the request of a call: a warning, unless the status is `ZOK`. -/
theorem run_status {rc : Status} {b c : MethodResult}
    (h : Run (Call.sem Call.Alone) (if rc ≠ ZOK then (do
      extAct (.warningStatus rc)
      return b) else return c) s tr a s') : s' = s ∧ (rc ≠ ZOK → Warned tr) := by
  split_ifs at h with hrc
  · obtain ⟨_, s₁, tr₁, hs, hret, rfl⟩ := run_op_iff.mp h
    obtain rfl := Call.sem_alone.mp hs
    obtain ⟨rfl, -, rfl⟩ := run_ret_iff.mp hret
    exact ⟨rfl, fun _ => .inr ⟨rc, List.mem_cons_self⟩⟩
  · obtain ⟨rfl, -, rfl⟩ := run_ret_iff.mp h
    exact ⟨rfl, fun hne => absurd hne hrc⟩

/-- A call makes its request and is done, or it raises a warning. -/
theorem run_code (h : Run (Call.sem Call.Alone) (m.code object path v) s tr a s') :
    s' = s ∧ Warned tr ∨ ∃ zk rc t, Carried (m.request zk path v.toInt32) rc s.nodes t ∧
      s' = s.change t ∧ (rc ≠ ZOK → Warned tr) := by
  have hmore : ∀ {tr : List ExtOp} {o₁ o₂ : ExtOp}, Warned tr → Warned (o₁ :: o₂ :: tr) := by
    rintro tr o₁ o₂ (⟨message, hm⟩ | ⟨status, hm⟩)
    · exact .inl ⟨message, by simp [hm]⟩
    · exact .inr ⟨status, by simp [hm]⟩
  cases m with
  | set value statInfo =>
    refine (run_fetchObject h).imp id ?_
    rintro ⟨zk, tr', hrequest, rfl⟩
    obtain ⟨r, s₁, tr₁, hs, hk, rfl⟩ := run_op_iff.mp hrequest
    obtain ⟨t, hcarried, rfl⟩ := Call.sem_alone.mp hs
    obtain ⟨rfl, hwarn⟩ := run_status hk
    exact ⟨zk, r.rc, t, hcarried, rfl, fun hrc => hmore (hwarn hrc)⟩
  | delete =>
    refine (run_fetchObject h).imp id ?_
    rintro ⟨zk, tr', hrequest, rfl⟩
    obtain ⟨rc, s₁, tr₁, hs, hk, rfl⟩ := run_op_iff.mp hrequest
    obtain ⟨t, hcarried, rfl⟩ := Call.sem_alone.mp hs
    obtain ⟨rfl, hwarn⟩ := run_status hk
    exact ⟨zk, rc, t, hcarried, rfl, fun hrc => hmore (hwarn hrc)⟩
  | setAcl acl =>
    refine (run_fetchObject h).imp id ?_
    rintro ⟨zk, tr', hrequest, rfl⟩
    obtain ⟨rc, s₁, tr₁, hs, hk, rfl⟩ := run_op_iff.mp hrequest
    obtain ⟨t, hcarried, rfl⟩ := Call.sem_alone.mp hs
    obtain ⟨rfl, hwarn⟩ := run_status hk
    exact ⟨zk, rc, t, hcarried, rfl, fun hrc => hmore (hwarn hrc)⟩

/-- A request that is carried out has a version that matches. -/
theorem matches_of_changes (h : Changes (m.request zk path version) t t')
    (hn : t path = some n) : VersionMatches version (m.current n) := by
  cases m with
  | set value statInfo =>
    cases h with
    | set hn' hv =>
      rw [hn, Option.some.injEq] at hn'
      exact hn' ▸ hv
  | delete =>
    cases h with
    | delete hn' hv =>
      rw [hn, Option.some.injEq] at hn'
      exact hn' ▸ hv
  | setAcl acl =>
    cases h with
    | setAcl hn' hv =>
      rw [hn, Option.some.injEq] at hn'
      exact hn' ▸ hv

/-- A node with other data, of any length that a string can have. -/
theorem FullNode.exists_data (n : FullNode) (value : Option PhpString) :
    ∃ n' : FullNode, n'.data = value.map (·.val) ∧ n'.stat.version = n.stat.version + 1 ∧
      n'.acl = n.acl := by
  have hlt : ((value.map (·.val)).getD []).length < 2 ^ 31 := by
    cases value with
    | none => decide
    | some b => exact b.2
  exact ⟨{
    data := value.map (·.val)
    stat := { n.stat with
      version := n.stat.version + 1
      dataLength := Int32.ofNat ((value.map (·.val)).getD []).length }
    acl := n.acl
    dataLength := Int32.toInt_ofNat_of_lt hlt }, rfl, rfl, rfl⟩

/-- A request whose version matches can be carried out, and changes the node. -/
theorem exists_changes (zk : Ptr) (hn : t path = some n)
    (halone : ∀ x, '/' ∉ x → t (childOf path x) = none)
    (hv : VersionMatches version (m.current n)) :
    ∃ t', Changes (m.request zk path version) t t' ∧ t' path ≠ some n := by
  cases m with
  | set value statInfo =>
    obtain ⟨n', hdata, hversion, hacl⟩ := n.exists_data value
    refine ⟨_, .set hn hv hdata hversion hacl, fun h => ?_⟩
    rw [Function.update_self, Option.some.injEq] at h
    rw [h, eq_comm, Int32.add_eq_left] at hversion
    exact absurd hversion (by decide)
  | delete => exact ⟨_, .delete hn hv halone, by simp⟩
  | setAcl acl =>
    let n' : FullNode :=
      { n with acl := acl, stat := { n.stat with aversion := n.stat.aversion + 1 } }
    refine ⟨Function.update t path (some n'), .setAcl hn hv rfl rfl rfl, fun h => ?_⟩
    rw [Function.update_self, Option.some.injEq] at h
    have hversion : n.stat.aversion + 1 = n.stat.aversion := congrArg (·.stat.aversion) h
    rw [Int32.add_eq_left] at hversion
    exact absurd hversion (by decide)

/-- A request that can be carried out is, in a call of its own. -/
theorem exists_run_change (m : VersionCall) (object : Ptr) {v : Int64}
    (h : Changes (m.request 0 path v.toInt32) s.nodes t) :
    ∃ tr a, Run (Call.sem Call.Alone) (m.code object path v) s tr a (s.change t) := by
  have hobject : Call.sem Call.Alone (.readObject object) s { zk := some 0 } s :=
    Call.sem_alone.mpr rfl
  cases m with
  | set value statInfo =>
    have hset : Call.sem Call.Alone (.zooSet2 0 path (value.map (·.val)) v.toInt32) s { rc := ZOK }
        (s.change t) := Call.sem_alone.mpr ⟨t, .inl h, rfl⟩
    exact ⟨_, _, .op hobject (.op hset .ret)⟩
  | delete =>
    have hdelete : Call.sem Call.Alone (.zooDelete 0 path v.toInt32) s ZOK (s.change t) :=
      Call.sem_alone.mpr ⟨t, .inl h, rfl⟩
    exact ⟨_, _, .op hobject (.op hdelete .ret)⟩
  | setAcl acl =>
    have hsetAcl : Call.sem Call.Alone (.zooSetAcl 0 path v.toInt32 acl) s ZOK (s.change t) :=
      Call.sem_alone.mpr ⟨t, .inl h, rfl⟩
    exact ⟨_, _, .op hobject (.op hsetAcl .ret)⟩

/-- **Which versions are honoured**: -1, the node's, and those of which 32 bits are left that are
neither. -/
theorem honoursVersion_iff (m : VersionCall) (object : Ptr) (path : CString) (n : FullNode)
    (v : Int64) :
    m.HonoursVersion object path n v ↔
      v = -1 ∨ v = (m.current n).toInt64 ∨ ¬ VersionMatches v.toInt32 (m.current n) := by
  constructor
  · intro h
    by_cases hv : VersionMatches v.toInt32 (m.current n)
    · let t : FullNodes := Function.update (fun _ => none) path (some n)
      have hn : t path = some n := Function.update_self ..
      have halone : ∀ x, '/' ∉ x → t (childOf path x) = none := fun x _ =>
        Function.update_of_ne (childOf_ne_self path x) ..
      obtain ⟨t', hchanges, hne⟩ := exists_changes 0 hn halone hv
      obtain ⟨tr, a, hrun⟩ := exists_run_change m object (s := { nodes := t }) hchanges
      rcases h _ tr a _ hn hrun with hv' | hv' | ⟨hsame, -⟩
      · exact .inl hv'
      · exact .inr (.inl hv')
      · exact absurd hsame hne
    · exact .inr (.inr hv)
  · rintro (hv | hv | hv) s tr a s' hn hrun
    · exact .inl hv
    · exact .inr (.inl hv)
    · refine .inr (.inr ?_)
      rcases run_code hrun with ⟨rfl, hwarn⟩ | ⟨zk, rc, t, hcarried, rfl, hwarn⟩
      · exact ⟨hn, hwarn⟩
      · rcases hcarried with hchanges | ⟨rfl, hrc⟩
        · exact absurd (matches_of_changes hchanges hn) hv
        · exact ⟨hn, hwarn hrc⟩

/-- A version of which the 32 bits of -1 are left deletes any node. -/
theorem version_not_honoured :
    ¬ ∀ (m : VersionCall) (object : Ptr) (path : CString) (n : FullNode) (v : Int64),
      0 ≤ m.current n → m.HonoursVersion object path n v := by
  intro h
  have hdelete := h .delete 0 ['/', 'a']
    { data := none, stat := {}, acl := [], dataLength := rfl } 4294967295 (by decide)
  rw [honoursVersion_iff] at hdelete
  revert hdelete
  decide

end PhpZookeeper
