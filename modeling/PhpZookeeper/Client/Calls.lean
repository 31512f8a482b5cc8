import PhpZookeeper.Client.Methods
import Mathlib.Data.List.Basic
import Mathlib.Logic.Function.Basic
import Mathlib.Logic.Relation

/-!
# Calls of a method

One call of a method, against nodes that other clients may change before each request of the call.
All that is assumed of a reply is what the client API documents; whatever fails may have been
applied or not.
-/

namespace PhpZookeeper

open Theory Prog Status

/-! ### Nodes -/

/-- A node as the client API shows it. -/
structure FullNode where
  /-- The data, `none` for `NULL`. -/
  data : Option Bytes
  stat : FullStat
  acl : List AclEntry
  dataLength : stat.dataLength.toInt = (data.getD []).length

/-- The nodes, by path. -/
abbrev FullNodes := CString → Option FullNode

/-- The reply to a request for the `struct Stat` of a node. -/
def StatReply.Documented (t : FullNodes) (path : CString) (a : StatReply) : Prop :=
  (a.rc = ZOK → ∃ n, t path = some n ∧ a.stat = n.stat) ∧ (a.rc = ZNONODE → t path = none)

/-- The reply to `zoo_wget`: on `ZOK` it stores at most the given length, and sets the length to the
number of bytes stored, or to -1 for `NULL`; otherwise it leaves the length alone. -/
def GetReply.Documented (t : FullNodes) (path : CString) (length : Int32) (a : GetReply) : Prop :=
  if a.rc = ZOK then
    ∃ n, t path = some n ∧ a.stat = n.stat ∧
      match n.data with
      | none => a.buffer = [] ∧ a.length = -1
      | some d => a.buffer = d.take length.toInt.toNat ∧
          a.length.toInt = min length.toInt.toNat d.length
  else a.length = length

/-- The service compares the version it receives, and takes -1 for any. -/
def VersionMatches (version current : Int32) : Prop := version = -1 ∨ version = current

instance (version current : Int32) : Decidable (VersionMatches version current) :=
  inferInstanceAs (Decidable (_ ∨ _))

/-- What a request changes, when it is carried out. -/
inductive Changes : ExtOp → FullNodes → FullNodes → Prop where
  | set {zk : Ptr} {path : CString} {value : Option Bytes} {version : Int32} {t : FullNodes}
      {n n' : FullNode} : t path = some n → VersionMatches version n.stat.version →
      n'.data = value → n'.stat.version = n.stat.version + 1 → n'.acl = n.acl →
      Changes (.zooSet2 zk path value version) t (Function.update t path (some n'))
  | delete {zk : Ptr} {path : CString} {version : Int32} {t : FullNodes} {n : FullNode} :
      t path = some n → VersionMatches version n.stat.version →
      (∀ x, '/' ∉ x → t (childOf path x) = none) →
      Changes (.zooDelete zk path version) t (Function.update t path none)
  | setAcl {zk : Ptr} {path : CString} {version : Int32} {acl : List AclEntry} {t : FullNodes}
      {n n' : FullNode} : t path = some n → VersionMatches version n.stat.aversion →
      n'.acl = acl → n'.stat.aversion = n.stat.aversion + 1 → n'.data = n.data →
      Changes (.zooSetAcl zk path version acl) t (Function.update t path (some n'))

/-- A request that changes nodes is carried out, and its caller may not see that; or it is not, and
its caller does not see `ZOK`. -/
def Carried (o : ExtOp) (rc : Status) (t t' : FullNodes) : Prop :=
  Changes o t t' ∨ t' = t ∧ rc ≠ ZOK

/-! ### Runs of a call -/

/-- What a call acts on, and what has happened since it began. -/
structure Call where
  nodes : FullNodes
  /-- The nodes at earlier moments of the call, the last ones first. -/
  before : List FullNodes := []
  /-- The nodes when `zoo_exists` was answered. -/
  looked : Option FullNodes := none
  /-- The nodes when `zoo_wget` was answered, and its return code. -/
  fetched : Option (FullNodes × Status) := none
  /-- The callbacks of the records that have been made. -/
  records : List Callable := []
  /-- The nodes that are watched, each with the callback. -/
  watches : List (CString × Callable) := []

namespace Call

/-- The nodes at the moments of the call. -/
def moments (s : Call) : List FullNodes := s.nodes :: s.before

/-- The nodes change. -/
def change (s : Call) (t : FullNodes) : Call := { s with nodes := t, before := s.moments }

/-- Another client changes the nodes, as `E` allows. -/
def Other (E : FullNodes → FullNodes → Prop) (s s' : Call) : Prop :=
  ∃ t, E s.nodes t ∧ s' = s.change t

/-- A watch with the context `context` is left on a node. -/
def watch (s : Call) (path : CString) (context : Option Ptr) : Call :=
  match context.bind fun p => s.records[p]? with
  | some f => { s with watches := (path, f) :: s.watches }
  | none => s

/-- One operation of a call. Of the objects nothing need be known. -/
def operation : (o : ExtOp) → Call → o.Res → Call → Prop
  | .phpCbDataNew fci _, s, p, s' =>
    p = s.records.length ∧ s' = { s with records := s.records ++ [fci] }
  | .zooExists _ path, s, a, s' =>
    a.Documented s.nodes path ∧ s' = { s with looked := some s.nodes }
  | .zooWexists _ path context, s, a, s' =>
    a.Documented s.nodes path ∧
      s' = if a.rc = ZOK ∨ a.rc = ZNONODE then s.watch path context else s
  | .zooWget _ path context length, s, a, s' =>
    a.Documented s.nodes path length ∧
      s' = { if a.rc = ZOK then s.watch path context else s with fetched := some (s.nodes, a.rc) }
  | .zooWgetChildren _ path context, s, a, s' =>
    s' = if a.rc = ZOK then s.watch path context else s
  | .zooSet2 zk path value version, s, a, s' =>
    ∃ t, Carried (.zooSet2 zk path value version) a.rc s.nodes t ∧ s' = s.change t
  | .zooDelete zk path version, s, a, s' =>
    ∃ t, Carried (.zooDelete zk path version) a s.nodes t ∧ s' = s.change t
  | .zooSetAcl zk path version acl, s, a, s' =>
    ∃ t, Carried (.zooSetAcl zk path version acl) a s.nodes t ∧ s' = s.change t
  | _, s, _, s' => s' = s

/-- One operation, before which others may change the nodes as `E` allows. -/
def sem (E : FullNodes → FullNodes → Prop) (o : ExtOp) (s : Call) (r : o.Res) (s' : Call) : Prop :=
  ∃ s₁, Relation.ReflTransGen (Other E) s s₁ ∧ operation o s₁ r s'

/-- Nobody else acts. -/
def Alone : FullNodes → FullNodes → Prop := fun _ _ => False

/-- Others do what they like. -/
def Shared : FullNodes → FullNodes → Prop := fun _ _ => True

end Call

theorem Call.sem_alone {o : ExtOp} {s s' : Call} {r : o.Res} :
    Call.sem Call.Alone o s r s' ↔ Call.operation o s r s' := by
  constructor
  · rintro ⟨s₁, hs, h⟩
    cases hs with
    | refl => exact h
    | tail _ hstep =>
      obtain ⟨_, hfalse, _⟩ := hstep
      exact hfalse.elim
  · exact fun h => ⟨s, .refl, h⟩

/-- A warning has been raised. -/
def Warned (tr : List ExtOp) : Prop :=
  (∃ message, .warning message ∈ tr) ∨ ∃ status, .warningStatus status ∈ tr

end PhpZookeeper
