import PhpZookeeper.Theory.CString
import Mathlib.Data.Int.DivMod
import Mathlib.Data.List.Perm.Basic
import Mathlib.Logic.Function.Basic

/-!
# The ZooKeeper service

What the extension relies on of the service it talks to. The service is not part of the
extension, so it is a parameter: a `Server` has states, in which each path has a node or
none, and answers each request of a client. All that is assumed of an answer is that it is
one of those the client API documents for the request (`Answers`).

A path is written from the root, and the root itself is the path `[]`, so that the child
`x` of `p` is `p ++ '/' :: x` for every `p`.
-/

namespace PhpZookeeper

open Theory

/-- The bytes of a node. -/
abbrev Bytes := List UInt8

/-- The 64-bit id of a client's session with the service. -/
abbrev Sid := Fin (2 ^ 64)

instance instNeZeroSid : NeZero ((2 : ℕ) ^ 64) := ⟨by decide⟩

/-! ### Requests and replies -/

/-- The return codes of the client library. -/
inductive Status where
  | ZOK | ZSYSTEMERROR | ZCONNECTIONLOSS | ZMARSHALLINGERROR | ZOPERATIONTIMEOUT
  | ZBADARGUMENTS | ZINVALIDSTATE | ZNONODE | ZNOAUTH | ZBADVERSION
  | ZNOCHILDRENFOREPHEMERALS | ZNODEEXISTS | ZNOTEMPTY | ZSESSIONEXPIRED | ZINVALIDACL
  | ZAUTHFAILED | ZCLOSING
  deriving DecidableEq, Repr

open Status

/-- The access control lists the session handler passes. -/
inductive Acl where
  /-- `&ZOO_OPEN_ACL_UNSAFE` -/
  | zooOpenAclUnsafe
  deriving DecidableEq, Repr

/-- The `flags` of `zoo_create`. -/
structure CreateFlags where
  ephemeral : Bool := false
  sequence : Bool := false
  deriving DecidableEq, Repr

/-- The requests of the session handler and of its lock. A `NULL` list or buffer is `none`, or the
length 0; the value of a `create` is `none` when it is `NULL` with the length 0, which stores no
bytes (to store `NULL` takes the length -1). -/
inductive Req where
  | zooExists (path : CString)
  /-- `zoo_wexists(zh, path, lock_watcher_fn, mutex, stat)` -/
  | zooWexists (path : CString)
  | zooGet (path : CString) (bufferLen : ℕ)
  | zooCreate (path : CString) (value : Option Bytes) (acl : Option Acl) (flags : CreateFlags)
      (pathBufferLen : ℕ)
  | zooSet (path : CString) (buffer : Bytes) (version : ℤ)
  | zooDelete (path : CString) (version : ℤ)
  | zooGetChildren (path : CString)
  deriving DecidableEq, Repr

/-- The requests that change nothing. -/
def Req.isRead : Req → Bool
  | .zooExists _ | .zooWexists _ | .zooGet _ _ | .zooGetChildren _ => true
  | _ => false

/-- The path a request names. -/
def Req.path : Req → CString
  | .zooExists p | .zooWexists p | .zooGet p _ | .zooCreate p _ _ _ _ | .zooSet p _ _
  | .zooDelete p _ | .zooGetChildren p => p

/-- What the extension reads of `struct Stat`. -/
structure Stat where
  mtime : ℤ := 0
  version : ℤ := 0
  dataLength : ℕ := 0
  deriving DecidableEq, Repr, Inhabited

/-- What a request gives back: its return code, and what it puts in the caller's variables. -/
structure Reply where
  rc : Status
  stat : Stat := {}
  /-- The data of a node, `none` for `NULL`. -/
  value : Option Bytes := none
  strings : List CString := []
  /-- The name of the node created. -/
  realPath : CString := []
  deriving DecidableEq, Repr

/-- What the caller gets of a reply, in buffers of the lengths it gave. -/
def Reply.received (a : Reply) : Req → Reply
  | .zooGet _ len => { a with value := a.value.map (·.take len) }
  | .zooCreate _ _ _ _ len => { a with realPath := a.realPath.take (len - 1) }
  | _ => a

@[simp] theorem Reply.received_rc (a : Reply) (r : Req) : (a.received r).rc = a.rc := by
  cases r <;> rfl

@[simp] theorem Reply.received_stat (a : Reply) (r : Req) : (a.received r).stat = a.stat := by
  cases r <;> rfl

@[simp] theorem Reply.received_strings (a : Reply) (r : Req) :
    (a.received r).strings = a.strings := by
  cases r <;> rfl

/-! ### Nodes -/

/-- A node of the service. -/
structure Znode where
  data : Option Bytes := none
  /-- When the data was last changed, in milliseconds. -/
  mtime : ℤ := 0
  version : ℤ := 0
  ephemeralOwner : Option Sid := none
  /-- The sequence number of the next child. -/
  cseq : ℕ := 0
  deriving DecidableEq, Repr

/-- The part of a node's `struct Stat` that the extension reads. -/
def Znode.stat (n : Znode) : Stat where
  mtime := n.mtime
  version := n.version
  dataLength := (n.data.getD []).length

@[simp] theorem Znode.stat_mtime (n : Znode) : n.stat.mtime = n.mtime := rfl

@[simp] theorem Znode.stat_dataLength (n : Znode) :
    n.stat.dataLength = (n.data.getD []).length := rfl

/-- The nodes of the service, by path. -/
abbrev Nodes := CString → Option Znode

/-- The path of the directory that holds a path. -/
def parentOf (p : CString) : CString := (beforeLast '/' p).getD []

/-- The path of a child. -/
def childOf (p name : CString) : CString := p ++ '/' :: name

@[simp] theorem parentOf_childOf (p : CString) {name : CString} (h : '/' ∉ name) :
    parentOf (childOf p name) = p := by
  simp [parentOf, childOf, beforeLast_append h]

theorem childOf_inj {p q x y : CString} (hx : '/' ∉ x) (hy : '/' ∉ y) :
    childOf p x = childOf q y ↔ p = q ∧ x = y :=
  append_cons_inj_of_notMem hx hy

theorem childOf_ne_self (p x : CString) : childOf p x ≠ p := by
  intro h
  have := congrArg List.length h
  simp [childOf] at this

/-- `p` has a child. -/
def Nodes.HasChild (t : Nodes) (p : CString) : Prop :=
  ∃ x, '/' ∉ x ∧ t (childOf p x) ≠ none

/-- `p` is a node that may have children. -/
def Nodes.IsDirectory (t : Nodes) (p : CString) : Prop :=
  ∃ d, t p = some d ∧ d.ephemeralOwner = none

/-- `t` after `k` sequence numbers of the directory `p` have been used up. -/
def Nodes.bump (t : Nodes) (p : CString) (k : ℕ) : Nodes :=
  Function.update t p ((t p).map fun n => { n with cseq := n.cseq + k })

/-- The components of a path, from the left; `cur` is the one being read, reversed. -/
def components (cur : CString) : CString → List CString
  | [] => [cur.reverse]
  | c :: s => if c = '/' then cur.reverse :: components [] s else components (c :: cur) s

/-- The paths the client library accepts: absolute, with no empty or relative component and
no control character. A sequence node's path may end anywhere, its number is still to come. -/
def validPath (p : CString) (sequence : Bool) : Bool :=
  match p with
  | '/' :: s =>
    (components [] (if sequence then s ++ ['0'] else s)).all
      (fun c => c ≠ [] && c ≠ ['.'] && c ≠ ['.', '.']) && p.all fun c => 0x1f ≤ c.toNat
  | _ => false

/-- The path of a request is accepted by the client library. -/
def Req.Valid : Req → Bool
  | .zooCreate p _ _ flags _ => validPath p flags.sequence
  | r => validPath r.path false

/-- `"%010d"`, of a number of 32 bits. -/
def format010d : ℤ → CString
  | .ofNat m => fixedDigits 10 10 m
  | .negSucc m => '-' :: fixedDigits 10 (if m + 1 < 10 ^ 9 then 9 else 10) (m + 1)

/-- `"%010d"`, of the 32-bit number that `n` wraps around to. -/
def sprintf010d (n : ℕ) : CString := format010d (Int.bmod n (2 ^ 32))

/-! ### Answers -/

/-- `Answers sid r t a t'`: when the nodes are `t`, the request `r` of the client `sid` may be
answered by `a`, which leaves the nodes `t'`. Time is the service's own, and sequence numbers
may be skipped. -/
inductive Answers (sid : Sid) : Req → Nodes → Reply → Nodes → Prop where
  | badPath {r : Req} {t : Nodes} : r.Valid = false → Answers sid r t { rc := ZBADARGUMENTS } t
  | existsOk {p : CString} {t : Nodes} {n : Znode} : validPath p false → t p = some n →
      Answers sid (.zooExists p) t { rc := ZOK, stat := n.stat } t
  | existsNoNode {p : CString} {t : Nodes} : validPath p false → t p = none →
      Answers sid (.zooExists p) t { rc := ZNONODE } t
  | wexistsOk {p : CString} {t : Nodes} {n : Znode} : validPath p false → t p = some n →
      Answers sid (.zooWexists p) t { rc := ZOK, stat := n.stat } t
  | wexistsNoNode {p : CString} {t : Nodes} : validPath p false → t p = none →
      Answers sid (.zooWexists p) t { rc := ZNONODE } t
  | getOk {p : CString} {t : Nodes} {n : Znode} {len : ℕ} : validPath p false → t p = some n →
      Answers sid (.zooGet p len) t { rc := ZOK, value := n.data, stat := n.stat } t
  | getNoNode {p : CString} {t : Nodes} {len : ℕ} : validPath p false → t p = none →
      Answers sid (.zooGet p len) t { rc := ZNONODE } t
  | createOk {p : CString} {t : Nodes} {d n : Znode} {value : Option Bytes} {acl : Acl}
      {flags : CreateFlags} {len k : ℕ} {q : CString} : validPath p flags.sequence →
      t (parentOf p) = some d → d.ephemeralOwner = none →
      q = (if flags.sequence then p ++ sprintf010d (d.cseq + k) else p) → t q = none →
      n.data = some (value.getD []) →
      n.ephemeralOwner = (if flags.ephemeral then some sid else none) → n.cseq = 0 →
      Answers sid (.zooCreate p value (some acl) flags len) t { rc := ZOK, realPath := q }
        (Function.update (t.bump (parentOf p) (k + 1)) q (some n))
  | createNodeExists {p : CString} {t : Nodes} {value : Option Bytes} {acl : Acl}
      {flags : CreateFlags} {len k : ℕ} {d n : Znode} : validPath p flags.sequence →
      t (parentOf p) = some d →
      t (if flags.sequence then p ++ sprintf010d (d.cseq + k) else p) = some n →
      Answers sid (.zooCreate p value (some acl) flags len) t { rc := ZNODEEXISTS } t
  | createNoParent {p : CString} {t : Nodes} {value : Option Bytes} {acl : Acl}
      {flags : CreateFlags} {len : ℕ} : validPath p flags.sequence → t (parentOf p) = none →
      Answers sid (.zooCreate p value (some acl) flags len) t { rc := ZNONODE } t
  | createEphemeralParent {p : CString} {t : Nodes} {value : Option Bytes} {acl : Acl}
      {flags : CreateFlags} {len : ℕ} {d : Znode} : validPath p flags.sequence →
      t (parentOf p) = some d → d.ephemeralOwner ≠ none →
      Answers sid (.zooCreate p value (some acl) flags len) t { rc := ZNOCHILDRENFOREPHEMERALS } t
  | createInvalidAcl {p : CString} {t : Nodes} {value : Option Bytes} {flags : CreateFlags}
      {len : ℕ} : validPath p flags.sequence →
      Answers sid (.zooCreate p value none flags len) t { rc := ZINVALIDACL } t
  | setOk {p : CString} {t : Nodes} {n : Znode} {buffer : Bytes} {version mtime : ℤ} :
      validPath p false → t p = some n → version = -1 ∨ version = n.version →
      Answers sid (.zooSet p buffer version) t { rc := ZOK }
        (Function.update t p
          (some { n with data := some buffer, mtime := mtime, version := n.version + 1 }))
  | setNoNode {p : CString} {t : Nodes} {buffer : Bytes} {version : ℤ} : validPath p false →
      t p = none → Answers sid (.zooSet p buffer version) t { rc := ZNONODE } t
  | setBadVersion {p : CString} {t : Nodes} {n : Znode} {buffer : Bytes} {version : ℤ} :
      validPath p false → t p = some n → version ≠ -1 → version ≠ n.version →
      Answers sid (.zooSet p buffer version) t { rc := ZBADVERSION } t
  | deleteOk {p : CString} {t : Nodes} {n : Znode} {version : ℤ} {k : ℕ} : validPath p false →
      t p = some n → version = -1 ∨ version = n.version → ¬ t.HasChild p →
      Answers sid (.zooDelete p version) t { rc := ZOK }
        (Function.update (t.bump (parentOf p) k) p none)
  | deleteNoNode {p : CString} {t : Nodes} {version : ℤ} : validPath p false → t p = none →
      Answers sid (.zooDelete p version) t { rc := ZNONODE } t
  | deleteBadVersion {p : CString} {t : Nodes} {n : Znode} {version : ℤ} : validPath p false →
      t p = some n → version ≠ -1 → version ≠ n.version →
      Answers sid (.zooDelete p version) t { rc := ZBADVERSION } t
  | deleteNotEmpty {p : CString} {t : Nodes} {n : Znode} {version : ℤ} : validPath p false →
      t p = some n → t.HasChild p → Answers sid (.zooDelete p version) t { rc := ZNOTEMPTY } t
  | childrenOk {p : CString} {t : Nodes} {n : Znode} {names : List CString} : validPath p false →
      t p = some n → names.Nodup → (∀ x, x ∈ names ↔ '/' ∉ x ∧ t (childOf p x) ≠ none) →
      Answers sid (.zooGetChildren p) t { rc := ZOK, strings := names } t
  | childrenNoNode {p : CString} {t : Nodes} : validPath p false → t p = none →
      Answers sid (.zooGetChildren p) t { rc := ZNONODE } t

namespace Answers

variable {sid : Sid} {r : Req} {t t' : Nodes} {a : Reply} {p : CString}

/-! ### What an answer says of each request -/

theorem rc_ne_failure (h : Answers sid r t a t') : a.rc ≠ ZCONNECTIONLOSS := by
  cases h <;> simp

/-- A request for a path that is not accepted. -/
theorem of_not_valid (h : Answers sid r t a t') (hr : r.Valid = false) :
    a.rc = ZBADARGUMENTS ∧ t' = t := by
  cases h <;> simp_all [Req.Valid, Req.path]

theorem zooExists (h : Answers sid (.zooExists p) t a t') :
    t' = t ∧ (validPath p false = false ∧ a.rc = ZBADARGUMENTS ∨
      t p = none ∧ a.rc = ZNONODE ∨
      ∃ n, t p = some n ∧ validPath p false ∧ a.rc = ZOK ∧ a.stat = n.stat) := by
  cases h with
  | badPath hv => exact ⟨rfl, .inl ⟨hv, rfl⟩⟩
  | existsOk hv hn => exact ⟨rfl, .inr (.inr ⟨_, hn, hv, rfl, rfl⟩)⟩
  | existsNoNode hv hn => exact ⟨rfl, .inr (.inl ⟨hn, rfl⟩)⟩

theorem zooWexists (h : Answers sid (.zooWexists p) t a t') :
    t' = t ∧ (validPath p false = false ∧ a.rc = ZBADARGUMENTS ∨
      t p = none ∧ a.rc = ZNONODE ∨
      ∃ n, t p = some n ∧ validPath p false ∧ a.rc = ZOK ∧ a.stat = n.stat) := by
  cases h with
  | badPath hv => exact ⟨rfl, .inl ⟨hv, rfl⟩⟩
  | wexistsOk hv hn => exact ⟨rfl, .inr (.inr ⟨_, hn, hv, rfl, rfl⟩)⟩
  | wexistsNoNode hv hn => exact ⟨rfl, .inr (.inl ⟨hn, rfl⟩)⟩

theorem zooGet {len : ℕ} (h : Answers sid (.zooGet p len) t a t') :
    t' = t ∧ (validPath p false = false ∧ a.rc = ZBADARGUMENTS ∨
      t p = none ∧ a.rc = ZNONODE ∨
      ∃ n, t p = some n ∧ validPath p false ∧ a.rc = ZOK ∧ a.value = n.data ∧
        a.stat = n.stat) := by
  cases h with
  | badPath hv => exact ⟨rfl, .inl ⟨hv, rfl⟩⟩
  | getOk hv hn => exact ⟨rfl, .inr (.inr ⟨_, hn, hv, rfl, rfl, rfl⟩)⟩
  | getNoNode hv hn => exact ⟨rfl, .inr (.inl ⟨hn, rfl⟩)⟩

theorem zooGetChildren (h : Answers sid (.zooGetChildren p) t a t') :
    t' = t ∧ (validPath p false = false ∧ a.rc = ZBADARGUMENTS ∨
      t p = none ∧ a.rc = ZNONODE ∨
      a.rc = ZOK ∧ a.strings.Nodup ∧ ∀ x, x ∈ a.strings ↔ '/' ∉ x ∧ t (childOf p x) ≠ none) := by
  cases h with
  | badPath hv => exact ⟨rfl, .inl ⟨hv, rfl⟩⟩
  | childrenOk hv hn hnd hx => exact ⟨rfl, .inr (.inr ⟨rfl, hnd, hx⟩)⟩
  | childrenNoNode hv hn => exact ⟨rfl, .inr (.inl ⟨hn, rfl⟩)⟩

/-- The children of a missing node are not listed. -/
theorem rc_zooGetChildren (h : Answers sid (.zooGetChildren p) t a t') (hn : t p = none) :
    a.rc ≠ ZOK := by
  cases h with
  | badPath hv => exact nofun
  | childrenOk hv hn' hnd hx => simp [hn] at hn'
  | childrenNoNode hv hn => exact nofun

/-- A read leaves the nodes as they are. -/
theorem of_isRead (h : Answers sid r t a t') (hr : r.isRead = true) : t' = t := by
  cases h <;> simp_all [Req.isRead]

/-- Only the children of a directory are listed, by their names. -/
theorem slash_notMem (h : Answers sid r t a t') : ∀ x ∈ a.strings, '/' ∉ x := by
  cases h with
  | childrenOk hv hn hnd hx => exact fun x hm => ((hx x).mp hm).1
  | _ => simp

/-- A `create` makes a node, or leaves the nodes as they are, for one of four reasons. -/
theorem zooCreate {value : Option Bytes} {acl : Option Acl} {flags : CreateFlags} {len : ℕ}
    (h : Answers sid (.zooCreate p value acl flags len) t a t') :
    (∃ d n q k, a.rc = ZOK ∧ a.realPath = q ∧ t (parentOf p) = some d ∧ d.ephemeralOwner = none ∧
      q = (if flags.sequence then p ++ sprintf010d (d.cseq + k) else p) ∧ t q = none ∧
      n.data = some (value.getD []) ∧
      n.ephemeralOwner = (if flags.ephemeral then some sid else none) ∧ n.cseq = 0 ∧
      validPath p flags.sequence ∧
      t' = Function.update (t.bump (parentOf p) (k + 1)) q (some n)) ∨
    (t' = t ∧ a.rc ≠ ZOK ∧
      (validPath p flags.sequence = false ∨ acl = none ∨ ¬ t.IsDirectory (parentOf p) ∨
        ∃ d k, t (parentOf p) = some d ∧
          t (if flags.sequence then p ++ sprintf010d (d.cseq + k) else p) ≠ none)) := by
  cases h with
  | badPath hv => exact .inr ⟨rfl, by simp, .inl hv⟩
  | createOk hv hd he hq ht hn ho hc =>
    exact .inl ⟨_, _, _, _, rfl, rfl, hd, he, hq, ht, hn, ho, hc, hv, rfl⟩
  | createNodeExists hv hd hn =>
    exact .inr ⟨rfl, by simp, .inr (.inr (.inr ⟨_, _, hd, by rw [hn]; simp⟩))⟩
  | createNoParent hv hd =>
    refine .inr ⟨rfl, by simp, .inr (.inr (.inl ?_))⟩
    rintro ⟨d, hd', -⟩
    simp [hd] at hd'
  | createEphemeralParent hv hd he =>
    refine .inr ⟨rfl, by simp, .inr (.inr (.inl ?_))⟩
    rintro ⟨d', hd', he'⟩
    rw [hd, Option.some.injEq] at hd'
    exact he (hd' ▸ he')
  | createInvalidAcl hv => exact .inr ⟨rfl, by simp, .inr (.inl rfl)⟩

/-- An unconditional `set`. -/
theorem zooSet {buffer : Bytes} (h : Answers sid (.zooSet p buffer (-1)) t a t') :
    (∃ n mtime, t p = some n ∧ validPath p false ∧ a.rc = ZOK ∧ t' = Function.update t p
      (some { n with data := some buffer, mtime := mtime, version := n.version + 1 })) ∨
    (t' = t ∧ a.rc ≠ ZOK ∧ (validPath p false = false ∨ t p = none)) := by
  cases h with
  | badPath hv => exact .inr ⟨rfl, by simp, .inl hv⟩
  | setOk hv hn hver => exact .inl ⟨_, _, hn, hv, rfl, rfl⟩
  | setNoNode hv hn => exact .inr ⟨rfl, by simp, .inr hn⟩
  | setBadVersion hv hn hne => exact absurd rfl hne

/-- An unconditional `delete`. -/
theorem zooDelete (h : Answers sid (.zooDelete p (-1)) t a t') :
    (∃ n k, t p = some n ∧ validPath p false ∧ ¬ t.HasChild p ∧ a.rc = ZOK ∧
      t' = Function.update (t.bump (parentOf p) k) p none) ∨
    (t' = t ∧ (validPath p false = false ∧ a.rc = ZBADARGUMENTS ∨
      t p = none ∧ a.rc = ZNONODE ∨ t.HasChild p ∧ a.rc = ZNOTEMPTY)) := by
  cases h with
  | badPath hv => exact .inr ⟨rfl, .inl ⟨hv, rfl⟩⟩
  | deleteOk hv hn hver hc => exact .inl ⟨_, _, hn, hv, hc, rfl, rfl⟩
  | deleteNoNode hv hn => exact .inr ⟨rfl, .inr (.inl ⟨hn, rfl⟩)⟩
  | deleteBadVersion hv hn hne => exact absurd rfl hne
  | deleteNotEmpty hv hn hc => exact .inr ⟨rfl, .inr (.inr ⟨hc, rfl⟩)⟩

end Answers

/-! ### Frames -/

/-- What a node holds, its count of sequence numbers apart. -/
def Znode.content (n : Znode) : Znode := { n with cseq := 0 }

/-- The paths at which a request may change the content of a node. -/
def Req.MayTouch (r : Req) (q : CString) : Prop :=
  match r with
  | .zooCreate p _ _ flags _ => if flags.sequence then ∃ n, q = p ++ sprintf010d n else q = p
  | .zooSet p _ _ => q = p
  | .zooDelete p _ => q = p
  | _ => False

/-- A request only touches its path, or one that begins with it. -/
theorem Req.MayTouch.path_prefix {r : Req} {q : CString} (h : r.MayTouch q) : r.path <+: q := by
  cases r with
  | zooCreate p value acl flags len =>
    simp only [MayTouch] at h
    split_ifs at h
    · obtain ⟨n, rfl⟩ := h
      exact List.prefix_append p _
    · exact h ▸ List.prefix_rfl
  | zooSet p buffer version =>
    obtain rfl : q = p := h
    exact List.prefix_rfl
  | zooDelete p version =>
    obtain rfl : q = p := h
    exact List.prefix_rfl
  | zooExists p => exact h.elim
  | zooWexists p => exact h.elim
  | zooGet p len => exact h.elim
  | zooGetChildren p => exact h.elim

theorem Nodes.bump_of_ne (t : Nodes) {p p' : CString} (k : ℕ) (h : p' ≠ p) :
    t.bump p k p' = t p' := Function.update_of_ne h ..

theorem Nodes.bump_content (t : Nodes) (p : CString) (k : ℕ) (q : CString) :
    (t.bump p k q).map Znode.content = (t q).map Znode.content := by
  unfold bump
  by_cases h : q = p
  · subst h
    cases t q <;> simp [Znode.content]
  · rw [Function.update_of_ne h]

/-- **What a request leaves alone.** -/
theorem Answers.frame {sid : Sid} {r : Req} {t t' : Nodes} {a : Reply} {q : CString}
    (h : Answers sid r t a t') (hq : ¬ r.MayTouch q) :
    (t' q).map Znode.content = (t q).map Znode.content := by
  cases h with
  | createOk hv hd he hr ht hn ho hc =>
    rw [Function.update_of_ne, Nodes.bump_content]
    rintro rfl
    refine hq ?_
    simp only [Req.MayTouch]
    split_ifs at hr ⊢
    · exact ⟨_, hr⟩
    · exact hr
  | setOk hv hn hver => rw [Function.update_of_ne hq]
  | deleteOk hv hn hver hc => rw [Function.update_of_ne hq, Nodes.bump_content]
  | _ => rfl

/-- What a request leaves alone, the count of sequence numbers too. -/
theorem Answers.frame_eq {sid : Sid} {r : Req} {t t' : Nodes} {a : Reply} {q : CString}
    (h : Answers sid r t a t') (hq : ¬ r.MayTouch q) (hparent : parentOf r.path ≠ q) :
    t' q = t q := by
  cases h with
  | createOk hv hd he hr ht hn ho hc =>
    rw [Function.update_of_ne]
    · exact Nodes.bump_of_ne _ _ (Ne.symm hparent)
    rintro rfl
    refine hq ?_
    simp only [Req.MayTouch]
    split_ifs at hr ⊢
    · exact ⟨_, hr⟩
    · exact hr
  | setOk hv hn hver => rw [Function.update_of_ne hq]
  | deleteOk hv hn hver hc =>
    rw [Function.update_of_ne hq]
    exact Nodes.bump_of_ne _ _ (Ne.symm hparent)
  | _ => rfl

/-- **The service**: what it answers, when and in which order is its choice, but each answer is
one the API documents. -/
structure Server where
  /-- The states of the service. -/
  State : Type
  /-- What decides between the answers a request may have. -/
  Choice : Type
  /-- The nodes in a state. -/
  nodes : State → Nodes
  /-- The answer to a request, and the state it leaves. -/
  serve : Choice → Sid → Req → State → Reply × State
  /-- The service has an answer to every request. -/
  answers : Nonempty Choice
  /-- Each answer is a documented one. -/
  documented : ∀ c sid r s,
    Answers sid r (nodes s) (serve c sid r s).1 (nodes (serve c sid r s).2)

/-! ### Failures -/

/-- The codes with which the client library reports that it has no answer. -/
inductive Failure where
  | connectionLoss | operationTimeout | sessionExpired | invalidState | closing | marshallingError
  deriving DecidableEq, Repr

/-- The return code of a failure. -/
def Failure.status : Failure → Status
  | .connectionLoss => ZCONNECTIONLOSS
  | .operationTimeout => ZOPERATIONTIMEOUT
  | .sessionExpired => ZSESSIONEXPIRED
  | .invalidState => ZINVALIDSTATE
  | .closing => ZCLOSING
  | .marshallingError => ZMARSHALLINGERROR

theorem Failure.status_ne (why : Failure) : why.status ≠ ZOK ∧ why.status ≠ ZNONODE := by
  cases why <;> simp [status]

/-- What becomes of a request: it is answered, or it fails, after the service has applied it
or before. -/
inductive Fate where
  | answered
  | failed (why : Failure) (applied : Bool)
  deriving DecidableEq, Repr

end PhpZookeeper
