import PhpZookeeper.Server.Service
import Mathlib.Data.List.Dedup

/-!
# A service

A service that keeps its nodes in a list, and gives each request the answer the API documents.
It shows that there is one, and is the one on which runs are evaluated.
-/

namespace PhpZookeeper

open Theory Status

/-- What the service decides for itself. -/
structure TreeChoice where
  /-- The time of a change, in milliseconds. -/
  time : ℤ := 0
  /-- How many sequence numbers are skipped. -/
  skip : ℕ := 0
  /-- The order in which children are listed, when it is one of their orders. -/
  order : List CString := []
  deriving DecidableEq, Repr, Inhabited

/-- The nodes, each with its path. -/
abbrev TreeState := List (CString × Znode)

namespace TreeState

/-- The node at a path. -/
def get (s : TreeState) (p : CString) : Option Znode := (s.find? fun x => x.1 == p).map (·.2)

/-- Makes `n` the node at `p`, or removes it. -/
def put (s : TreeState) (p : CString) : Option Znode → TreeState
  | some n => (p, n) :: s.filter fun x => x.1 != p
  | none => s.filter fun x => x.1 != p

theorem get_cons (x : CString × Znode) (s : TreeState) (p : CString) :
    get (x :: s) p = if x.1 = p then some x.2 else get s p := by
  by_cases h : x.1 = p
  · simp [get, h]
  · have hne : (x.1 == p) = false := by simpa using h
    simp [get, h, hne]

theorem get_filter (s : TreeState) (p q : CString) :
    get (s.filter fun x => x.1 != p) q = if q = p then none else get s q := by
  induction s with
  | nil => simp [get]
  | cons x s ih =>
    by_cases hx : x.1 = p
    · rw [List.filter_cons_of_neg (by simp [hx]), ih, get_cons]
      by_cases hq : q = p
      · simp [hq]
      · simp [hx, hq, Ne.symm hq]
    · rw [List.filter_cons_of_pos (by simp [hx]), get_cons, get_cons, ih]
      by_cases hxq : x.1 = q
      · subst hxq
        simp [hx]
      · simp [hxq]

theorem get_put (s : TreeState) (p : CString) (n : Option Znode) :
    (s.put p n).get = Function.update s.get p n := by
  funext q
  cases n with
  | none =>
    rw [put, get_filter]
    by_cases h : q = p <;> simp [h]
  | some n =>
    rw [put, get_cons, get_filter]
    by_cases h : q = p
    · simp [h]
    · simp [h, Ne.symm h]

theorem get_ne_none_iff (s : TreeState) (p : CString) : s.get p ≠ none ↔ ∃ n, (p, n) ∈ s := by
  simp only [get, ne_eq, Option.map_eq_none_iff, List.find?_eq_none, beq_iff_eq, not_forall,
    not_not]
  constructor
  · rintro ⟨⟨q, n⟩, hm, rfl⟩
    exact ⟨n, hm⟩
  · rintro ⟨n, hm⟩
    exact ⟨(p, n), hm, rfl⟩

/-- The name of `q` in the directory `p`. -/
def nameIn (p q : CString) : Option CString :=
  if beforeLast '/' q = some p then afterLast '/' q else none

theorem nameIn_eq_some_iff {p q x : CString} :
    nameIn p q = some x ↔ q = childOf p x ∧ '/' ∉ x := by
  unfold nameIn
  constructor
  · intro h
    split_ifs at h with hb
    obtain ⟨t, rfl, ht⟩ := beforeLast_eq_some_iff.mp hb
    rw [afterLast_append ht, Option.some.injEq] at h
    subst h
    exact ⟨rfl, ht⟩
  · rintro ⟨rfl, hx⟩
    have hb : beforeLast '/' (childOf p x) = some p := beforeLast_append hx
    rw [if_pos hb]
    exact afterLast_append hx

/-- The names of the children of `p`, in the order of `strcmp`. -/
def names (s : TreeState) (p : CString) : List CString :=
  ((s.filterMap fun x => nameIn p x.1).dedup).insertionSort fun a b => strcmp a b ≠ .gt

theorem nodup_names (s : TreeState) (p : CString) : (s.names p).Nodup :=
  ((List.perm_insertionSort _ _).nodup_iff).mpr (List.nodup_dedup _)

theorem mem_names (s : TreeState) (p x : CString) :
    x ∈ s.names p ↔ '/' ∉ x ∧ s.get (childOf p x) ≠ none := by
  simp only [names, List.mem_insertionSort, List.mem_dedup, List.mem_filterMap,
    nameIn_eq_some_iff, get_ne_none_iff]
  constructor
  · rintro ⟨⟨q, n⟩, hm, rfl, hx⟩
    exact ⟨hx, n, hm⟩
  · rintro ⟨hx, n, hm⟩
    exact ⟨_, hm, rfl, hx⟩

/-- `p` has a child. -/
def hasChild (s : TreeState) (p : CString) : Bool := !(s.names p).isEmpty

theorem hasChild_iff (s : TreeState) (p : CString) : s.hasChild p ↔ Nodes.HasChild s.get p := by
  simp only [hasChild, Bool.not_eq_true', List.isEmpty_eq_false_iff_exists_mem, mem_names,
    Nodes.HasChild]

/-- The names of the children, in the order the service likes. -/
def listing (s : TreeState) (p : CString) (order : List CString) : List CString :=
  if order.Perm (s.names p) then order else s.names p

theorem listing_perm (s : TreeState) (p : CString) (order : List CString) :
    (s.listing p order).Perm (s.names p) := by
  unfold listing
  split_ifs with h
  · exact h
  · exact List.Perm.refl _

/-- Uses up `k` sequence numbers of the directory `p`. -/
def bump (s : TreeState) (p : CString) (k : ℕ) : TreeState :=
  s.put p ((s.get p).map fun n => { n with cseq := n.cseq + k })

theorem get_bump (s : TreeState) (p : CString) (k : ℕ) : (s.bump p k).get = Nodes.bump s.get p k :=
  get_put s p _

/-- `create`, of an accepted path and with a list of permissions. -/
def create (s : TreeState) (c : TreeChoice) (sid : Sid) (p : CString) (value : Option Bytes)
    (flags : CreateFlags) : Reply × TreeState :=
  match s.get (parentOf p) with
  | none => ({ rc := ZNONODE }, s)
  | some d =>
    let q := if flags.sequence then p ++ sprintf010d (d.cseq + c.skip) else p
    match s.get q with
    | some _ => ({ rc := ZNODEEXISTS }, s)
    | none =>
      if d.ephemeralOwner = none then
        ({ rc := ZOK, realPath := q }, (s.bump (parentOf p) (c.skip + 1)).put q (some
          { data := some (value.getD []), mtime := c.time,
            ephemeralOwner := if flags.ephemeral then some sid else none }))
      else ({ rc := ZNOCHILDRENFOREPHEMERALS }, s)

/-- The answer to a request for an accepted path. -/
def answer (s : TreeState) (c : TreeChoice) (sid : Sid) : Req → Reply × TreeState
  | .zooExists p | .zooWexists p =>
    match s.get p with
    | some n => ({ rc := ZOK, stat := n.stat }, s)
    | none => ({ rc := ZNONODE }, s)
  | .zooGet p _ =>
    match s.get p with
    | some n => ({ rc := ZOK, value := n.data, stat := n.stat }, s)
    | none => ({ rc := ZNONODE }, s)
  | .zooCreate _ _ none _ _ => ({ rc := ZINVALIDACL }, s)
  | .zooCreate p value (some _) flags _ => s.create c sid p value flags
  | .zooSet p buffer version =>
    match s.get p with
    | some n =>
      if version = -1 ∨ version = n.version then
        ({ rc := ZOK }, s.put p (some
          { n with data := some buffer, mtime := c.time, version := n.version + 1 }))
      else ({ rc := ZBADVERSION }, s)
    | none => ({ rc := ZNONODE }, s)
  | .zooDelete p version =>
    match s.get p with
    | some n =>
      if version = -1 ∨ version = n.version then
        if s.hasChild p then ({ rc := ZNOTEMPTY }, s)
        else ({ rc := ZOK }, (s.bump (parentOf p) 0).put p none)
      else ({ rc := ZBADVERSION }, s)
    | none => ({ rc := ZNONODE }, s)
  | .zooGetChildren p =>
    match s.get p with
    | some _ => ({ rc := ZOK, strings := s.listing p c.order }, s)
    | none => ({ rc := ZNONODE }, s)

/-- The answer to a request. -/
def serve (c : TreeChoice) (sid : Sid) (r : Req) (s : TreeState) : Reply × TreeState :=
  if r.Valid then s.answer c sid r else ({ rc := ZBADARGUMENTS }, s)

theorem create_documented (s : TreeState) (c : TreeChoice) (sid : Sid) (p : CString)
    (value : Option Bytes) (acl : Acl) (flags : CreateFlags) (len : ℕ)
    (hv : validPath p flags.sequence) :
    Answers sid (.zooCreate p value (some acl) flags len) s.get (s.create c sid p value flags).1
      (s.create c sid p value flags).2.get := by
  unfold create
  cases hd : s.get (parentOf p) with
  | none => exact .createNoParent hv hd
  | some d =>
    dsimp only
    cases hq : s.get (if flags.sequence then p ++ sprintf010d (d.cseq + c.skip) else p) with
    | some n => exact .createNodeExists hv hd hq
    | none =>
      dsimp only
      by_cases he : d.ephemeralOwner = none
      · rw [if_pos he, get_put, get_bump]
        exact .createOk hv hd he rfl hq rfl rfl rfl
      · rw [if_neg he]
        exact .createEphemeralParent hv hd he

theorem answer_documented (s : TreeState) (c : TreeChoice) (sid : Sid) (r : Req)
    (hv : r.Valid) : Answers sid r s.get (s.answer c sid r).1 (s.answer c sid r).2.get := by
  cases r with
  | zooExists p =>
    cases hp : s.get p with
    | none =>
      simp only [answer, hp]
      exact .existsNoNode hv hp
    | some n =>
      simp only [answer, hp]
      exact .existsOk hv hp
  | zooWexists p =>
    cases hp : s.get p with
    | none =>
      simp only [answer, hp]
      exact .wexistsNoNode hv hp
    | some n =>
      simp only [answer, hp]
      exact .wexistsOk hv hp
  | zooGet p len =>
    cases hp : s.get p with
    | none =>
      simp only [answer, hp]
      exact .getNoNode hv hp
    | some n =>
      simp only [answer, hp]
      exact .getOk hv hp
  | zooCreate p value acl flags len =>
    cases acl with
    | none => exact .createInvalidAcl hv
    | some acl => exact create_documented s c sid p value acl flags len hv
  | zooSet p buffer version =>
    cases hp : s.get p with
    | none =>
      simp only [answer, hp]
      exact .setNoNode hv hp
    | some n =>
      simp only [answer, hp]
      split_ifs with hver
      · rw [get_put]
        exact .setOk hv hp hver
      · rw [not_or] at hver
        exact .setBadVersion hv hp hver.1 hver.2
  | zooDelete p version =>
    cases hp : s.get p with
    | none =>
      simp only [answer, hp]
      exact .deleteNoNode hv hp
    | some n =>
      simp only [answer, hp]
      split_ifs with hver hc
      · exact .deleteNotEmpty hv hp ((hasChild_iff s p).mp hc)
      · rw [get_put, get_bump]
        exact .deleteOk hv hp hver (fun h => hc ((hasChild_iff s p).mpr h))
      · rw [not_or] at hver
        exact .deleteBadVersion hv hp hver.1 hver.2
  | zooGetChildren p =>
    cases hp : s.get p with
    | none =>
      simp only [answer, hp]
      exact .childrenNoNode hv hp
    | some n =>
      simp only [answer, hp]
      have hperm := listing_perm s p c.order
      exact .childrenOk hv hp (hperm.nodup_iff.mpr (nodup_names s p)) fun x => by
        rw [hperm.mem_iff, mem_names]

end TreeState

/-- **A service**: it answers each request as documented. -/
def treeServer : Server where
  State := TreeState
  Choice := TreeChoice
  nodes := TreeState.get
  serve := TreeState.serve
  answers := ⟨{}⟩
  documented c sid r s := by
    unfold TreeState.serve
    split_ifs with hv
    · exact TreeState.answer_documented s c sid r hv
    · exact .badPath (by simpa using hv)

end PhpZookeeper
