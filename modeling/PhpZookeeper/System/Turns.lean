import PhpZookeeper.System.Exclusion

/-!
# Turns at one session

Any number of workers use one session key, whose paths are not cut, and delete no node but their
own in the queue. Then the lock directory stays, and its numbers only grow; so the first of the
queue is known by its name as long as its node is there (`HeldOk.turn`). Only the worker whose node
is the first of the queue changes the session's data (`Turn`), so what a worker has seen of the data
in an earlier state in which it was the first is what the data still is (`Earlier`).
-/

namespace PhpZookeeper

open Theory Status

/-- The paths of the key are not cut, and it has no `/`. -/
structure ShortKey (key : CString) : Prop where
  slash : '/' ∉ key
  length : key.length < 500

namespace ShortKey

variable {key : CString} (h : ShortKey key)
include h

theorem sessionPath_eq : sessionPath key = childOf phpZkParentNode key := by
  have := h.length
  rw [PhpZookeeper.sessionPath_eq, List.take_of_length_le (by omega)]

theorem lockPath_eq : lockPath key = childOf phpZkParentNode (key ++ "-lock".toList) := by
  have := h.length
  rw [PhpZookeeper.lockPath_eq, List.take_of_length_le]
  rw [List.length_append, show "-lock".toList.length = 5 from rfl]
  omega

theorem slash_notMem_lock : '/' ∉ key ++ "-lock".toList := by
  have := h.slash
  simp only [List.mem_append, not_or]
  exact ⟨this, by decide⟩

theorem parentOf_sessionPath : parentOf (sessionPath key) = phpZkParentNode := by
  rw [h.sessionPath_eq, parentOf_childOf _ h.slash]

theorem parentOf_lockPath : parentOf (lockPath key) = phpZkParentNode := by
  rw [h.lockPath_eq, parentOf_childOf _ h.slash_notMem_lock]

/-- The session's node is no child of the lock directory. -/
theorem childOf_lockPath_ne {x : CString} (hx : '/' ∉ x) :
    childOf (lockPath key) x ≠ sessionPath key := by
  intro heq
  have hparent := congrArg parentOf heq
  rw [parentOf_childOf _ hx, h.parentOf_sessionPath] at hparent
  exact lockPath_ne_parentNode key hparent

/-- Nor is a node that a client makes there. -/
theorem not_mayTouch_ticket (session : Sid) (value : Option Bytes) (acl : Option Acl) (len : ℕ) :
    ¬ (Req.zooCreate (childOf (lockPath key) (lockPrefix session)) value acl
      { ephemeral := true, sequence := true } len).MayTouch (sessionPath key) := by
  rintro ⟨n, hn⟩
  rw [show childOf (lockPath key) (lockPrefix session) ++ sprintf010d n =
    childOf (lockPath key) (lockName session n) by simp [childOf, lockName]] at hn
  exact h.childOf_lockPath_ne (ownName_lockName session n).2 hn.symm

end ShortKey

theorem sessionPath_ne_parentNode (key : CString) : sessionPath key ≠ phpZkParentNode := by
  intro h
  have := length_sessionPath key
  rw [h, length_phpZkParentNode] at this
  omega

theorem lockPath_ne_sessionPath (key : CString) : lockPath key ≠ sessionPath key := fun h =>
  (length_sessionPath_lt key).ne' (congrArg List.length h)

/-! ### What a worker does to the nodes -/

/-- The first node of the queue is the client's. -/
def Nodes.Serves (t : Nodes) (p : CString) (session : Sid) : Prop :=
  ∃ q n, IsQueue t p q ∧ q.Served session n

/-- What the node at `p` holds, its count of sequence numbers apart. -/
def Nodes.held (t : Nodes) (p : CString) : Option Znode := (t p).map Znode.content

theorem Nodes.IsDirectory.of_held {t t' : Nodes} {p : CString} (hp : t.IsDirectory p)
    (h : t'.held p = t.held p) : t'.IsDirectory p := by
  obtain ⟨d, hd, howner⟩ := hp
  unfold Nodes.held at h
  rw [hd, Option.map_some] at h
  obtain ⟨d', hd', hcontent⟩ := Option.map_eq_some_iff.mp h
  exact ⟨d', hd', (congrArg Znode.ephemeralOwner hcontent :).trans howner⟩

/-- The requests of a client of one key: it makes the lock directory, makes its node there and
deletes it, and changes the data when it is served. -/
inductive TurnReq (session : Sid) (key : CString) (t : Nodes) : Req → Prop where
  | read {r : Req} : r.isRead = true → TurnReq session key t r
  | mkdir (acl : Option Acl) (len : ℕ) :
      TurnReq session key t (.zooCreate (lockPath key) none acl {} len)
  | ticket (acl : Option Acl) (len : ℕ) :
      TurnReq session key t (.zooCreate (childOf (lockPath key) (lockPrefix session)) none acl
        { ephemeral := true, sequence := true } len)
  | leave {x : CString} (version : ℤ) : OwnName session x →
      TurnReq session key t (.zooDelete (childOf (lockPath key) x) version)
  | make (val : Bytes) (acl : Option Acl) (len : ℕ) : t.Serves (lockPath key) session →
      TurnReq session key t (.zooCreate (sessionPath key) (some val) acl {} len)
  | set (val : Bytes) (version : ℤ) : t.Serves (lockPath key) session →
      TurnReq session key t (.zooSet (sessionPath key) val version)

/-- What a client of the key makes of the nodes: a step of the queue, whose directory stays and
whose numbers grow; the data changes only when the client is served. -/
structure Turn (a : Sid) (key : CString) (t t' : Nodes) : Prop where
  queue : ∀ q, IsQueue t (lockPath key) q →
    ∃ q', TicketQueue.Step a q q' ∧ IsQueue t' (lockPath key) q'
  next : ∀ d, t (lockPath key) = some d → ∃ d', t' (lockPath key) = some d' ∧ d.cseq ≤ d'.cseq
  data : t'.held (sessionPath key) = t.held (sessionPath key) ∨
    t.Serves (lockPath key) a ∧ validPath (sessionPath key) false = true
  parent : t'.held phpZkParentNode = t.held phpZkParentNode

theorem Turn.refl (a : Sid) (key : CString) (t : Nodes) : Turn a key t t where
  queue q hq := ⟨q, .idle rfl (.inl le_rfl), hq⟩
  next d hd := ⟨d, hd, le_rfl⟩
  data := .inl rfl
  parent := rfl

/-- Only a `delete` removes a node. -/
theorem Answers.kept {sid : Sid} {r : Req} {t t' : Nodes} {a : Reply} {q : CString}
    (h : Answers sid r t a t') (hr : ∀ version, r ≠ .zooDelete q version) (hq : t q ≠ none) :
    t' q ≠ none := by
  cases h with
  | @createOk p _ d n value acl flags len k path hv hd he hp ht hn ho hc =>
    by_cases hpath : q = path
    · rw [hpath, Function.update_self]
      simp
    · rw [Function.update_of_ne hpath]
      exact (t.bump_ne_none _ _ _).mpr hq
  | @setOk p _ n buffer version mtime hv hn hver =>
    by_cases hp : q = p
    · rw [hp, Function.update_self]
      simp
    · rwa [Function.update_of_ne hp]
  | @deleteOk p _ n version k hv hn hver hc =>
    have hp : q ≠ p := fun heq => hr version (heq ▸ rfl)
    rw [Function.update_of_ne hp]
    exact (t.bump_ne_none _ _ _).mpr hq
  | _ => exact hq

section Requests

variable {session : Sid} {key : CString} {t t' : Nodes} {r : Req} {a : Reply}

theorem TurnReq.queueReq (h : TurnReq session key t r) (hkey : ShortKey key) :
    QueueReq session (lockPath key) r := by
  have hparent := (lockPath_ne_parentNode key).symm
  cases h with
  | read hr =>
    cases r with
    | zooCreate => cases hr
    | zooDelete => cases hr
    | _ => trivial
  | mkdir acl len => exact .inr ⟨by rwa [hkey.parentOf_lockPath], rfl⟩
  | ticket acl len => exact .inl ⟨rfl, rfl⟩
  | leave version hx => exact .inl ⟨_, rfl, hx⟩
  | make val acl len _ => exact .inr ⟨by rwa [hkey.parentOf_sessionPath], rfl⟩
  | set val version _ => trivial

/-- The lock directory stays, and its numbers grow. -/
theorem TurnReq.next (h : TurnReq session key t r) (hans : Answers session r t a t')
    (hkey : ShortKey key) {d : Znode} (hd : t (lockPath key) = some d) :
    ∃ d', t' (lockPath key) = some d' ∧ d.cseq ≤ d'.cseq := by
  have hsame : t' = t → ∃ d', t' (lockPath key) = some d' ∧ d.cseq ≤ d'.cseq := by
    rintro rfl
    exact ⟨d, hd, le_rfl⟩
  cases h with
  | read hr => exact hsame (hans.of_isRead hr)
  | mkdir acl len =>
    rcases hans.zooCreate with ⟨d', n, q, k, -, -, -, -, rfl, hnone, -⟩ | ⟨ht, -⟩
    · rw [if_neg (by decide), hd] at hnone
      cases hnone
    · exact hsame ht
  | ticket acl len =>
    rcases hans.zooCreate with ⟨d', n, q, k, -, -, -, -, rfl, -, -, -, -, -, ht⟩ | ⟨ht, -⟩
    · refine ⟨{ d with cseq := d.cseq + (k + 1) }, ?_, Nat.le_add_right ..⟩
      have hne : lockPath key ≠ childOf (lockPath key) (lockPrefix session) ++
          sprintf010d (d'.cseq + k) := by
        rw [show childOf (lockPath key) (lockPrefix session) ++ sprintf010d (d'.cseq + k) =
          childOf (lockPath key) (lockName session (d'.cseq + k)) by simp [childOf, lockName]]
        exact (childOf_ne_self _ _).symm
      rw [ht, if_pos rfl, Function.update_of_ne hne,
        parentOf_childOf _ (slash_notMem_lockPrefix session), Nodes.bump_self _ hd]
    · exact hsame ht
  | @leave x version hx =>
    cases hans with
    | @deleteOk _ _ n _ k hv hn hver hc =>
      refine ⟨{ d with cseq := d.cseq + k }, ?_, Nat.le_add_right ..⟩
      rw [Function.update_of_ne (childOf_ne_self _ _).symm, parentOf_childOf _ hx.2,
        Nodes.bump_self _ hd]
    | _ => exact hsame rfl
  | make val acl len _ =>
    rcases hans.zooCreate with ⟨d', n, q, k, -, -, -, -, rfl, -, -, -, -, -, ht⟩ | ⟨ht, -⟩
    · refine ⟨d, ?_, le_rfl⟩
      rw [ht, if_neg (by decide), Function.update_of_ne (lockPath_ne_sessionPath key),
        hkey.parentOf_sessionPath, t.bump_of_ne _ (lockPath_ne_parentNode key), hd]
    · exact hsame ht
  | set val version _ =>
    cases hans with
    | setOk hv hn hver =>
      exact ⟨d, by rw [Function.update_of_ne (lockPath_ne_sessionPath key), hd], le_rfl⟩
    | _ => exact hsame rfl

/-- The requests that may change what a node holds that is neither the lock directory nor in it. -/
theorem TurnReq.not_mayTouch (h : TurnReq session key t r) {q : CString} (hq : q ≠ lockPath key)
    (hchild : ∀ x, '/' ∉ x → q ≠ childOf (lockPath key) x) (hdata : q ≠ sessionPath key) :
    ¬ r.MayTouch q := by
  cases h with
  | read hr =>
    cases r with
    | zooCreate => cases hr
    | zooSet => cases hr
    | zooDelete => cases hr
    | _ => exact fun h => h
  | mkdir acl len => exact hq
  | ticket acl len =>
    rintro ⟨n, rfl⟩
    refine hchild (lockName session n) (ownName_lockName session n).2 ?_
    simp [childOf, lockName]
  | leave version hx => exact hchild _ hx.2
  | make val acl len _ => exact hdata
  | set val version _ => exact hdata

/-- **A request is a turn**, while the numbers are below 2³¹. -/
theorem Answers.turn (h : Answers session r t a t') (hr : TurnReq session key t r)
    (hkey : ShortKey key) (hbound : ∀ d, t' (lockPath key) = some d → d.cseq ≤ 2 ^ 31) :
    Turn session key t t' where
  queue q hq := hq.step h (hr.queueReq hkey) hbound
  next d hd := hr.next h hkey hd
  parent := by
    refine h.frame (hr.not_mayTouch (lockPath_ne_parentNode key).symm (fun x hx heq => ?_)
      (sessionPath_ne_parentNode key).symm)
    have hlen := congrArg List.length heq
    have := length_lockPath key
    rw [length_phpZkParentNode, childOf, List.length_append] at hlen
    omega
  data := by
    have hframe : ¬ r.MayTouch (sessionPath key) →
        t'.held (sessionPath key) = t.held (sessionPath key) := h.frame
    have hwrite : ∀ {r : Req}, r.Valid = validPath (sessionPath key) false →
        Answers session r t a t' → t.Serves (lockPath key) session →
        t'.held (sessionPath key) = t.held (sessionPath key) ∨
          t.Serves (lockPath key) session ∧ validPath (sessionPath key) false = true := by
      intro r hvalid hans hserves
      cases hv : validPath (sessionPath key) false with
      | true => exact .inr ⟨hserves, rfl⟩
      | false => exact .inl (by rw [(hans.of_not_valid (hvalid.trans hv)).2])
    cases hr with
    | read hr => exact .inl (by rw [h.of_isRead hr])
    | mkdir acl len => exact .inl (hframe (lockPath_ne_sessionPath key).symm)
    | ticket acl len => exact .inl (hframe (hkey.not_mayTouch_ticket session none acl len))
    | leave version hx => exact .inl (hframe (hkey.childOf_lockPath_ne hx.2).symm)
    | make val acl len hserves => exact hwrite rfl h hserves
    | set val version hserves => exact hwrite rfl h hserves

end Requests

/-! ### What a client has seen -/

/-- The client has seen the nodes `t`, and now they are `t'`: what was before its node in the queue
it has seen, its own nodes are those it has seen, and the data is that which it has seen if it was
served then. -/
structure Earlier (session : Sid) (key : CString) (t t' : Nodes) : Prop where
  before : ∀ q q', IsQueue t (lockPath key) q → IsQueue t' (lockPath key) q' →
    TicketQueue.Before session q q'
  own : ∀ x, OwnName session x →
    (t (childOf (lockPath key) x) ≠ none ↔ t' (childOf (lockPath key) x) ≠ none)
  next : ∀ d, t (lockPath key) = some d → ∃ d', t' (lockPath key) = some d' ∧ d.cseq ≤ d'.cseq
  data : t.Serves (lockPath key) session → t'.held (sessionPath key) = t.held (sessionPath key)

/-- The number in the name `x` has been used up. -/
def Issued (p : CString) (t : Nodes) (x : CString) : Prop :=
  ∃ s n d, x = lockName s n ∧ n < 2 ^ 31 ∧ t p = some d ∧ n < d.cseq

section Seen

variable {session a : Sid} {key x : CString} {p : CString} {t t' t'' : Nodes}
  {q q' : TicketQueue Sid}

/-- A client's node is its ticket. -/
theorem IsQueue.present_iff (hq : IsQueue t p q) (hx : OwnName session x) :
    t (childOf p x) ≠ none ↔ ∃ n, x = lockName session n ∧ (session, n) ∈ q.waiting := by
  constructor
  · intro hpresent
    obtain ⟨s, n, hn, rfl⟩ := hq.named x hx.2 hpresent
    obtain rfl := hx.unique (ownName_lockName s n)
    exact ⟨n, rfl, hq.mem_waiting.mpr ⟨hn, hpresent⟩⟩
  · rintro ⟨n, rfl, hn⟩
    exact (hq.mem_waiting.mp hn).2

/-- **At most one client is served.** -/
theorem Nodes.Serves.unique (h : t.Serves p session) (h' : t.Serves p a) : session = a := by
  obtain ⟨q, n, hq, hn⟩ := h
  obtain ⟨q', m, hq', hm⟩ := h'
  have hm' : q.Served a m :=
    ⟨hq.waiting_eq hq' ▸ hm.1, fun c k hk => hm.2 c k (hq.waiting_eq hq' ▸ hk)⟩
  exact (hn.unique hm').1

/-- The other clients' nodes stay. -/
theorem Turn.own_of_ne (h : Turn a key t t') (hq : IsQueue t (lockPath key) q) (hne : session ≠ a)
    (hx : OwnName session x) :
    t (childOf (lockPath key) x) ≠ none ↔ t' (childOf (lockPath key) x) ≠ none := by
  obtain ⟨q', hstep, hq'⟩ := h.queue q hq
  rw [hq.present_iff hx, hq'.present_iff hx]
  exact exists_congr fun n => and_congr_right fun _ => (hstep.mem_iff_of_ne hne).symm

/-- A client is served as long as its nodes stay. -/
theorem Nodes.Serves.turn (h : t.Serves (lockPath key) session) (hturn : Turn a key t t')
    (hkept : ∀ x, OwnName session x → t (childOf (lockPath key) x) ≠ none →
      t' (childOf (lockPath key) x) ≠ none) : t'.Serves (lockPath key) session := by
  obtain ⟨q, n, hq, hn⟩ := h
  obtain ⟨q', hstep, hq'⟩ := hturn.queue q hq
  obtain ⟨hlt, hpresent⟩ := hq.mem_waiting.mp hn.1
  exact ⟨q', n, hq', hstep.served hn (hq'.mem_waiting.mpr
    ⟨hlt, hkept _ (ownName_lockName session n) hpresent⟩)⟩

namespace Earlier

theorem refl (session : Sid) (key : CString) (t : Nodes) : Earlier session key t t where
  before _ _ hq hq' := TicketQueue.Before.of_waiting_eq (hq.waiting_eq hq')
  own _ _ := Iff.rfl
  next d hd := ⟨d, hd, le_rfl⟩
  data _ := rfl

/-- A client that was served still is. -/
theorem serves (h : Earlier session key t t') (hq' : IsQueue t' (lockPath key) q')
    (hserves : t.Serves (lockPath key) session) : t'.Serves (lockPath key) session := by
  obtain ⟨q, n, hq, hn⟩ := hserves
  obtain ⟨hlt, hpresent⟩ := hq.mem_waiting.mp hn.1
  have hpresent' := (h.own _ (ownName_lockName session n)).mp hpresent
  exact ⟨q', n, hq', (h.before q q' hq hq').served hn (hq'.mem_waiting.mpr ⟨hlt, hpresent'⟩)⟩

/-- Another client's turn. -/
theorem turn (h : Earlier session key t t') (hturn : Turn a key t' t'')
    (hq' : IsQueue t' (lockPath key) q') (hne : session ≠ a) : Earlier session key t t'' where
  before q q'' hq hq'' := by
    obtain ⟨q₁, hstep, hq₁⟩ := hturn.queue q' hq'
    have hbefore := (h.before q q' hq hq').step hstep hne
    intro n c m hn hn' hm
    rw [hq''.waiting_eq hq₁] at hn' hm
    exact hbefore n c m hn hn' hm
  own x hx := (h.own x hx).trans (hturn.own_of_ne hq' hne hx)
  next d hd := by
    obtain ⟨d', hd', hle⟩ := h.next d hd
    obtain ⟨d'', hd'', hle'⟩ := hturn.next d' hd'
    exact ⟨d'', hd'', hle.trans hle'⟩
  data hserves := by
    rcases hturn.data with hdata | ⟨hother, -⟩
    · exact hdata.trans (h.data hserves)
    · exact absurd ((h.serves hq' hserves).unique hother) hne

end Earlier

/-- A number that has been used up does not come back. -/
theorem HeldOk.turn (h : HeldOk session (lockPath key) t x) (hx : Issued (lockPath key) t x)
    (hturn : Turn a key t t') (hq : IsQueue t (lockPath key) q) :
    HeldOk session (lockPath key) t' x := by
  obtain ⟨q', hstep, hq'⟩ := hturn.queue q hq
  refine h.step hq hq' hstep fun hown hnone hpresent => ?_
  obtain ⟨n, hxn, hn⟩ := (hq'.present_iff hown).mp hpresent
  obtain ⟨s, m, d, hxm, hlt, hd, hm⟩ := hx
  obtain ⟨hn', -⟩ := hq'.mem_waiting.mp hn
  obtain rfl := lockName_inj hlt hn' (hxm.symm.trans hxn)
  have hle := hstep.next_le hn fun hold => (hq.present_iff hown).mpr ⟨m, hxn, hold⟩ hnone
  rw [← hq.next d hd] at hle
  exact absurd hle hm.not_ge

theorem Issued.turn (h : Issued (lockPath key) t x) (hturn : Turn a key t t') :
    Issued (lockPath key) t' x := by
  obtain ⟨s, n, d, hx, hlt, hd, hn⟩ := h
  obtain ⟨d', hd', hle⟩ := hturn.next d hd
  exact ⟨s, n, d', hx, hlt, hd', hn.trans_le hle⟩

/-- The first name of a listing: it is right in what the client sees from then on. -/
theorem Earlier.first (h : Earlier session key t t') (hq : IsQueue t (lockPath key) q)
    (hq' : IsQueue t' (lockPath key) q') {names rest : List CString}
    (hnames : ∀ y, y ∈ names ↔ '/' ∉ y ∧ t (childOf (lockPath key) y) ≠ none)
    (hfirst : sortChildren names = some (x :: rest)) :
    HeldOk session (lockPath key) t' x ∧ Issued (lockPath key) t' x := by
  refine ⟨heldOk_of_first hq hq' (h.before q q' hq hq') hnames hfirst, ?_⟩
  obtain ⟨s, n, hlt, rfl, hserved⟩ := hq.served_first hnames hfirst
  cases hd : t (lockPath key) with
  | none =>
    have hnone := hserved.1
    rw [hq.gone hd] at hnone
    cases hnone
  | some d =>
    obtain ⟨d', hd', hle⟩ := h.next d hd
    have hn := q.lt_next hserved.1
    rw [← hq.next d hd] at hn
    exact ⟨s, n, d', rfl, hlt, hd', hn.trans_le hle⟩

end Seen

end PhpZookeeper
