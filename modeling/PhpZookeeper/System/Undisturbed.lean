import PhpZookeeper.Lock.Returns
import PhpZookeeper.System.Confinement
import PhpZookeeper.System.Turns
import PhpZookeeper.System.Watches
import PhpZookeeper.Theory.Line
import PhpZookeeper.Theory.Sorting
import PhpZookeeper.Theory.Total

/-!
# Undisturbed calls

What a function of `zoo_lock.c` does when the service answers its requests and nobody else acts
until it returns: it comes back (`ComesTo`), `zkr_lock_lock` with the client's ticket taken and
whether it is the first (`comesTo_zkrLockLock`), `zkr_lock_unlock` with the ticket handed in
(`comesTo_zkrLockUnlock`). No watch is lost on the way (`World.Heard`).
-/

namespace PhpZookeeper

open Theory Prog Status

variable {srv : Server} {W : Type}

/-! ### Paths -/

theorem printable_of_mem_fixedDigits {b : ℕ} (hb : 0 < b) (hb' : b ≤ 16) {w n : ℕ} {c : Char}
    (hc : c ∈ fixedDigits b w n) : 0x1f ≤ c.toNat := by
  have hdigit : ∀ c ∈ "0123456789abcdef".toList, 0x1f ≤ c.toNat := by simp
  by_contra hlt
  exact notMem_fixedDigits hb hb' (fun hmem => hlt (hdigit c hmem)) w n hc

theorem printable_lockPrefix (session : Sid) : ∀ c ∈ lockPrefix session, 0x1f ≤ c.toNat := by
  intro c hc
  rw [lockPrefix_eq] at hc
  simp only [List.cons_append, List.nil_append, List.mem_cons, List.mem_append, List.not_mem_nil,
    or_false] at hc
  rcases hc with rfl | rfl | hc | rfl
  · decide
  · decide
  · exact printable_of_mem_fixedDigits (by decide) le_rfl hc
  · decide

theorem printable_lockName (session : Sid) {n : ℕ} (hn : n < 2 ^ 31) :
    ∀ c ∈ lockName session n, 0x1f ≤ c.toNat := by
  intro c hc
  rw [lockName, sprintf010d_of_lt hn, List.mem_append] at hc
  rcases hc with hc | hc
  · exact printable_lockPrefix session c hc
  · exact printable_of_mem_fixedDigits (by decide) (by decide) hc

/-- The paths of a client's nodes are accepted. -/
theorem validPath_childOf {p x : CString} {sequence : Bool} (hp : validPath p false = true)
    (hx : '/' ∉ x) (hlen : 2 < x.length) (hprint : ∀ c ∈ x, 0x1f ≤ c.toNat) :
    validPath (childOf p x) sequence = true := by
  cases p with
  | nil => cases hp
  | cons c s =>
    obtain rfl : c = '/' := by
      by_contra hc
      simp [validPath, hc] at hp
    simp only [validPath, Bool.false_eq_true, if_false, List.all_cons, Bool.and_eq_true] at hp
    obtain ⟨hcomp, hslash, hchars⟩ := hp
    obtain ⟨y, hy, hynot, hylen⟩ : ∃ y, (if sequence then (s ++ '/' :: x) ++ ['0']
        else s ++ '/' :: x) = s ++ '/' :: y ∧ '/' ∉ y ∧ 2 < y.length := by
      cases sequence with
      | false => exact ⟨x, rfl, hx, hlen⟩
      | true => exact ⟨x ++ ['0'], by simp, by simp [hx], by simp; omega⟩
    have hlast : (y ≠ [] && y ≠ ['.'] && y ≠ ['.', '.']) = true := by
      have hne : ∀ z : CString, z.length ≤ 2 → y ≠ z := by
        rintro z hz rfl
        omega
      simp [hne]
    simp only [validPath, childOf, List.cons_append, hy, components_append,
      components_of_notMem _ hynot, List.all_append, List.all_cons, List.all_nil, Bool.and_true,
      List.reverse_nil, List.nil_append, hlast, hcomp, hslash, hchars, Bool.true_and]
    simpa using hprint

theorem validPath_ticket {p : CString} (hp : validPath p false = true) (session : Sid) :
    validPath (childOf p (lockPrefix session)) true = true :=
  validPath_childOf hp (slash_notMem_lockPrefix session) (by rw [length_lockPrefix]; decide)
    (printable_lockPrefix session)

theorem validPath_place {p : CString} (hp : validPath p false = true) (session : Sid) {n : ℕ}
    (hn : n < 2 ^ 31) : validPath (childOf p (lockName session n)) false = true := by
  refine validPath_childOf hp (ownName_lockName session n).2 ?_ (printable_lockName session hn)
  rw [lockName, List.length_append, length_lockPrefix]
  omega

theorem lockName_eq_iff {e : Sid × ℕ} {session : Sid} {n : ℕ} (he : e.2 < 2 ^ 31)
    (hn : n < 2 ^ 31) : lockName e.1 e.2 = lockName session n ↔ e = (session, n) := by
  constructor
  · intro hname
    have hown : OwnName session (lockName e.1 e.2) := by
      rw [hname]
      exact ownName_lockName session n
    have hsession : e.1 = session := (ownName_lockName e.1 e.2).unique hown
    have hnumber : e.2 = n := lockName_inj he hn hname
    rw [← hsession, ← hnumber]
  · rintro rfl
    rfl

/-! ### The directory -/

/-- The names of the nodes of the tickets. -/
def ticketNames (l : List (Sid × ℕ)) : List CString := l.map fun e => lockName e.1 e.2

/-- `l` lists the tickets of the directory `p`, which is there or can be made; nothing is below the
clients' nodes. -/
structure LockDir (p : CString) (t : Nodes) (l : List (Sid × ℕ)) : Prop where
  queue : ∃ q, IsQueue t p q ∧ q.Lists l
  leaf : ∀ x, '/' ∉ x → ¬ t.HasChild (childOf p x)
  directory : ∀ d, t p = some d → d.ephemeralOwner = none
  parent : t p = none → t.IsDirectory (parentOf p)

namespace LockDir

variable {p : CString} {t t' : Nodes} {l : List (Sid × ℕ)} {session : Sid} {n : ℕ} {b : Reply}

/-- The tickets are the clients' nodes. -/
theorem mem_iff (h : LockDir p t l) :
    (session, n) ∈ l ↔ n < 2 ^ 31 ∧ t (childOf p (lockName session n)) ≠ none := by
  obtain ⟨q, hq, hl⟩ := h.queue
  rw [hl.mem, hq.mem_waiting]

theorem present_iff (h : LockDir p t l) {x : CString} (hx : OwnName session x) :
    t (childOf p x) ≠ none ↔ ∃ n, x = lockName session n ∧ (session, n) ∈ l := by
  obtain ⟨q, hq, hl⟩ := h.queue
  simp only [hq.present_iff hx, hl.mem]

/-- The names of the children, sorted, are those of the tickets. -/
theorem sortChildren_eq (h : LockDir p t l) {names : List CString} (hnodup : names.Nodup)
    (hnames : ∀ x, x ∈ names ↔ '/' ∉ x ∧ t (childOf p x) ≠ none) :
    sortChildren names = some (ticketNames l) := by
  obtain ⟨q, hq, hl⟩ := h.queue
  have hlt : ∀ e ∈ l, e.2 < 2 ^ 31 := fun e he => (h.mem_iff.mp (show (e.1, e.2) ∈ l from he)).1
  have hnames' : ∀ x, x ∈ names ↔ x ∈ ticketNames l := by
    intro x
    rw [hnames, ticketNames, List.mem_map]
    constructor
    · rintro ⟨hx, hpresent⟩
      obtain ⟨c, m, hm, rfl⟩ := hq.named x hx hpresent
      exact ⟨(c, m), h.mem_iff.mpr ⟨hm, hpresent⟩, rfl⟩
    · rintro ⟨e, he, rfl⟩
      have hown := ownName_lockName e.1 e.2
      exact ⟨hown.2, (h.present_iff hown).mpr ⟨e.2, rfl, he⟩⟩
  have hticketNodup : (ticketNames l).Nodup := by
    refine List.pairwise_map.mpr (hl.sorted.imp_of_mem fun {a b} ha hb hab hname => ?_)
    exact hab.ne (lockName_inj (hlt a ha) (hlt b hb) hname)
  -- the names are listed in some other order of the tickets
  have hcomp : Relation.Comp (· = List.map (fun e : Sid × ℕ => lockName e.1 e.2) ·) List.Perm
      names l := by
    rw [List.eq_map_comp_perm]
    exact (List.perm_ext_iff_of_nodup hnodup hticketNodup).mpr hnames'
  obtain ⟨m, rfl, hm⟩ := hcomp
  rw [sortChildren_map fun a ha b hb =>
    vstrcmp_lockName (hlt a (hm.subset ha)) (hlt b (hm.subset hb))]
  have hsorted := sortedBy_insertionSort Prod.snd m
  have hsame := SortedBy.eq_of_lt ⟨hsorted.perm.trans hm, hsorted.pairwise⟩ hl.sorted
  exact congrArg (fun l => some (List.map _ l)) hsame

/-- A directory that is not there is made. -/
theorem mkdir (h : LockDir p t l) (hp : validPath p false = true) (hnone : t p = none) {acl : Acl}
    {len : ℕ} (hans : Answers session (.zooCreate p none (some acl) {} len) t b t')
    (hbound : ∀ d, t' p = some d → d.cseq ≤ 2 ^ 31) :
    b.rc = ZOK ∧ LockDir p t' l ∧ t'.IsDirectory p := by
  obtain ⟨d, hd, howner⟩ := h.parent hnone
  rcases hans.zooCreate with
    ⟨d', n, path, k, hrc, -, hd', -, hpath, -, -, hown, -, -, ht⟩ | ⟨-, -, hv | hacl | hdir | hex⟩
  · rw [if_neg (by decide)] at hpath
    subst path
    obtain ⟨q, hq, hl⟩ := h.queue
    have hparent : parentOf p ≠ p := by
      intro hpp
      rw [hpp, hnone] at hd
      cases hd
    obtain ⟨q', hstep, hq'⟩ := hq.step hans (.inr ⟨hparent, rfl⟩) hbound
    have hchild : ∀ x, t' (childOf p x) ≠ none ↔ t (childOf p x) ≠ none := by
      intro x
      rw [ht, Function.update_of_ne (childOf_ne_self _ _), Nodes.bump_ne_none]
    have hself : t' p = some n := by rw [ht, Function.update_self]
    refine ⟨hrc, ⟨⟨q', hq', hl.congr ?_⟩, ?_, ?_, ?_⟩, n, hself, hown⟩
    · rw [hq'.waiting, hq.waiting]
      ext x
      exact and_congr_right fun _ => hchild _
    · rintro x hx ⟨y, hy, hy'⟩
      refine h.leaf x hx ⟨y, hy, ?_⟩
      rw [show childOf (childOf p x) y = childOf p (x ++ '/' :: y) by simp [childOf]] at hy' ⊢
      exact (hchild _).mp hy'
    · intro d'' hd''
      rw [hself, Option.some.injEq] at hd''
      rw [← hd'']
      exact hown
    · intro hp'
      rw [hself] at hp'
      cases hp'
  · rw [hp] at hv
    cases hv
  · cases hacl
  · exact absurd ⟨d, hd, howner⟩ hdir
  · obtain ⟨d', k, -, hex⟩ := hex
    exact absurd hnone hex

/-- A client without a ticket takes one. -/
theorem take (h : LockDir p t l) (hp : validPath p false = true) (hdir : t.IsDirectory p)
    (hnot : ∀ n, (session, n) ∉ l) {acl : Acl} {len : ℕ}
    (hans : Answers session (.zooCreate (childOf p (lockPrefix session)) none (some acl)
      { ephemeral := true, sequence := true } len) t b t')
    (hbound : ∀ d, t' p = some d → d.cseq ≤ 2 ^ 31) :
    ∃ n, b.rc = ZOK ∧ b.realPath = childOf p (lockPrefix session) ++ sprintf010d n ∧
      LockDir p t' (l ++ [(session, n)]) ∧ t'.IsDirectory p := by
  have hparent := parentOf_childOf p (slash_notMem_lockPrefix session)
  have hname : ∀ n, childOf p (lockPrefix session) ++ sprintf010d n =
      childOf p (lockName session n) := fun n => by simp [childOf, lockName]
  obtain ⟨q, hq, hl⟩ := h.queue
  rcases hans.zooCreate with
    ⟨d, v, path, k, hrc, hreal, hd, howner, hpath, -, -, -, -, -, ht⟩ |
    ⟨-, -, hv | hacl | hnodir | hex⟩
  · rw [if_pos rfl, hname] at hpath
    rw [hparent] at hd ht
    subst hpath
    have hself : t' p = some { d with cseq := d.cseq + (k + 1) } := by
      rw [ht, Function.update_of_ne (childOf_ne_self _ _).symm, Nodes.bump_self _ hd]
    have hlt : d.cseq + k < 2 ^ 31 := by
      have hle : d.cseq + (k + 1) ≤ 2 ^ 31 := hbound _ hself
      omega
    obtain ⟨q', hstep, hq'⟩ := hq.step hans (.inl ⟨rfl, rfl⟩) hbound
    have hnew : (session, d.cseq + k) ∈ q'.waiting := by
      refine hq'.mem_waiting.mpr ⟨hlt, ?_⟩
      rw [ht, Function.update_self]
      simp
    have hold : (session, d.cseq + k) ∉ q.waiting := fun hmem => hnot _ ((hl.mem _).mpr hmem)
    refine ⟨d.cseq + k, hrc, by rw [hreal, hname], ⟨⟨q', hq', hl.take hstep hnew hold⟩, ?_, ?_, ?_⟩,
      _, hself, howner⟩
    · rintro x hx ⟨y, hy, hy'⟩
      refine h.leaf x hx ⟨y, hy, ?_⟩
      rw [ht, Function.update_of_ne, Nodes.bump_ne_none] at hy'
      · exact hy'
      · intro heq
        exact childOf_ne_self p x ((childOf_inj hy (ownName_lockName session _).2).mp heq).1
    · intro d' hd'
      rw [hself, Option.some.injEq] at hd'
      rw [← hd']
      exact howner
    · intro hnone
      rw [hself] at hnone
      cases hnone
  · rw [validPath_ticket hp session] at hv
    cases hv
  · cases hacl
  · rw [hparent] at hnodir
    exact absurd hdir hnodir
  -- a node of this name would be a ticket of the client
  · obtain ⟨d, k, hd, hpresent⟩ := hex
    rw [if_pos rfl, hname] at hpresent
    obtain ⟨n, -, hn⟩ := (h.present_iff (ownName_lockName session _)).mp hpresent
    exact absurd hn (hnot n)

/-- A ticket is handed in. -/
theorem leave (h : LockDir p t l) (hp : validPath p false = true) (hn : (session, n) ∈ l)
    (hans : Answers session (.zooDelete (childOf p (lockName session n)) (-1)) t b t')
    (hbound : ∀ d, t' p = some d → d.cseq ≤ 2 ^ 31) :
    b.rc = ZOK ∧ LockDir p t' (l.filter (· ≠ (session, n))) := by
  have hown := ownName_lockName session n
  obtain ⟨hlt, hpresent⟩ := h.mem_iff.mp hn
  obtain ⟨q, hq, hl⟩ := h.queue
  rcases hans.zooDelete with ⟨v, k, hv, -, -, hrc, ht⟩ | ⟨-, ⟨hv, -⟩ | ⟨hv, -⟩ | ⟨hv, -⟩⟩
  · rw [parentOf_childOf p hown.2] at ht
    obtain ⟨q', hstep, hq'⟩ := hq.step hans (.inl ⟨_, rfl, hown⟩) hbound
    have hgone : (session, n) ∉ q'.waiting := fun hmem => by
      refine (hq'.mem_waiting.mp hmem).2 ?_
      rw [ht, Function.update_self]
    have hself : t' p = t.bump p k p := by
      rw [ht, Function.update_of_ne (childOf_ne_self _ _).symm]
    refine ⟨hrc, ⟨q', hq', hl.leave hstep ((hl.mem _).mp hn) hgone⟩, ?_, ?_, ?_⟩
    · rintro x hx ⟨y, hy, hy'⟩
      refine h.leaf x hx ⟨y, hy, ?_⟩
      rw [ht, Function.update_of_ne, Nodes.bump_ne_none] at hy'
      · exact hy'
      · intro heq
        exact childOf_ne_self p x ((childOf_inj hy hown.2).mp heq).1
    · intro d' hd'
      rw [hself] at hd'
      obtain ⟨d, hd, rfl⟩ := Option.map_eq_some_iff.mp
        (show (t p).map (fun n => { n with cseq := n.cseq + k }) = some d' by
          rw [← hd', Nodes.bump, Function.update_self])
      exact h.directory d hd
    · intro hnone
      have hpnone : t p = none :=
        not_not.mp fun hne => (t.bump_ne_none p k p).mpr hne (hself ▸ hnone)
      have hempty := hq.gone hpnone
      have hmem := (hl.mem _).mp hn
      rw [hempty] at hmem
      cases hmem
  · rw [validPath_place hp session hlt] at hv
    cases hv
  · exact absurd hv hpresent
  · exact absurd hv (h.leaf _ hown.2)

end LockDir

/-! ### Watches -/

/-- A notification for the client is to come, or the client watches the node. -/
def World.Alert (s : World srv W) (w : W) (x : Option CString) : Prop :=
  0 < s.events w ∨ ∃ q ∈ x, q ∈ s.watches w

/-- Nobody misses what it was to hear of. -/
def World.Heard (s s' : World srv W) : Prop := ∀ v x, s.Alert v x → s'.Alert v x

theorem World.Heard.refl (s : World srv W) : s.Heard s := fun _ _ h => h

theorem World.Heard.trans {s s' s'' : World srv W} (h : s.Heard s') (h' : s'.Heard s'') :
    s.Heard s'' := fun v x hx => h' v x (h v x hx)

theorem World.Heard.congr {s s' : World srv W} (hw : s'.watches = s.watches)
    (he : s'.events = s.events) : s.Heard s' := by
  intro v x h
  rw [Alert, hw, he]
  exact h

/-- When the watches on a node fire, those who watch it are notified. -/
theorem World.Alert.events_fire {s : World srv W} {v : W} {q : CString} (h : s.Alert v (some q)) :
    0 < (s.fire (some q)).events v := by
  simp only [World.fire]
  rcases h with he | ⟨y, hy, hmem⟩
  · split_ifs <;> omega
  · obtain rfl := Option.some.inj hy
    rw [if_pos hmem]
    omega

theorem World.heard_fire (s : World srv W) (q : Option CString) : s.Heard (s.fire q) := by
  cases q with
  | none => exact .refl s
  | some q =>
    rintro v x (he | ⟨y, hy, hmem⟩)
    · refine .inl ?_
      simp only [fire]
      split_ifs <;> omega
    · by_cases hyq : y = q
      · subst hyq
        exact .inl (World.Alert.events_fire (.inr ⟨y, rfl, hmem⟩))
      · exact .inr ⟨y, hy, List.mem_filter.mpr ⟨hmem, by simpa using hyq⟩⟩

/-! ### Undisturbed calls -/

section Calls

variable [DecidableEq W]

/-- **No operation loses a watch.** -/
theorem World.heard_perform {s s' : World srv W} {w : W} {sid : Sid} {th : Thread}
    {d : Decision srv} {o : Op} {r : o.Res} (h : s.perform w sid th d o = some (r, s')) :
    s.Heard s' := by
  rcases World.perform_watches h with ⟨q, hw, he⟩ | ⟨q, -, hw, he⟩
  · exact (s.heard_fire q).trans (.congr hw he)
  · rintro v x (hev | ⟨y, hy, hmem⟩)
    · exact .inl (he ▸ hev)
    · refine .inr ⟨y, hy, ?_⟩
      rw [hw]
      by_cases hv : v = w
      · subst hv
        rw [Function.update_self]
        exact List.mem_cons_of_mem _ hmem
      · rwa [Function.update_of_ne hv]

theorem World.mem_watches_watch (s : World srv W) (w : W) (q : CString) {a : Reply}
    (ha : a.rc = ZOK) : q ∈ (s.watch w (.zooWexists q) a).watches w := by
  simp only [watch]
  by_cases hmem : q ∈ s.watches w
  · rwa [if_neg fun hnot => hnot.2 hmem]
  · rw [if_pos ⟨.inl ha, hmem⟩]
    simp

/-- A node that is found is watched. -/
theorem World.alert_of_wexists {s s' : World srv W} {w : W} {sid : Sid} {th : Thread}
    {c : srv.Choice} {q : CString} {a : Reply}
    (h : s.perform w sid th { choice := c } (.zoo (.zooWexists q)) = some (a, s'))
    (ha : a.rc = ZOK) : s'.Alert w (some q) := by
  obtain ⟨rfl, rfl⟩ := Prod.mk.inj (Option.some.inj h)
  exact .inr ⟨q, rfl, World.mem_watches_watch _ w q ha⟩

/-- When a node is deleted, those who watch it are notified. -/
theorem World.events_of_delete {s s' : World srv W} {w v : W} {sid : Sid} {th : Thread}
    {c : srv.Choice} {q : CString} {version : ℤ} {a : Reply}
    (h : s.perform w sid th { choice := c } (.zoo (.zooDelete q version)) = some (a, s'))
    (ha : a.rc = ZOK) (hq : s.Alert v (some q)) : 0 < s'.events v := by
  obtain ⟨rfl, rfl⟩ := Prod.mk.inj (Option.some.inj h)
  have htouched : (Req.zooDelete q version).touched
      (srv.serve c sid (.zooDelete q version) s.tree).1 = some q := if_pos ha
  show 0 < (s.applied w _ _).events v
  simp only [applied]
  rw [htouched]
  exact World.Alert.events_fire hq

/-- An operation of a thread that the service answers, while nobody else acts and the numbers are
below 2³¹. -/
def undisturbed (sid : W → Sid) (p : CString) (w : W) (th : Thread) (o : Op) (s : World srv W)
    (r : o.Res) (s' : World srv W) : Prop :=
  (∃ c, s.perform w (sid w) th { choice := c } o = some (r, s')) ∧
    ∀ d, s'.nodes p = some d → d.cseq ≤ 2 ^ 31

/-- The operation can be performed. -/
def canPerform (sid : W → Sid) (w : W) (th : Thread) (o : Op) (s : World srv W) : Prop :=
  ∃ c r s', s.perform w (sid w) th { choice := c } o = some (r, s')

theorem undisturbed.heard {sid : W → Sid} {p : CString} {w : W} {th : Thread} {o : Op}
    {s s' : World srv W} {r : o.Res} (h : undisturbed sid p w th o s r s') : s.Heard s' := by
  obtain ⟨⟨c, hperf⟩, -⟩ := h
  exact World.heard_perform hperf

/-- The call comes back, whatever the service decides, and ends in `Q`. -/
abbrev ComesTo (sid : W → Sid) (p : CString) (w : W) (th : Thread) {α : Type} (code : Code α)
    (s : World srv W) (Q : α → World srv W → Prop) : Prop :=
  Total (canPerform sid w th) (undisturbed sid p w th) code s Q

section Rules

variable {α : Type} {sid : W → Sid} {p : CString} {w : W} {th : Thread} {s : World srv W}
  {Q : α → World srv W → Prop}

/-- A request is answered. -/
theorem comesTo_zoo {r : Req} {k : Reply → Code α}
    (h : ∀ b s', s'.memory = s.memory → Answers (sid w) r s.nodes b s'.nodes →
      undisturbed sid p w th (.zoo r) s (b.received r) s' →
      ComesTo sid p w th (k (b.received r)) s' Q) : ComesTo sid p w th (.op (.zoo r) k) s Q := by
  obtain ⟨c⟩ := srv.answers
  refine .op ⟨c, _, _, rfl⟩ ?_
  rintro a s' ⟨⟨c, hperf⟩, hbound⟩
  have hstep : undisturbed sid p w th (.zoo r) s a s' := ⟨⟨c, hperf⟩, hbound⟩
  obtain ⟨b, t, hans, hmem, hres⟩ := s.request_spec w (sid w) (d := { choice := c }) rfl r
  simp only [World.perform, Option.some.injEq] at hperf
  rw [hperf] at hmem hres
  obtain ⟨rfl, rfl⟩ := hres
  exact h b s' hmem hans hstep

/-- An operation on the worker's own record, or of no effect. -/
theorem comesTo_inside {o : Op} {k : o.Res → Code α} {r : o.Res} {s₁ : World srv W}
    (hperf : ∀ c, s.perform w (sid w) th { choice := c } o = some (r, s₁))
    (h : ComesTo sid p w th (k r) s₁ Q) : ComesTo sid p w th (.op o k) s Q := by
  obtain ⟨c⟩ := srv.answers
  refine .op ⟨c, r, s₁, hperf c⟩ ?_
  rintro r' s' ⟨⟨c', hperf'⟩, -⟩
  rw [hperf c'] at hperf'
  obtain ⟨rfl, rfl⟩ := Prod.mk.inj (Option.some.inj hperf')
  exact h

theorem comesTo_load {k : PhpZookeeperSession → Code α}
    (h : ComesTo sid p w th (k (s.memory w)) s Q) : ComesTo sid p w th (.op .load k) s Q :=
  comesTo_inside (fun _ => rfl) h

theorem comesTo_store {v : Assign} {k : Unit → Code α}
    (h : ComesTo sid p w th (k ()) (s.modify w v.apply) Q) :
    ComesTo sid p w th (.op (.store v) k) s Q :=
  comesTo_inside (fun _ => rfl) h

/-- A request with retries is made once. -/
theorem comesTo_retryRequest {q : CString} {r : CString → Req} {n : ℕ} (hn : 0 < n)
    {Q : Reply → World srv W → Prop}
    (h : ∀ b s', s'.memory = s.memory → Answers (sid w) (r q) s.nodes b s'.nodes →
      undisturbed sid p w th (.zoo (r q)) s (b.received (r q)) s' → Q (b.received (r q)) s') :
    ComesTo sid p w th (retryRequest (some q) r n) s Q := by
  refine Total.bind (M := fun x s' => Q x.1 s') (.whileLoop_once (by simpa using hn) ?_)
    fun x s' hx => .ret hx
  refine comesTo_zoo fun b s' hmem hans hstep => ?_
  have hrc : (b.received (r q)).rc ≠ ZCONNECTIONLOSS := by simpa using hans.rc_ne_failure
  simp only [bind_eq, ret_bind, if_neg hrc]
  exact .ret ⟨by simp [hans.rc_ne_failure], h b s' hmem hans hstep⟩

/-- A listing of a directory that is there. -/
theorem comesTo_listing (hp : validPath p false = true) (hdir : s.nodes.IsDirectory p)
    {Q : Reply → World srv W → Prop}
    (h : ∀ a s', s'.memory = s.memory → s'.nodes = s.nodes → s.Heard s' → a.rc = ZOK →
      a.strings.Nodup → (∀ x, x ∈ a.strings ↔ '/' ∉ x ∧ s.nodes (childOf p x) ≠ none) → Q a s') :
    ComesTo sid p w th (retryGetchildren (some p) 3) s Q := by
  refine comesTo_retryRequest (by decide) fun b s' hmem hans hstep => ?_
  obtain ⟨hnodes, ⟨hv, -⟩ | ⟨hnone, -⟩ | ⟨hrc, hnodup, hnames⟩⟩ := hans.zooGetChildren
  · rw [hp] at hv
    cases hv
  · obtain ⟨d, hd, -⟩ := hdir
    rw [hnone] at hd
    cases hd
  · exact h _ s' hmem hnodes hstep.heard hrc hnodup hnames

end Rules

/-! ### The functions of the lock -/

/-- The lock in the record is that of the directory `p`. -/
structure LockOf (p : CString) (th : Option Thread) (m : PhpZookeeperSession) : Prop where
  path : m.lock.path = some p
  acl : m.lock.acl = some .zooOpenAclUnsafe
  pmutex : m.lock.pmutex = th

/-- What holds during a call of the client `w`, that began in `s₀`: it holds its mutex, `l` lists
the tickets, the others' records are as they were, and nobody misses anything. -/
structure During (p : CString) (w : W) (th : Thread) (s₀ : World srv W) (l : List (Sid × ℕ))
    (s : World srv W) : Prop where
  others : ∀ v, v ≠ w → s.memory v = s₀.memory v
  record : LockOf p (some th) (s.memory w)
  dir : LockDir p s.nodes l
  heard : s₀.Heard s

section Functions

variable {sid : W → Sid} {p : CString} {w : W} {th : Thread} {s s₀ s' : World srv W}
  {l : List (Sid × ℕ)} {n : ℕ}

omit [DecidableEq W] in
theorem During.congr (h : During p w th s₀ l s) (hmem : s'.memory = s.memory)
    (hnodes : s'.nodes = s.nodes) (hheard : s.Heard s') : During p w th s₀ l s' where
  others v hv := by rw [hmem, h.others v hv]
  record := hmem ▸ h.record
  dir := hnodes ▸ h.dir
  heard := h.heard.trans hheard

/-- An assignment that leaves the lock in the record. -/
theorem During.modify (h : During p w th s₀ l s) {f : PhpZookeeperSession → PhpZookeeperSession}
    (hf : LockOf p (some th) (f (s.memory w))) : During p w th s₀ l (s.modify w f) where
  others v hv := by rw [World.memory_modify, Function.update_of_ne hv, h.others v hv]
  record := by rwa [World.memory_modify, Function.update_self]
  dir := h.dir
  heard := h.heard.trans (.congr rfl rfl)

/-- A client whose mutex is free takes it. -/
theorem LockOf.perform_lock (h : LockOf p none (s.memory w)) (sid : W → Sid) (th : Thread)
    (c : srv.Choice) : s.perform w (sid w) th { choice := c } .pthreadMutexLock =
      some ((), s.modify w (Op.effect th .pthreadMutexLock)) :=
  if_pos h.pmutex

/-- A call begins. -/
theorem During.begin (hdir : LockDir p s.nodes l) (h : LockOf p none (s.memory w)) :
    During p w th s l (s.modify w (Op.effect th .pthreadMutexLock)) where
  others v hv := by rw [World.memory_modify, Function.update_of_ne hv]
  record := by
    rw [World.memory_modify, Function.update_self]
    exact ⟨h.path, h.acl, rfl⟩
  dir := hdir
  heard := .congr rfl rfl

/-- The directory is there, or is made. -/
theorem comesTo_makeDirectory (hp : validPath p false = true) (h : During p w th s₀ l s) :
    ComesTo sid p w th (makeDirectory (some p)) s fun _ s' =>
      During p w th s₀ l s' ∧ s'.nodes.IsDirectory p := by
  refine comesTo_zoo fun b s₁ hmem hans hstep => ?_
  obtain ⟨hnodes, ⟨hv, -⟩ | ⟨hnone, hrc⟩ | ⟨d, hd, -, hrc, -⟩⟩ := hans.zooExists
  · rw [hp] at hv
    cases hv
  · have h₁ := h.congr hmem hnodes hstep.heard
    simp only [bind_eq, ret_bind, Reply.received_rc, hrc]
    refine Total.bind (M := fun _ s' => During p w th s₀ l s' ∧ s'.nodes.IsDirectory p)
      (.whileLoop_once (by decide) ?_) fun _ s' hs' => .ret hs'
    refine comesTo_load ?_
    simp only [ret_bind, h₁.record.acl]
    refine comesTo_zoo fun b' s₂ hmem' hans' hstep' => ?_
    obtain ⟨hok, hdir, hdirectory⟩ := h₁.dir.mkdir hp (hnodes ▸ hnone) hans' hstep'.2
    refine comesTo_inside (fun _ => rfl)
      (.ret ⟨by simp [hok], ⟨?_, ?_, hdir, h₁.heard.trans hstep'.heard⟩, hdirectory⟩)
    · exact fun v hv => by rw [hmem', h₁.others v hv]
    · exact hmem' ▸ h₁.record
  · simp only [bind_eq, ret_bind, Reply.received_rc, hrc]
    refine Total.bind (M := fun _ s' => During p w th s₀ l s' ∧ s'.nodes.IsDirectory p)
      (.whileLoop_skip (by decide)
        ⟨h.congr hmem hnodes hstep.heard, d, ?_, h.dir.directory d hd⟩) fun _ s' hs' => .ret hs'
    rw [hnodes, hd]

/-- The tickets after the client has looked for its own: it has found the number `n`, or taken
it. -/
def Joins (session : Sid) (l : List (Sid × ℕ)) (n : ℕ) (l' : List (Sid × ℕ)) : Prop :=
  (session, n) ∈ l ∧ l' = l ∨ (∀ m, (session, m) ∉ l) ∧ l' = l ++ [(session, n)]

theorem Joins.mem {session : Sid} {l' : List (Sid × ℕ)} (h : Joins session l n l') :
    (session, n) ∈ l' := by
  rcases h with ⟨hmem, rfl⟩ | ⟨-, rfl⟩
  · exact hmem
  · simp

/-- The client has the ticket `n`, and knows it. -/
structure Waits (sid : W → Sid) (p : CString) (w : W) (th : Thread) (s₀ : World srv W)
    (l : List (Sid × ℕ)) (n : ℕ) (s : World srv W) : Prop extends During p w th s₀ l s where
  id : (s.memory w).lock.id = some (lockName (sid w) n)
  directory : s.nodes.IsDirectory p

/-- The client's node is found in the list, or made. -/
theorem comesTo_lookupOrCreate (hp : validPath p false = true) (h : During p w th s₀ l s)
    (hdir : s.nodes.IsDirectory p) {names : List CString}
    (hnames : ∀ x, x ∈ names ↔ '/' ∉ x ∧ s.nodes (childOf p x) ≠ none) :
    ComesTo sid p w th (lookupOrCreate (sid w) (some p) names) s fun ret s' =>
      ret = ZOK ∧ ∃ n l', Joins (sid w) l n l' ∧ Waits sid p w th s₀ l' n s' := by
  refine comesTo_store (comesTo_load ?_)
  have h₁ : During p w th s₀ l
      (s.modify w (Assign.lockId (lookupnode names (lockPrefix (sid w)))).apply) :=
    h.modify ⟨h.record.path, h.record.acl, h.record.pmutex⟩
  have hid : ((s.modify w (Assign.lockId (lookupnode names (lockPrefix (sid w)))).apply).memory
      w).lock.id = lookupnode names (lockPrefix (sid w)) := by
    simp [Assign.apply]
  have hnodes : (s.modify w (Assign.lockId (lookupnode names (lockPrefix (sid w)))).apply).nodes =
      s.nodes := rfl
  generalize s.modify w (Assign.lockId (lookupnode names (lockPrefix (sid w)))).apply = s₁
    at h₁ hid hnodes ⊢
  rw [← hnodes] at hdir hnames
  simp only [ret_bind, hid]
  cases hfound : lookupnode names (lockPrefix (sid w)) with
  | some x =>
    obtain ⟨hmem, hown⟩ := ownName_of_lookupnode hfound fun y hy => ((hnames y).mp hy).1
    obtain ⟨n, rfl, hn⟩ := (h₁.dir.present_iff hown).mp ((hnames x).mp hmem).2
    exact .ret ⟨rfl, n, l, .inl ⟨hn, rfl⟩, h₁, by rw [hid, hfound], hdir⟩
  | none =>
    have hnot : ∀ n, (sid w, n) ∉ l := by
      intro n hn
      have hown := ownName_lockName (sid w) n
      refine lookupnode_ne_none ((hnames _).mpr ⟨hown.2, ?_⟩) hown hfound
      exact (h₁.dir.present_iff hown).mpr ⟨n, rfl, hn⟩
    simp only [Option.isSome_none, Bool.false_eq_true, if_false]
    rw [createNode_some]
    refine comesTo_load ?_
    simp only [ret_bind, h₁.record.acl]
    refine comesTo_zoo fun b s₂ hmem hans hstep => ?_
    obtain ⟨n, hok, hreal, hdir₂, hdirectory⟩ := h₁.dir.take hp hdir hnot hans hstep.2
    simp only [bind_eq, ret_bind, Reply.received_rc, hok, ne_eq, not_true, if_false]
    have h₂ : During p w th s₀ (l ++ [(sid w, n)]) s₂ :=
      ⟨fun v hv => by rw [hmem, h₁.others v hv], hmem ▸ h₁.record, hdir₂,
        h₁.heard.trans hstep.heard⟩
    refine comesTo_store (.ret ⟨rfl, n, _, .inr ⟨hnot, rfl⟩, h₂.modify
      ⟨h₂.record.path, h₂.record.acl, h₂.record.pmutex⟩, ?_, hdirectory⟩)
    rw [World.memory_modify, Function.update_self]
    simp only [Assign.apply, Reply.received, hreal]
    exact getName_enqueued (sid w) p n

omit [DecidableEq W] in
theorem Waits.congr (h : Waits sid p w th s₀ l n s) (hmem : s'.memory = s.memory)
    (hnodes : s'.nodes = s.nodes) (hheard : s.Heard s') : Waits sid p w th s₀ l n s' :=
  ⟨h.toDuring.congr hmem hnodes hheard, hmem ▸ h.id, hnodes ▸ h.directory⟩

theorem Waits.modify (h : Waits sid p w th s₀ l n s)
    {f : PhpZookeeperSession → PhpZookeeperSession} (hf : LockOf p (some th) (f (s.memory w)))
    (hid : (f (s.memory w)).lock.id = (s.memory w).lock.id) :
    Waits sid p w th s₀ l n (s.modify w f) := by
  refine ⟨h.toDuring.modify hf, ?_, h.directory⟩
  rw [World.memory_modify, Function.update_self, hid, h.id]

/-- The client has found its place: it has seen whose ticket is the first. -/
structure Placed (sid : W → Sid) (p : CString) (w : W) (th : Thread) (s₀ : World srv W)
    (l : List (Sid × ℕ)) (n : ℕ) (s : World srv W) : Prop
    extends Waits sid p w th s₀ l n s where
  first : ∃ e, l.head? = some e ∧ (s.memory w).lock.ownerid = some (lockName e.1 e.2)

theorem Placed.modify (h : Placed sid p w th s₀ l n s)
    {f : PhpZookeeperSession → PhpZookeeperSession} (hf : LockOf p (some th) (f (s.memory w)))
    (hid : (f (s.memory w)).lock.id = (s.memory w).lock.id)
    (howner : (f (s.memory w)).lock.ownerid = (s.memory w).lock.ownerid) :
    Placed sid p w th s₀ l n (s.modify w f) := by
  obtain ⟨e, he, hfirst⟩ := h.first
  exact ⟨h.toWaits.modify hf hid, e, he,
    by rw [World.memory_modify, Function.update_self, howner, hfirst]⟩

/-- The node that `child_floor` finds is watched. -/
def Behind (sid : W → Sid) (p : CString) (w : W) (l : List (Sid × ℕ)) (n : ℕ) (s : World srv W) :
    Prop :=
  ∀ x, childFloor (ticketNames l) (lockName (sid w) n) = some x → s.Alert w (some (childOf p x))

omit [DecidableEq W] in
theorem Behind.heard (h : Behind sid p w l n s) (hheard : s.Heard s') : Behind sid p w l n s' :=
  fun x hx => hheard _ _ (h x hx)

/-- The client watches the node before its own, when there is one. -/
theorem comesTo_takePlace (hp : validPath p false = true) (h : Placed sid p w th s₀ l n s)
    {ownerId : CString} : ComesTo sid p w th (takePlace (ticketNames l) ownerId) s fun ret s' =>
      ret = ZOK ∧ Placed sid p w th s₀ l n s' ∧ Behind sid p w l n s' := by
  have hmodify : ∀ {s₁ : World srv W} b, Placed sid p w th s₀ l n s₁ →
      Placed sid p w th s₀ l n (s₁.modify w (Assign.lockIsOwner b).apply) := fun b h₁ =>
    h₁.modify ⟨h₁.record.path, h₁.record.acl, h₁.record.pmutex⟩ rfl rfl
  refine comesTo_load ?_
  simp only [ret_bind, h.id]
  cases hfloor : childFloor (ticketNames l) (lockName (sid w) n) with
  | some x =>
    obtain ⟨e, he, rfl⟩ := List.mem_map.mp (mem_of_childFloor hfloor)
    obtain ⟨hlt, hpresent⟩ := h.dir.mem_iff.mp (show (e.1, e.2) ∈ l from he)
    simp only [h.record.path]
    refine Total.bind (M := fun a s' => a.rc = ZOK ∧ Placed sid p w th s₀ l n s' ∧
      Behind sid p w l n s') (comesTo_retryRequest (by decide) fun b s₁ hmem hans hstep => ?_) ?_
    · obtain ⟨hnodes, ⟨hv, -⟩ | ⟨hnone, -⟩ | ⟨v, -, -, hrc, -⟩⟩ := hans.zooWexists
      · rw [validPath_place hp e.1 hlt] at hv
        cases hv
      · exact absurd hnone hpresent
      · refine ⟨hrc, ⟨h.toWaits.congr hmem hnodes hstep.heard, hmem ▸ h.first⟩, fun x hx => ?_⟩
        rw [hfloor, Option.some.injEq] at hx
        subst hx
        obtain ⟨⟨c, hperf⟩, -⟩ := hstep
        exact World.alert_of_wexists hperf hrc
    · rintro a s₁ ⟨hrc, h₁, hbehind⟩
      simp only [hrc, ne_eq, not_true, if_false]
      exact comesTo_store (.ret ⟨rfl, hmodify false h₁, hbehind.heard (.congr rfl rfl)⟩)
  | none =>
    have hbehind : ∀ s' : World srv W, Behind sid p w l n s' := by
      intro s' x hx
      rw [hfloor] at hx
      cases hx
    dsimp only
    split_ifs
    · refine comesTo_store (comesTo_load ?_)
      simp only [ret_bind]
      split_ifs
      · exact comesTo_inside (fun _ => rfl) (.ret ⟨rfl, hmodify true h, hbehind _⟩)
      · exact .ret ⟨rfl, hmodify true h, hbehind _⟩
    · exact .ret ⟨rfl, h, hbehind _⟩

theorem comesTo_findPlace (hp : validPath p false = true) (h : Waits sid p w th s₀ l n s)
    (hn : (sid w, n) ∈ l) {names : List CString} (hnodup : names.Nodup)
    (hnames : ∀ x, x ∈ names ↔ '/' ∉ x ∧ s.nodes (childOf p x) ≠ none) :
    ComesTo sid p w th (findPlace names) s fun ret s' =>
      ret = ZOK ∧ Placed sid p w th s₀ l n s' ∧ Behind sid p w l n s' := by
  obtain ⟨e, rest, rfl⟩ := List.exists_cons_of_ne_nil (List.ne_nil_of_mem hn)
  have hsort := h.dir.sortChildren_eq hnodup hnames
  rw [ticketNames, List.map_cons] at hsort
  unfold findPlace
  simp only [hsort]
  refine comesTo_store ?_
  have h₁ : Placed sid p w th s₀ (e :: rest) n
      (s.modify w (Assign.lockOwnerid (some (lockName e.1 e.2))).apply) :=
    ⟨h.modify ⟨h.record.path, h.record.acl, h.record.pmutex⟩ rfl, e, rfl,
      by rw [World.memory_modify, Function.update_self]; rfl⟩
  exact comesTo_takePlace hp h₁

/-- One round of `zkr_lock_operation`, the only one: the client finds its place, or takes one. -/
theorem comesTo_zkrLockOperation (hp : validPath p false = true) (h : During p w th s₀ l s)
    (hdir : s.nodes.IsDirectory p) :
    ComesTo sid p w th (zkrLockOperation (sid w)) s fun ret s' =>
      ret = ZOK ∧ ∃ n l', Joins (sid w) l n l' ∧ Placed sid p w th s₀ l' n s' ∧
        Behind sid p w l' n s' := by
  refine comesTo_load (.loop_once ?_)
  rw [h.record.path]
  refine Total.bind (comesTo_listing hp hdir (Q := fun a s' => a.rc = ZOK ∧
    (∀ x, x ∈ a.strings ↔ '/' ∉ x ∧ s'.nodes (childOf p x) ≠ none) ∧
    During p w th s₀ l s' ∧ s'.nodes.IsDirectory p) fun a s₁ hmem hnodes hheard hrc _ hnames =>
      ⟨hrc, hnodes ▸ hnames, h.congr hmem hnodes hheard, hnodes ▸ hdir⟩) ?_
  rintro a s₁ ⟨hrc, hnames, h₁, hdir₁⟩
  simp only [hrc, ne_eq, not_true, if_false]
  refine Total.bind (comesTo_lookupOrCreate hp h₁ hdir₁ hnames) ?_
  rintro ret s₂ ⟨rfl, n, l', hjoins, h₂⟩
  simp only [not_true, if_false]
  refine comesTo_load ?_
  simp only [ret_bind, h₂.id, Option.isSome_some, if_true]
  refine Total.bind (comesTo_listing hp h₂.directory (Q := fun a s' => a.rc = ZOK ∧
    a.strings.Nodup ∧ (∀ x, x ∈ a.strings ↔ '/' ∉ x ∧ s'.nodes (childOf p x) ≠ none) ∧
    Waits sid p w th s₀ l' n s') fun a s₃ hmem hnodes hheard hrc hnodup hnames =>
      ⟨hrc, hnodup, hnodes ▸ hnames, h₂.congr hmem hnodes hheard⟩) ?_
  rintro a s₃ ⟨hrc, hnodup, hnames, h₃⟩
  simp only [hrc, not_true, if_false]
  refine Total.bind (comesTo_findPlace hp h₃ hjoins.mem hnodup hnames) ?_
  rintro ret s₄ ⟨rfl, h₄⟩
  exact .ret ⟨ZOK, rfl, rfl, n, l', hjoins, h₄⟩

/-- **`zkr_lock_lock` comes back**, and says whether the client's ticket is the first. -/
theorem comesTo_zkrLockLock (hp : validPath p false = true) (hdir : LockDir p s.nodes l)
    (hrecord : LockOf p none (s.memory w)) :
    ComesTo sid p w th (zkrLockLock (sid w)) s fun b s' => ∃ n l', Joins (sid w) l n l' ∧
      (∀ v, v ≠ w → s'.memory v = s.memory v) ∧ LockDir p s'.nodes l' ∧
      LockOf p none (s'.memory w) ∧ (s'.memory w).lock.id = some (lockName (sid w) n) ∧
      b = (s'.memory w).lock.isowner ∧ (b = true ↔ l'.head? = some (sid w, n)) ∧ s.Heard s' ∧
      Behind sid p w l' n s' := by
  have h₁ : During p w th s l _ := .begin hdir hrecord
  refine comesTo_inside (hrecord.perform_lock sid th) (comesTo_load ?_)
  simp only [bind_eq, ret_bind, h₁.record.path]
  refine Total.bind (comesTo_makeDirectory hp h₁) fun _ s₂ ⟨h₂, hdir₂⟩ => ?_
  refine Total.bind (M := fun _ s' => ∃ n l', Joins (sid w) l n l' ∧
    Placed sid p w th s l' n s' ∧ Behind sid p w l' n s') (Total.bind (M := fun _ s' =>
      ∃ n l', Joins (sid w) l n l' ∧ Placed sid p w th s l' n s' ∧ Behind sid p w l' n s')
      (.whileLoop_once (by decide) (Total.bind (comesTo_zkrLockOperation hp h₂ hdir₂) ?_))
      fun _ s' hs' => .ret hs') ?_
  · rintro ret s' ⟨rfl, hplaced⟩
    exact .ret ⟨by decide, hplaced⟩
  rintro _ s₃ ⟨n, l', hjoins, h₃, hbehind⟩
  have hunlock : ∀ c, s₃.perform w (sid w) th { choice := c } .pthreadMutexUnlock =
      some ((), s₃.modify w (Op.effect th .pthreadMutexUnlock)) := fun c => rfl
  refine comesTo_inside hunlock (comesTo_load (.ret ⟨n, l', hjoins, fun v hv => ?_, h₃.dir, ?_, ?_,
    rfl, ?_, h₃.heard.trans (.congr rfl rfl), hbehind.heard (.congr rfl rfl)⟩))
  · rw [World.memory_modify, Function.update_of_ne hv, h₃.others v hv]
  · rw [World.memory_modify, Function.update_self]
    exact ⟨h₃.record.path, h₃.record.acl, rfl⟩
  · rw [World.memory_modify, Function.update_self]
    exact h₃.id
  · obtain ⟨e, he, howner⟩ := h₃.first
    have hmem := List.mem_of_head? he
    have hlt := (h₃.dir.mem_iff.mp hjoins.mem).1
    have hlt' := (h₃.dir.mem_iff.mp (show (e.1, e.2) ∈ l' from hmem)).1
    rw [World.memory_modify, Function.update_self, he, Option.some.injEq]
    refine Iff.trans ?_ (lockName_eq_iff hlt' hlt)
    simp only [Op.effect, ZkrLockMutex.isowner, h₃.id, howner, beq_iff_eq, strcmp_eq_iff]
    exact eq_comm

/-- **`zkr_lock_unlock` comes back**, and hands in the client's ticket; those who watch its node are
notified. -/
theorem comesTo_zkrLockUnlock (hp : validPath p false = true) (hdir : LockDir p s.nodes l)
    (hrecord : LockOf p none (s.memory w)) (hid : (s.memory w).lock.id = some (lockName (sid w) n))
    (hn : (sid w, n) ∈ l) :
    ComesTo sid p w th zkrLockUnlock s fun ret s' => ret = ZOK ∧
      (∀ v, v ≠ w → s'.memory v = s.memory v) ∧ LockDir p s'.nodes (l.filter (· ≠ (sid w, n))) ∧
      LockOf p none (s'.memory w) ∧ (s'.memory w).lock.id = none ∧ s.Heard s' ∧
      ∀ v, s.Alert v (some (childOf p (lockName (sid w) n))) → 0 < s'.events v := by
  have h₁ : During p w th s l _ := .begin hdir hrecord
  have hid₁ : ((s.modify w (Op.effect th .pthreadMutexLock)).memory w).lock.id =
      some (lockName (sid w) n) := by
    rw [World.memory_modify, Function.update_self]
    exact hid
  refine comesTo_inside (hrecord.perform_lock sid th) (comesTo_load ?_)
  simp only [bind_eq, ret_bind, hid₁, h₁.record.path]
  let Deleted : World srv W → Prop := fun s' =>
    During p w th s (l.filter (· ≠ (sid w, n))) s' ∧
      ∀ v, s.Alert v (some (childOf p (lockName (sid w) n))) → 0 < s'.events v
  refine Total.bind (M := fun ret s' => ret = ZOK ∧ Deleted s') (Total.bind
      (M := fun x s' => x.1 = ZOK ∧ Deleted s')
      (.whileLoop_once (by decide) (comesTo_zoo fun b s₂ hmem hans hstep => ?_))
      fun _ _ hx => .ret hx) ?_
  · obtain ⟨hok, hdir₂⟩ := h₁.dir.leave hp hn hans hstep.2
    have hheard := h₁.heard.trans hstep.heard
    obtain ⟨⟨c, hperf⟩, -⟩ := hstep
    simp only [ret_bind, Reply.received_rc, hok, reduceCtorEq, if_false]
    exact .ret ⟨by decide, rfl,
      ⟨fun v hv => by rw [hmem, h₁.others v hv], hmem ▸ h₁.record, hdir₂, hheard⟩,
      fun v hv => World.events_of_delete hperf hok (h₁.heard v _ hv)⟩
  rintro ret s₂ ⟨rfl, h₂, hevents⟩
  simp only [true_or, if_true]
  have hend : ComesTo sid p w th (do
      store (.lockId none)
      act .pthreadMutexUnlock
      return ZOK) s₂ fun ret s' => ret = ZOK ∧
        (∀ v, v ≠ w → s'.memory v = s.memory v) ∧ LockDir p s'.nodes (l.filter (· ≠ (sid w, n))) ∧
        LockOf p none (s'.memory w) ∧ (s'.memory w).lock.id = none ∧ s.Heard s' ∧
        ∀ v, s.Alert v (some (childOf p (lockName (sid w) n))) → 0 < s'.events v := by
    refine comesTo_store (comesTo_inside (fun _ => rfl)
      (.ret ⟨rfl, fun v hv => ?_, h₂.dir, ?_, ?_, h₂.heard.trans (.congr rfl rfl), hevents⟩))
    · rw [World.memory_modify, Function.update_of_ne hv, World.memory_modify,
        Function.update_of_ne hv, h₂.others v hv]
    · rw [World.memory_modify, Function.update_self, World.memory_modify, Function.update_self]
      exact ⟨h₂.record.path, h₂.record.acl, rfl⟩
    · rw [World.memory_modify, Function.update_self, World.memory_modify, Function.update_self]
      rfl
  refine comesTo_load ?_
  simp only [ret_bind]
  split_ifs
  · exact comesTo_inside (fun _ => rfl) hend
  · exact hend

/-- A client that knows of no ticket hands in none. -/
theorem comesTo_zkrLockUnlock_none (hrecord : LockOf p none (s.memory w))
    (hid : (s.memory w).lock.id = none) :
    ComesTo sid p w th zkrLockUnlock s fun ret s' => ret = ZSYSTEMERROR ∧ s'.nodes = s.nodes ∧
      s'.memory = s.memory ∧ s.Heard s' := by
  refine comesTo_inside (hrecord.perform_lock sid th) (comesTo_load ?_)
  simp only [bind_eq, ret_bind, World.memory_modify, Function.update_self, Op.effect, hid]
  refine comesTo_inside (fun _ => rfl) (.ret ⟨rfl, rfl, ?_, .congr rfl rfl⟩)
  rw [World.memory_modify, World.memory_modify, Function.update_idem, Function.update_self]
  refine Function.update_eq_iff.mpr ⟨?_, fun _ _ => rfl⟩
  simp only [Op.effect, ← hrecord.pmutex]

end Functions

end Calls

end PhpZookeeper
