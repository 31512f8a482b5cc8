import PhpZookeeper.Session.Solo

/-!
# Which children `PS_GC` removes

`PS_GC` puts the name of each child of the parent node into a path of 511 characters. That is the
rule for the node of a session, but the lock directory of a key may have a path of 517, so a long
one is listed under a name by which it is not found again. `gcCollects_iff` says which expired
children stay.
-/

namespace PhpZookeeper

open Theory Prog Status

/-- A name the callbacks may give a child of the parent node: that of a session, or of the lock
directory of a key. -/
def HandlerName (x : CString) : Prop :=
  ∃ key, (childOf phpZkParentNode x = sessionPath key ∨ childOf phpZkParentNode x = lockPath key) ∧
    validPath (childOf phpZkParentNode x) false

/-- The node at `p` has no children and was last changed before `e`. -/
def Nodes.ExpiredAt (t : Nodes) (e : ℤ) (p : CString) : Prop :=
  (∃ n, t p = some n ∧ n.mtime < e) ∧ ¬ t.HasChild p

theorem Nodes.ExpiredAt.ne_none {t : Nodes} {e : ℤ} {p : CString} (h : t.ExpiredAt e p) :
    t p ≠ none := by
  obtain ⟨⟨n, hn, -⟩, -⟩ := h
  simp [hn]

variable {srv : Server} {W : Type} [DecidableEq W]

/-- `PS_GC` returns, and whenever it does the nodes that are gone are the children of the parent
node that had expired. -/
def GcCollects (w : W) (sid : Sid) (g : Globals) (s : World srv W) : Prop :=
  (∃ out s', Returns (soloSem w sid) (psGc g) s out s') ∧
    ∀ out s', Returns (soloSem w sid) (psGc g) s out s' →
      ∀ q, s.nodes q ≠ none ∧ s'.nodes q = none ↔
        ∃ x, '/' ∉ x ∧ q = childOf phpZkParentNode x ∧ s.nodes.ExpiredAt g.expirationTime q

/-! ### Removing nodes -/

/-- `t'` is `t` without the nodes at the paths of `D`. -/
def Nodes.Without (t t' : Nodes) (D : CString → Prop) : Prop :=
  ∀ q, (D q → t' q = none) ∧ (¬ D q → (t' q).map Znode.content = (t q).map Znode.content)

/-- `q` is a child of the parent node. -/
def IsEntry (q : CString) : Prop := ∃ x, '/' ∉ x ∧ q = childOf phpZkParentNode x

/-- `PS_GC` deletes the node at `p` when it comes to it. -/
def Nodes.Deletable (t : Nodes) (e : ℤ) (p : CString) : Prop :=
  validPath p false ∧ t.ExpiredAt e p

namespace Nodes.Without

variable {t t' t'' : Nodes} {D D' : CString → Prop} {q : CString}

theorem refl (t : Nodes) : t.Without t fun _ => False := fun _ => ⟨False.elim, fun _ => rfl⟩

theorem congr (h : t.Without t' D) (hD : ∀ q, D q ↔ D' q) : t.Without t' D' := by
  obtain rfl : D = D' := funext fun q => propext (hD q)
  exact h

theorem eq_none_iff (h : t.Without t' D) (hq : ¬ D q) : t' q = none ↔ t q = none := by
  rw [← Option.map_eq_none_iff (f := Znode.content), (h q).2 hq, Option.map_eq_none_iff]

/-- A node is gone when it was removed. -/
theorem gone_iff (h : t.Without t' D) (hD : ∀ q, D q → t q ≠ none) :
    t q ≠ none ∧ t' q = none ↔ D q := by
  constructor
  · rintro ⟨hq, hq'⟩
    by_contra hn
    exact hq ((h.eq_none_iff hn).mp hq')
  · exact fun hq => ⟨hD q hq, (h q).1 hq⟩

theorem trans (h : t.Without t' D) (h' : t'.Without t'' D') :
    t.Without t'' fun q => D q ∨ D' q := by
  refine fun q => ⟨?_, fun hq => ?_⟩
  · rintro (hq | hq)
    · by_cases hq' : D' q
      · exact (h' q).1 hq'
      · exact (h'.eq_none_iff hq').mpr ((h q).1 hq)
    · exact (h' q).1 hq
  · rw [not_or] at hq
    exact ((h' q).2 hq.2).trans ((h q).2 hq.1)

/-- The children of a child of the parent node are no children of the parent node. -/
theorem hasChild_iff (h : t.Without t' D) (hD : ∀ p, D p → IsEntry p) (hq : IsEntry q) :
    t'.HasChild q ↔ t.HasChild q := by
  obtain ⟨x, hx, rfl⟩ := hq
  refine exists_congr fun y => and_congr_right fun hy => not_congr (h.eq_none_iff fun hyD => ?_)
  obtain ⟨z, hz, heq⟩ := hD _ hyD
  exact childOf_ne_self _ _ ((childOf_inj hy hz).mp heq).1

/-- What is left can be deleted as before. -/
theorem deletable_iff (h : t.Without t' D) (hD : ∀ p, D p → IsEntry p) (hq : IsEntry q)
    (hn : ¬ D q) (e : ℤ) : t'.Deletable e q ↔ t.Deletable e q := by
  have hold : (∃ n, t' q = some n ∧ n.mtime < e) ↔ ∃ n, t q = some n ∧ n.mtime < e := by
    have hc := (h q).2 hn
    cases ht : t q with
    | none => simp [(h.eq_none_iff hn).mpr ht]
    | some n =>
      rw [ht, Option.map_some, Option.map_eq_some_iff] at hc
      obtain ⟨n', hn', hc⟩ := hc
      have hmtime : n'.content.mtime = n.content.mtime := congrArg Znode.mtime hc
      have hmtime' : n'.mtime = n.mtime := hmtime
      simp [hn', hmtime']
  unfold Deletable ExpiredAt
  rw [hold, h.hasChild_iff hD hq]

end Nodes.Without

/-! ### What each step removes -/

section Steps

variable {w : W} {sid : Sid} {s s' : World srv W} {e : ℤ}

/-- The path `PS_GC` makes of a name. -/
theorem isEntry_sessionPath {x : CString} (hx : '/' ∉ x) : IsEntry (sessionPath x) :=
  ⟨x.take 499, fun h => hx (List.mem_of_mem_take h), sessionPath_eq x⟩

/-- One child: its node is deleted if it can be. -/
theorem returns_gcNode_solo {x : CString} {u : Unit}
    (h : Returns (soloSem w sid) (gcNode e x) s u s') :
    s.nodes.Without s'.nodes fun q => q = sessionPath x ∧ s.nodes.Deletable e q := by
  have hsame : ∀ t : Nodes, t = s.nodes → ¬ s.nodes.Deletable e (sessionPath x) →
      s.nodes.Without t fun q => q = sessionPath x ∧ s.nodes.Deletable e q := by
    rintro t rfl hnot
    refine (Nodes.Without.refl _).congr fun q => ⟨False.elim, ?_⟩
    rintro ⟨rfl, hd⟩
    exact hnot hd
  simp only [gcNode, bind_eq, perform_bind, returns_op_iff] at h
  obtain ⟨a, s₁, h₁, h⟩ := h
  obtain ⟨-, b, hans, rfl⟩ := soloSem_zoo h₁
  obtain ⟨hn₁, hcases⟩ := hans.zooExists
  rcases hcases with ⟨hv, hrc⟩ | ⟨hp, hrc⟩ | ⟨n, hp, hv, hrc, hstat⟩
  · rw [if_neg (by simp [hrc])] at h
    obtain ⟨-, rfl⟩ := returns_ret_iff.mp h
    exact hsame _ hn₁ fun hd => by simp [hd.1] at hv
  · rw [if_neg (by simp [hrc])] at h
    obtain ⟨-, rfl⟩ := returns_ret_iff.mp h
    exact hsame _ hn₁ fun hd => hd.2.ne_none hp
  · rw [if_pos hrc, hstat, Znode.stat_mtime] at h
    split_ifs at h with hold
    · obtain ⟨a, s₂, h₂, hret⟩ := returns_op_iff.mp h
      obtain ⟨-, rfl⟩ := returns_ret_iff.mp hret
      obtain ⟨-, b, hdel, -⟩ := soloSem_zoo h₂
      rw [hn₁] at hdel
      rcases hdel.zooDelete with ⟨n', k, -, -, hc, -, ht⟩ | ⟨ht, hno⟩
      · rw [ht]
        refine fun q => ⟨?_, fun hq => ?_⟩
        · rintro ⟨rfl, -⟩
          simp
        · have hne : q ≠ sessionPath x := fun he => hq ⟨he, he ▸ ⟨hv, ⟨n, hp, hold⟩, hc⟩⟩
          rw [Function.update_of_ne hne, Nodes.bump_content]
      · refine hsame _ ht fun hd => ?_
        rcases hno with ⟨hv', -⟩ | ⟨hp', -⟩ | ⟨hc, -⟩
        · simp [hv] at hv'
        · exact hd.2.ne_none hp'
        · exact hd.2.2 hc
    · obtain ⟨-, rfl⟩ := returns_ret_iff.mp h
      refine hsame _ hn₁ fun hd => ?_
      obtain ⟨n', hn', hlt⟩ := hd.2.1
      rw [hp, Option.some.injEq] at hn'
      exact hold (hn' ▸ hlt)

/-- The loop: each name's node is deleted if it can be at the start. -/
theorem returns_gcNodes_solo {names : List CString} (hnames : ∀ x ∈ names, '/' ∉ x) {u : Unit}
    (h : Returns (soloSem w sid) (gcNodes e names) s u s') :
    s.nodes.Without s'.nodes fun q => (∃ x ∈ names, q = sessionPath x) ∧ s.nodes.Deletable e q := by
  induction names generalizing s with
  | nil =>
    obtain ⟨-, rfl⟩ := returns_ret_iff.mp h
    exact (Nodes.Without.refl _).congr fun q => by simp
  | cons x names ih =>
    obtain ⟨u', s₁, h₁, h₂⟩ := returns_bind_iff.mp h
    have hx := returns_gcNode_solo h₁
    have hD : ∀ p, p = sessionPath x ∧ s.nodes.Deletable e p → IsEntry p := by
      rintro p ⟨rfl, -⟩
      exact isEntry_sessionPath (hnames x (by simp))
    refine (hx.trans (ih (fun y hy => hnames y (by simp [hy])) h₂)).congr fun q => ?_
    constructor
    · rintro (⟨hq, hd⟩ | ⟨⟨y, hy, rfl⟩, hd⟩)
      · exact ⟨⟨x, by simp, hq⟩, hd⟩
      · refine ⟨⟨y, by simp [hy], rfl⟩, ?_⟩
        by_cases hq : sessionPath y = sessionPath x ∧ s.nodes.Deletable e (sessionPath y)
        · exact hq.2
        · exact (hx.deletable_iff hD (isEntry_sessionPath (hnames y (by simp [hy]))) hq e).mp hd
    · rintro ⟨⟨y, hy, rfl⟩, hd⟩
      by_cases hq : sessionPath y = sessionPath x
      · exact .inl ⟨hq, hd⟩
      · have hmem : y ∈ names := by
          rcases List.mem_cons.mp hy with rfl | hy
          · exact absurd rfl hq
          · exact hy
        refine .inr ⟨⟨y, hmem, rfl⟩, ?_⟩
        exact (hx.deletable_iff hD (isEntry_sessionPath (hnames y hy)) (fun h => hq h.1) e).mpr hd

/-- `PS_GC` deletes the nodes at the paths it makes of the listed names, where it can. -/
theorem returns_psGc_nodes {g : Globals} {out : Outcome Unit}
    (hparent : s.nodes phpZkParentNode ≠ none) (h : Returns (soloSem w sid) (psGc g) s out s') :
    s.nodes.Without s'.nodes fun q =>
      (∃ x, '/' ∉ x ∧ s.nodes (childOf phpZkParentNode x) ≠ none ∧ q = sessionPath x) ∧
        s.nodes.Deletable g.expirationTime q := by
  simp only [psGc, bind_eq, perform_bind, returns_op_iff] at h
  obtain ⟨a, s₁, h₁, h⟩ := h
  obtain ⟨-, b, hans, rfl⟩ := soloSem_zoo h₁
  obtain ⟨hn₁, hcases⟩ := hans.zooGetChildren
  rcases hcases with ⟨hv, -⟩ | ⟨hp, -⟩ | ⟨hrc, -, hmem⟩
  · exact absurd hv (by decide)
  · exact absurd hp hparent
  · rw [if_pos hrc, returns_bind_iff] at h
    obtain ⟨u, s₂, h₂, hret⟩ := h
    obtain ⟨-, rfl⟩ := returns_ret_iff.mp hret
    have hloop := returns_gcNodes_solo (fun x hx => ((hmem x).mp hx).1) h₂
    rw [hn₁] at hloop
    refine hloop.congr fun q => and_congr_left fun _ => exists_congr fun x => ?_
    rw [hmem, and_assoc]

/-- Without a parent node, `PS_GC` deletes nothing. -/
theorem returns_psGc_orphans {g : Globals} {out : Outcome Unit}
    (hparent : s.nodes phpZkParentNode = none) (h : Returns (soloSem w sid) (psGc g) s out s') :
    s'.nodes = s.nodes := by
  simp only [psGc, bind_eq, perform_bind, returns_op_iff] at h
  obtain ⟨a, s₁, h₁, h⟩ := h
  obtain ⟨-, b, hans, rfl⟩ := soloSem_zoo h₁
  have hrc := hans.rc_zooGetChildren hparent
  rw [if_neg (by simpa using hrc)] at h
  obtain ⟨-, rfl⟩ := returns_ret_iff.mp h
  exact hans.zooGetChildren.1

/-- `PS_GC` returns. -/
theorem exists_returns_psGc (w : W) (sid : Sid) (g : Globals) (s : World srv W) :
    ∃ out s', Returns (soloSem w sid) (psGc g) s out s' := by
  have hnode : ∀ x (s : World srv W),
      ∃ s', Returns (soloSem w sid) (gcNode g.expirationTime x) s () s' := by
    intro x s
    obtain ⟨a, s₁, h₁⟩ := exists_soloSem w sid (.zooExists (sessionPath x)) s
    obtain ⟨b, s₂, h₂⟩ := exists_soloSem w sid (.zooDelete (sessionPath x) (-1)) s₁
    simp only [gcNode, bind_eq, perform_bind, returns_op_iff]
    by_cases hrc : a.rc = ZOK
    · by_cases hold : a.stat.mtime < g.expirationTime
      · refine ⟨s₂, a, s₁, h₁, ?_⟩
        rw [if_pos hrc, if_pos hold]
        exact returns_op_iff.mpr ⟨b, s₂, h₂, returns_ret_iff.mpr ⟨rfl, rfl⟩⟩
      · refine ⟨s₁, a, s₁, h₁, ?_⟩
        rw [if_pos hrc, if_neg hold]
        exact returns_ret_iff.mpr ⟨rfl, rfl⟩
    · refine ⟨s₁, a, s₁, h₁, ?_⟩
      rw [if_neg hrc]
      exact returns_ret_iff.mpr ⟨rfl, rfl⟩
  have hnodes : ∀ names (s : World srv W),
      ∃ s', Returns (soloSem w sid) (gcNodes g.expirationTime names) s () s' := by
    intro names
    induction names with
    | nil => exact fun s => ⟨s, returns_ret_iff.mpr ⟨rfl, rfl⟩⟩
    | cons x names ih =>
      intro s
      obtain ⟨s₁, h₁⟩ := hnode x s
      obtain ⟨s₂, h₂⟩ := ih s₁
      exact ⟨s₂, returns_bind_iff.mpr ⟨(), s₁, h₁, h₂⟩⟩
  obtain ⟨a, s₁, h₁⟩ := exists_soloSem w sid (.zooGetChildren phpZkParentNode) s
  simp only [psGc, bind_eq, perform_bind, returns_op_iff]
  by_cases hrc : a.rc = ZOK
  · obtain ⟨s₂, h₂⟩ := hnodes a.strings s₁
    refine ⟨.success (), s₂, a, s₁, h₁, ?_⟩
    rw [if_pos hrc]
    exact returns_bind_iff.mpr ⟨(), s₂, h₂, returns_ret_iff.mpr ⟨rfl, rfl⟩⟩
  · refine ⟨.success (), s₁, a, s₁, h₁, ?_⟩
    rw [if_neg hrc]
    exact returns_ret_iff.mpr ⟨rfl, rfl⟩

/-- **Which expired entries `PS_GC` removes.** With children that the callbacks may have made, the
nodes that are gone after `PS_GC` are exactly the expired children without children of their own,
exactly when none of these has a name of more than 499 characters. -/
theorem gcCollects_iff (w : W) (sid : Sid) (g : Globals) (s : World srv W)
    (hparent : s.nodes phpZkParentNode ≠ none)
    (hnames : ∀ x, '/' ∉ x → s.nodes (childOf phpZkParentNode x) ≠ none → HandlerName x) :
    GcCollects w sid g s ↔
      ∀ x, '/' ∉ x → s.nodes.ExpiredAt g.expirationTime (childOf phpZkParentNode x) →
        x.length ≤ 499 := by
  have hgone : ∀ {out s'}, Returns (soloSem w sid) (psGc g) s out s' → ∀ q,
      s.nodes q ≠ none ∧ s'.nodes q = none ↔ (∃ x, '/' ∉ x ∧
        s.nodes (childOf phpZkParentNode x) ≠ none ∧ q = sessionPath x) ∧
          s.nodes.Deletable g.expirationTime q := fun h q =>
    (returns_psGc_nodes hparent h).gone_iff fun q hq => hq.2.2.ne_none
  constructor
  · rintro ⟨⟨out, s', h⟩, hall⟩ x hx hexp
    obtain ⟨⟨y, hy, -, heq⟩, -⟩ := (hgone h _).mp ((hall out s' h _).mpr ⟨x, hx, rfl, hexp⟩)
    rw [sessionPath_eq, childOf_left_inj] at heq
    rw [heq, List.length_take]
    exact Nat.min_le_left _ _
  · intro hshort
    refine ⟨exists_returns_psGc w sid g s, fun out s' h q => (hgone h q).trans ?_⟩
    constructor
    · rintro ⟨⟨x, hx, -, rfl⟩, hd⟩
      obtain ⟨y, hy, heq⟩ := isEntry_sessionPath hx
      exact ⟨y, hy, heq, hd.2⟩
    · rintro ⟨x, hx, rfl, hexp⟩
      obtain ⟨-, -, hv⟩ := hnames x hx hexp.ne_none
      refine ⟨⟨x, hx, hexp.ne_none, ?_⟩, hv, hexp⟩
      rw [sessionPath_eq, List.take_of_length_le (hshort x hx hexp)]

end Steps

/-- Two sessions with their lock directories. The first session and its directory have expired; the
second one has not, and a client waits in its directory. -/
def sessionsTree : TreeState :=
  [(phpZkParentNode, {}), ("/php-sessid/k".toList, {}), ("/php-sessid/k-lock".toList, {}),
    ("/php-sessid/j".toList, { mtime := 600000 }), ("/php-sessid/j-lock".toList, { cseq := 1 }),
    (childOf "/php-sessid/j-lock".toList (lockName 0 0), { ephemeralOwner := some 0 })]

/-- A service with these. -/
def twoSessions : World treeServer Unit where
  tree := sessionsTree

theorem prefix_childOf (d y : CString) : d ++ ['/'] <+: childOf d y := ⟨y, by simp [childOf]⟩

theorem nodes_twoSessions {x : CString} (hslash : '/' ∉ x)
    (hx : twoSessions.nodes (childOf phpZkParentNode x) ≠ none) :
    x ∈ ["k".toList, "k-lock".toList, "j".toList, "j-lock".toList] := by
  obtain ⟨n, hn⟩ := (TreeState.get_ne_none_iff _ _).mp hx
  have hentry : ∀ y : CString, childOf phpZkParentNode x = childOf phpZkParentNode y → x = y :=
    fun y h => (childOf_left_inj _).mp h
  simp only [twoSessions, sessionsTree, List.mem_cons, Prod.mk.injEq, List.not_mem_nil,
    or_false] at hn
  rcases hn with ⟨h, -⟩ | ⟨h, -⟩ | ⟨h, -⟩ | ⟨h, -⟩ | ⟨h, -⟩ | ⟨h, -⟩
  · exact absurd h (childOf_ne_self _ _)
  · simp [hentry "k".toList h]
  · simp [hentry "k-lock".toList h]
  · simp [hentry "j".toList h]
  · simp [hentry "j-lock".toList h]
  · -- a place in the queue is no child of the parent node
    have hnested : childOf "/php-sessid/j-lock".toList (lockName 0 0) =
        childOf phpZkParentNode (childOf "j-lock".toList (lockName 0 0)) := by decide
    rw [hentry _ (h.trans hnested)] at hslash
    exact absurd hslash (by decide)

theorem expiredAt_twoSessions :
    twoSessions.nodes.ExpiredAt 560000 "/php-sessid/k-lock".toList := by
  have hnode : twoSessions.nodes "/php-sessid/k-lock".toList = some {} := by decide
  refine ⟨⟨{}, hnode, by decide⟩, ?_⟩
  rintro ⟨y, -, hy⟩
  have hget : sessionsTree.get (childOf "/php-sessid/k-lock".toList y) ≠ none := hy
  obtain ⟨n, hn⟩ := (TreeState.get_ne_none_iff _ _).mp hget
  simp only [sessionsTree, List.mem_cons, Prod.mk.injEq, List.not_mem_nil, or_false] at hn
  -- no path of the tree begins with the directory and a `/`
  have hbegins : ∀ p : CString, childOf "/php-sessid/k-lock".toList y = p →
      "/php-sessid/k-lock".toList ++ ['/'] <+: p := fun p h => h ▸ prefix_childOf _ y
  rcases hn with ⟨h, -⟩ | ⟨h, -⟩ | ⟨h, -⟩ | ⟨h, -⟩ | ⟨h, -⟩ | ⟨h, -⟩ <;>
    exact absurd (hbegins _ h) (by decide)

/-- The first session and its lock directory are removed; the second session, and the directory in
which a client waits, are not. -/
theorem gcCollects_session :
    GcCollects () 0 { globalRequestTime := 2000 } twoSessions ∧
      twoSessions.nodes.ExpiredAt 560000 "/php-sessid/k-lock".toList ∧
      ¬ twoSessions.nodes.ExpiredAt 560000 "/php-sessid/j".toList ∧
      ¬ twoSessions.nodes.ExpiredAt 560000 "/php-sessid/j-lock".toList := by
  have hnames : ∀ x ∈ ["k".toList, "k-lock".toList, "j".toList, "j-lock".toList],
      HandlerName x ∧ x.length ≤ 499 := by
    intro x hx
    simp only [List.mem_cons, List.not_mem_nil, or_false] at hx
    rcases hx with rfl | rfl | rfl | rfl
    · exact ⟨⟨"k".toList, .inl (by decide), by decide⟩, by decide⟩
    · exact ⟨⟨"k".toList, .inr (by decide), by decide⟩, by decide⟩
    · exact ⟨⟨"j".toList, .inl (by decide), by decide⟩, by decide⟩
    · exact ⟨⟨"j".toList, .inr (by decide), by decide⟩, by decide⟩
  have hparent : twoSessions.nodes phpZkParentNode ≠ none := by decide
  have hcollects : GcCollects () 0 { globalRequestTime := 2000 } twoSessions :=
    (gcCollects_iff () 0 _ twoSessions hparent fun y hslash hy =>
      (hnames y (nodes_twoSessions hslash hy)).1).mpr fun y hslash hy =>
        (hnames y (nodes_twoSessions hslash hy.ne_none)).2
  refine ⟨hcollects, expiredAt_twoSessions, ?_, ?_⟩
  · rintro ⟨⟨n, hn, hlt⟩, -⟩
    have hnode : twoSessions.nodes "/php-sessid/j".toList = some { mtime := 600000 } := by decide
    rw [hnode] at hn
    cases hn
    exact absurd hlt (by decide)
  · rintro ⟨-, hchild⟩
    exact hchild ⟨lockName 0 0, by decide, by decide⟩

/-- A service with one child of the parent node, which was last changed at the time 0. -/
def oneEntry (x : CString) : World treeServer Unit where
  tree := [(phpZkParentNode, {}), (childOf phpZkParentNode x, {})]

theorem nodes_oneEntry {x y : CString}
    (hy : (oneEntry x).nodes (childOf phpZkParentNode y) ≠ none) :
    y = x := by
  obtain ⟨n, hn⟩ := (TreeState.get_ne_none_iff _ _).mp hy
  simp only [oneEntry, List.mem_cons, Prod.mk.injEq, List.not_mem_nil, or_false] at hn
  rcases hn with ⟨h, -⟩ | ⟨h, -⟩
  · exact absurd h (childOf_ne_self _ _)
  · exact (childOf_left_inj _).mp h

theorem expiredAt_oneEntry (x : CString) {e : ℤ} (he : 0 < e) :
    (oneEntry x).nodes.ExpiredAt e (childOf phpZkParentNode x) := by
  have hget : (oneEntry x).nodes (childOf phpZkParentNode x) = some {} := by
    show TreeState.get _ _ = _
    rw [oneEntry, TreeState.get_cons, if_neg (childOf_ne_self _ _).symm, TreeState.get_cons,
      if_pos rfl]
  refine ⟨⟨_, hget, he⟩, ?_⟩
  rintro ⟨y, hy, hn⟩
  obtain ⟨n, hn⟩ := (TreeState.get_ne_none_iff _ _).mp hn
  simp only [oneEntry, List.mem_cons, Prod.mk.injEq, List.not_mem_nil, or_false] at hn
  rcases hn with ⟨h, -⟩ | ⟨h, -⟩
  · have hlen := congrArg List.length h
    simp [childOf] at hlen
  · exact childOf_ne_self _ _ h

/-- The key of 495 characters whose lock directory has a name of 500. -/
def longKey : CString := List.replicate 495 'a'

/-- The lock directory of a long key has expired, and is not removed. -/
theorem gc_misses_lock :
    ¬ ∀ s : World treeServer Unit, s.nodes phpZkParentNode ≠ none →
      (∀ x, '/' ∉ x → s.nodes (childOf phpZkParentNode x) ≠ none → HandlerName x) →
        GcCollects () 0 { globalRequestTime := 2000 } s := by
  intro h
  have hnames : ∀ y, '/' ∉ y → (oneEntry (longKey ++ "-lock".toList)).nodes
      (childOf phpZkParentNode y) ≠ none → HandlerName y := fun y _ hy => by
    rw [nodes_oneEntry hy]
    exact ⟨longKey, .inr (by decide +kernel), by decide +kernel⟩
  have hslash : '/' ∉ longKey ++ "-lock".toList := by decide +kernel
  have hshort := (gcCollects_iff () 0 _ (oneEntry _) (by decide) hnames).mp
    (h _ (by decide) hnames) _ hslash (expiredAt_oneEntry _ (by decide))
  exact absurd hshort (by decide +kernel)

end PhpZookeeper
