import PhpZookeeper.System.Footprints
import PhpZookeeper.Theory.Histories

/-!
# Isolation of session keys

Two keys are apart when no path of one of them, and no directory that holds one, is a node of the
other (`KeysApart`). Then the workers that use one key do not interfere with those that use the
other: what the workers of one key do and are answered among the others they do and are answered
among themselves, and what those of each key can do among themselves all can do together, in any
order. Keys are not apart when one is the other and `-lock`, or when they agree on the first 499
characters.
-/

namespace PhpZookeeper

open Theory Prog Status

/-- No path of `k₁`, and no directory that holds one, is a node of `k₂`. -/
def Clear (k₁ k₂ : CString) : Prop :=
  ∀ p, KeyPath k₁ p → ¬ OwnsNode k₂ p ∧ ¬ OwnsNode k₂ (parentOf p)

/-- No path of one key, and no directory that holds one, is a node of the other. -/
def KeysApart (k₁ k₂ : CString) : Prop := Clear k₁ k₂ ∧ Clear k₂ k₁

theorem KeysApart.symm {k₁ k₂ : CString} (h : KeysApart k₁ k₂) : KeysApart k₂ k₁ := And.symm h

variable {k₁ k₂ : CString}

/-- A key sees no node of a key that is apart. -/
theorem KeysApart.not_ownsNode (h : KeysApart k₁ k₂) {q : CString} (hq : Sees k₁ q) :
    ¬ OwnsNode k₂ q := by
  intro hnode
  rcases hq with ⟨p, hp, rfl | rfl⟩ | ⟨p, x, hp, hx, rfl⟩
  · exact (h.1 _ hp).1 hnode
  · exact (h.1 _ hp).2 hnode
  · -- a child of one of its nodes
    rcases hnode with hpath | hqueue
    · have hparent := (h.2 _ hpath).2
      rw [parentOf_childOf p hx] at hparent
      exact hparent hp
    · have hdir := hqueue.parentOf_eq
      rw [parentOf_childOf p hx] at hdir
      subst hdir
      exact (h.2 _ hqueue.keyPath).1 hp

/-- **What a request leaves alone**: it changes nothing that a key sees that is apart. -/
theorem KeysApart.sameFor (h : KeysApart k₁ k₂) {session : Sid} {r : Req} {a : Reply} {t t' : Nodes}
    (hans : Answers session r t a t') (hr : r.Valid = true → r.IsFor session k₂) :
    Nodes.SameFor k₁ t t' := by
  by_cases hv : r.Valid = true
  swap
  · rw [(hans.of_not_valid (by simpa using hv)).2]
    exact .refl t
  by_cases hread : r.isRead = true
  · rw [hans.of_isRead hread]
    exact .refl t
  refine ⟨fun q hq => hans.frame fun htouch => h.not_ownsNode hq ((hr hv).ownsNode hv htouch),
    fun hl => ?_⟩
  have htouch : ¬ r.MayTouch (lockPath k₁) := fun htouch =>
    h.not_ownsNode hl.sees ((hr hv).ownsNode hv htouch)
  refine hans.frame_eq htouch fun hparent => ?_
  rcases (hr hv).parentOf_path hv (by simpa using hread) with hp | ⟨hdir, hp⟩
  · exact (h.2 _ hp).2 (hparent ▸ .inl hl)
  · rw [hp] at hparent
    exact (h.2 _ hdir).1 (hparent ▸ .inl hl)

/-! ### Watches -/

/-- The node that an answered request has touched is one that it may touch. -/
theorem Answers.mayTouch {session : Sid} {r : Req} {a : Reply} {t t' : Nodes} {q : CString}
    (h : Answers session r t a t') (hq : r.touched a = some q) :
    r.Valid = true ∧ r.MayTouch q := by
  cases h with
  | createOk hv hd he hr ht hn ho hc =>
    obtain rfl := Option.some.inj hq
    refine ⟨hv, ?_⟩
    simp only [Req.MayTouch]
    split_ifs at hr ⊢
    · exact ⟨_, hr⟩
    · exact hr
  | setOk hv hn hver => exact ⟨hv, (Option.some.inj hq).symm⟩
  | deleteOk hv hn hver hc => exact ⟨hv, (Option.some.inj hq).symm⟩
  | _ => cases hq

namespace Service

variable {W : Type} {s s' : Service W} {v w : W} {r : Req} {a : Reply}

/-- Watches that do not fire. -/
theorem fire_of_notMem {p : Option CString} (h : ∀ q ∈ p, q ∉ s.watches w) :
    (s.fire p).watches w = s.watches w ∧ (s.fire p).events w = s.events w := by
  cases p with
  | none => exact ⟨rfl, rfl⟩
  | some q =>
    have hq := h q rfl
    refine ⟨List.filter_eq_self.mpr fun x hx => ?_, if_neg hq⟩
    have hne : x ≠ q := fun hxq => hq (hxq ▸ hx)
    simpa using hne

/-- What fires is decided by what is watched. -/
theorem fire_congr (hwatches : s'.watches w = s.watches w) (hevents : s'.events w = s.events w)
    (p : Option CString) : (s'.fire p).watches w = (s.fire p).watches w ∧
      (s'.fire p).events w = (s.fire p).events w := by
  cases p with
  | none => exact ⟨hwatches, hevents⟩
  | some q => simp only [fire, hwatches, hevents, and_self]

theorem mem_watches_fire {p : Option CString} {q : CString} (h : q ∈ (s.fire p).watches w) :
    q ∈ s.watches w := by
  cases p with
  | none => exact h
  | some p => exact List.mem_of_mem_filter h

variable [DecidableEq W]

theorem watches_watch_of_ne (h : v ≠ w) : (s.watch w r a).watches v = s.watches v := by
  cases r <;> simp only [watch]
  split
  · exact Function.update_of_ne h ..
  · rfl

theorem watch_congr (h : s'.watches v = s.watches v) :
    (s'.watch w r a).watches v = (s.watch w r a).watches v := by
  by_cases hv : v = w
  · subst hv
    cases r <;> simp only [watch, h]
    split <;> simp [h]
  · rw [watches_watch_of_ne hv, watches_watch_of_ne hv, h]

theorem mem_watches_watch {q : CString} (h : q ∈ (s.watch w r a).watches v) :
    q ∈ s.watches v ∨ v = w ∧ r = .zooWexists q ∧ (a.rc = ZOK ∨ a.rc = ZNONODE) := by
  cases r <;> simp only [watch] at h
  case zooWexists p =>
    split at h
    · next hw =>
      dsimp only at h
      by_cases hv : v = w
      · subst hv
        rw [Function.update_self] at h
        rcases List.mem_cons.mp h with rfl | h
        · exact .inr ⟨rfl, rfl, hw.1⟩
        · exact .inl h
      · rw [Function.update_of_ne hv] at h
        exact .inl h
    · exact .inl h
  all_goals exact .inl h

theorem changed_of_notMem (w : W) (t : Nodes) (h : ∀ q ∈ r.touched a, q ∉ s.watches v) :
    (s.changed w t r a).watches v = s.watches v ∧ (s.changed w t r a).events v = s.events v := by
  unfold changed
  exact fire_of_notMem h

theorem changed_congr (hwatches : s'.watches v = s.watches v) (hevents : s'.events v = s.events v)
    (w : W) (t u : Nodes) (r : Req) (a : Reply) :
    (s'.changed w u r a).watches v = (s.changed w t r a).watches v ∧
      (s'.changed w u r a).events v = (s.changed w t r a).events v := by
  unfold changed
  apply fire_congr
  · exact hwatches
  · exact hevents

/-! ### One step -/

variable {session : Sid} {k : CString} {e : Event} {u : Service W}

omit [DecidableEq W] in
theorem Told.knownReply {b : Reply} {t t' : Nodes} (h : Told r a b)
    (hans : Answers session r t a t') : KnownReply r b := by
  rcases h with rfl | ⟨why, rfl⟩
  · exact knownReply_received hans
  · exact knownReply_failed r why

theorem Step.knownReply (h : s.Step session w e s') (htalk : e.talk = some (r, a)) :
    KnownReply r a := by
  cases h with
  | read htalk' hread hT hans =>
    obtain ⟨rfl, rfl⟩ := Prod.mk.inj (Option.some.inj (htalk.symm.trans htalk'))
    exact knownReply_received hans
  | change htalk' htold hwrite hans =>
    obtain ⟨rfl, rfl⟩ := Prod.mk.inj (Option.some.inj (htalk.symm.trans htalk'))
    exact htold.knownReply hans
  | failed htalk' =>
    obtain ⟨rfl, rfl⟩ := Prod.mk.inj (Option.some.inj (htalk.symm.trans htalk'))
    exact knownReply_failed r _
  | sessionEvent _ => cases htalk
  | notify _ => cases htalk
  | quiet hnone _ _ =>
    rw [htalk] at hnone
    cases hnone

/-- What another worker may still see after a step of the worker `w`: as before, or the state before
the step as well. -/
theorem Step.views_of_ne (h : s.Step session w e s') (hv : v ≠ w) :
    (s'.nodes = s.nodes ∧ s'.views v = s.views v) ∨ s'.views v = s.nodes :: s.views v := by
  cases h with
  | read htalk hread hlag hans =>
    refine .inl ⟨by rw [looked, nodes_watch], ?_⟩
    rw [looked, views_watch]
    exact Function.update_of_ne hv ..
  | change htalk htold hwrite hans =>
    rw [changed, views_fire]
    exact .inr (if_neg hv)
  | _ => exact .inl ⟨rfl, rfl⟩

/-- The nodes that a worker watches, after a step of the worker `w`. -/
theorem Step.mem_watches (h : s.Step session w e s') {p : CString} (hp : p ∈ s'.watches v) :
    p ∈ s.watches v ∨
      v = w ∧ validPath p false = true ∧ ∃ a, e.talk = some (.zooWexists p, a) := by
  cases h with
  | read htalk hread hlag hans =>
    refine (mem_watches_watch hp).imp id ?_
    rintro ⟨hv, rfl, hrc⟩
    refine ⟨hv, ?_, _, htalk⟩
    by_contra hvalid
    rw [(hans.of_not_valid (by simpa [Req.Valid, Req.path] using hvalid)).1] at hrc
    simp at hrc
  | change htalk htold hwrite hans =>
    rw [changed] at hp
    have hmem := mem_watches_fire hp
    exact .inl hmem
  | _ => exact .inl hp

/-- The event of `w` makes a request for the key `k`, if it makes one. -/
def RequestFor (session : Sid) (k : CString) (e : Event) : Prop :=
  ∀ r a, e.talk = some (r, a) → r.Valid = true → r.IsFor session k

/-- **What others do not see**: a step of a worker that uses another key. -/
theorem Step.unseen {k' : CString} (h : s.Step session w e s') (hreq : RequestFor session k' e)
    (hv : v ≠ w) (hapart : KeysApart k k') (hwatches : ∀ p ∈ s.watches v, Sees k p) :
    s'.watches v = s.watches v ∧ s'.events v = s.events v ∧
      Nodes.SameFor k s.nodes s'.nodes := by
  cases h with
  | @read _ r a T lag htalk hread hT hans =>
    refine ⟨watches_watch_of_ne hv, ?_, ?_⟩
    · rw [looked, events_watch]
    · rw [looked, nodes_watch]
      exact .refl _
  | @change _ r a b t htalk htold hwrite hans =>
    have hfire : ∀ q ∈ r.touched a, q ∉ s.watches v := fun q hq hmem => by
      obtain ⟨hvalid, htouch⟩ := hans.mayTouch hq
      exact hapart.not_ownsNode (hwatches q hmem) ((hreq _ _ htalk hvalid).ownsNode hvalid htouch)
    obtain ⟨hw, he⟩ := changed_of_notMem w t hfire
    refine ⟨hw, he, ?_⟩
    rw [changed, nodes_fire]
    exact hapart.sameFor hans (hreq _ _ htalk)
  | failed _ => exact ⟨rfl, rfl, .refl _⟩
  | sessionEvent _ => exact ⟨rfl, Function.update_of_ne hv .., .refl _⟩
  | notify _ => exact ⟨rfl, Function.update_of_ne hv .., .refl _⟩
  | quiet _ _ _ => exact ⟨rfl, rfl, .refl _⟩

/-- The worker `v` with the key `k` finds in `s'` what it finds in `s`: the same nodes watched and
the same notifications to come, and the same nodes of its key, also in the states before the last
one. -/
structure Like (k : CString) (v : W) (s s' : Service W) : Prop where
  watches : s'.watches v = s.watches v
  events : s'.events v = s.events v
  nodes : Nodes.SameFor k s.nodes s'.nodes
  views : ReadsLike (Nodes.SameFor k) (s.nodes :: s.views v) (s'.nodes :: s'.views v)

omit [DecidableEq W] in
theorem Like.refl (k : CString) (v : W) (s : Service W) : s.Like k v s :=
  ⟨rfl, rfl, .refl _, .refl .refl _⟩

/-- A step of another key, in the first state. -/
theorem Step.unseen_left {k' : CString} (h : s.Step session w e s')
    (hreq : RequestFor session k' e) (hv : v ≠ w) (hapart : KeysApart k k')
    (hwatches : ∀ p ∈ s.watches v, Sees k p) (hlike : s.Like k v u) : s'.Like k v u := by
  obtain ⟨hw, he, hsame⟩ := h.unseen hreq hv hapart hwatches
  have hnodes : Nodes.SameFor k s'.nodes u.nodes := hsame.symm.trans hlike.nodes
  refine ⟨hlike.watches.trans hw.symm, hlike.events.trans he.symm, hnodes, ?_⟩
  rcases h.views_of_ne hv with ⟨hn, hviews⟩ | hviews
  · rw [hn, hviews]
    exact hlike.views
  · rw [hviews]
    exact hlike.views.left hnodes

/-- A step of another key, in the second state. -/
theorem Step.unseen_right {k' : CString} {u' : Service W} (h : u.Step session w e u')
    (hreq : RequestFor session k' e) (hv : v ≠ w) (hapart : KeysApart k k')
    (hwatches : ∀ p ∈ u.watches v, Sees k p) (hlike : s.Like k v u) : s.Like k v u' := by
  obtain ⟨hw, he, hsame⟩ := h.unseen hreq hv hapart hwatches
  have hnodes : Nodes.SameFor k s.nodes u'.nodes := hlike.nodes.trans hsame
  refine ⟨hw.trans hlike.watches, he.trans hlike.events, hnodes, ?_⟩
  rcases h.views_of_ne hv with ⟨hn, hviews⟩ | hviews
  · rw [hn, hviews]
    exact hlike.views
  · rw [hviews]
    exact hlike.views.right hnodes

/-- A read, for the reader and for all others. -/
theorem Like.looked {i j : ℕ} (hlike : s.Like k v u)
    (hread : v = w → ReadsLike (Nodes.SameFor k) (s.nodes :: (s.views w).take i)
      (u.nodes :: (u.views w).take j)) :
    (s.looked w i r a).Like k v (u.looked w j r a) := by
  refine ⟨watch_congr hlike.watches, ?_, ?_, ?_⟩
  · rw [Service.looked, Service.looked, events_watch, events_watch]
    exact hlike.events
  · rw [Service.looked, Service.looked, nodes_watch, nodes_watch]
    exact hlike.nodes
  · rw [Service.looked, Service.looked, nodes_watch, nodes_watch, views_watch, views_watch]
    by_cases hv : v = w
    · subst hv
      simpa using hread rfl
    · simpa [Function.update_of_ne hv] using hlike.views

/-- A change, for the worker that makes it and for all others. -/
theorem Like.changed {t t' : Nodes} (hlike : s.Like k v u) (hsame : Nodes.SameFor k t t') :
    (s.changed w t r a).Like k v (u.changed w t' r a) := by
  obtain ⟨hw, he⟩ := changed_congr hlike.watches hlike.events w t t' r a
  refine ⟨hw, he, ?_, ?_⟩
  · rw [Service.changed, Service.changed, nodes_fire, nodes_fire]
    exact hsame
  · rw [Service.changed, Service.changed, nodes_fire, nodes_fire, views_fire, views_fire]
    by_cases hv : v = w
    · simpa [hv] using ReadsLike.singleton hsame
    · simpa [hv] using hlike.views.both hsame

/-- More or fewer notifications for the worker `w`. -/
theorem Like.notified (hlike : s.Like k v u) {m n : ℕ} (hmn : v = w → m = n) :
    Like k v { s with events := Function.update s.events w m }
      { u with events := Function.update u.events w n } := by
  refine ⟨hlike.watches, ?_, hlike.nodes, hlike.views⟩
  by_cases hv : v = w
  · subst hv
    simp [hmn rfl]
  · simpa [Function.update_of_ne hv] using hlike.events

/-- **What a worker is answered** depends on what those with its key find. -/
theorem Step.transfer {key : W → CString} (h : s.Step session w e s')
    (hreq : RequestFor session (key w) e) (hlike : ∀ v, key v = key w → s.Like (key w) v u) :
    ∃ u', u.Step session w e u' ∧ ∀ v, key v = key w → s'.Like (key w) v u' := by
  have hself := hlike w rfl
  cases h with
  | @read _ r a T lag htalk hread hT hans =>
    obtain ⟨j, T', hT', hsame, hviews⟩ := hself.views.read hT
    obtain ⟨t, hans', -⟩ := hsame.answers hans (hreq _ _ htalk)
    rw [hans'.of_isRead hread] at hans'
    exact ⟨_, .read htalk hread hT' hans', fun v hv => (hlike v hv).looked fun _ => hviews⟩
  | @change _ r a b t htalk htold hwrite hans =>
    obtain ⟨t', hans', hsame⟩ := hself.nodes.answers hans (hreq _ _ htalk)
    exact ⟨_, .change htalk htold hwrite hans', fun v hv => (hlike v hv).changed hsame⟩
  | failed htalk => exact ⟨u, .failed htalk, hlike⟩
  | sessionEvent hw =>
    exact ⟨_, .sessionEvent (by rwa [hself.watches]), fun v hv =>
      (hlike v hv).notified fun _ => by rw [hself.events]⟩
  | notify he =>
    exact ⟨_, .notify (by rwa [hself.events]), fun v hv =>
      (hlike v hv).notified fun _ => by rw [hself.events]⟩
  | quiet hnone h₁ h₂ => exact ⟨u, .quiet hnone h₁ h₂, hlike⟩

end Service

/-! ### Workers whose keys are apart -/

section Workers

variable {W : Type} [DecidableEq W] {sid : W → Sid} {key : W → CString} {c c' d d' : Ensemble W}
  {v w : W} {e : Event}

/-- Each worker uses its own key, and watches nodes that its key sees. -/
structure Ensemble.Separate (sid : W → Sid) (key : W → CString) (c : Ensemble W) : Prop where
  worker : ∀ w, WorkerOk (sid w) (key w) (c.worker w)
  watches : ∀ w, ∀ p ∈ c.service.watches w, Sees (key w) p

/-- The worker `w` is the same in both states, and finds in the second one what it finds in the
first one. -/
structure Ensemble.Alike (key : W → CString) (w : W) (c c' : Ensemble W) : Prop where
  worker : c'.worker w = c.worker w
  service : c.service.Like (key w) w c'.service

/-- The workers with the key `k` are the same in both states, and find in the second one what they
find in the first one. -/
def Ensemble.View (key : W → CString) (k : CString) (c c' : Ensemble W) : Prop :=
  ∀ w, key w = k → Ensemble.Alike key w c c'

/-- A step of a worker that only uses its own key. -/
abbrev Ensemble.KeyStep (sid : W → Sid) (key : W → CString) :
    Ensemble W → W × Event → Ensemble W → Prop :=
  Ensemble.Step sid fun w cb => cb.Uses (key w)

/-- A worker's request is for its key. -/
theorem Ensemble.Separate.request (h : c.Separate sid key)
    (hstep : Ensemble.KeyStep sid key c (w, e) c') :
    WorkerOk (sid w) (key w) (c'.worker w) ∧ Service.RequestFor (sid w) (key w) e :=
  (h.worker w).step hstep.worker hstep.allowed fun _ _ htalk => hstep.service.knownReply htalk

/-- Workers stay separate. -/
theorem Ensemble.Separate.step (h : c.Separate sid key)
    (hstep : Ensemble.KeyStep sid key c (w, e) c') : c'.Separate sid key := by
  obtain ⟨hworker, hreq⟩ := h.request hstep
  refine ⟨fun v => ?_, fun v p hp => ?_⟩
  · by_cases hv : v = w
    · rwa [hv]
    · rw [hstep.others v hv]
      exact h.worker v
  · rcases hstep.service.mem_watches hp with hp | ⟨rfl, hvalid, a, htalk⟩
    · exact h.watches v p hp
    · obtain ⟨x, hx, rfl⟩ := hreq _ a htalk hvalid
      exact OwnsNode.sees_child (.inl (keyPath_of_child hvalid)) hx

/-- **Workers whose keys are apart do not interfere.** -/
theorem Ensemble.unwinding (hkey : ∀ v w, key v ≠ key w → KeysApart (key v) (key w)) :
    Unwinding (Ensemble.KeyStep sid key) (fun l => key l.1) (Ensemble.Separate sid key)
      (Ensemble.View key) where
  inv h hstep := h.step hstep
  transfer := by
    rintro c d ⟨w, e⟩ c' h hd hview hstep
    obtain ⟨s', hservice, hlike⟩ := hstep.service.transfer (h.request hstep).2 fun v hv =>
      hv ▸ (hview v hv).service
    let d' : Ensemble W := ⟨Function.update d.worker w (c'.worker w), s'⟩
    have hself : d'.worker w = c'.worker w := Function.update_self ..
    refine ⟨d', ⟨hstep.allowed, ?_, fun v hv => Function.update_of_ne hv .., hservice⟩,
      fun v hv => ⟨?_, by rw [hv]; exact hlike v hv⟩⟩
    · rw [(hview w rfl).worker, hself]
      exact hstep.worker
    · by_cases hvw : v = w
      · rw [hvw, hself]
      · calc d'.worker v = d.worker v := Function.update_of_ne hvw ..
          _ = c.worker v := (hview v hv).worker
          _ = c'.worker v := (hstep.others v hvw).symm
  unseenLeft := by
    rintro c d ⟨w, e⟩ c' k h hk hview hstep v rfl
    have hv : v ≠ w := fun hvw => hk (by rw [hvw])
    refine ⟨(hview v rfl).worker.trans (hstep.others v hv).symm, ?_⟩
    exact hstep.service.unseen_left (h.request hstep).2 hv (hkey v w hk) (h.watches v)
      (hview v rfl).service
  unseenRight := by
    rintro c d ⟨w, e⟩ d' k h hk hview hstep v rfl
    have hv : v ≠ w := fun hvw => hk (by rw [hvw])
    refine ⟨(hstep.others v hv).trans (hview v rfl).worker, ?_⟩
    exact hstep.service.unseen_right (h.request hstep).2 hv (hkey v w hk) (h.watches v)
      (hview v rfl).service

end Workers

/-! ### Isolation -/

/-- Nobody has done anything yet, and the nodes are `t`. -/
def Ensemble.begin {W : Type} (t : Nodes) : Ensemble W := { service := { nodes := t } }

theorem Ensemble.Separate.begin {W : Type} {sid : W → Sid} {key : W → CString} (t : Nodes) :
    (Ensemble.begin t).Separate sid key where
  worker _ := workerOk_initial
  watches _ _ hp := nomatch hp

theorem Ensemble.View.refl {W : Type} (key : W → CString) (k : CString) (c : Ensemble W) :
    Ensemble.View key k c c := fun w _ => ⟨rfl, .refl (key w) w c.service⟩

/-- Workers that each use one key are isolated from those that use another one, whatever the nodes
are at first: what the workers of a key do and are answered among the others they do and are
answered without them, with the same records and the same nodes for their key; and what those of
each key can do without the others all can do together, in any order. -/
structure Isolated {W : Type} [DecidableEq W] (sid : W → Sid) (key : W → CString) : Prop where
  alone : ∀ (t : Nodes) (tr : List (W × Event)) (c : Ensemble W),
    Steps (Ensemble.KeyStep sid key) (.begin t) tr c → ∀ k, ∃ d,
      Steps (Ensemble.KeyStep sid key) (.begin t) (tr.filter fun l => key l.1 = k) d ∧
        ∀ w, key w = k → Ensemble.Alike key w c d
  together : ∀ (t : Nodes) (tr : List (W × Event)) (d : CString → Ensemble W),
    (∀ k, Steps (Ensemble.KeyStep sid key) (.begin t) (tr.filter fun l => key l.1 = k) (d k)) →
      ∃ c, Steps (Ensemble.KeyStep sid key) (.begin t) tr c ∧
        ∀ w, Ensemble.Alike key w (d (key w)) c

/-- **Workers whose keys are apart are isolated.** -/
theorem isolated_of_keysApart {W : Type} [DecidableEq W] (sid : W → Sid) {key : W → CString}
    (hkey : ∀ v w, key v ≠ key w → KeysApart (key v) (key w)) : Isolated sid key where
  alone t _ _ hrun k :=
    (Ensemble.unwinding hkey).alone hrun (.begin t) (.begin t) (Ensemble.View.refl key k _)
  together t _ _ hrun := by
    obtain ⟨c, hc, hview⟩ := (Ensemble.unwinding hkey).together (.begin t) (fun _ => .begin t)
      (fun k => Ensemble.View.refl key k _) hrun
    exact ⟨c, hc, fun w => hview (key w) w rfl⟩

/-- What the workers of a key have and are answered after any run of the system they have and are
answered after their own events alone. -/
theorem Isolated.config {srv : Server} {W : Type} [DecidableEq W] {sid : W → Sid}
    {key : W → CString} (h : Isolated sid key) {T : srv.State} {c : Config srv W}
    (hc : Config.Reaches sid (Config.Works fun w cb => cb.Uses (key w))
      { world := { tree := T } } c) :
    ∃ tr, Steps (Ensemble.KeyStep sid key) (.begin (srv.nodes T)) tr c.ensemble ∧ ∀ k, ∃ d,
      Steps (Ensemble.KeyStep sid key) (.begin (srv.nodes T)) (tr.filter fun l => key l.1 = k) d ∧
        ∀ w, key w = k → Ensemble.Alike key w c.ensemble d := by
  obtain ⟨tr, htr⟩ := Config.events_of_reaches hc
  exact ⟨tr, htr, h.alone _ tr _ htr⟩

/-! ### Session ids -/

/-- The children of the session directory that a key without `/` is kept in. -/
def keyNames (key : CString) : List CString := [key.take 499, (key ++ "-lock".toList).take 505]

variable {key : CString}

theorem slash_notMem_keyNames (h : '/' ∉ key) : ∀ x ∈ keyNames key, '/' ∉ x := by
  intro x hx hslash
  have hlock : '/' ∉ key ++ "-lock".toList := by simp [h]
  simp only [keyNames, List.mem_cons, List.not_mem_nil, or_false] at hx
  rcases hx with rfl | rfl
  · exact h (List.mem_of_mem_take hslash)
  · exact hlock (List.mem_of_mem_take hslash)

theorem KeyPath.mem_keyNames {p : CString} (hp : KeyPath key p) :
    ∃ x ∈ keyNames key, p = childOf phpZkParentNode x := by
  rcases hp.1 with rfl | rfl
  · exact ⟨_, List.mem_cons_self, sessionPath_eq key⟩
  · exact ⟨_, List.mem_cons_of_mem _ List.mem_cons_self, lockPath_eq key⟩

theorem KeyPath.parentOf_eq (h : '/' ∉ key) {p : CString} (hp : KeyPath key p) :
    parentOf p = phpZkParentNode := by
  obtain ⟨x, hx, rfl⟩ := hp.mem_keyNames
  exact parentOf_childOf _ (slash_notMem_keyNames h x hx)

/-- The session directory is no node of a key. -/
theorem not_ownsNode_parent (key : CString) : ¬ OwnsNode key phpZkParentNode := by
  rintro (hpath | hqueue)
  · obtain ⟨x, -, hp⟩ := hpath.mem_keyNames
    have hlen := congrArg List.length hp
    simp [childOf] at hlen
  · have hparent := congrArg List.length hqueue.parentOf_eq
    rw [length_lockPath] at hparent
    have hroot : (parentOf phpZkParentNode).length = 0 := by decide
    omega

theorem lockPath_ne_parent (key : CString) : lockPath key ≠ phpZkParentNode := by
  intro h
  have hlen := congrArg List.length h
  rw [length_lockPath, length_phpZkParentNode] at hlen
  omega

/-- Keys without `/` that have no name in common are apart. -/
theorem clear_of_disjoint (h₁ : '/' ∉ k₁) (h : (keyNames k₁).Disjoint (keyNames k₂)) :
    Clear k₁ k₂ := by
  intro p hp
  have hparent := hp.parentOf_eq h₁
  refine ⟨?_, hparent ▸ not_ownsNode_parent k₂⟩
  rintro (hpath | hqueue)
  · obtain ⟨x, hx, rfl⟩ := hp.mem_keyNames
    obtain ⟨y, hy, heq⟩ := hpath.mem_keyNames
    exact h hx ((childOf_left_inj _).mp heq ▸ hy)
  · exact lockPath_ne_parent k₂ (hqueue.parentOf_eq.symm.trans hparent)

theorem disjoint_keyNames (hlen₁ : k₁.length ≤ 499) (hlen₂ : k₂.length ≤ 499) (hne : k₁ ≠ k₂)
    (h₁ : k₁ ≠ k₂ ++ "-lock".toList) (h₂ : k₂ ≠ k₁ ++ "-lock".toList) :
    (keyNames k₁).Disjoint (keyNames k₂) := by
  have hnames : ∀ k : CString, k.length ≤ 499 → keyNames k = [k, k ++ "-lock".toList] := by
    intro k hk
    rw [keyNames, List.take_of_length_le hk, List.take_of_length_le (by simp; omega)]
  rw [hnames k₁ hlen₁, hnames k₂ hlen₂]
  simp only [List.disjoint_cons_left, List.mem_cons, List.not_mem_nil, or_false, not_or,
    List.disjoint_nil_left, and_true, List.append_left_inj]
  exact ⟨⟨hne, h₁⟩, Ne.symm h₂, hne⟩

/-- **Sessions are isolated.** Workers whose session ids have no `/` and at most 499 characters do
not interfere with those of another session, when no id is another one and `-lock`. -/
theorem isolated_sessions {W : Type} [DecidableEq W] (sid : W → Sid) {key : W → CString}
    (hslash : ∀ w, '/' ∉ key w) (hlen : ∀ w, (key w).length ≤ 499)
    (hkey : ∀ v w, key v ≠ key w ++ "-lock".toList) : Isolated sid key :=
  isolated_of_keysApart sid fun v w hv => by
    have hdisj : (keyNames (key v)).Disjoint (keyNames (key w)) :=
      disjoint_keyNames (hlen v) (hlen w) hv (hkey v w) (hkey w v)
    exact ⟨clear_of_disjoint (hslash v) hdisj, clear_of_disjoint (hslash w) hdisj.symm⟩

/-- Two workers of the session `ab`, and one of the session `ab-`. -/
theorem isolated_sessions_three : Isolated (fun w : Fin 3 => w.castLE (by decide))
    fun w : Fin 3 => if w = 2 then "ab-".toList else "ab".toList :=
  isolated_sessions (fun w : Fin 3 => w.castLE (by decide)) (by decide) (by decide) (by decide)

end PhpZookeeper
