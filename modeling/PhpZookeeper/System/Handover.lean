import PhpZookeeper.Lock.Place
import PhpZookeeper.System.InLine

/-!
# The lock is handed over

A client that has to wait watches one node, and tries again when `lock_watcher_fn` is called for it.
As long as each client that tries finds the ids of the sessions in the order in which the clients
wait, the node it watches is that of the client in front of it, and no wake-up is lost: whenever the
first of the line knows of its place, it takes itself for the owner, or `lock_watcher_fn` is still
to be called for it, and makes it the owner (`lock_handed_over`). Out of that order `child_floor`
finds another node, or none.
-/

namespace PhpZookeeper

open Theory Prog Status

variable {srv : Server} {W : Type} [DecidableEq W]

/-! ### Runs with notifications -/

/-- The world when a notification of the client `w` has been taken. -/
def World.notified (s : World srv W) (w : W) : World srv W :=
  { s with events := Function.update s.events w (s.events w - 1) }

/-- The world when the client `w` is to be told that its connection has changed. -/
def World.sessionEvent (s : World srv W) (w : W) : World srv W :=
  { s with events := Function.update s.events w (s.events w + 1) }

/-- `WakeRun sid p s₀ past s`: from `s₀`, the calls `past`, the last one first, lead to `s`; the
clients' main threads call the functions of the lock, and the client library calls `lock_watcher_fn`
for one notification after another. -/
inductive WakeRun (sid : W → Sid) (p : CString) (s₀ : World srv W) :
    List (W × LineCall × Bool) → World srv W → Prop where
  | start : WakeRun sid p s₀ [] s₀
  | call {past : List (W × LineCall × Bool)} {s s' : World srv W} {b : Bool} (w : W)
      (r : LineCall) : WakeRun sid p s₀ past s →
      Returns (undisturbed sid p w .main) (lockCode p (sid w) r) s b s' →
      WakeRun sid p s₀ ((w, r, b) :: past) s'
  /-- What `zkr_lock_lock` answers here is lost, but is what `zkr_lock_isowner` says after it. -/
  | notify {past : List (W × LineCall × Bool)} {s s' : World srv W} (w : W) :
      WakeRun sid p s₀ past s → 0 < s.events w →
      Returns (undisturbed sid p w .watcher) (lockWatcherFn (sid w)) (s.notified w) () s' →
      WakeRun sid p s₀ ((w, .lock, (s'.memory w).lock.isowner) :: past) s'
  | sessionEvent {past : List (W × LineCall × Bool)} {s : World srv W} (w : W) :
      WakeRun sid p s₀ past s → s.watches w ≠ [] → WakeRun sid p s₀ past (s.sessionEvent w)

/-- Each client that has tried found the ids of the sessions in the order of the line. -/
def TriedInOrder (sid : W → Sid) (past : List (W × LineCall × Bool)) : Prop :=
  ∀ w b past', (w, LineCall.lock, b) :: past' <:+ past →
    (Line.after ((w, .lock, b) :: past')).InOrder sid w

/-! ### Whom the clients wait for -/

section Floor

variable {p : CString} {t : Nodes} {l : List (Sid × ℕ)} {session : Sid} {n : ℕ}

/-- The tickets, as they are listed. -/
def LockDir.listing (h : LockDir p t l) : Listing where
  entries := l
  lt e he := lt_ten_pow (h.mem_iff.mp (show (e.1, e.2) ∈ l from he)).1
  nodup := by
    obtain ⟨q, -, hl⟩ := h.queue
    exact List.pairwise_map.mpr (hl.sorted.imp fun hlt => hlt.ne)

theorem LockDir.sorted_listing (h : LockDir p t l) : h.listing.sorted = l := by
  obtain ⟨q, -, hl⟩ := h.queue
  exact (sortedBy_insertionSort Prod.snd l).eq_of_lt hl.sorted

/-- A client's place among the tickets. -/
theorem LockDir.around (h : LockDir p t l) (hn : (session, n) ∈ l) :
    ∃ before behind, h.listing.Around (session, n) before behind ∧
      l = before ++ (session, n) :: behind ∧ inFrontOf l (session, n) = before.getLast? := by
  obtain ⟨before, behind, haround⟩ := Listing.exists_around (l := h.listing) hn
  have hl : l = before ++ (session, n) :: behind := h.sorted_listing.symm.trans haround.sorted_eq
  refine ⟨before, behind, haround, hl, ?_⟩
  rw [hl, inFrontOf_append fun hmem => lt_irrefl _ (haround.before_lt _ hmem)]

/-- `child_floor` finds the node in front when the ids of the sessions are in order. -/
theorem LockDir.childFloor_eq (h : LockDir p t l) (hn : (session, n) ∈ l)
    (horder : h.listing.InOrder (session, n)) :
    childFloor (ticketNames l) (lockName session n) =
      (inFrontOf l (session, n)).map fun e => lockName e.1 e.2 := by
  obtain ⟨before, behind, haround, hl, hfront⟩ := h.around hn
  have hname : ∀ e ∈ l, queueName e = lockName e.1 e.2 := by
    intro e he
    have hlt := (h.mem_iff.mp (show (e.1, e.2) ∈ l from he)).1
    rw [queueName, lockName, sprintf010d_of_lt hlt]
  have hnames : ticketNames l = h.listing.sorted.map queueName := by
    rw [h.sorted_listing]
    exact List.map_congr_left fun e he => (hname e he).symm
  rw [hnames, ← hname _ hn, haround.childFloor_eq, haround.getLast?_eq_iff.mpr horder, hfront]
  refine Option.map_congr fun e he => hname e ?_
  rw [hl]
  exact List.mem_append_left _ (List.mem_of_getLast? he)

end Floor

section Awake

variable {sid : W → Sid} {p : CString} {line line' : Line W} {l l' : List (Sid × ℕ)}
  {s s' s₀ : World srv W} {v w : W} {n : ℕ} {past : List (W × LineCall × Bool)}

omit [DecidableEq W] in
/-- The ids in the order of the line are the ids in the order of the tickets. -/
theorem InLine.inOrder (h : InLine sid p line l s) (hsid : Function.Injective sid)
    (hn : (sid w, n) ∈ l) (horder : line.InOrder sid w) : h.dir.listing.InOrder (sid w, n) := by
  obtain ⟨before, behind, haround, hl, -⟩ := h.dir.around hn
  have hwaiting := h.waiting
  rw [hl, List.map_append, List.map_cons, eq_comm, List.map_eq_append_iff] at hwaiting
  obtain ⟨pre, rest, hline, hpre, hrest⟩ := hwaiting
  obtain ⟨v, post, rfl, hv, hpost⟩ := List.map_eq_cons_iff.mp hrest
  obtain rfl := hsid hv
  obtain ⟨hfront, hbehind⟩ := horder pre post hline
  constructor
  · intro e he hlt
    rcases haround.mem_iff.mp he with hmem | rfl | hmem
    · exact absurd (haround.before_lt e hmem) hlt.not_gt
    · exact le_rfl
    · obtain ⟨u, hu, heq⟩ := List.mem_map.mp (hpost ▸ List.mem_map_of_mem hmem)
      exact heq ▸ hbehind u hu
  · intro e he
    have hlast := congrArg List.getLast? hpre
    rw [List.getLast?_map, List.getLast?_map, haround.isPredecessor_iff.mp he, Option.map_some,
      Option.map_eq_some_iff] at hlast
    obtain ⟨u, hu, heq⟩ := hlast
    exact heq ▸ hfront u hu

/-- The client will hear of it when the one in front of it leaves, unless it does not know of its
place, or has been told that it is the first. -/
def Awake (sid : W → Sid) (p : CString) (line : Line W) (l : List (Sid × ℕ)) (s : World srv W)
    (w : W) : Prop :=
  line.joined w = true → line.told w = false → ∀ n, (sid w, n) ∈ l →
    s.Alert w ((inFrontOf l (sid w, n)).map fun e => childOf p (lockName e.1 e.2))

omit [DecidableEq W] in
/-- A call of another client that leaves the one in front of it in its place. -/
theorem Awake.kept (h : Awake sid p line l s v) (hheard : s.Heard s')
    (hjoined : line'.joined v = line.joined v) (htold : line'.told v = line.told v)
    (hfront : ∀ n, (sid v, n) ∈ l' →
      (sid v, n) ∈ l ∧ inFrontOf l' (sid v, n) = inFrontOf l (sid v, n)) :
    Awake sid p line' l' s' v := by
  intro hj ht n hn
  obtain ⟨hmem, hsame⟩ := hfront n hn
  rw [hsame]
  exact hheard v _ (h (hjoined ▸ hj) (htold ▸ ht) n hmem)

omit [DecidableEq W] in
/-- After a call of `zkr_lock_lock` the client is awake. -/
theorem InLine.awake_locked (h : InLine sid p line l s) (hsid : Function.Injective sid)
    (hnodup : line.waiting.Nodup) (hfirst : line.told w = (line.waiting.head? = some w))
    (horder : line.InOrder sid w) (hn : (sid w, n) ∈ l) (hbehind : Behind sid p w l n s) :
    Awake sid p line l s w := by
  intro _ ht m hm
  obtain rfl : n = m := congrArg Prod.snd (ticket_unique hsid hnodup h.waiting hn hm rfl)
  have hfloor := h.dir.childFloor_eq hn (h.inOrder hsid hn horder)
  cases hfront : inFrontOf l (sid w, n) with
  | some e =>
    rw [hfront, Option.map_some] at hfloor
    exact hbehind _ hfloor
  | none =>
    have hhead := (head_iff hsid hnodup h.waiting hn).mp ((inFrontOf_eq_none_iff hn).mp hfront)
    rw [eq_iff_iff] at hfirst
    rw [hfirst.mpr hhead] at ht
    cases ht

/-- **One call** leaves all awake, when it has found the ids in the order of the line. -/
theorem InLine.awake_call (h : InLine sid p line l s) {r : LineCall}
    (h' : InLine sid p (line.answer w r).2 l' s') (hsid : Function.Injective sid)
    (hnodup : (line.answer w r).2.waiting.Nodup) (hheard : s.Heard s')
    (heffect : Effect sid p w (line.joined w) l l' s s' r)
    (horder : r = .lock → (line.answer w r).2.InOrder sid w)
    (hawake : ∀ v, v ≠ w ∨ r = .isowner → Awake sid p line l s v) (v : W) :
    Awake sid p (line.answer w r).2 l' s' v := by
  cases r with
  | init =>
    obtain rfl : l' = l := heffect
    by_cases hv : v = w
    · subst hv
      intro hj
      simp [Line.answer] at hj
    · exact (hawake v (.inl hv)).kept hheard (Function.update_of_ne hv ..)
        (Function.update_of_ne hv ..) fun n hn => ⟨hn, rfl⟩
  | lock =>
    obtain ⟨n, hjoins, hbehind⟩ := heffect
    by_cases hv : v = w
    · subst hv
      refine h'.awake_locked hsid hnodup ?_ (horder rfl) hjoins.mem hbehind
      simp [Line.answer]
    · refine (hawake v (.inl hv)).kept hheard (Function.update_of_ne hv ..)
        (Function.update_of_ne hv ..) fun m hm => ?_
      rcases hjoins with ⟨-, rfl⟩ | ⟨-, rfl⟩
      · exact ⟨hm, rfl⟩
      · have hne : (sid v, m) ≠ (sid w, n) := fun heq => hv (hsid (congrArg Prod.fst heq))
        have hmem : (sid v, m) ∈ l := by simpa [hne] using hm
        exact ⟨hmem, inFrontOf_append_right hmem⟩
  | unlock =>
    simp only [Effect] at heffect
    simp only [Line.answer]
    split_ifs at heffect ⊢ with hj
    · obtain ⟨n, hn, rfl, hevents⟩ := heffect
      by_cases hv : v = w
      · subst hv
        intro hj'
        simp at hj'
      intro hj' ht m hm
      simp only [Function.update_of_ne hv] at hj' ht
      have hmem := List.mem_of_mem_filter hm
      have halert := hawake v (.inl hv) hj' ht m hmem
      by_cases hfront : inFrontOf l (sid v, m) = some (sid w, n)
      -- the client stood right behind the one that leaves
      · rw [hfront, Option.map_some] at halert
        exact .inl (hevents v halert)
      · have hne : (sid v, m) ≠ (sid w, n) := fun heq => hv (hsid (congrArg Prod.fst heq))
        rw [inFrontOf_filter hmem hne hfront]
        exact hheard v _ halert
    · subst heffect
      by_cases hv : v = w
      · subst hv
        intro hj'
        exact absurd hj' hj
      · exact (hawake v (.inl hv)).kept hheard rfl rfl fun n hn => ⟨hn, rfl⟩
  | isowner =>
    obtain rfl : l' = l := heffect
    exact (hawake v (.inr rfl)).kept hheard rfl rfl fun n hn => ⟨hn, rfl⟩

/-! ### Every run -/

theorem World.Alert.notified {x : Option CString} (h : s.Alert v x) (hv : v ≠ w) :
    (s.notified w).Alert v x := by
  simp only [World.Alert, World.notified, Function.update_of_ne hv]
  exact h

theorem World.heard_sessionEvent (s : World srv W) (w : W) : s.Heard (s.sessionEvent w) := by
  rintro v x (he | hw)
  · refine .inl ?_
    by_cases hv : v = w
    · subst hv
      simp [World.sessionEvent]
    · simpa only [World.sessionEvent, Function.update_of_ne hv] using he
  · exact .inr hw

theorem TriedInOrder.tail {e : W × LineCall × Bool} (h : TriedInOrder sid (e :: past)) :
    TriedInOrder sid past := fun w b past' hsuffix =>
  h w b past' (hsuffix.trans (List.suffix_cons e past))

/-- What the client takes itself for after a call of `zkr_lock_lock` is what the line answers. -/
theorem InLine.isowner_locked (h : InLine sid p (line.answer w .lock).2 l s) :
    (s.memory w).lock.isowner = (line.answer w .lock).1 := by
  rw [h.told w]
  simp [Line.answer]

/-- In every run all are awake, when each client that has tried found the ids in order. -/
theorem WakeRun.awake (h : WakeRun sid p s₀ past s) (hsid : Function.Injective sid)
    (hp : validPath p false = true) (h₀ : Fresh p s₀) (hids : TriedInOrder sid past) :
    ∃ line l, line.History past ∧ InLine sid p line l s ∧ ∀ w, Awake sid p line l s w := by
  induction h with
  | start =>
    refine ⟨_, _, .start, h₀.inLine, fun w hj => ?_⟩
    cases hj
  | call w r _ hreturns ih =>
    obtain ⟨line, l, hhistory, hinline, hawake⟩ := ih hids.tail
    obtain ⟨rfl, hheard, l', hinline', heffect⟩ :=
      (hinline.call hsid hp hhistory.nodup w .main r).returns hreturns
    have hhistory' := hhistory.call w r
    refine ⟨_, l', hhistory', hinline', hinline.awake_call hinline' hsid hhistory'.nodup hheard
      heffect (fun hr => ?_) fun v _ => hawake v⟩
    subst hr
    exact hhistory'.eq_after ▸ hids w _ _ List.suffix_rfl
  | @notify past s s' w _ _ hreturns ih =>
    obtain ⟨line, l, hhistory, hinline, hawake⟩ := ih hids.tail
    have hnotified : InLine sid p line l (s.notified w) := hinline.congr rfl rfl
    obtain ⟨b, s₁, hlock, hret⟩ := returns_bind_iff.mp hreturns
    obtain ⟨-, rfl⟩ := returns_ret_iff.mp hret
    obtain ⟨rfl, hheard, l', hinline', heffect⟩ :=
      (hnotified.call hsid hp hhistory.nodup w .watcher .lock).returns hlock
    have hhistory' := hhistory.call w .lock
    rw [← hinline'.isowner_locked] at hhistory'
    refine ⟨_, l', hhistory', hinline', hnotified.awake_call hinline' hsid hhistory'.nodup hheard
      heffect (fun _ => hhistory'.eq_after ▸ hids w _ _ List.suffix_rfl) fun v hv hj ht n hn => ?_⟩
    have hvw : v ≠ w := hv.resolve_right (by decide)
    exact (hawake v hj ht n hn).notified hvw
  | sessionEvent w _ _ ih =>
    obtain ⟨line, l, hhistory, hinline, hawake⟩ := ih hids
    exact ⟨line, l, hhistory, hinline.congr rfl rfl, fun v =>
      (hawake v).kept (World.heard_sessionEvent _ w) rfl rfl fun n hn => ⟨hn, rfl⟩⟩

/-- **The lock is handed over**: in every run of undisturbed calls and notifications in which each
client that tries finds the ids of the sessions in the order of the line, each client that knows of
its place and waits will hear of it when the one in front of it leaves; and the first of the line,
if it knows of its place, takes itself for the owner, or `lock_watcher_fn` is still to be called for
it, comes back and makes it the owner. -/
theorem lock_handed_over (hsid : Function.Injective sid) (hp : validPath p false = true)
    (h₀ : Fresh p s₀) (h : WakeRun sid p s₀ past s) (hids : TriedInOrder sid past) :
    ∃ line l, line.History past ∧ InLine sid p line l s ∧ (∀ w, Awake sid p line l s w) ∧
      ∀ w, line.joined w = true → line.waiting.head? = some w →
        (s.memory w).lock.isowner = true ∨ 0 < s.events w ∧
          ComesTo sid p w .watcher (lockWatcherFn (sid w)) (s.notified w) fun _ s' =>
            (s'.memory w).lock.isowner = true := by
  obtain ⟨line, l, hhistory, hinline, hawake⟩ := h.awake hsid hp h₀ hids
  refine ⟨line, l, hhistory, hinline, hawake, fun w hj hhead => ?_⟩
  cases ht : line.told w with
  | true => exact .inl ((hinline.told w).trans ht)
  | false =>
    have hjoined := hinline.joined w
    rw [if_pos hj] at hjoined
    obtain ⟨n, hn, -⟩ := hjoined
    have hfront := (inFrontOf_eq_none_iff hn).mpr
      ((head_iff hsid hhistory.nodup hinline.waiting hn).mpr hhead)
    have halert := hawake w hj ht n hn
    rw [hfront] at halert
    refine .inr ⟨halert.resolve_right (by simp), ?_⟩
    have hnotified : InLine sid p line l (s.notified w) := hinline.congr rfl rfl
    refine Total.bind (hnotified.call hsid hp hhistory.nodup w .watcher .lock) ?_
    rintro b s' ⟨-, -, l', hinline', -⟩
    refine .ret (hinline'.isowner_locked.trans ?_)
    simp [Line.answer, Line.head?_tried, hhead]

end Awake

/-- The calls and notifications `wakes`, the last one first; `none` is a notification. -/
def runWakes (sid : W → Sid) (p : CString) (s₀ : World treeServer W) :
    List (W × Option LineCall) → Option (List (W × LineCall × Bool) × World treeServer W)
  | [] => some ([], s₀)
  | (w, some r) :: wakes => (runWakes sid p s₀ wakes).bind (callOnce sid p w r)
  | (w, none) :: wakes =>
    (runWakes sid p s₀ wakes).bind fun x =>
      if 0 < x.2.events w then
        (exec (answerAtOnce sid p w .watcher) 200 (lockWatcherFn (sid w)) (x.2.notified w)).map
          fun y => ((w, .lock, (y.2.memory w).lock.isowner) :: x.1, y.2)
      else none

theorem wakeRun_of_runWakes {sid : W → Sid} {p : CString} {s₀ : World treeServer W}
    {wakes : List (W × Option LineCall)} {x : List (W × LineCall × Bool) × World treeServer W}
    (h : runWakes sid p s₀ wakes = some x) : WakeRun sid p s₀ x.1 x.2 := by
  induction wakes generalizing x with
  | nil =>
    obtain rfl := Option.some.inj h
    exact .start
  | cons c wakes ih =>
    obtain ⟨w, r⟩ := c
    cases r with
    | some r =>
      obtain ⟨x', hrun, hcall⟩ := Option.bind_eq_some_iff.mp h
      obtain ⟨b, hpast, hreturns⟩ := returns_of_callOnce hcall
      rw [hpast]
      exact .call w r (ih hrun) hreturns
    | none =>
      obtain ⟨x', hrun, hnotify⟩ := Option.bind_eq_some_iff.mp h
      obtain ⟨hevents, hnotify⟩ := Option.ite_none_right_eq_some.mp hnotify
      obtain ⟨⟨u, s⟩, hexec, rfl⟩ := Option.map_eq_some_iff.mp hnotify
      exact .notify w (ih hrun) hevents (returns_of_answerAtOnce hexec)

/-- The second client waits behind the first one, which then gives the lock up. -/
def secondWaits : List (Bool × LineCall × Bool) :=
  [(false, .unlock, true), (true, .lock, false), (false, .lock, true)]

theorem triedInOrder_secondWaits : TriedInOrder twoSids secondWaits := by
  intro w b past' hsuffix
  refine Line.inOrder_of_pairwise ?_
  rw [secondWaits, List.suffix_cons_iff, List.suffix_cons_iff, List.suffix_cons_iff] at hsuffix
  simp only [List.cons.injEq, Prod.mk.injEq, reduceCtorEq, false_and, and_false, false_or,
    List.suffix_nil, List.cons_ne_nil, or_false] at hsuffix
  rcases hsuffix with ⟨⟨rfl, -, rfl⟩, rfl⟩ | ⟨⟨rfl, -, rfl⟩, rfl⟩
  · decide
  · decide

/-- Then `lock_watcher_fn` is to be called for the second client, and makes it the owner. -/
theorem lock_handed_over_two :
    ∃ s, WakeRun twoSids "/l".toList twoClients secondWaits s ∧ 0 < s.events true ∧
      ComesTo twoSids "/l".toList true .watcher (lockWatcherFn (twoSids true)) (s.notified true)
        fun _ s' => (s'.memory true).lock.isowner = true := by
  have hwakes : (runWakes twoSids "/l".toList twoClients [(false, some .unlock),
      (true, some .lock), (false, some .lock)]).map
        (fun x => (x.1, (x.2.memory true).lock.isowner)) = some (secondWaits, false) := by
    decide +kernel
  obtain ⟨⟨past, s⟩, hrun, heq⟩ := Option.map_eq_some_iff.mp hwakes
  obtain ⟨rfl, howner⟩ := Prod.mk.inj heq
  have hwakerun : WakeRun twoSids "/l".toList twoClients secondWaits s := wakeRun_of_runWakes hrun
  obtain ⟨line, l, hhistory, -, -, hfirst⟩ :=
    lock_handed_over twoSids_injective (by decide) fresh_twoClients hwakerun
      triedInOrder_secondWaits
  obtain rfl := hhistory.eq_after
  rcases hfirst true (by decide) (by decide) with hown | ⟨hevents, hcomes⟩
  · rw [howner] at hown
    cases hown
  · exact ⟨s, hwakerun, hevents, hcomes⟩

end PhpZookeeper
