import PhpZookeeper.System.Undisturbed

/-!
# The lock is a waiting line

What `zoo_lock.c` is for: the clients get the lock in the order in which they first tried to take
it. Any number of clients call the functions of the lock, in any order and from either of their
threads, each call answered by the service and undisturbed by the others. Each call comes back, and
answers as the call of a lock with a waiting line does (`lock_calls_in_line`).
-/

namespace PhpZookeeper

open Theory Prog Status

variable {srv : Server} {W : Type} [DecidableEq W]

/-! ### Calls -/

/-- The code of a call of the client `session`, for the lock directory `p`: `zkr_lock_init`,
`zkr_lock_lock`, `zkr_lock_unlock` and `zkr_lock_isowner`, and whether they succeed. -/
def lockCode (p : CString) (session : Sid) : LineCall → Code Bool
  | .init => do
    let ret ← zkrLockInit p (some .zooOpenAclUnsafe)
    return ret = 0
  | .lock => zkrLockLock session
  | .unlock => do
    let ret ← zkrLockUnlock
    return ret = ZOK
  | .isowner => zkrLockIsowner

/-- `CallRun sid p s₀ past s`: from `s₀`, the undisturbed calls `past`, the last one first, lead to
`s`. -/
inductive CallRun (sid : W → Sid) (p : CString) (s₀ : World srv W) :
    List (W × LineCall × Bool) → World srv W → Prop where
  | start : CallRun sid p s₀ [] s₀
  | call {past : List (W × LineCall × Bool)} {s s' : World srv W} {b : Bool} (w : W) (th : Thread)
      (r : LineCall) : CallRun sid p s₀ past s →
      Returns (undisturbed sid p w th) (lockCode p (sid w) r) s b s' →
      CallRun sid p s₀ ((w, r, b) :: past) s'

/-- Every client has initialised its lock, and nothing is in the directory, which is there or can be
made. -/
structure Fresh (p : CString) (s : World srv W) : Prop where
  record : ∀ w, (s.memory w).lock = { path := some p, acl := some .zooOpenAclUnsafe }
  empty : ∀ x, s.nodes (childOf p x) = none
  directory : ∀ d, s.nodes p = some d → d.ephemeralOwner = none
  parent : s.nodes p = none → s.nodes.IsDirectory (parentOf p)

/-- The world stands for the line: `l` lists the tickets of the clients that wait, in the order of
their numbers, and each record is as its client knows. -/
structure InLine (sid : W → Sid) (p : CString) (line : Line W) (l : List (Sid × ℕ))
    (s : World srv W) : Prop where
  dir : LockDir p s.nodes l
  waiting : l.map Prod.fst = line.waiting.map sid
  joined : ∀ w, if line.joined w = true then
    ∃ n, (sid w, n) ∈ l ∧ (s.memory w).lock.id = some (lockName (sid w) n)
    else (s.memory w).lock.id = none
  told : ∀ w, (s.memory w).lock.isowner = line.told w
  record : ∀ w, LockOf p none (s.memory w)

section InLine

variable {sid : W → Sid} {p : CString} {line : Line W} {l l' : List (Sid × ℕ)}
  {s s' s₀ : World srv W} {w : W} {th : Thread} {n : ℕ}

omit [DecidableEq W] in
/-- Nobody waits at an empty directory. -/
theorem Fresh.inLine (h : Fresh p s) : InLine sid p {} [] s where
  dir := by
    let q : TicketQueue Sid := {
      next := ((s.nodes p).map Znode.cseq).getD 0
      waiting := ∅
      lt_next := fun hmem => hmem.elim
      unique := fun hmem => hmem.elim }
    refine ⟨⟨q, ⟨?_, ?_, ?_, fun _ => rfl⟩, by simp [q], List.Pairwise.nil⟩, ?_, h.directory,
      h.parent⟩
    · refine (Set.eq_empty_iff_forall_notMem.mpr fun x hx => ?_).symm
      exact hx.2 (h.empty _)
    · exact fun x _ hx => absurd (h.empty x) hx
    · intro d hd
      simp [q, hd]
    · rintro x hx ⟨y, hy, hy'⟩
      refine hy' ?_
      rw [show childOf (childOf p x) y = childOf p (x ++ '/' :: y) by simp [childOf]]
      exact h.empty _
  waiting := rfl
  joined w := by simp [h.record w]
  told w := by
    rw [h.record w]
    rfl
  record w := ⟨by rw [h.record w], by rw [h.record w], by rw [h.record w]⟩

namespace InLine

omit [DecidableEq W] in
theorem congr (h : InLine sid p line l s) (hmem : s'.memory = s.memory)
    (hnodes : s'.nodes = s.nodes) : InLine sid p line l s' where
  dir := hnodes ▸ h.dir
  waiting := h.waiting
  joined := hmem ▸ h.joined
  told := hmem ▸ h.told
  record := hmem ▸ h.record

/-- After a call of the client `w`, which keeps the others' tickets and records. -/
theorem update (h : InLine sid p line l s) {waiting' : List W} {j t : Bool}
    (hothers : ∀ v, v ≠ w → s'.memory v = s.memory v) (hdir : LockDir p s'.nodes l')
    (hwaiting : l'.map Prod.fst = waiting'.map sid)
    (hkept : ∀ v n, v ≠ w → (sid v, n) ∈ l → (sid v, n) ∈ l')
    (hjoined : if j = true then
      ∃ n, (sid w, n) ∈ l' ∧ (s'.memory w).lock.id = some (lockName (sid w) n)
      else (s'.memory w).lock.id = none)
    (htold : (s'.memory w).lock.isowner = t) (hrecord : LockOf p none (s'.memory w)) :
    InLine sid p {
      waiting := waiting'
      joined := Function.update line.joined w j
      told := Function.update line.told w t } l' s' where
  dir := hdir
  waiting := hwaiting
  joined v := by
    by_cases hv : v = w
    · subst hv
      simpa using hjoined
    · have hjoined' := h.joined v
      simp only [Function.update_of_ne hv]
      rw [hothers v hv]
      split_ifs at hjoined' ⊢
      · obtain ⟨n, hn, hid⟩ := hjoined'
        exact ⟨n, hkept v n hv hn, hid⟩
      · exact hjoined'
  told v := by
    by_cases hv : v = w
    · subst hv
      simpa using htold
    · simp only [Function.update_of_ne hv]
      rw [hothers v hv, h.told v]
  record v := by
    by_cases hv : v = w
    · rwa [hv]
    · rw [hothers v hv]
      exact h.record v

omit [DecidableEq W] in
/-- Who waits has a ticket. -/
theorem mem_waiting_iff (h : InLine sid p line l s) (hsid : Function.Injective sid) :
    w ∈ line.waiting ↔ ∃ n, (sid w, n) ∈ l := by
  have hmem : sid w ∈ line.waiting.map sid ↔ w ∈ line.waiting := List.mem_map_of_injective hsid
  rw [← hmem, ← h.waiting, List.mem_map]
  constructor
  · rintro ⟨⟨c, n⟩, hn, rfl⟩
    exact ⟨n, hn⟩
  · rintro ⟨n, hn⟩
    exact ⟨(sid w, n), hn, rfl⟩

end InLine

omit [DecidableEq W] in
/-- A client has one ticket. -/
theorem ticket_unique {waiting : List W} (hsid : Function.Injective sid) (hnodup : waiting.Nodup)
    (hl : l.map Prod.fst = waiting.map sid) {x y : Sid × ℕ} (hx : x ∈ l) (hy : y ∈ l)
    (hxy : x.1 = y.1) : x = y :=
  List.inj_on_of_nodup_map (hl ▸ hnodup.map hsid) hx hy hxy

omit [DecidableEq W] in
/-- The client that is first has the first ticket. -/
theorem head_iff {waiting : List W} (hsid : Function.Injective sid) (hnodup : waiting.Nodup)
    (hl : l.map Prod.fst = waiting.map sid) (hn : (sid w, n) ∈ l) :
    l.head? = some (sid w, n) ↔ waiting.head? = some w := by
  have hheads : l.head?.map Prod.fst = waiting.head?.map sid := by
    rw [← List.head?_map, hl, List.head?_map]
  constructor
  · intro hhead
    rw [hhead, Option.map_some, eq_comm, Option.map_eq_some_iff] at hheads
    obtain ⟨v, hv, hsame⟩ := hheads
    rw [hv, hsid hsame]
  · intro hhead
    rw [hhead, Option.map_some, Option.map_eq_some_iff] at hheads
    obtain ⟨x, hx, hsame⟩ := hheads
    rw [hx, ticket_unique hsid hnodup hl (List.mem_of_head? hx) hn hsame]

omit [DecidableEq W] in
/-- The tickets that are left when a client has handed in its own. -/
theorem map_filter_ticket [DecidableEq W] {waiting : List W} (hsid : Function.Injective sid)
    (hnodup : waiting.Nodup) (hl : l.map Prod.fst = waiting.map sid) (hn : (sid w, n) ∈ l) :
    (l.filter (· ≠ (sid w, n))).map Prod.fst = (waiting.erase w).map sid := by
  have hfilter : l.filter (· ≠ (sid w, n)) = l.filter ((· ≠ sid w) ∘ Prod.fst) := by
    refine List.filter_congr fun x hx => decide_eq_decide.mpr (not_congr ⟨fun h => ?_, fun h => ?_⟩)
    · rw [h]
    · exact ticket_unique hsid hnodup hl hx hn h
  rw [hfilter, ← List.filter_map, hl, hnodup.erase_eq_filter, List.filter_map]
  congr 1
  refine List.filter_congr fun v _ => ?_
  simp [bne, hsid.eq_iff, beq_eq_decide]

/-! ### One call -/

/-- What a call of the client `w` does to the tickets, and which watches it leaves: `joined` says
whether the client knew of its place. -/
def Effect (sid : W → Sid) (p : CString) (w : W) (joined : Bool) (l l' : List (Sid × ℕ))
    (s s' : World srv W) : LineCall → Prop
  | .lock => ∃ n, Joins (sid w) l n l' ∧ Behind sid p w l' n s'
  | .unlock =>
    if joined then
      ∃ n, (sid w, n) ∈ l ∧ l' = l.filter (· ≠ (sid w, n)) ∧
        ∀ v, s.Alert v (some (childOf p (lockName (sid w) n))) → 0 < s'.events v
    else l' = l
  | _ => l' = l

/-- What a call of the client `w` comes to, when the world stands for the line before it. -/
def Answered (sid : W → Sid) (p : CString) (w : W) (line : Line W) (l : List (Sid × ℕ))
    (s : World srv W) (r : LineCall) (b : Bool) (s' : World srv W) : Prop :=
  b = (line.answer w r).1 ∧ s.Heard s' ∧ ∃ l', InLine sid p (line.answer w r).2 l' s' ∧
    Effect sid p w (line.joined w) l l' s s' r

namespace InLine

variable (hsid : Function.Injective sid) (hp : validPath p false = true)
include hsid hp

/-- `zkr_lock_lock`: the client stands in the line, last when it did not stand there yet. -/
theorem lock (h : InLine sid p line l s) (hnodup : line.waiting.Nodup) :
    ComesTo sid p w th (lockCode p (sid w) .lock) s (Answered sid p w line l s .lock) := by
  refine (comesTo_zkrLockLock hp h.dir (h.record w)).mono ?_
  rintro b s' ⟨n, l', hjoins, hothers, hdir, hrecord, hid, howner, hfirst, hheard, hbehind⟩
  have hwaiting : l'.map Prod.fst = (line.tried w).map sid := by
    unfold Line.tried
    rcases hjoins with ⟨hn, rfl⟩ | ⟨hnot, rfl⟩
    · rw [if_pos ((h.mem_waiting_iff hsid).mpr ⟨n, hn⟩), h.waiting]
    · have hout : w ∉ line.waiting := fun hmem => by
        obtain ⟨m, hm⟩ := (h.mem_waiting_iff hsid).mp hmem
        exact hnot m hm
      rw [if_neg hout, List.map_append, List.map_append, h.waiting]
      rfl
  have hkept : ∀ v m, v ≠ w → (sid v, m) ∈ l → (sid v, m) ∈ l' := by
    intro v m _ hm
    rcases hjoins with ⟨-, rfl⟩ | ⟨-, rfl⟩
    · exact hm
    · exact List.mem_append_left _ hm
  have hb : b = decide ((line.tried w).head? = some w) := by
    rw [Bool.eq_iff_iff, decide_eq_true_iff, hfirst]
    exact head_iff hsid (Line.nodup_tried hnodup) hwaiting hjoins.mem
  refine ⟨hb, hheard, l', h.update hothers hdir hwaiting hkept ?_ (howner ▸ hb) hrecord, n,
    hjoins, hbehind⟩
  rw [if_pos rfl]
  exact ⟨n, hjoins.mem, hid⟩

/-- `zkr_lock_unlock`: a client that knows of its place gives it up. -/
theorem unlock (h : InLine sid p line l s) (hnodup : line.waiting.Nodup) :
    ComesTo sid p w th (lockCode p (sid w) .unlock) s (Answered sid p w line l s .unlock) := by
  have hjoined := h.joined w
  unfold Answered
  simp only [Line.answer, Effect]
  split_ifs at hjoined ⊢ with hj
  · obtain ⟨n, hn, hid⟩ := hjoined
    refine Total.bind (comesTo_zkrLockUnlock hp h.dir (h.record w) hid hn) ?_
    rintro ret s' ⟨rfl, hothers, hdir, hrecord, hnone, hheard, hevents⟩
    refine .ret ⟨rfl, hheard, _, h.update hothers hdir (map_filter_ticket hsid hnodup h.waiting hn)
      (fun v m hv hm => List.mem_filter.mpr ⟨hm, ?_⟩) (by rwa [if_neg (by decide)]) ?_ hrecord,
      n, hn, rfl, hevents⟩
    · have hne : sid v ≠ sid w := fun heq => hv (hsid heq)
      simp [hne]
    · simp [ZkrLockMutex.isowner, hnone]
  · refine Total.bind (comesTo_zkrLockUnlock_none (h.record w) hjoined) ?_
    rintro ret s' ⟨rfl, hnodes, hmem, hheard⟩
    exact .ret ⟨rfl, hheard, l, h.congr hmem hnodes, rfl⟩

omit hsid hp in
/-- `zkr_lock_init`: the client does not know of its place any more, but keeps it. -/
theorem init (h : InLine sid p line l s) :
    ComesTo sid p w th (lockCode p (sid w) .init) s (Answered sid p w line l s .init) := by
  refine comesTo_store (comesTo_inside (fun _ => rfl) (.ret ⟨rfl, .congr rfl rfl, l,
    h.update (fun v hv => ?_) h.dir h.waiting (fun _ _ _ hm => hm) ?_ ?_ ?_, rfl⟩))
  · rw [World.memory_modify, Function.update_of_ne hv, World.memory_modify,
      Function.update_of_ne hv]
  · rw [if_neg (by decide), World.memory_modify, Function.update_self, World.memory_modify,
      Function.update_self]
    rfl
  · rw [World.memory_modify, Function.update_self, World.memory_modify, Function.update_self]
    rfl
  · rw [World.memory_modify, Function.update_self, World.memory_modify, Function.update_self]
    exact ⟨rfl, rfl, rfl⟩

/-- **One call** comes back, and answers as the line does. -/
theorem call (h : InLine sid p line l s) (hnodup : line.waiting.Nodup) (w : W) (th : Thread)
    (r : LineCall) :
    ComesTo sid p w th (lockCode p (sid w) r) s (Answered sid p w line l s r) := by
  cases r with
  | init => exact h.init
  | lock => exact h.lock hsid hp hnodup
  | unlock => exact h.unlock hsid hp hnodup
  | isowner => exact comesTo_load (.ret ⟨h.told w, .refl s, l, h, rfl⟩)

end InLine

/-! ### Every run of calls -/

/-- **The lock is a waiting line**: in every run of undisturbed calls of `zkr_lock_init`,
`zkr_lock_lock`, `zkr_lock_unlock` and `zkr_lock_isowner` by any number of clients, each call comes
back and answers as the call of a lock with a waiting line does, in which the clients wait that
have tickets, in the order of the numbers; and at most one client takes itself for the owner. -/
theorem lock_calls_in_line (hsid : Function.Injective sid) (hp : validPath p false = true)
    (h₀ : Fresh p s₀) {past : List (W × LineCall × Bool)} (h : CallRun sid p s₀ past s) :
    ∃ line l, line.History past ∧ InLine sid p line l s ∧
      (∀ w th r, ComesTo sid p w th (lockCode p (sid w) r) s fun b _ =>
        b = (line.answer w r).1) ∧
      ∀ v w, (s.memory v).lock.isowner = true → (s.memory w).lock.isowner = true → v = w := by
  have hline : ∃ line l, line.History past ∧ InLine sid p line l s := by
    induction h with
    | start => exact ⟨_, _, .start, h₀.inLine⟩
    | call w th r _ hreturns ih =>
      obtain ⟨line, l, hhistory, hinline⟩ := ih
      obtain ⟨rfl, -, l', hinline', -⟩ :=
        (hinline.call hsid hp hhistory.nodup w th r).returns hreturns
      exact ⟨_, l', hhistory.call w r, hinline'⟩
  obtain ⟨line, l, hhistory, hinline⟩ := hline
  refine ⟨line, l, hhistory, hinline, fun w th r => ?_, fun v w hv hw => ?_⟩
  · exact (hinline.call hsid hp hhistory.nodup w th r).mono fun b s' hb => hb.1
  · rw [hinline.told] at hv hw
    exact hhistory.told_unique hv hw

end InLine

/-- An operation that is answered at once, while the numbers are below 2³¹. -/
def answerAtOnce (sid : W → Sid) (p : CString) (w : W) (th : Thread) (o : Op)
    (s : World treeServer W) : Option (o.Res × World treeServer W) :=
  (s.perform w (sid w) th { choice := ({} : TreeChoice) } o).filter fun x =>
    (x.2.nodes p).all fun d => d.cseq ≤ 2 ^ 31

theorem returns_of_answerAtOnce {sid : W → Sid} {p : CString} {w : W} {th : Thread} {α : Type}
    {code : Code α} {s s' : World treeServer W} {a : α} {n : ℕ}
    (h : exec (answerAtOnce sid p w th) n code s = some (a, s')) :
    Returns (undisturbed sid p w th) code s a s' := by
  refine returns_of_exec (fun o s r s' hperf => ?_) h
  obtain ⟨hperf, hbound⟩ := Option.filter_eq_some_iff.mp hperf
  refine ⟨⟨_, hperf⟩, fun d hd => ?_⟩
  simpa [hd] using hbound

/-- One more call by a main thread, with what it answers. -/
def callOnce (sid : W → Sid) (p : CString) (w : W) (r : LineCall)
    (x : List (W × LineCall × Bool) × World treeServer W) :
    Option (List (W × LineCall × Bool) × World treeServer W) :=
  (exec (answerAtOnce sid p w .main) 200 (lockCode p (sid w) r) x.2).map fun y =>
    ((w, r, y.1) :: x.1, y.2)

theorem returns_of_callOnce {sid : W → Sid} {p : CString} {w : W} {r : LineCall}
    {x y : List (W × LineCall × Bool) × World treeServer W}
    (h : callOnce sid p w r x = some y) : ∃ b, y.1 = (w, r, b) :: x.1 ∧
      Returns (undisturbed sid p w .main) (lockCode p (sid w) r) x.2 b y.2 := by
  obtain ⟨⟨b, s⟩, hexec, rfl⟩ := Option.map_eq_some_iff.mp h
  exact ⟨b, rfl, returns_of_answerAtOnce hexec⟩

/-- The calls `calls`, the last one first, with what they answer. -/
def runCalls (sid : W → Sid) (p : CString) (s₀ : World treeServer W) :
    List (W × LineCall) → Option (List (W × LineCall × Bool) × World treeServer W)
  | [] => some ([], s₀)
  | (w, r) :: calls => (runCalls sid p s₀ calls).bind (callOnce sid p w r)

theorem callRun_of_runCalls {sid : W → Sid} {p : CString} {s₀ : World treeServer W}
    {calls : List (W × LineCall)} {x : List (W × LineCall × Bool) × World treeServer W}
    (h : runCalls sid p s₀ calls = some x) : CallRun sid p s₀ x.1 x.2 := by
  induction calls generalizing x with
  | nil =>
    obtain rfl := Option.some.inj h
    exact .start
  | cons c calls ih =>
    obtain ⟨x', hrun, hcall⟩ := Option.bind_eq_some_iff.mp h
    obtain ⟨b, hpast, hreturns⟩ := returns_of_callOnce hcall
    rw [hpast]
    exact .call c.1 .main c.2 (ih hrun) hreturns

/-- Two clients of the directory `/l`, which is to be made. -/
def twoClients : World treeServer Bool where
  tree := [([], {})]
  memory _ := { lock := { path := some "/l".toList, acl := some .zooOpenAclUnsafe } }

theorem fresh_twoClients : Fresh "/l".toList twoClients := by
  have hnone : ∀ q : CString, q ≠ [] → twoClients.nodes q = none := by
    intro q hq
    show TreeState.get [([], {})] q = none
    rw [TreeState.get_cons, if_neg (Ne.symm hq)]
    rfl
  refine ⟨fun _ => rfl, fun x => hnone _ (by simp [childOf]), fun d hd => ?_,
    fun _ => ⟨{}, ?_, rfl⟩⟩
  · rw [hnone _ (by decide)] at hd
    cases hd
  · decide

/-- The second client gets the lock when the first one has given it up. -/
theorem lock_calls_in_line_two :
    ∃ past s line l, past = [(true, LineCall.lock, true), (false, .unlock, true),
        (true, .lock, false), (false, .lock, true)] ∧
      CallRun twoSids "/l".toList twoClients past s ∧ line.History past ∧
      InLine twoSids "/l".toList line l s := by
  have hcalls : (runCalls twoSids "/l".toList twoClients [(true, .lock), (false, .unlock),
      (true, .lock), (false, .lock)]).map Prod.fst = some [(true, .lock, true),
        (false, .unlock, true), (true, .lock, false), (false, .lock, true)] := by
    decide +kernel
  obtain ⟨⟨past, s⟩, hrun, rfl⟩ := Option.map_eq_some_iff.mp hcalls
  have hcallrun := callRun_of_runCalls hrun
  obtain ⟨line, l, hhistory, hinline, -⟩ :=
    lock_calls_in_line twoSids_injective (by decide) fresh_twoClients hcallrun
  exact ⟨_, s, line, l, rfl, hcallrun, hhistory, hinline⟩

end PhpZookeeper
