import PhpZookeeper.Session.Open
import PhpZookeeper.Theory.Stops

/-!
# The session stores of a process

A PHP process opens session stores in one request after another, and its persistent list is
destroyed when it ends. `php_zookeeper_connection_dtor` then closes the handles of the sessions
that are registered, each of them open and none twice, and gives the sessions back
(`stores_conserved`); until then a session that `PS_OPEN` has handed out keeps its handle, whatever
becomes of the openings after it. What stays behind are the sessions that could not be registered.
An `efree` gives a session back here, although it comes from `pecalloc`.
-/

namespace PhpZookeeper.SessionStore

open Theory Prog

/-! ### The end of a process -/

/-- `php_zookeeper_connection_dtor`: without a result, it reads a session that is not allocated, or
closes a handle that is not open. -/
def phpZookeeperConnectionDtor (rsrc : RsrcListEntry) (s : Process) : Option Process :=
  match rsrc.ptr with
  | none => some s
  | some p =>
    match s.sessions p with
    | none => none
    | some session =>
      match session.zk with
      -- `zookeeper_close(NULL)` only returns `ZBADARGUMENTS`
      | none => some { s with sessions := Function.update s.sessions p none }
      | some zk =>
        if s.handles zk then
          some { s with
            handles := Function.update s.handles zk false
            sessions := Function.update s.sessions p none }
        else none

/-- The persistent list is destroyed, entry by entry; those of other types are none of ours. -/
def destroyPersistentList : List CString → Process → Option Process
  | [], s => some s
  | key :: keys, s => do
    let s ← match s.persistentList key with
      | some ⟨.zookeeperConnection, p⟩ => phpZookeeperConnectionDtor ⟨.zookeeperConnection, p⟩ s
      | _ => some s
    destroyPersistentList keys
      { s with persistentList := Function.update s.persistentList key none }

/-- The session at `p` is in the persistent list, under `key`. -/
def Process.Lists (s : Process) (key : CString) (p : Ptr) : Prop :=
  s.persistentList key = some ⟨.zookeeperConnection, some p⟩

/-- A process that has opened no session store. -/
structure Process.IsNew (s : Process) : Prop where
  sessions : ∀ p, s.sessions p = none
  handles : ∀ zk, s.handles zk = false
  persistentList : ∀ key le, s.persistentList key = some le → le.type ≠ .zookeeperConnection
  modData : s.modData = none

/-- The runs of a process, up to the state `s`; of the outcomes of connecting nothing is known but
`ok`. When `zookeeper_init` gives no handle, and the list takes the entry all the same, `PS_OPEN`
faults, and there is no run that goes on. -/
inductive ProcessRun (ok : Connecting → Prop) : Process → Prop where
  | start {s : Process} : s.IsNew → ProcessRun ok s
  /-- `PS_OPEN` returns. -/
  | opened {s s' : Process} {env : Connecting} {savePath : CString} {out : Outcome Unit} :
      ProcessRun ok s → ok env → Returns (openSem env) (psOpenFunc savePath) s out s' →
      ProcessRun ok s'
  /-- `PS_OPEN` is left by an error, which ends the request. -/
  | failed {s s' : Process} {env : Connecting} {savePath : CString} {message : String} :
      ProcessRun ok s → ok env →
      StopsAt (openSem env) (psOpenFunc savePath) s (.error message) s' → ProcessRun ok s'
  /-- `PS_CLOSE`, or the end of the request. -/
  | closed {s : Process} : ProcessRun ok s → ProcessRun ok { s with modData := none }

/-! ### Who owns what -/

/-- Each session that is allocated has an open handle of its own, and each open handle has a
session; what the list and the module data have are such sessions. -/
structure Process.Owned (s : Process) : Prop where
  handle : ∀ p r, s.sessions p = some r → ∃ zk, r.zk = some zk ∧ s.handles zk = true
  session : ∀ zk, s.handles zk = true → ∃ p r, s.sessions p = some r ∧ r.zk = some zk
  unique : ∀ p q r r' zk, s.sessions p = some r → r.zk = some zk → s.sessions q = some r' →
    r'.zk = some zk → p = q
  listed : ∀ key p, s.persistentList key = some ⟨.zookeeperConnection, p⟩ →
    ∃ q, p = some q ∧ s.sessions q ≠ none
  distinct : ∀ key key' p, s.Lists key p → s.Lists key' p → key = key'
  nextSession : ∀ p, s.nextSession ≤ p → s.sessions p = none
  nextHandle : ∀ zk, s.nextHandle ≤ zk → s.handles zk = false
  modData : ∀ p, s.modData = some p → s.sessions p ≠ none

namespace Process.Owned

variable {s : Process}

theorem usable (h : s.Owned) {p : Ptr} (hp : s.sessions p ≠ none) : s.Usable p := by
  obtain ⟨r, hr⟩ := Option.ne_none_iff_exists'.mp hp
  obtain ⟨zk, hzk, hopen⟩ := h.handle p r hr
  exact ⟨r, zk, hr, hzk, hopen⟩

theorem of_isNew (h : s.IsNew) : s.Owned where
  handle p r hr := by
    rw [h.sessions] at hr
    cases hr
  session zk hzk := by
    rw [h.handles] at hzk
    cases hzk
  unique p q r r' zk hr := by
    rw [h.sessions] at hr
    cases hr
  listed key p hp := absurd rfl (h.persistentList key _ hp)
  distinct key key' p hp := absurd rfl (h.persistentList key _ hp)
  nextSession p _ := h.sessions p
  nextHandle zk _ := h.handles zk
  modData p hp := by
    rw [h.modData] at hp
    cases hp

/-- Addresses and handles that are not used again. -/
theorem passed (h : s.Owned) (k l : ℕ) :
    Process.Owned { s with nextSession := s.nextSession + k, nextHandle := s.nextHandle + l } where
  handle := h.handle
  session := h.session
  unique := h.unique
  listed := h.listed
  distinct := h.distinct
  nextSession p hp := h.nextSession p (le_of_add_le_left hp)
  nextHandle zk hzk := h.nextHandle zk (le_of_add_le_left hzk)
  modData := h.modData

theorem modData_of (h : s.Owned) {d : Option Ptr} (hd : ∀ p, d = some p → s.sessions p ≠ none) :
    Process.Owned { s with modData := d } where
  handle := h.handle
  session := h.session
  unique := h.unique
  listed := h.listed
  distinct := h.distinct
  nextSession := h.nextSession
  nextHandle := h.nextHandle
  modData := hd

theorem old_ne (h : s.Owned) {p zk : Ptr} {r : StoredSession} (hr : s.sessions p = some r)
    (hzk : r.zk = some zk) : zk ≠ s.nextHandle := by
  rintro rfl
  obtain ⟨zk', hzk', hopen⟩ := h.handle p r hr
  rw [hzk, Option.some.injEq] at hzk'
  rw [← hzk', h.nextHandle _ le_rfl] at hopen
  cases hopen

/-- A new session is nobody else's. -/
theorem made (h : s.Owned) : s.made.Owned where
  handle p r hr := by
    simp only [Process.made] at hr ⊢
    by_cases hp : p = s.nextSession
    · subst hp
      rw [Function.update_self, Option.some.injEq] at hr
      exact ⟨s.nextHandle, by rw [← hr], Function.update_self ..⟩
    · rw [Function.update_of_ne hp] at hr
      obtain ⟨zk, hzk, hopen⟩ := h.handle p r hr
      refine ⟨zk, hzk, ?_⟩
      by_cases hnew : zk = s.nextHandle
      · rw [hnew, Function.update_self]
      · rw [Function.update_of_ne hnew, hopen]
  session zk hzk := by
    simp only [Process.made] at hzk ⊢
    by_cases hnew : zk = s.nextHandle
    · subst hnew
      exact ⟨s.nextSession, _, Function.update_self .., rfl⟩
    · rw [Function.update_of_ne hnew] at hzk
      obtain ⟨p, r, hr, hrzk⟩ := h.session zk hzk
      refine ⟨p, r, ?_, hrzk⟩
      rwa [Function.update_of_ne]
      rintro rfl
      rw [h.nextSession _ le_rfl] at hr
      cases hr
  unique p q r r' zk hr hzk hr' hzk' := by
    simp only [Process.made] at hr hr'
    by_cases hp : p = s.nextSession <;> by_cases hq : q = s.nextSession
    · rw [hp, hq]
    · rw [hp, Function.update_self, Option.some.injEq] at hr
      rw [Function.update_of_ne hq] at hr'
      rw [← hr, Option.some.injEq] at hzk
      exact absurd hzk.symm (h.old_ne hr' hzk')
    · rw [Function.update_of_ne hp] at hr
      rw [hq, Function.update_self, Option.some.injEq] at hr'
      rw [← hr', Option.some.injEq] at hzk'
      exact absurd hzk'.symm (h.old_ne hr hzk)
    · rw [Function.update_of_ne hp] at hr
      rw [Function.update_of_ne hq] at hr'
      exact h.unique p q r r' zk hr hzk hr' hzk'
  listed key p hp := by
    obtain ⟨q, rfl, hq⟩ := h.listed key p hp
    refine ⟨q, rfl, ?_⟩
    simp only [Process.made]
    by_cases hnew : q = s.nextSession
    · simp [hnew]
    · rwa [Function.update_of_ne hnew]
  distinct := h.distinct
  nextSession p hp := by
    simp only [Process.made] at hp ⊢
    rw [Function.update_of_ne (Nat.ne_of_gt hp)]
    exact h.nextSession p (Nat.le_of_succ_le hp)
  nextHandle zk hzk := by
    simp only [Process.made] at hzk ⊢
    rw [Function.update_of_ne (Nat.ne_of_gt hzk)]
    exact h.nextHandle zk (Nat.le_of_succ_le hzk)
  modData p hp := by
    have hold := h.modData p hp
    simp only [Process.made]
    by_cases hnew : p = s.nextSession
    · simp [hnew]
    · rwa [Function.update_of_ne hnew]

/-- The new session is registered, where there was none. -/
theorem connected (h : s.Owned) {savePath : CString} (hentry : s.entry savePath = none) :
    (s.connected savePath).Owned := by
  have hmade := h.made
  have hnot : ∀ p, ¬ s.Lists (plistKey savePath) p := by
    intro p hp
    unfold Process.Lists at hp
    simp [Process.entry, hp] at hentry
  have hnew : ∀ key, ¬ s.Lists key s.nextSession := by
    intro key hkey
    obtain ⟨q, hq, hsession⟩ := h.listed key _ hkey
    obtain rfl := Option.some.inj hq
    exact hsession (h.nextSession _ le_rfl)
  have hlists : ∀ key p, (s.connected savePath).Lists key p →
      key = plistKey savePath ∧ p = s.nextSession ∨ s.Lists key p := by
    intro key p hp
    unfold Process.Lists at hp ⊢
    by_cases hkey : key = plistKey savePath
    · simp only [Process.connected, hkey, Function.update_self, Option.some.injEq] at hp
      cases hp
      exact .inl ⟨hkey, rfl⟩
    · simp only [Process.connected] at hp
      rw [Function.update_of_ne hkey] at hp
      exact .inr hp
  exact {
    handle := hmade.handle
    session := hmade.session
    unique := hmade.unique
    listed := by
      intro key p hp
      simp only [Process.connected] at hp ⊢
      by_cases hkey : key = plistKey savePath
      · rw [hkey, Function.update_self, Option.some.injEq] at hp
        cases hp
        exact ⟨s.nextSession, rfl, by simp [Process.made]⟩
      · rw [Function.update_of_ne hkey] at hp
        exact hmade.listed key p hp
    distinct := by
      intro key key' p hp hp'
      rcases hlists key p hp with ⟨rfl, rfl⟩ | hold <;>
        rcases hlists key' _ hp' with ⟨rfl, hnext⟩ | hold'
      · rfl
      · exact absurd hold' (hnew key')
      · exact absurd (hnext ▸ hold) (hnew key)
      · exact h.distinct key key' p hold hold'
    nextSession := hmade.nextSession
    nextHandle := hmade.nextHandle
    modData := by
      intro p hp
      obtain rfl : s.nextSession = p := Option.some.inj hp
      simp [Process.connected, Process.made] }

end Process.Owned

/-! ### Openings -/

variable {env : Connecting} {savePath : CString} {s s' : Process}

/-- `php_zookeeper_session_init` is left by its error after the handle has been closed and the
session given back. -/
theorem of_stopsAt_init {message : String} (h₀ : s.Owned)
    (h : StopsAt (openSem env) (phpZookeeperSessionInit savePath) s (.error message) s') :
    s' = { s with nextSession := s.nextSession + 1, nextHandle := s.nextHandle + 1 } := by
  have hsessions : Function.update s.sessions s.nextSession none = s.sessions := by
    rw [← h₀.nextSession _ le_rfl, Function.update_eq_self]
  have hhandles : Function.update s.handles s.nextHandle false = s.handles := by
    rw [← h₀.nextHandle _ le_rfl, Function.update_eq_self]
  simp only [phpZookeeperSessionInit, bind_eq, perform_bind, StopsAt.op_iff, reduceCtorEq,
    false_and, false_or] at h
  obtain ⟨p, s₁, ⟨rfl, rfl⟩, zk, s₂, hzk, _, s₃, ⟨r, hr, rfl⟩, h⟩ := h
  simp only [openSem] at hzk
  split_ifs at hzk
  · obtain ⟨rfl, rfl⟩ := hzk
    simp only [StopsAt.op_iff, reduceCtorEq, false_and, false_or] at h
    obtain ⟨out, s₄, ⟨-, rfl, -⟩, h⟩ := h
    cases out with
    | error m =>
      simp only [StopsAt.op_iff, reduceCtorEq, false_and, false_or] at h
      obtain ⟨_, s₅, ⟨-, rfl⟩, _, s₆, ⟨-, rfl⟩, h⟩ := h
      rcases h with ⟨-, rfl⟩ | ⟨e, -⟩
      · simp only [Function.update_idem, hsessions, hhandles]
      · exact e.elim
    | _ => exact (StopsAt.ret_iff.mp h).elim
  · obtain ⟨rfl, rfl⟩ := hzk
    simp only [StopsAt.op_iff, reduceCtorEq, false_and, false_or] at h
    obtain ⟨_, s₄, -, h⟩ := h
    exact (StopsAt.ret_iff.mp h).elim

/-- `PS_OPEN` is left by an error when the parent node cannot be made, or the session, if there is
one, cannot be registered. -/
theorem of_stopsAt_psOpenFunc {message : String} (h₀ : s.Owned)
    (h : StopsAt (openSem env) (psOpenFunc savePath) s (.error message) s') :
    s' = { s with nextSession := s.nextSession + 1, nextHandle := s.nextHandle + 1 } ∨
    env.updated = false ∧ (s' = { s with nextSession := s.nextSession + 1 } ∨ s' = s.made) := by
  have hsessions : Function.update s.sessions s.nextSession none = s.sessions := by
    rw [← h₀.nextSession _ le_rfl, Function.update_eq_self]
  simp only [psOpenFunc, phpZookeeperSessionGet, bind_eq, perform_bind, op_bind, StopsAt.op_iff,
    reduceCtorEq, false_and, false_or] at h
  obtain ⟨le, s₁, ⟨rfl, rfl⟩, h⟩ := h
  have hset : ∀ (p : Option Ptr) (t : Process), ¬ StopsAt (openSem env)
      (match p with
        | none => (Prog.op (.psSetModData none) fun _ => .ret .failure : OpenCode (Outcome Unit))
        | some q => .op (.psSetModData (some q)) fun _ => .ret (.success ())) t (.error message)
      s' := by
    intro p t hp
    cases p <;> simp at hp
  rcases StopsAt.of_bind h with hget | ⟨p, s₂, -, hrest⟩
  · split at hget
    · exact (StopsAt.ret_iff.mp hget).elim
    · rcases StopsAt.of_bind hget with hinit | ⟨session, s₂, hinit, hrest⟩
      · exact .inl (of_stopsAt_init h₀ hinit)
      · simp only [StopsAt.op_iff, reduceCtorEq, false_and, false_or, openSem] at hrest
        obtain ⟨ok, s₃, ⟨rfl, rfl⟩, hrest⟩ := hrest
        cases hupdated : env.updated with
        | false =>
          simp only [hupdated, Bool.not_false, if_true, Bool.false_eq_true, if_false,
            StopsAt.op_iff] at hrest
          rcases hrest with ⟨-, rfl⟩ | ⟨e, -⟩
          · refine .inr ⟨rfl, ?_⟩
            rcases returns_phpZookeeperSessionInit_iff.mp hinit with ⟨-, -, -, rfl⟩ | ⟨-, -, rfl⟩
            · exact .inr rfl
            · exact .inl (by rw [hsessions])
          · exact e.elim
        | true => simp [hupdated] at hrest
  · exact (hset p s₂ hrest).elim

theorem persistentList_of_entry {p : Option Ptr} (h : s.entry savePath = some p) :
    s.persistentList (plistKey savePath) = some ⟨.zookeeperConnection, p⟩ := by
  unfold Process.entry at h
  obtain ⟨le, hle, rfl⟩ := Option.map_eq_some_iff.mp h
  obtain ⟨hlist, htype⟩ := Option.filter_eq_some_iff.mp hle
  rw [hlist, ← of_decide_eq_true htype]

/-- The sessions that are registered are handed out again; a `NULL` session never is registered by
an opening that returns. -/
theorem Process.Owned.opened {out : Outcome Unit} (h : s.Owned)
    (hret : Returns (openSem env) (psOpenFunc savePath) s out s') : s'.Owned := by
  rw [returns_psOpenFunc_iff] at hret
  cases hentry : s.entry savePath with
  | some p =>
    rw [hentry] at hret
    obtain ⟨rfl, -⟩ := hret
    refine h.modData_of fun q hq => ?_
    obtain rfl : p = some q := hq
    obtain ⟨q', hq', hsession⟩ := h.listed _ _ (persistentList_of_entry hentry)
    rwa [Option.some.inj hq']
  | none =>
    rw [hentry] at hret
    obtain ⟨-, -, rfl⟩ := hret
    exact h.connected hentry

theorem ProcessRun.owned {ok : Connecting → Prop} (h : ProcessRun ok s) : s.Owned := by
  induction h with
  | start hnew => exact .of_isNew hnew
  | opened _ _ hret ih => exact ih.opened hret
  | failed _ _ hstop ih =>
    rcases of_stopsAt_psOpenFunc ih hstop with rfl | ⟨-, rfl | rfl⟩
    · exact ih.passed 1 1
    · exact ih.passed 1 0
    · exact ih.made
  | closed _ ih => exact ih.modData_of nofun

/-- When registering never fails, each session is registered. -/
theorem ProcessRun.listed {ok : Connecting → Prop} (hok : ∀ env, ok env → env.updated = true)
    (h : ProcessRun ok s) {p : Ptr} (hp : s.sessions p ≠ none) : ∃ key, s.Lists key p := by
  induction h with
  | start hnew => exact absurd (hnew.sessions p) hp
  | @opened s s' env savePath out hrun _ hret ih =>
    rw [returns_psOpenFunc_iff] at hret
    cases hentry : s.entry savePath with
    | some p =>
      rw [hentry] at hret
      obtain ⟨rfl, -⟩ := hret
      exact ih hp
    | none =>
      rw [hentry] at hret
      obtain ⟨-, -, rfl⟩ := hret
      simp only [Process.connected, Process.made] at hp
      by_cases hnew : p = s.nextSession
      · exact ⟨plistKey savePath, by simp [Process.Lists, Process.connected, hnew]⟩
      · rw [Function.update_of_ne hnew] at hp
        obtain ⟨key, hkey⟩ := ih hp
        refine ⟨key, ?_⟩
        unfold Process.Lists
        simp only [Process.connected]
        rw [Function.update_of_ne]
        · exact hkey
        · rintro rfl
          unfold Process.Lists at hkey
          simp [Process.entry, hkey] at hentry
  | failed hrun henv hstop ih =>
    rcases of_stopsAt_psOpenFunc hrun.owned hstop with rfl | ⟨hupdated, -⟩
    · exact ih hp
    · rw [hok _ henv] at hupdated
      cases hupdated
  | closed _ ih => exact ih hp

/-! ### The end -/

/-- The persistent list without an entry. -/
def Process.unlist (s : Process) (key : CString) : Process :=
  { s with persistentList := Function.update s.persistentList key none }

theorem lists_unlist {key key' : CString} {p : Ptr} :
    (s.unlist key).Lists key' p ↔ key' ≠ key ∧ s.Lists key' p := by
  unfold Process.Lists Process.unlist
  by_cases hkey : key' = key
  · simp [hkey]
  · simp [hkey]

/-- The session at `p` is closed, and given back. -/
def Process.release (s : Process) (p zk : Ptr) : Process :=
  { s with
    handles := Function.update s.handles zk false
    sessions := Function.update s.sessions p none }

namespace Process.Owned

theorem unlist (h : s.Owned) (key : CString) : (s.unlist key).Owned where
  handle := h.handle
  session := h.session
  unique := h.unique
  listed key' p hp := by
    by_cases hkey : key' = key
    · simp [Process.unlist, hkey] at hp
    · simp only [Process.unlist] at hp
      rw [Function.update_of_ne hkey] at hp
      exact h.listed key' p hp
  distinct key' key'' p hp hp' :=
    h.distinct key' key'' p (lists_unlist.mp hp).2 (lists_unlist.mp hp').2
  nextSession := h.nextSession
  nextHandle := h.nextHandle
  modData := h.modData

/-- A session that is in the list no more is closed. -/
theorem release (h : s.Owned) {p zk : Ptr} {r : StoredSession} (hr : s.sessions p = some r)
    (hzk : r.zk = some zk) (hlists : ∀ key, ¬ s.Lists key p) (hdata : s.modData = none) :
    (s.release p zk).Owned := by
  have hother : ∀ q r', (s.release p zk).sessions q = some r' → q ≠ p ∧ s.sessions q = some r' := by
    intro q r' hr'
    by_cases hq : q = p
    · simp [Process.release, hq] at hr'
    · exact ⟨hq, by simpa [Process.release, hq] using hr'⟩
  exact {
    handle := by
      intro q r' hr'
      obtain ⟨hq, hold⟩ := hother q r' hr'
      obtain ⟨zk', hzk', hopen⟩ := h.handle q r' hold
      refine ⟨zk', hzk', ?_⟩
      simp only [Process.release]
      rw [Function.update_of_ne, hopen]
      rintro rfl
      exact hq (h.unique q p r' r zk' hold hzk' hr hzk)
    session := by
      intro zk' hzk'
      by_cases hsame : zk' = zk
      · simp [Process.release, hsame] at hzk'
      · obtain ⟨q, r', hr', hrzk⟩ := h.session zk' (by simpa [Process.release, hsame] using hzk')
        refine ⟨q, r', ?_, hrzk⟩
        simp only [Process.release]
        rw [Function.update_of_ne, hr']
        rintro rfl
        rw [hr, Option.some.injEq] at hr'
        rw [← hr', hzk, Option.some.injEq] at hrzk
        exact hsame hrzk.symm
    unique := fun q q' r₁ r₂ zk' hr₁ hzk₁ hr₂ hzk₂ =>
      h.unique q q' r₁ r₂ zk' (hother q r₁ hr₁).2 hzk₁ (hother q' r₂ hr₂).2 hzk₂
    listed := by
      intro key q hq
      obtain ⟨q', rfl, hsession⟩ := h.listed key q hq
      refine ⟨q', rfl, ?_⟩
      simp only [Process.release]
      rwa [Function.update_of_ne]
      rintro rfl
      exact hlists key hq
    distinct := h.distinct
    nextSession := by
      intro q hq
      by_cases hsame : q = p
      · simp [Process.release, hsame]
      · simpa [Process.release, hsame] using h.nextSession q hq
    nextHandle := by
      intro zk' hzk'
      by_cases hsame : zk' = zk
      · simp [Process.release, hsame]
      · simpa [Process.release, hsame] using h.nextHandle zk' hzk'
    modData := by
      intro q hq
      rw [show (s.release p zk).modData = s.modData from rfl, hdata] at hq
      cases hq }

/-- One entry is destroyed: its session, if it is one of ours, is closed and given back. -/
theorem destroyEntry (h : s.Owned) (hdata : s.modData = none) (key : CString) :
    ∃ s₁ : Process,
      (∀ keys, destroyPersistentList (key :: keys) s = destroyPersistentList keys s₁) ∧
      s₁.Owned ∧ s₁.modData = none ∧
      (∀ key' p, s₁.Lists key' p ↔ key' ≠ key ∧ s.Lists key' p) ∧
      (∀ p, s.Lists key p → s₁.sessions p = none) ∧
      ∀ p, ¬ s.Lists key p → s₁.sessions p = s.sessions p := by
  by_cases hkey : ∃ p, s.Lists key p
  · obtain ⟨p, hp⟩ := hkey
    obtain ⟨q, hq, hsession⟩ := h.listed key _ hp
    obtain rfl := Option.some.inj hq
    obtain ⟨r, zk, hr, hzk, hopen⟩ := h.usable hsession
    have hnot : ∀ key', ¬ (s.unlist key).Lists key' p := by
      intro key' hp'
      obtain ⟨hne, hold⟩ := lists_unlist.mp hp'
      exact hne (h.distinct key' key p hold hp)
    refine ⟨(s.unlist key).release p zk, fun keys => ?_, (h.unlist key).release hr hzk hnot hdata,
      hdata, fun key' p' => lists_unlist, fun p' hp' => ?_, fun p' hp' => ?_⟩
    · unfold Process.Lists at hp
      simp only [destroyPersistentList, hp, phpZookeeperConnectionDtor, hr, hzk, hopen]
      rfl
    · unfold Process.Lists at hp hp'
      rw [hp] at hp'
      cases hp'
      simp [Process.release]
    · simp only [Process.release]
      rw [Function.update_of_ne]
      · rfl
      · rintro rfl
        exact hp' hp
  · have hnone : ∀ p, s.persistentList key ≠ some ⟨.zookeeperConnection, p⟩ := by
      intro p hp
      obtain ⟨q, rfl, -⟩ := h.listed key p hp
      exact hkey ⟨q, hp⟩
    refine ⟨s.unlist key, fun keys => ?_, h.unlist key, hdata, fun key' p => lists_unlist,
      fun p hp => absurd ⟨p, hp⟩ hkey, fun p _ => rfl⟩
    rw [destroyPersistentList]
    split
    · next p hp => exact absurd hp (hnone p)
    · rfl

/-- The list is destroyed: the sessions in it are closed and given back, and the others stay. -/
theorem destroyed (h : s.Owned) (hdata : s.modData = none) (keys : List CString) :
    ∃ s', destroyPersistentList keys s = some s' ∧ s'.Owned ∧
      (∀ p, (∃ key ∈ keys, s.Lists key p) → s'.sessions p = none) ∧
      ∀ p, (∀ key ∈ keys, ¬ s.Lists key p) → s'.sessions p = s.sessions p := by
  induction keys generalizing s with
  | nil => exact ⟨s, rfl, h, by simp, fun _ _ => rfl⟩
  | cons key keys ih =>
    obtain ⟨s₁, hdestroy, hs₁, hdata₁, hlists, hgone, hstay⟩ := h.destroyEntry hdata key
    obtain ⟨s', hs', howned, hgone', hstay'⟩ := ih hs₁ hdata₁
    refine ⟨s', (hdestroy keys).trans hs', howned, ?_, ?_⟩
    · rintro p ⟨key', hkey', hp⟩
      by_cases hkey : key' = key
      · subst hkey
        rw [hstay' p fun key'' _ hp' => ?_, hgone p hp]
        obtain ⟨hne, hold⟩ := (hlists key'' p).mp hp'
        exact hne (h.distinct key'' key' p hold hp)
      · refine hgone' p ⟨key', ?_, (hlists key' p).mpr ⟨hkey, hp⟩⟩
        exact (List.mem_cons.mp hkey').resolve_left hkey
    · intro p hp
      rw [hstay' p fun key' hkey' hp' => ?_, hstay p (hp key List.mem_cons_self)]
      exact hp key' (List.mem_cons_of_mem _ hkey') ((hlists key' p).mp hp').2

end Process.Owned

/-- **The handles of the session stores**: the module data is a session with an open handle, and at
the end `php_zookeeper_connection_dtor` closes the handles of the sessions that are registered, each
of them open and none twice; if registering never fails, they are all there are. -/
theorem stores_conserved {ok : Connecting → Prop} (h : ProcessRun ok s) :
    (∀ p, s.modData = some p → s.Usable p) ∧
    (s.modData = none → ∀ keys, (∀ key, s.persistentList key ≠ none → key ∈ keys) →
      ∃ s', destroyPersistentList keys s = some s' ∧
        (∀ zk, s'.handles zk = true ↔ ∃ p r, s.sessions p = some r ∧ r.zk = some zk ∧
          ∀ key, ¬ s.Lists key p) ∧
        ((∀ env, ok env → env.updated = true) →
          (∀ zk, s'.handles zk = false) ∧ ∀ p, s'.sessions p = none)) := by
  have howned := h.owned
  refine ⟨fun p hp => howned.usable (howned.modData p hp), fun hdata keys hkeys => ?_⟩
  obtain ⟨s', hs', howned', hgone, hstay⟩ := howned.destroyed hdata keys
  have hall : ∀ key p, s.Lists key p → key ∈ keys := fun key p hp =>
    hkeys key fun hnone => by rw [Process.Lists, hnone] at hp; cases hp
  refine ⟨s', hs', fun zk => ?_, fun hok => ?_⟩
  · constructor
    · intro hzk
      obtain ⟨p, r, hr, hrzk⟩ := howned'.session zk hzk
      have hnot : ∀ key, ¬ s.Lists key p := by
        intro key hp
        rw [hgone p ⟨key, hall key p hp, hp⟩] at hr
        cases hr
      rw [hstay p fun key _ => hnot key] at hr
      exact ⟨p, r, hr, hrzk, hnot⟩
    · rintro ⟨p, r, hr, hrzk, hnot⟩
      rw [← hstay p fun key _ => hnot key] at hr
      obtain ⟨zk', hzk', hopen⟩ := howned'.handle p r hr
      rw [hrzk, Option.some.injEq] at hzk'
      rw [hzk', hopen]
  · have hnone : ∀ p, s'.sessions p = none := by
      intro p
      by_cases hp : ∃ key, s.Lists key p
      · obtain ⟨key, hp⟩ := hp
        exact hgone p ⟨key, hall key p hp, hp⟩
      · rw [hstay p fun key _ hkey => hp ⟨key, hkey⟩]
        by_contra hsession
        exact hp (h.listed hok hsession)
    refine ⟨fun zk => ?_, hnone⟩
    by_contra hzk
    obtain ⟨p, r, hr, -⟩ := howned'.session zk (Bool.eq_true_of_not_eq_false hzk)
    rw [hnone p] at hr
    cases hr

/-- A process that has opened the stores `h` and `g`, and is over. -/
def twoStores : Process :=
  { ({} : Process).connected ['h'] |>.connected ['g'] with modData := none }

/-- Their handles are closed, and their sessions given back. -/
theorem stores_conserved_two : ∃ s',
    destroyPersistentList [plistKey ['g'], plistKey ['h']] twoStores = some s' ∧
      (∀ zk, s'.handles zk = false) ∧ ∀ p, s'.sessions p = none := by
  let ok : Connecting → Prop := fun env => env.updated = true
  have hopen : ∀ (s : Process) (savePath : CString), s.entry savePath = none → ProcessRun ok s →
      ProcessRun ok (s.connected savePath) := by
    intro s savePath hentry hs
    let env : Connecting := ⟨true, fun _ => { rc := .ZOK }, true⟩
    have hret : Returns (openSem env) (psOpenFunc savePath) s (.success ())
        (s.connected savePath) := by
      rw [returns_psOpenFunc_iff, hentry]
      exact ⟨⟨rfl, .inl (by decide), rfl⟩, rfl, rfl⟩
    exact .opened hs (show ok env from rfl) hret
  have hnew : ({} : Process).IsNew := ⟨fun _ => rfl, fun _ => rfl, by simp, rfl⟩
  have hrun : ProcessRun ok twoStores :=
    .closed (hopen _ ['g'] (by decide) (hopen _ ['h'] (by decide) (.start hnew)))
  have hkeys : ∀ key, twoStores.persistentList key ≠ none →
      key ∈ [plistKey ['g'], plistKey ['h']] := by
    intro key hkey
    by_contra hnot
    simp only [List.mem_cons, List.not_mem_nil, or_false, not_or] at hnot
    simp [twoStores, Process.connected, Process.made, hnot] at hkey
  obtain ⟨s', hs', -, hclosed⟩ := (stores_conserved hrun).2 rfl _ hkeys
  exact ⟨s', hs', hclosed fun _ => id⟩

end PhpZookeeper.SessionStore
