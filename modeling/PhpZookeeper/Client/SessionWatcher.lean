import PhpZookeeper.Client.Registry

/-!
# The watcher of a session

A sequence of calls of `connect` and `setWatcher` on one object. Three places hold the watcher: the
handle's function and the handle's context, which an event of the session is delivered with, and
`i_obj->cb_data`. `setWatcher` changes the first and the last, and frees the record that the
context still points to; and a handle that a second `connect` has replaced keeps its own watcher.
In the sequences that avoid both, each event calls the callback that was passed last
(`session_watcher`); `session_watcher_freed` is one that does not.
-/

namespace PhpZookeeper

open Theory Prog Status

/-! ### Sequences of calls -/

/-- What one operation may do, whatever the client library answers. -/
def Ext.sem (o : ExtOp) (s : Ext) (r : o.Res) (s' : Ext) : Prop :=
  ∃ a, Ext.perform a o s = some (r, s')

/-- A call that may set a watcher. -/
inductive WatcherCall where
  | connect (fci : Option Callable) (recvTimeout : Int64)
  | setWatcher (fci : Callable)
  deriving DecidableEq

namespace WatcherCall

/-- The code of a call. -/
def code (object : Ptr) : WatcherCall → ExtCode MethodResult
  | .connect fci recvTimeout => Zookeeper.connect object fci recvTimeout
  | .setWatcher fci => Zookeeper.setWatcher object fci

/-- The callback that is passed. -/
def passed : WatcherCall → Option Callable
  | .connect fci _ => fci
  | .setWatcher fci => some fci

end WatcherCall

/-- The callback passed last, in calls of which the last one comes first. -/
def lastPassed (cs : List WatcherCall) : Option Callable := cs.findSome? WatcherCall.passed

/-- `Calls object ok s₀ cs s`: the calls `cs`, the last one first, each of which is `ok`, lead from
`s₀` to `s`. -/
inductive Calls (object : Ptr) (ok : WatcherCall → List WatcherCall → Ext → Prop) (s₀ : Ext) :
    List WatcherCall → Ext → Prop where
  | refl : Calls object ok s₀ [] s₀
  | call {c : WatcherCall} {cs : List WatcherCall} {s s' : Ext} {r : MethodResult} :
      Calls object ok s₀ cs s → ok c cs s → Returns Ext.sem (c.code object) s r s' →
      Calls object ok s₀ (c :: cs) s'

/-- The call of `php_zk_watcher_marshal` for an event whose watcher has the context: it reads a
record that has not been freed, and no other, calls `f` once, and returns. -/
def Ext.Notifies (s : Ext) (context : Option Ptr) (f : Callable) : Prop :=
  ∃ p r, context = some p ∧ s.IsLive p r ∧
    (∃ tr s', Run Ext.sem (phpZkWatcherMarshal p) s tr () s') ∧
    ∀ tr s', Run Ext.sem (phpZkWatcherMarshal p) s tr () s' →
      tr = [.readCbData p, .zendCallFunction f, .readCbData p] ∧ s' = s

/-- An event of a session that the object has been connected with calls the callback passed last,
through a record that has not been freed, or nothing. -/
def SessionOk (s₀ : Ext) (cs : List WatcherCall) (s : Ext) : Prop :=
  ∀ zk c, s₀.handles.length ≤ zk → s.handles[zk]? = some c → c.watcher = true →
    ∃ f, lastPassed cs = some f ∧ s.Notifies c.context f

/-- `setWatcher` is only called on an object that is not connected, and `connect` is only given
another callback while no handle of the object has a watcher. -/
def SetsOnce (s₀ : Ext) (object : Ptr) (c : WatcherCall) (cs : List WatcherCall) (s : Ext) : Prop :=
  match c with
  | .setWatcher _ => (s.objects object).zk = none
  | .connect none _ => True
  | .connect (some f) _ => lastPassed cs = some f ∨
      ∀ zk c, s₀.handles.length ≤ zk → s.handles[zk]? = some c → c.watcher = false

/-- The object is new, and the records that have been freed have been made. -/
structure Ext.IsNew (s : Ext) (object : Ptr) : Prop where
  object : s.objects object = {}
  freed : ∀ p ∈ s.freed, p < s.records.length

/-! ### What a call does -/

section Calls

variable {s₀ s s' : Ext} {object : Ptr} {r : MethodResult}

/-- `newCbData` without an answer of the library. -/
def Ext.newCbData (s : Ext) : Option Callable → Option Ptr × Ext
  | some f => (some (s.phpCbDataNew f false).1, (s.phpCbDataNew f false).2)
  | none => (none, s)

/-- The state after a `connect` that has a new handle. -/
def Ext.connected (s : Ext) (object : Ptr) (fci : Option Callable) : Ext :=
  let x := s.newCbData fci
  { x.2 with
    handles := x.2.handles ++ [{ watcher := fci.isSome, context := x.1 }]
    objects := Function.update x.2.objects object
      { zk := some x.2.handles.length, cbData := x.1 } }

theorem returns_newCbData {fci : Option Callable} {q : Option Ptr}
    (h : Returns Ext.sem (newCbData fci false) s q s') : (q, s') = s.newCbData fci := by
  cases fci with
  | none =>
    obtain ⟨rfl, rfl⟩ := returns_ret_iff.mp h
    rfl
  | some f =>
    obtain ⟨p, s₁, ⟨a, hperf⟩, hret⟩ := returns_op_iff.mp h
    obtain ⟨rfl, rfl⟩ := returns_ret_iff.mp hret
    obtain ⟨rfl, rfl⟩ := Prod.mk.inj (Option.some.inj hperf)
    rfl

/-- A `connect` that returns has made a handle, or done nothing. -/
theorem returns_connect {fci : Option Callable} {recvTimeout : Int64}
    (h : Returns Ext.sem (Zookeeper.connect object fci recvTimeout) s r s') :
    s' = s ∨ s' = s.connected object fci := by
  unfold Zookeeper.connect phpZookeeperConnectImpl at h
  split_ifs at h with ht
  · left
    obtain ⟨u, s₁, ⟨a, hwarn⟩, h⟩ := returns_op_iff.mp h
    obtain ⟨v, s₂, ⟨b, hnull⟩, h⟩ := returns_op_iff.mp h
    obtain ⟨-, rfl⟩ := returns_ret_iff.mp h
    obtain rfl := congrArg Prod.snd (Option.some.inj hwarn)
    exact (congrArg Prod.snd (Option.some.inj hnull)).symm
  · obtain ⟨cbData, s₁, hnew, h⟩ := returns_bind_iff.mp h
    obtain ⟨zk, s₂, ⟨a, hinit⟩, h⟩ := returns_op_iff.mp h
    have hx := returns_newCbData hnew
    cases zk with
    | none =>
      obtain ⟨e, -⟩ := returns_op_iff.mp h
      exact nomatch e
    | some zk =>
      right
      have hsome : a.init = true := by
        by_contra ha
        simp [Ext.perform, ha] at hinit
      simp only [Ext.perform, hsome, if_true] at hinit
      obtain ⟨hzk, rfl⟩ := Prod.mk.inj (Option.some.inj hinit)
      obtain rfl := Option.some.inj hzk
      obtain ⟨u, s₃, ⟨b, hzk⟩, h⟩ := returns_op_iff.mp h
      obtain ⟨v, s₄, ⟨d, hcb⟩, h⟩ := returns_op_iff.mp h
      obtain ⟨-, rfl⟩ := returns_ret_iff.mp h
      obtain rfl := congrArg Prod.snd (Option.some.inj hzk)
      obtain rfl := congrArg Prod.snd (Option.some.inj hcb)
      simp only [Ext.connected, ← hx, Function.update_self, Function.update_idem]

/-- `setWatcher` on an object that is not connected. -/
theorem returns_setWatcher_none {fci : Callable} (hzk : (s.objects object).zk = none)
    (h : Returns Ext.sem (Zookeeper.setWatcher object fci) s r s') : s' = s := by
  obtain ⟨o, s₁, ⟨a, hread⟩, h⟩ := returns_op_iff.mp h
  obtain ⟨rfl, rfl⟩ := Prod.mk.inj (Option.some.inj hread)
  simp only [ret_bind, hzk] at h
  obtain ⟨u, s₂, ⟨b, hwarn⟩, h⟩ := returns_op_iff.mp h
  obtain ⟨-, rfl⟩ := returns_ret_iff.mp h
  exact (congrArg Prod.snd (Option.some.inj hwarn)).symm

theorem lastPassed_cons (c : WatcherCall) (cs : List WatcherCall) :
    lastPassed (c :: cs) = c.passed.or (lastPassed cs) := by
  rw [lastPassed, List.findSome?_cons]
  cases c.passed <;> rfl

theorem Ext.IsLive.newCbData {p : Ptr} {t : CbData} (h : s.IsLive p t) (fci : Option Callable) :
    (s.newCbData fci).2.IsLive p t := by
  cases fci with
  | none => exact h
  | some f =>
    refine ⟨?_, h.2⟩
    show (s.records ++ [_])[p]? = some t
    rw [List.getElem?_append_left (List.getElem?_eq_some_iff.mp h.1).1]
    exact h.1

theorem Ext.handles_newCbData (s : Ext) (fci : Option Callable) :
    (s.newCbData fci).2.handles = s.handles := by
  cases fci <;> rfl

/-- The record of a watcher that lasts is read, its callback is called, and it is read again. -/
theorem run_marshal_iff {p : Ptr} {t : CbData} (hp : s.IsLive p t) (hlasts : t.oneshot = false)
    {tr : List ExtOp} {u : Unit} : Run Ext.sem (phpZkWatcherMarshal p) s tr u s' ↔
      tr = [.readCbData p, .zendCallFunction t.fci, .readCbData p] ∧ s' = s := by
  have hread : ∀ garbage, s.readCbData p garbage = t := fun garbage => by
    simp [Ext.readCbData, hp.1, hp.2]
  constructor
  · intro h
    obtain ⟨t₁, s₁, tr₁, ⟨a, hfirst⟩, h, rfl⟩ := run_op_iff.mp h
    obtain ⟨rfl, rfl⟩ := Prod.mk.inj (Option.some.inj hfirst)
    rw [hread] at h
    obtain ⟨v, s₂, tr₂, ⟨b, hcall⟩, h, rfl⟩ := run_op_iff.mp h
    obtain ⟨-, rfl⟩ := Prod.mk.inj (Option.some.inj hcall)
    obtain ⟨t₂, s₃, tr₃, ⟨d, hsecond⟩, h, rfl⟩ := run_op_iff.mp h
    obtain ⟨rfl, rfl⟩ := Prod.mk.inj (Option.some.inj hsecond)
    simp only [ret_bind, hread, hlasts, Bool.false_eq_true, if_false] at h
    obtain ⟨rfl, -, rfl⟩ := run_ret_iff.mp h
    exact ⟨rfl, rfl⟩
  · rintro ⟨rfl, rfl⟩
    have hfirst : Ext.sem (.readCbData p) s' t s' := ⟨{}, by simp [Ext.perform, hread]⟩
    have hcall : Ext.sem (.zendCallFunction t.fci) s' () s' := ⟨{}, rfl⟩
    refine run_op_iff.mpr ⟨t, s', _, hfirst, run_op_iff.mpr ⟨(), s', _, hcall,
      run_op_iff.mpr ⟨t, s', [], hfirst, ?_, rfl⟩, rfl⟩, rfl⟩
    simp only [ret_bind, hlasts, Bool.false_eq_true, if_false]
    exact .ret

/-- Through a record that lasts, its callback is called, and no other. -/
theorem Ext.IsLive.notifies_iff {p : Ptr} {t : CbData} (hp : s.IsLive p t)
    (hlasts : t.oneshot = false) {f : Callable} : s.Notifies (some p) f ↔ f = t.fci := by
  constructor
  · rintro ⟨q, r, hq, -, -, hruns⟩
    obtain rfl := Option.some.inj hq
    have htrace := (hruns _ s ((run_marshal_iff hp hlasts).mpr ⟨rfl, rfl⟩)).1
    simpa [eq_comm] using htrace
  · rintro rfl
    exact ⟨p, t, rfl, hp, ⟨_, s, (run_marshal_iff hp hlasts).mpr ⟨rfl, rfl⟩⟩,
      fun tr s' h => (run_marshal_iff hp hlasts).mp h⟩

/-- The watcher of a session that the object has been connected with keeps the callback passed
last. -/
def SessionKept (s₀ : Ext) (cs : List WatcherCall) (s : Ext) : Prop :=
  ∀ zk c, s₀.handles.length ≤ zk → s.handles[zk]? = some c → c.watcher = true →
    ∃ p r, c.context = some p ∧ s.IsLive p r ∧ r.oneshot = false ∧ lastPassed cs = some r.fci

theorem SessionKept.ok {cs : List WatcherCall} (h : SessionKept s₀ cs s) : SessionOk s₀ cs s := by
  intro zk c hzk hc hw
  obtain ⟨p, r, hp, hlive, hlasts, hlast⟩ := h zk c hzk hc hw
  exact ⟨r.fci, hlast, hp ▸ (hlive.notifies_iff hlasts).mpr rfl⟩

/-- What is kept, while the calls set no watcher twice. -/
structure SessionInv (s₀ : Ext) (object : Ptr) (cs : List WatcherCall) (s : Ext) : Prop where
  ok : SessionKept s₀ cs s
  freed : ∀ p ∈ s.freed, p < s.records.length
  handles : s₀.handles.length ≤ s.handles.length
  unconnected : (s.objects object).zk = none → s.handles.length = s₀.handles.length
  /-- The object has a handle that was made for it, and its context. -/
  connected : ∀ z, (s.objects object).zk = some z → s₀.handles.length ≤ z ∧
    ∃ c, s.handles[z]? = some c ∧ c.context = (s.objects object).cbData
  cbData : ∀ p, (s.objects object).cbData = some p → ∃ t, s.IsLive p t

/-- A call that passes no other callback, and changes nothing. -/
theorem SessionInv.same {cs : List WatcherCall} (h : SessionInv s₀ object cs s) {c : WatcherCall}
    (hc : ∀ f, c.passed = some f → lastPassed cs = some f ∨
      ∀ zk c, s₀.handles.length ≤ zk → s.handles[zk]? = some c → c.watcher = false) :
    SessionKept s₀ (c :: cs) s := by
  intro zk e hzk he hw
  obtain ⟨p, t, hp, hlive, hlasts, hlast⟩ := h.ok zk e hzk he hw
  refine ⟨p, t, hp, hlive, hlasts, ?_⟩
  rw [lastPassed_cons]
  cases hpass : c.passed with
  | none => exact hlast
  | some f =>
    rcases hc f hpass with hsame | hnone
    · rw [← hlast, hsame]
      rfl
    · rw [hnone zk e hzk he] at hw
      cases hw

/-- A `connect` that has made a handle. -/
theorem SessionInv.connect {cs : List WatcherCall} (h : SessionInv s₀ object cs s)
    {fci : Option Callable} {recvTimeout : Int64}
    (hc : ∀ f, fci = some f → lastPassed cs = some f ∨
      ∀ zk c, s₀.handles.length ≤ zk → s.handles[zk]? = some c → c.watcher = false) :
    SessionInv s₀ object (.connect fci recvTimeout :: cs) (s.connected object fci) := by
  have hhandles : (s.connected object fci).handles =
      s.handles ++ [{ watcher := fci.isSome, context := (s.newCbData fci).1 }] := by
    simp only [Ext.connected, Ext.handles_newCbData]
  have hlive : ∀ {p t}, s.IsLive p t → (s.connected object fci).IsLive p t :=
    fun hp => hp.newCbData fci
  -- the record of the new handle
  have hnew : ∀ f, fci = some f → (s.newCbData fci).1 = some s.records.length ∧
      ∃ t, (s.connected object fci).IsLive s.records.length t ∧ t.oneshot = false ∧ t.fci = f := by
    rintro f rfl
    refine ⟨rfl, ⟨f, false, (s.callbacks ++ [(s.nextFree, s.records.length)]).length - 1⟩,
      ⟨?_, fun hmem => ?_⟩, rfl, rfl⟩
    · show (s.records ++ [_])[s.records.length]? = some _
      exact List.getElem?_concat_length
    · exact absurd (h.freed _ hmem) (lt_irrefl _)
  have hobject : (s.connected object fci).objects object =
      { zk := some s.handles.length, cbData := (s.newCbData fci).1 } := by
    simp only [Ext.connected, Function.update_self, Ext.handles_newCbData]
  refine ⟨fun zk e hzk he hw => ?_, fun p hp => ?_, ?_, fun hz => ?_, fun z hz => ?_,
    fun p hp => ?_⟩
  · rw [hhandles, List.getElem?_append] at he
    split_ifs at he with hlt
    · obtain ⟨p, t, hp, hpt, hlast⟩ := (h.same (c := .connect fci recvTimeout) hc) zk e hzk he hw
      exact ⟨p, t, hp, hlive hpt, hlast⟩
    · obtain ⟨hlen, rfl⟩ := List.getElem?_eq_some_iff.mp he
      have hfci : fci.isSome = true := by simpa using hw
      obtain ⟨f, hf⟩ := Option.isSome_iff_exists.mp hfci
      obtain ⟨hptr, t, ht, hlasts, htf⟩ := hnew f hf
      refine ⟨s.records.length, t, by rw [List.getElem_singleton, hptr], ht, hlasts, ?_⟩
      rw [lastPassed_cons, WatcherCall.passed, hf, htf]
      rfl
  · have hfreed : (s.connected object fci).freed = s.freed := by cases fci <;> rfl
    have hrecords : s.records.length ≤ (s.connected object fci).records.length := by
      cases fci with
      | none => exact le_rfl
      | some f =>
        show s.records.length ≤ (s.records ++ [_]).length
        rw [List.length_append]
        exact Nat.le_add_right _ _
    rw [hfreed] at hp
    exact lt_of_lt_of_le (h.freed p hp) hrecords
  · rw [hhandles, List.length_append]
    exact h.handles.trans (Nat.le_add_right _ _)
  · rw [hobject] at hz
    cases hz
  · rw [hobject] at hz ⊢
    obtain rfl := Option.some.inj hz
    exact ⟨h.handles, _, by rw [hhandles]; exact List.getElem?_concat_length, rfl⟩
  · rw [hobject] at hp
    cases fci with
    | none => cases hp
    | some f =>
      obtain ⟨hptr, t, ht, -⟩ := hnew f rfl
      obtain rfl : s.records.length = p := Option.some.inj (hptr.symm.trans hp)
      exact ⟨t, ht⟩

/-- **One call** that sets no watcher twice. -/
theorem SessionInv.call {cs : List WatcherCall} (h : SessionInv s₀ object cs s) {c : WatcherCall}
    (hc : SetsOnce s₀ object c cs s) (hr : Returns Ext.sem (c.code object) s r s') :
    SessionInv s₀ object (c :: cs) s' := by
  have hsame : ∀ {d}, SessionKept s₀ (d :: cs) s → SessionInv s₀ object (d :: cs) s :=
    fun hok => ⟨hok, h.freed, h.handles, h.unconnected, h.connected, h.cbData⟩
  cases c with
  | connect fci recvTimeout =>
    have hpass : ∀ f, fci = some f → lastPassed cs = some f ∨
        ∀ zk c, s₀.handles.length ≤ zk → s.handles[zk]? = some c → c.watcher = false := by
      rintro f rfl
      exact hc
    rcases returns_connect hr with rfl | rfl
    · exact hsame (h.same hpass)
    · exact h.connect hpass
  | setWatcher f =>
    obtain rfl := returns_setWatcher_none hc hr
    refine hsame (h.same fun g _ => .inr fun zk e hzk he => ?_)
    have hlt := (List.getElem?_eq_some_iff.mp he).1
    rw [h.unconnected hc] at hlt
    exact absurd hzk hlt.not_ge

/-- `setWatcher` on an object that is connected: the record of the old watcher is removed, and the
context of the handle stays. -/
theorem returns_setWatcher_some {fci : Callable} {z : Ptr} (hzk : (s.objects object).zk = some z)
    (h : Returns Ext.sem (Zookeeper.setWatcher object fci) s r s') :
    ∃ s₁, ((s.objects object).cbData = none ∧ s₁ = s ∨
        ∃ p garbage, (s.objects object).cbData = some p ∧
          s₁ = s.zendHashIndexDel (s.readCbData p garbage).h) ∧
      s'.freed = s₁.freed ∧
      s'.handles = s.handles.modify z fun c => { c with watcher := true } := by
  obtain ⟨o, s₂, ⟨a, hread⟩, h⟩ := returns_op_iff.mp h
  obtain ⟨rfl, rfl⟩ := Prod.mk.inj (Option.some.inj hread)
  simp only [ret_bind, hzk] at h
  obtain ⟨o, s₂, ⟨b, hread'⟩, h⟩ := returns_op_iff.mp h
  obtain ⟨rfl, rfl⟩ := Prod.mk.inj (Option.some.inj hread')
  simp only [ret_bind] at h
  obtain ⟨u, s₁, hremove, h⟩ := returns_bind_iff.mp h
  obtain ⟨q, s₃, ⟨d, hnew⟩, h⟩ := returns_op_iff.mp h
  obtain ⟨v, s₄, ⟨e, hset⟩, h⟩ := returns_op_iff.mp h
  obtain ⟨w, s₅, ⟨g, hwrite⟩, h⟩ := returns_op_iff.mp h
  obtain ⟨-, rfl⟩ := returns_ret_iff.mp h
  obtain rfl := congrArg Prod.snd (Option.some.inj hnew)
  obtain rfl := congrArg Prod.snd (Option.some.inj hset)
  obtain rfl := congrArg Prod.snd (Option.some.inj hwrite)
  have hremoved : ((s.objects object).cbData = none ∧ s₁ = s) ∨
      ∃ p garbage, (s.objects object).cbData = some p ∧
        s₁ = s.zendHashIndexDel (s.readCbData p garbage).h := by
    unfold removeCbData at hremove
    cases hcb : (s.objects object).cbData with
    | none =>
      rw [hcb] at hremove
      exact .inl ⟨rfl, (returns_ret_iff.mp hremove).2⟩
    | some p =>
      rw [hcb] at hremove
      obtain ⟨t, s₂, ⟨a', hread⟩, hdel⟩ := returns_op_iff.mp hremove
      obtain ⟨rfl, rfl⟩ := Prod.mk.inj (Option.some.inj hread)
      obtain ⟨x, s₃, ⟨b', hperf⟩, hret⟩ := returns_op_iff.mp hdel
      obtain ⟨-, rfl⟩ := returns_ret_iff.mp hret
      exact .inr ⟨p, a'.garbage, rfl, (congrArg Prod.snd (Option.some.inj hperf)).symm⟩
  have hhandles : s₁.handles = s.handles := by
    rcases hremoved with ⟨-, rfl⟩ | ⟨p, garbage, -, rfl⟩ <;> rfl
  exact ⟨s₁, hremoved, rfl, by rw [← hhandles]; rfl⟩

/-- After `setWatcher` on a connected object, an event finds no record, or one that is freed. -/
theorem SessionInv.not_ok_setWatcher {cs : List WatcherCall} (h : SessionInv s₀ object cs s)
    (hreg : s.RegistryInv) {fci : Callable} (hzk : (s.objects object).zk ≠ none)
    (hr : Returns Ext.sem (Zookeeper.setWatcher object fci) s r s')
    (cs' : List WatcherCall) : ¬ SessionOk s₀ cs' s' := by
  intro hok
  obtain ⟨z, hz⟩ := Option.ne_none_iff_exists'.mp hzk
  obtain ⟨hle, c, hc, hcontext⟩ := h.connected z hz
  obtain ⟨s₁, hremoved, hfreed, hhandles⟩ := returns_setWatcher_some hz hr
  have hhandle : s'.handles[z]? = some { c with watcher := true } := by
    rw [hhandles, List.getElem?_modify_eq, hc]
    rfl
  obtain ⟨f, -, p, t, hp, hlive, -⟩ := hok z _ hle hhandle rfl
  have hcb : (s.objects object).cbData = some p := hcontext.symm.trans hp
  rcases hremoved with ⟨hnone, -⟩ | ⟨q, garbage, hq, rfl⟩
  · rw [hnone] at hcb
    cases hcb
  · obtain rfl : q = p := Option.some.inj (hq.symm.trans hcb)
    obtain ⟨t', ht'⟩ := h.cbData q hq
    have hread : s.readCbData q garbage = t' := by
      simp [Ext.readCbData, ht'.2, ht'.1]
    refine hlive.2 ?_
    rw [hfreed, hread, hreg.ok.removed q t' ht']
    exact List.mem_cons_self

/-- After `connect` with another callback, a handle that has a watcher still calls the old one. -/
theorem SessionInv.not_ok_connect {cs : List WatcherCall} (h : SessionInv s₀ object cs s)
    {f : Callable} {recvTimeout : Int64} {zk : ℕ} {c : Handle} (hlast : lastPassed cs ≠ some f)
    (hle : s₀.handles.length ≤ zk) (hc : s.handles[zk]? = some c) (hw : c.watcher = true)
    (hr : Returns Ext.sem (Zookeeper.connect object (some f) recvTimeout) s r s') :
    ¬ SessionOk s₀ (.connect (some f) recvTimeout :: cs) s' := by
  intro hok
  obtain ⟨p, t, hp, hlive, hlasts, hold⟩ := h.ok zk c hle hc hw
  have hkept : s'.handles[zk]? = some c ∧ s'.IsLive p t := by
    rcases returns_connect hr with rfl | rfl
    · exact ⟨hc, hlive⟩
    · refine ⟨?_, hlive.newCbData (some f)⟩
      show (s.handles ++ [_])[zk]? = some c
      rw [List.getElem?_append_left (List.getElem?_eq_some_iff.mp hc).1]
      exact hc
  obtain ⟨g, hnew, hnotifies⟩ := hok zk c hle hkept.1 hw
  rw [hp, hkept.2.notifies_iff hlasts] at hnotifies
  refine hlast ?_
  rw [hold, ← hnotifies, ← hnew, lastPassed_cons]
  rfl

end Calls

/-! ### Whole sequences -/

section Sequences

variable {s₀ s s' : Ext} {object : Ptr} {cs : List WatcherCall}

theorem sessionInv_of_calls (h₀ : s₀.IsNew object) (h : Calls object (SetsOnce s₀ object) s₀ cs s) :
    SessionInv s₀ object cs s := by
  induction h with
  | refl =>
    refine ⟨fun zk c hzk hc => ?_, h₀.freed, le_rfl, fun _ => rfl, ?_, ?_⟩
    · exact absurd (List.getElem?_eq_some_iff.mp hc).1 hzk.not_gt
    · simp [h₀.object]
    · simp [h₀.object]
  | call _ hok hr ih => exact ih.call hok hr

/-- **The session watcher is the one set last**, after every sequence of calls that sets no watcher
twice. -/
theorem session_watcher (h₀ : s₀.IsNew object)
    (h : Calls object (SetsOnce s₀ object) s₀ cs s) : SessionOk s₀ cs s :=
  (sessionInv_of_calls h₀ h).ok.ok

/-- Calls that set no watcher twice remove nothing from the table. -/
theorem registryInv_of_calls (hreg : s₀.RegistryInv) (hlen : s₀.callbacks.length = s₀.nextFree)
    (h : Calls object (SetsOnce s₀ object) s₀ cs s) :
    s.RegistryInv ∧ s.callbacks.length = s.nextFree := by
  induction h with
  | refl => exact ⟨hreg, hlen⟩
  | @call c cs s s' r _ hok hr ih =>
    cases c with
    | setWatcher f =>
      obtain rfl := returns_setWatcher_none hok hr
      exact ih
    | connect fci recvTimeout =>
      rcases returns_connect hr with rfl | rfl
      · exact ih
      · cases fci with
        | none => exact ⟨ih.1.same rfl rfl rfl rfl, ih.2⟩
        | some f =>
          refine ⟨(ih.1.phpCbDataNew ih.2 f false).same rfl rfl rfl rfl, ?_⟩
          show (s.callbacks ++ [_]).length = s.nextFree + 1
          rw [List.length_append, ih.2]
          rfl

/-- **The condition is exact**: when the table is in order, the first call that sets a watcher twice
leaves an event that calls no record, a record that has been freed, or another callback. -/
theorem sessionOk_iff_setsOnce (h₀ : s₀.IsNew object) (hreg : s₀.RegistryInv)
    (hlen : s₀.callbacks.length = s₀.nextFree) (h : Calls object (SetsOnce s₀ object) s₀ cs s)
    {c : WatcherCall} {r : MethodResult} (hr : Returns Ext.sem (c.code object) s r s') :
    SessionOk s₀ (c :: cs) s' ↔ SetsOnce s₀ object c cs s := by
  have hinv := sessionInv_of_calls h₀ h
  refine ⟨fun hok => ?_, fun hc => (hinv.call hc hr).ok.ok⟩
  by_contra hnot
  cases c with
  | setWatcher f =>
    exact hinv.not_ok_setWatcher (registryInv_of_calls hreg hlen h).1 hnot hr _ hok
  | connect fci recvTimeout =>
    cases fci with
    | none => exact hnot trivial
    | some f =>
      obtain ⟨hlast, hwatched⟩ := not_or.mp hnot
      push Not at hwatched
      obtain ⟨zk, c, hle, hc, hw⟩ := hwatched
      exact hinv.not_ok_connect hlast hle hc (by simpa using hw) hr hok

end Sequences

/-- The state after a call whose operations all succeed. -/
def Ext.callAll (s : Ext) (object : Ptr) (c : WatcherCall) : Option (MethodResult × Ext) :=
  exec (Ext.perform {}) 20 (c.code object) s

theorem returns_callAll {s s' : Ext} {object : Ptr} {c : WatcherCall} {r : MethodResult}
    (h : s.callAll object c = some (r, s')) : Returns Ext.sem (c.code object) s r s' :=
  returns_of_exec (fun _ _ _ _ hperf => ⟨{}, hperf⟩) h

theorem isNew_empty (object : Ptr) : ({} : Ext).IsNew object := ⟨rfl, by simp⟩

/-- The call sets no watcher twice. -/
def WatcherCall.checkSetsOnce (s₀ : Ext) (object : Ptr) (cs : List WatcherCall) (s : Ext) :
    WatcherCall → Bool
  | .setWatcher _ => (s.objects object).zk.isNone
  | .connect none _ => true
  | .connect (some f) _ => lastPassed cs = some f ||
      (s.handles.drop s₀.handles.length).all fun c => !c.watcher

/-- The state after calls that set no watcher twice and whose operations all succeed. -/
def Ext.callsAll (s₀ : Ext) (object : Ptr) : List WatcherCall → Option Ext
  | [] => some s₀
  | c :: cs => (s₀.callsAll object cs).bind fun s =>
      if c.checkSetsOnce s₀ object cs s then (s.callAll object c).map (·.2) else none

theorem setsOnce_of_check {s₀ s : Ext} {object : Ptr} {cs : List WatcherCall} {c : WatcherCall}
    (h : c.checkSetsOnce s₀ object cs s = true) : SetsOnce s₀ object c cs s := by
  cases c with
  | setWatcher f => simpa [WatcherCall.checkSetsOnce, SetsOnce] using h
  | connect fci recvTimeout =>
    cases fci with
    | none => trivial
    | some f =>
      rcases Bool.or_eq_true_iff.mp h with hlast | hnone
      · exact .inl (by simpa using hlast)
      · refine .inr fun zk d hzk hd => ?_
        have hmem : d ∈ s.handles.drop s₀.handles.length := by
          refine List.mem_of_getElem? (i := zk - s₀.handles.length) ?_
          rw [List.getElem?_drop, Nat.add_sub_cancel' hzk]
          exact hd
        simpa using List.all_eq_true.mp hnone d hmem

theorem calls_of_callsAll {s₀ s : Ext} {object : Ptr} {cs : List WatcherCall}
    (h : s₀.callsAll object cs = some s) : Calls object (SetsOnce s₀ object) s₀ cs s := by
  induction cs generalizing s with
  | nil =>
    obtain rfl := Option.some.inj h
    exact .refl
  | cons c cs ih =>
    obtain ⟨s₁, hs₁, hcall⟩ := Option.bind_eq_some_iff.mp h
    split_ifs at hcall with hcheck
    obtain ⟨⟨r, s₂⟩, hr, rfl⟩ := Option.map_eq_some_iff.mp hcall
    exact .call (ih hs₁) (setsOnce_of_check hcheck) (returns_callAll hr)

/-- `setWatcher` before there is a connection, one without a watcher, and two with the same one: the
events of both call it. -/
theorem session_watcher_reconnected :
    let cs : List WatcherCall :=
      [.connect (some 7) 1000, .connect (some 7) 2000, .connect none 1000, .setWatcher 6]
    ∃ s, Calls 0 (SetsOnce {} 0) {} cs s ∧ SessionOk {} cs s ∧
      s.handles.map (fun c => (c.watcher, c.context)) =
        [(false, none), (true, some 0), (true, some 1)] := by
  intro cs
  obtain ⟨s, hs⟩ : ∃ s, Ext.callsAll {} 0 cs = some s :=
    Option.isSome_iff_exists.mp (by decide +kernel)
  have hcalls := calls_of_callsAll hs
  have hhandles : (Ext.callsAll {} 0 cs).map
      (fun s => s.handles.map fun c => (c.watcher, c.context)) =
        some [(false, none), (true, some 0), (true, some 1)] := by decide +kernel
  rw [hs] at hhandles
  exact ⟨s, hcalls, session_watcher (isNew_empty 0) hcalls, Option.some.inj hhandles⟩

/-- After `connect` with a watcher and `setWatcher`, an event of the session reads a record that has
been freed. -/
theorem session_watcher_freed :
    ¬ ∀ cs s, Calls 0 (fun _ _ _ => True) {} cs s → SessionOk {} cs s := by
  intro h
  obtain ⟨⟨r, s⟩, hs⟩ : ∃ x, Ext.callAll {} 0 (.connect (some 7) 1000) = some x :=
    Option.isSome_iff_exists.mp (by decide +kernel)
  obtain ⟨⟨r', s'⟩, hs'⟩ : ∃ x, (Ext.callAll {} 0 (.connect (some 7) 1000)).bind
      (fun x => x.2.callAll 0 (.setWatcher 8)) = some x :=
    Option.isSome_iff_exists.mp (by decide +kernel)
  have hcalls : Calls 0 (fun _ _ _ => True) {} [.setWatcher 8, .connect (some 7) 1000] s' := by
    rw [hs] at hs'
    exact .call (.call .refl trivial (returns_callAll hs)) trivial (returns_callAll hs')
  have hstate : ((Ext.callAll {} 0 (.connect (some 7) 1000)).bind
      fun x => x.2.callAll 0 (.setWatcher 8)).map (fun x => (x.2.handles, x.2.freed)) =
      some ([{ watcher := true, context := some 0 }], [0]) := by decide +kernel
  rw [hs'] at hstate
  obtain ⟨hhandles, hfreed⟩ := Prod.mk.inj (Option.some.inj hstate)
  obtain ⟨f, -, p, t, hp, hlive, -⟩ := h _ _ hcalls 0 { watcher := true, context := some 0 }
    (Nat.zero_le _) (by rw [show s'.handles = _ from hhandles]; rfl) rfl
  obtain rfl : 0 = p := Option.some.inj hp
  exact hlive.2 (by rw [show s'.freed = [0] from hfreed]; exact List.mem_singleton.mpr rfl)

end PhpZookeeper
