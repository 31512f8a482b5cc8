import PhpZookeeper.Client.SessionWatcher
import PhpZookeeper.Theory.Ends

/-!
# Whose handle it is

An object owns a handle of the client library and the record of its callback, from the call that has
made them to `php_zk_destroy`. `handles_conserved` is about any sequence of calls of `__construct`,
`connect` and `setWatcher` on one object, and the end of the object: in the sequences of calls that
respect what the object owns (`Respects`), the handle is closed once and not used after that, the
record is removed, and the caller keeps its object. `connect_leaks` is a sequence that does not.

What PHP and the client library answer in a call is part of it (`LibReply`), and so is whether
`zend_parse_parameters` accepts its arguments. A call that `E_ERROR` ends is the last one.
-/

namespace PhpZookeeper

open Theory Prog Status

/-! ### Calls -/

/-- The arguments that `__construct` and `connect` have been given. -/
structure ConnectArgs where
  host : CString
  fci : Option Callable
  recvTimeout : Int64

/-- A call on an object; `none` when `zend_parse_parameters` fails. -/
inductive ObjectCall where
  | construct (args : Option ConnectArgs)
  | connect (args : Option ConnectArgs)
  | setWatcher (fci : Option Callable)

/-- The code of a call. -/
def ObjectCall.code (object : Ptr) : ObjectCall → ExtCode MethodResult
  | .construct (some x) => Zookeeper.construct object x.host x.fci x.recvTimeout
  | .construct none => do
    extAct (.zvalNull object)
    return { value := .null }
  | .connect (some x) => Zookeeper.connect object x.fci x.recvTimeout
  | .setWatcher (some fci) => Zookeeper.setWatcher object fci
  | .connect none | .setWatcher none => return { value := .null }

/-- The state, and the operations that have been performed, the first one first. -/
structure Traced where
  ext : Ext
  ops : List ExtOp := []

/-- One operation, when the library answers `a`. -/
def Traced.perform (a : LibReply) (o : ExtOp) (s : Traced) : Option (o.Res × Traced) :=
  (s.ext.perform a o).map fun x => (x.1, { ext := x.2, ops := s.ops ++ [o] })

/-- What one operation does, when the library answers `a`. -/
def tracedSem (a : LibReply) (o : ExtOp) (s : Traced) (r : o.Res) (s' : Traced) : Prop :=
  s.perform a o = some (r, s')

/-- A run of calls on the object from `s₀`, each of which is `ok`, to a state; whether `E_ERROR` has
ended the last one. -/
inductive CallsRun (object : Ptr) (ok : ObjectCall → LibReply → Ext → Prop) (s₀ : Ext) :
    Bool → Traced → Prop where
  | refl : CallsRun object ok s₀ false { ext := s₀ }
  | call {c : ObjectCall} {a : LibReply} {s s' : Traced} {x : Option MethodResult} :
      CallsRun object ok s₀ false s → ok c a s.ext → Ends (tracedSem a) (c.code object) s x s' →
      CallsRun object ok s₀ x.isNone s'

/-! ### What is to be conserved -/

/-- The handle that an operation is given. -/
def ExtOp.handle : ExtOp → Option Ptr
  | .zookeeperClose zk | .zooSetWatcher zk | .zooExists zk _ | .zooWexists zk _ _
  | .zooWget zk _ _ _ | .zooWgetChildren zk _ _ | .zooSet2 zk _ _ _ | .zooDelete zk _ _
  | .zooSetAcl zk _ _ _ | .zooAddAuth zk _ _ _ => some zk
  | _ => none

/-- What an object has made since `s₀` has been given back, and its caller has kept it. -/
structure Conserved (s₀ : Ext) (object : Ptr) (s : Traced) : Prop where
  /-- Each handle has been closed once. -/
  closed : ∀ zk, s₀.handles.length ≤ zk → zk < s.ext.handles.length →
    s.ops.count (.zookeeperClose zk) = 1
  /-- No handle is used after that. -/
  unused : s.ops.Pairwise fun o o' => ∀ zk, o = .zookeeperClose zk → o'.handle ≠ some zk
  /-- Each record has been removed from the table. -/
  removed : ∀ e ∈ s.ext.callbacks, e.2 < s₀.records.length
  /-- The caller's variable has not become `NULL`. -/
  usable : .zvalNull object ∉ s.ops

/-- The call is to connect the object, and does not. -/
def ObjectCall.Rejected (c : ObjectCall) (a : LibReply) : Prop :=
  match c with
  | .construct (some x) => 0 < x.host.length ∧ (x.recvTimeout ≤ 0 ∨ a.init = false)
  | .connect (some x) => x.recvTimeout ≤ 0 ∨ a.init = false
  | .construct none | .connect none => True
  | .setWatcher _ => False

/-- `connect` is given a time to wait, makes a handle only for an object that has none, and a record
only in a table without a gap and when there is to be a handle. -/
structure ConnectArgs.Respects (x : ConnectArgs) (a : LibReply) (o : ZkObject) (s : Ext) :
    Prop where
  timeout : 0 < x.recvTimeout
  handle : a.init = true → o.zk = none
  callback : x.fci ≠ none → a.init = true ∧ s.callbacks.length = s.nextFree

/-- The call respects what the object owns. -/
def ObjectCall.Respects (object : Ptr) (c : ObjectCall) (a : LibReply) (s : Ext) : Prop :=
  match c with
  | .construct (some x) => 0 < x.host.length → x.Respects a (s.objects object) s
  | .construct none => False
  | .connect (some x) => x.Respects a (s.objects object) s
  | .connect none | .setWatcher none => True
  | .setWatcher (some _) => (s.objects object).zk ≠ none →
      (s.objects object).cbData = none ∧ s.callbacks.length = s.nextFree

instance {x : ConnectArgs} {a : LibReply} {o : ZkObject} {s : Ext} : Decidable (x.Respects a o s) :=
  decidable_of_iff (0 < x.recvTimeout ∧ (a.init = true → o.zk = none) ∧
      (x.fci ≠ none → a.init = true ∧ s.callbacks.length = s.nextFree))
    ⟨fun h => ⟨h.1, h.2.1, h.2.2⟩, fun h => ⟨h.timeout, h.handle, h.callback⟩⟩

instance {object : Ptr} {a : LibReply} {s : Ext} :
    (c : ObjectCall) → Decidable (c.Respects object a s)
  | .construct (some x) =>
    inferInstanceAs (Decidable (0 < x.host.length → x.Respects a (s.objects object) s))
  | .construct none => inferInstanceAs (Decidable False)
  | .connect (some x) => inferInstanceAs (Decidable (x.Respects a (s.objects object) s))
  | .connect none | .setWatcher none => inferInstanceAs (Decidable True)
  | .setWatcher (some _) => inferInstanceAs (Decidable ((s.objects object).zk ≠ none →
      (s.objects object).cbData = none ∧ s.callbacks.length = s.nextFree))

/-- The object is new, and the records in the table or freed have been made. -/
structure Ext.IsReady (s : Ext) (object : Ptr) : Prop extends s.IsNew object where
  entries : ∀ e ∈ s.callbacks, e.2 < s.records.length

/-! ### What a call does -/

section Calls

variable {a : LibReply} {object : Ptr} {s s' : Traced} {x : Option MethodResult}

/-- The next operation is performed. -/
theorem ends_act {α : Type} {o : ExtOp} {k : o.Res → ExtCode α} {y : Option α} {r : o.Res} {e : Ext}
    (h : Ends (tracedSem a) (.op o k) s y s') (hp : s.ext.perform a o = some (r, e)) :
    Ends (tracedSem a) (k r) { ext := e, ops := s.ops ++ [o] } y s' := by
  have hperform : s.perform a o = some (r, { ext := e, ops := s.ops ++ [o] }) := by
    rw [Traced.perform, hp]
    rfl
  refine h.op_inv hperform fun r' s₂ hs => ?_
  exact Prod.mk.inj (Option.some.inj (hs.symm.trans hperform))

/-- The operation neither closes a handle nor takes the object from its caller. -/
def ExtOp.Quiet (object : Ptr) (o : ExtOp) : Prop :=
  (∀ zk, o ≠ .zookeeperClose zk) ∧ o ≠ .zvalNull object

/-- What follows `s` is quiet. -/
def QuietAfter (object : Ptr) (s s' : Traced) : Prop :=
  ∃ l, s'.ops = s.ops ++ l ∧ ∀ o ∈ l, o.Quiet object

theorem QuietAfter.refl (s : Traced) : QuietAfter object s s := ⟨[], by simp, by simp⟩

/-- One more operation before. -/
theorem QuietAfter.op {o : ExtOp} {e : Ext}
    (h : QuietAfter object { ext := e, ops := s.ops ++ [o] } s')
    (ho : (∀ zk, o ≠ .zookeeperClose zk) ∧ o ≠ .zvalNull object) : QuietAfter object s s' := by
  obtain ⟨l, hops, hl⟩ := h
  refine ⟨o :: l, by rw [hops, List.append_assoc]; rfl, ?_⟩
  rw [List.forall_mem_cons]
  exact ⟨ho, hl⟩

/-- The record of a `connect`. -/
theorem ends_newCbData (object : Ptr) {fci : Option Callable} {α : Type}
    {k : Option Ptr → ExtCode α} {y : Option α}
    (h : Ends (tracedSem a) ((newCbData fci false).bind k) s y s') :
    ∃ t : Traced, t.ext = (s.ext.newCbData fci).2 ∧
      Ends (tracedSem a) (k (s.ext.newCbData fci).1) t y s' ∧
      (QuietAfter object t s' → QuietAfter object s s') := by
  cases fci with
  | none => exact ⟨s, rfl, h, id⟩
  | some f => exact ⟨_, rfl, ends_act h rfl, fun hq => hq.op ⟨by simp, by simp⟩⟩

/-- A `connect` that has a time to wait makes a handle, if the library does. -/
theorem ends_connect {fci : Option Callable} {T : Int64} (hT : 0 < T)
    (h : Ends (tracedSem a) (phpZookeeperConnectImpl object fci T) s x s') :
    (s'.ext = if a.init then s.ext.connected object fci else (s.ext.newCbData fci).2) ∧
      QuietAfter object s s' := by
  unfold phpZookeeperConnectImpl at h
  rw [if_neg (by simpa using hT)] at h
  obtain ⟨t, ht, h, hquiet⟩ := ends_newCbData object h
  cases hinit : a.init with
  | false =>
    have hnone : t.ext.perform a (.zookeeperInit fci.isSome (s.ext.newCbData fci).1) =
        some (none, t.ext) := by
      simp [Ext.perform, hinit]
    obtain ⟨-, rfl⟩ := (ends_act h hnone).stuck_inv fun r => Empty.elim r
    exact ⟨ht, hquiet (.op (.refl _) ⟨by simp, by simp⟩)⟩
  | true =>
    have hsome : t.ext.perform a (.zookeeperInit fci.isSome (s.ext.newCbData fci).1) =
        some (some t.ext.handles.length, { t.ext with handles := t.ext.handles ++
          [{ watcher := fci.isSome, context := (s.ext.newCbData fci).1 }] }) := by
      simp only [Ext.perform, hinit, if_true]
    have h₂ := ends_act (ends_act (ends_act h hsome) rfl) rfl
    obtain ⟨-, rfl⟩ := h₂.ret_inv
    refine ⟨?_, hquiet (.op (.op (.op (.refl _) ⟨by simp, by simp⟩) ⟨by simp, by simp⟩)
      ⟨by simp, by simp⟩)⟩
    simp only [Ext.connected, ht, Function.update_self, Function.update_idem, if_true]

/-- The state after a `setWatcher` on an object that has a handle and no record. -/
def Ext.withWatcher (s : Ext) (object zk : Ptr) (fci : Callable) : Ext :=
  let x := s.phpCbDataNew fci false
  { x.2 with
    handles := x.2.handles.modify zk fun c => { c with watcher := true }
    objects := Function.update x.2.objects object
      { s.objects object with cbData := some x.1 } }

/-- `setWatcher` on an object that is not connected only warns. -/
theorem ends_setWatcher_none {fci : Callable} (hzk : (s.ext.objects object).zk = none)
    (h : Ends (tracedSem a) (Zookeeper.setWatcher object fci) s x s') :
    s'.ext = s.ext ∧ QuietAfter object s s' := by
  have h₁ := ends_act h rfl
  simp only [ret_bind, hzk] at h₁
  obtain ⟨-, rfl⟩ := (ends_act h₁ rfl).ret_inv
  exact ⟨rfl, .op (.op (.refl _) ⟨by simp, by simp⟩) ⟨by simp, by simp⟩⟩

/-- `setWatcher` on an object that has a handle and no record. -/
theorem ends_setWatcher_some {fci : Callable} {zk : Ptr} (hzk : (s.ext.objects object).zk = some zk)
    (hcb : (s.ext.objects object).cbData = none)
    (h : Ends (tracedSem a) (Zookeeper.setWatcher object fci) s x s') :
    s'.ext = s.ext.withWatcher object zk fci ∧ QuietAfter object s s' := by
  have h₁ := ends_act h rfl
  simp only [ret_bind, hzk] at h₁
  have h₂ := ends_act h₁ rfl
  simp only [ret_bind, removeCbData, hcb] at h₂
  obtain ⟨-, rfl⟩ := (ends_act (ends_act (ends_act h₂ rfl) rfl) rfl).ret_inv
  refine ⟨rfl, [.readObject object, .readObject object, .phpCbDataNew fci false, .zooSetWatcher zk,
    .writeCbData object (some s.ext.records.length)], ?_, ?_⟩
  · simp only [List.append_assoc]
    rfl
  · simp [ExtOp.Quiet]

end Calls

/-! ### Sequences of calls -/

section Sequences

variable {s₀ : Ext} {a : LibReply} {object : Ptr} {s s' : Traced} {x : Option MethodResult}

/-- What is kept, while the calls respect what the object owns. -/
structure HandleInv (s₀ : Ext) (object : Ptr) (s : Traced) : Prop where
  quiet : ∀ o ∈ s.ops, o.Quiet object
  /-- The object's handle is the only one that has been made. -/
  handles : s.ext.handles.length = s₀.handles.length + (s.ext.objects object).zk.toList.length
  zk : ∀ z, (s.ext.objects object).zk = some z → z = s₀.handles.length
  cbData : (s.ext.objects object).zk = none → (s.ext.objects object).cbData = none
  /-- A new entry is that of the object's record, which is removed under its key. -/
  entries : ∀ e ∈ s.ext.callbacks, e.2 < s₀.records.length ∨
    (s.ext.objects object).cbData = some e.2 ∧ ∃ r, s.ext.IsLive e.2 r ∧ r.h = e.1
  freed : ∀ p ∈ s.ext.freed, p < s.ext.records.length

theorem HandleInv.init (h : s₀.IsReady object) : HandleInv s₀ object { ext := s₀ } where
  quiet := by simp
  handles := by simp [h.object]
  zk := by simp [h.object]
  cbData := by simp [h.object]
  entries e he := .inl (h.entries e he)
  freed := h.freed

/-- Nothing but a quiet operation has happened. -/
theorem HandleInv.same (h : HandleInv s₀ object s) (hext : s'.ext = s.ext)
    (hquiet : QuietAfter object s s') : HandleInv s₀ object s' := by
  obtain ⟨l, hops, hl⟩ := hquiet
  refine ⟨?_, ?_, ?_, ?_, ?_, ?_⟩
  · rw [hops, List.forall_mem_append]
    exact ⟨h.quiet, hl⟩
  all_goals rw [hext]
  exacts [h.handles, h.zk, h.cbData, h.entries, h.freed]

/-- An object without a record has no entry. -/
theorem HandleInv.entries_old (h : HandleInv s₀ object s)
    (hcb : (s.ext.objects object).cbData = none) :
    ∀ e ∈ s.ext.callbacks, e.2 < s₀.records.length := by
  intro e he
  rcases h.entries e he with hold | ⟨hnew, -⟩
  · exact hold
  · rw [hcb] at hnew
    cases hnew

/-- A record for an object that has none, while the number of entries is the next free key. -/
theorem HandleInv.record (h : HandleInv s₀ object s) (hcb : (s.ext.objects object).cbData = none)
    (hlen : s.ext.callbacks.length = s.ext.nextFree) (f : Callable) :
    (∀ e ∈ (s.ext.phpCbDataNew f false).2.callbacks, e.2 < s₀.records.length ∨
      some s.ext.records.length = some e.2 ∧
        ∃ r, (s.ext.phpCbDataNew f false).2.IsLive e.2 r ∧ r.h = e.1) ∧
    ∀ p ∈ (s.ext.phpCbDataNew f false).2.freed,
      p < (s.ext.phpCbDataNew f false).2.records.length := by
  refine ⟨fun e he => ?_, fun p hp => ?_⟩
  · rcases List.mem_append.mp he with he | he
    · exact .inl (h.entries_old hcb e he)
    · obtain rfl := List.mem_singleton.mp he
      refine .inr ⟨rfl, _, ⟨List.getElem?_concat_length, fun hmem => ?_⟩, by simp [hlen]⟩
      exact absurd (h.freed _ hmem) (lt_irrefl _)
  · have hlt : p < s.ext.records.length := h.freed p hp
    show p < (s.ext.records ++ [_]).length
    rw [List.length_append]
    exact Nat.lt_add_right _ hlt

/-- A `connect` that makes the object's handle. -/
theorem HandleInv.connected (h : HandleInv s₀ object s) {fci : Option Callable}
    (hzk : (s.ext.objects object).zk = none)
    (hlen : fci ≠ none → s.ext.callbacks.length = s.ext.nextFree)
    (hext : s'.ext = s.ext.connected object fci) (hquiet : QuietAfter object s s') :
    HandleInv s₀ object s' := by
  have hcb := h.cbData hzk
  have hhandles := h.handles
  rw [hzk] at hhandles
  obtain ⟨l, hops, hl⟩ := hquiet
  have hobject : (s.ext.connected object fci).objects object =
      { zk := some s.ext.handles.length, cbData := (s.ext.newCbData fci).1 } := by
    simp only [Ext.connected, Function.update_self, Ext.handles_newCbData]
  refine ⟨?_, ?_, ?_, ?_, ?_, ?_⟩
  · rw [hops, List.forall_mem_append]
    exact ⟨h.quiet, hl⟩
  all_goals rw [hext]
  · rw [hobject]
    simp [Ext.connected, Ext.handles_newCbData, hhandles]
  · rw [hobject]
    rintro z hz
    obtain rfl := Option.some.inj hz
    exact hhandles
  · rw [hobject]
    rintro hz
    cases hz
  · rw [hobject]
    cases fci with
    | none => exact fun e he => .inl (h.entries_old hcb e he)
    | some f => exact (h.record hcb (hlen (by simp)) f).1
  · cases fci with
    | none => exact h.freed
    | some f => exact (h.record hcb (hlen (by simp)) f).2

/-- A `setWatcher` that makes the record of an object that has a handle. -/
theorem HandleInv.withWatcher (h : HandleInv s₀ object s) {f : Callable} {zk : Ptr}
    (hzk : (s.ext.objects object).zk = some zk) (hcb : (s.ext.objects object).cbData = none)
    (hlen : s.ext.callbacks.length = s.ext.nextFree)
    (hext : s'.ext = s.ext.withWatcher object zk f) (hquiet : QuietAfter object s s') :
    HandleInv s₀ object s' := by
  have hhandles := h.handles
  obtain ⟨l, hops, hl⟩ := hquiet
  have hobject : (s.ext.withWatcher object zk f).objects object =
      { zk := some zk, cbData := some s.ext.records.length } := by
    simp only [Ext.withWatcher, Function.update_self, hzk, Ext.phpCbDataNew]
  refine ⟨?_, ?_, ?_, ?_, ?_, ?_⟩
  · rw [hops, List.forall_mem_append]
    exact ⟨h.quiet, hl⟩
  all_goals rw [hext]
  · rw [hobject]
    rw [hzk] at hhandles
    simpa [Ext.withWatcher, Ext.phpCbDataNew] using hhandles
  · rw [hobject, ← hzk]
    exact h.zk
  · rw [hobject]
    rintro hz
    cases hz
  · rw [hobject]
    exact (h.record hcb hlen f).1
  · exact (h.record hcb hlen f).2

/-- A `connect` that respects what the object owns. -/
theorem HandleInv.connect (h : HandleInv s₀ object s) {c : ConnectArgs}
    (hc : c.Respects a (s.ext.objects object) s.ext)
    (hends : Ends (tracedSem a) (phpZookeeperConnectImpl object c.fci c.recvTimeout) s x s') :
    HandleInv s₀ object s' := by
  obtain ⟨hext, hquiet⟩ := ends_connect hc.timeout hends
  split_ifs at hext with hinit
  · exact h.connected (hc.handle hinit) (fun hf => (hc.callback hf).2) hext hquiet
  · have hfci : c.fci = none := by
      by_contra hf
      exact hinit (hc.callback hf).1
    rw [hfci] at hext
    exact h.same hext hquiet

/-- **One call** that respects what the object owns. -/
theorem HandleInv.call (h : HandleInv s₀ object s) {c : ObjectCall} (hc : c.Respects object a s.ext)
    (hends : Ends (tracedSem a) (c.code object) s x s') : HandleInv s₀ object s' := by
  have hret : ∀ v : MethodResult, Ends (tracedSem a) (.ret v) s x s' →
      HandleInv s₀ object s' := by
    intro v hret
    obtain ⟨-, rfl⟩ := hret.ret_inv
    exact h
  cases c with
  | construct args =>
    cases args with
    | none => exact hc.elim
    | some c =>
      change Ends _ (if c.host.length > 0 then _ else _) s x s' at hends
      split_ifs at hends with hhost
      · exact h.connect (hc hhost) hends
      · exact hret _ hends
  | connect args =>
    cases args with
    | none => exact hret _ hends
    | some c => exact h.connect hc hends
  | setWatcher fci =>
    cases fci with
    | none => exact hret _ hends
    | some f =>
      cases hzk : (s.ext.objects object).zk with
      | none =>
        obtain ⟨hext, hquiet⟩ := ends_setWatcher_none hzk hends
        exact h.same hext hquiet
      | some zk =>
        obtain ⟨hcb, hlen⟩ := hc (by simp [hzk])
        obtain ⟨hext, hquiet⟩ := ends_setWatcher_some hzk hcb hends
        exact h.withWatcher hzk hcb hlen hext hquiet

theorem handleInv_of_callsRun (hready : s₀.IsReady object) {b : Bool}
    (h : CallsRun object (ObjectCall.Respects object) s₀ b s) : HandleInv s₀ object s := by
  induction h with
  | refl => exact .init hready
  | call _ hc hends ih => exact ih.call hc hends

/-- The record of an object is removed under the key it keeps. -/
theorem ends_removeCbData {α : Type} {o : ZkObject} {k : Unit → ExtCode α} {y : Option α}
    (object : Ptr) (h : Ends (tracedSem a) ((removeCbData o).bind k) s y s') :
    ∃ t : Traced, Ends (tracedSem a) (k ()) t y s' ∧ t.ext.handles = s.ext.handles ∧
      QuietAfter object s t ∧ ∀ e ∈ t.ext.callbacks, e ∈ s.ext.callbacks ∧
        ∀ p, o.cbData = some p → e.1 ≠ (s.ext.readCbData p a.garbage).h := by
  unfold removeCbData at h
  cases hcb : o.cbData with
  | none =>
    rw [hcb] at h
    exact ⟨s, h, rfl, .refl s, fun e he => ⟨he, fun p hp => by cases hp⟩⟩
  | some p =>
    rw [hcb] at h
    have h₂ := ends_act (ends_act h rfl) rfl
    refine ⟨_, h₂, rfl, .op (.op (.refl _) ⟨by simp, by simp⟩) ⟨by simp, by simp⟩, fun e he => ?_⟩
    obtain ⟨he, hkey⟩ := List.mem_filter.mp he
    refine ⟨he, fun q hq => ?_⟩
    obtain rfl := Option.some.inj hq
    simpa using hkey

/-- **The end of the object** after calls that respect what it owns. -/
theorem HandleInv.destroy (h : HandleInv s₀ object s) {y : Option Unit}
    (hends : Ends (tracedSem a) (phpZkDestroy object) s y s') : Conserved s₀ object s' := by
  have h₁ := ends_act hends rfl
  obtain ⟨t, h₂, hhandles, ⟨l, hops, hl⟩, hentries⟩ := ends_removeCbData object h₁
  have hlen : t.ext.handles.length =
      s₀.handles.length + (s.ext.objects object).zk.toList.length := by
    rw [hhandles]
    exact h.handles
  have hquiet : ∀ o ∈ t.ops, o.Quiet object := by
    rw [hops, List.append_assoc, List.forall_mem_append]
    refine ⟨h.quiet, ?_⟩
    rw [List.singleton_append, List.forall_mem_cons]
    exact ⟨⟨by simp, by simp⟩, hl⟩
  have hremoved : ∀ e ∈ t.ext.callbacks, e.2 < s₀.records.length := by
    intro e he
    obtain ⟨he, hkey⟩ := hentries e he
    rcases h.entries e he with hold | ⟨hcb, r, hlive, hr⟩
    · exact hold
    · refine absurd ?_ (hkey e.2 hcb)
      simp [Ext.readCbData, hlive.1, hlive.2, hr]
  -- nothing is closed before
  have hopen : ∀ zk, t.ops.count (.zookeeperClose zk) = 0 := fun zk =>
    List.count_eq_zero.mpr fun hmem => (hquiet _ hmem).1 zk rfl
  have hbefore : ∀ l' : List ExtOp, l'.Pairwise (fun o o' => ∀ zk, o = .zookeeperClose zk →
      o'.handle ≠ some zk) → (t.ops ++ l').Pairwise fun o o' => ∀ zk, o = .zookeeperClose zk →
      o'.handle ≠ some zk := by
    intro l' hl'
    have hnone : ∀ o ∈ t.ops, ∀ o' : ExtOp, ∀ zk, o = .zookeeperClose zk → o'.handle ≠ some zk :=
      fun o ho _ zk heq => absurd heq ((hquiet o ho).1 zk)
    refine List.pairwise_append.mpr ⟨?_, hl', fun o ho o' _ => hnone o ho o'⟩
    exact List.Pairwise.imp_of_mem (fun ho _ _ => hnone _ ho _)
      (List.pairwise_of_forall (R := fun _ _ => True) fun _ _ => trivial)
  cases hzk : (s.ext.objects object).zk with
  | none =>
    rw [hzk] at hlen
    simp only [hzk] at h₂
    obtain ⟨-, rfl⟩ := (ends_act h₂ rfl).ret_inv
    refine ⟨fun zk hle hlt => ?_, ?_, hremoved, ?_⟩
    · exact absurd (lt_of_lt_of_eq hlt hlen) hle.not_gt
    · exact hbefore _ (List.pairwise_singleton _ _)
    · rintro hmem
      rcases List.mem_append.mp hmem with hmem | hmem
      · exact (hquiet _ hmem).2 rfl
      · simp at hmem
  | some z =>
    have hz : z = s₀.handles.length := h.zk z hzk
    rw [hzk] at hlen
    simp only [hzk] at h₂
    obtain ⟨-, rfl⟩ := (ends_act (ends_act h₂ rfl) rfl).ret_inv
    refine ⟨fun zk hle hlt => ?_, ?_, hremoved, ?_⟩
    · have hlt' : zk < s₀.handles.length + 1 := by
        simpa [Ext.modifyHandle, hlen] using hlt
      obtain rfl : zk = z := (le_antisymm (Nat.lt_succ_iff.mp hlt') hle).trans hz.symm
      simp [List.count_append, hopen]
    · rw [List.append_assoc]
      refine hbefore _ ?_
      simp [ExtOp.handle]
    · rintro hmem
      rw [List.append_assoc] at hmem
      rcases List.mem_append.mp hmem with hmem | hmem
      · exact (hquiet _ hmem).2 rfl
      · simp at hmem

/-- A rejected `connect` that respects what the object owns changes nothing. -/
theorem ends_connect_rejected {c : ConnectArgs}
    (hc : c.Respects a (s.ext.objects object) s.ext)
    (hrejected : c.recvTimeout ≤ 0 ∨ a.init = false)
    (h : Ends (tracedSem a) (phpZookeeperConnectImpl object c.fci c.recvTimeout) s x s') :
    s'.ext = s.ext := by
  obtain ⟨hext, -⟩ := ends_connect hc.timeout h
  have hinit : a.init = false := hrejected.resolve_left (by simpa using hc.timeout)
  have hfci : c.fci = none := by
    by_contra hf
    rw [(hc.callback hf).1] at hinit
    cases hinit
  rw [hext, hinit, hfci]
  rfl

/-- A rejected call leaves the object as it was. -/
theorem ends_rejected {c : ObjectCall} (hc : c.Respects object a s.ext) (hrejected : c.Rejected a)
    (h : Ends (tracedSem a) (c.code object) s x s') : s'.ext = s.ext := by
  cases c with
  | construct args =>
    cases args with
    | none => exact hc.elim
    | some c =>
      change Ends _ (if c.host.length > 0 then _ else _) s x s' at h
      rw [if_pos hrejected.1] at h
      exact ends_connect_rejected (hc hrejected.1) hrejected.2 h
  | connect args =>
    cases args with
    | none =>
      obtain ⟨-, rfl⟩ := h.ret_inv
      rfl
    | some c => exact ends_connect_rejected hc hrejected h
  | setWatcher fci => exact hrejected.elim

/-- **No handle leaks** in a sequence of calls that respect what the object owns: after the end of
the object its handle has been closed once and its record removed, and a rejected call has changed
nothing. -/
theorem handles_conserved (hready : s₀.IsReady object) {b : Bool}
    (h : CallsRun object (ObjectCall.Respects object) s₀ b s) :
    (∀ (a : LibReply) (y : Option Unit) (s' : Traced),
      Ends (tracedSem a) (phpZkDestroy object) s y s' → Conserved s₀ object s') ∧
    ∀ (c : ObjectCall) (a : LibReply) (x : Option MethodResult) (s' : Traced), b = false →
      c.Respects object a s.ext → c.Rejected a → Ends (tracedSem a) (c.code object) s x s' →
      s'.ext.objects object = s.ext.objects object ∧ .zvalNull object ∉ s'.ops := by
  have hinv := handleInv_of_callsRun hready h
  refine ⟨fun a y s' hends => hinv.destroy hends, fun c a x s' _ hc hrejected hends => ⟨?_, ?_⟩⟩
  · rw [ends_rejected hc hrejected hends]
  · exact fun hmem => ((hinv.call hc hends).quiet _ hmem).2 rfl

end Sequences

/-! ### Runs on given inputs -/

/-- The state after the calls with the answers of the library, as long as none is aborted. -/
def Traced.callAll (object : Ptr) : Traced → List (ObjectCall × LibReply) → Option Traced
  | s, [] => some s
  | s, (c, a) :: cs =>
    match execEnds (Traced.perform a) 20 (c.code object) s with
    | some (some _, s') => Traced.callAll object s' cs
    | _ => none

/-- The state after the end of the object. -/
def Traced.destroyed (object : Ptr) (s : Traced) : Option Traced :=
  (execEnds (Traced.perform {}) 20 (phpZkDestroy object) s).map (·.2)

theorem ends_of_execTraced {α : Type} {a : LibReply} {p : ExtCode α} {n : ℕ} {s s' : Traced}
    {y : Option α} (h : execEnds (Traced.perform a) n p s = some (y, s')) :
    Ends (tracedSem a) p s y s' :=
  ends_of_exec (fun _ _ _ _ => Iff.rfl) h

theorem callsRun_of_callAll {object : Ptr} {s₀ : Ext} {s s' : Traced}
    {cs : List (ObjectCall × LibReply)} (hs : CallsRun object (fun _ _ _ => True) s₀ false s)
    (h : s.callAll object cs = some s') : CallsRun object (fun _ _ _ => True) s₀ false s' := by
  induction cs generalizing s with
  | nil =>
    obtain rfl := Option.some.inj h
    exact hs
  | cons c cs ih =>
    unfold Traced.callAll at h
    split at h
    · next s₁ hexec => exact ih (hs.call trivial (ends_of_execTraced hexec)) h
    · cases h

/-- Each of the calls respects what the object owns. -/
def Traced.respected (object : Ptr) : Traced → List (ObjectCall × LibReply) → Bool
  | _, [] => true
  | s, (c, a) :: cs => c.Respects object a s.ext &&
    match execEnds (Traced.perform a) 20 (c.code object) s with
    | some (some _, s') => s'.respected object cs
    | _ => true

theorem callsRun_respects_of_callAll {object : Ptr} {s₀ : Ext} {s s' : Traced}
    {cs : List (ObjectCall × LibReply)}
    (hs : CallsRun object (ObjectCall.Respects object) s₀ false s)
    (hok : s.respected object cs = true) (h : s.callAll object cs = some s') :
    CallsRun object (ObjectCall.Respects object) s₀ false s' := by
  induction cs generalizing s with
  | nil =>
    obtain rfl := Option.some.inj h
    exact hs
  | cons c cs ih =>
    unfold Traced.callAll at h
    split at h
    · next s₁ hexec =>
      rw [Traced.respected, hexec, Bool.and_eq_true, decide_eq_true_eq] at hok
      exact ih (hs.call hok.1 (ends_of_execTraced hexec)) hok.2 h
    · cases h

theorem ends_of_destroyed {object : Ptr} {s s' : Traced} (h : s.destroyed object = some s') :
    ∃ y, Ends (tracedSem {}) (phpZkDestroy object) s y s' := by
  obtain ⟨⟨y, t⟩, hexec, rfl⟩ := Option.map_eq_some_iff.mp h
  exact ⟨y, ends_of_execTraced hexec⟩

/-- A `connect` with the callback. -/
def connectCall (fci : Option Callable) (recvTimeout : Int64) : ObjectCall :=
  .connect (some { host := ['h'], fci := fci, recvTimeout := recvTimeout })

/-- Four calls on a new object: a `connect` whose parameters are not accepted, `setWatcher` before
there is a handle, a `connect` without a callback, and `setWatcher`. -/
def watchedCalls : List (ObjectCall × LibReply) :=
  [(.connect none, {}), (.setWatcher (some 6), {}), (connectCall none 1000, {}),
    (.setWatcher (some 7), {})]

/-- The handle is closed at the end of the object and the record removed; and another `connect`, to
which `zookeeper_init` gives no handle, leaves the object connected as it was. -/
theorem handles_conserved_watched : ∃ s s', CallsRun 0 (ObjectCall.Respects 0) {} false s ∧
    s.destroyed 0 = some s' ∧ s'.ext.handles.length = 1 ∧ s'.ext.records.length = 1 ∧
    Conserved {} 0 s' ∧
    ∀ x t, Ends (tracedSem { init := false }) ((connectCall none 1000).code 0) s x t →
      t.ext.objects 0 = s.ext.objects 0 := by
  obtain ⟨s, hs⟩ : ∃ s, Traced.callAll 0 { ext := {} } watchedCalls = some s :=
    Option.isSome_iff_exists.mp (by decide +kernel)
  obtain ⟨s', hs'⟩ : ∃ s', (Traced.callAll 0 { ext := {} } watchedCalls).bind
      (Traced.destroyed 0) = some s' := Option.isSome_iff_exists.mp (by decide +kernel)
  have hlen : ((Traced.callAll 0 { ext := {} } watchedCalls).bind (Traced.destroyed 0)).map
      (fun t => (t.ext.handles.length, t.ext.records.length)) = some (1, 1) := by decide +kernel
  rw [hs'] at hlen
  rw [hs] at hs'
  obtain ⟨hhandles, hrecords⟩ := Prod.mk.inj (Option.some.inj hlen)
  have hready : ({} : Ext).IsReady 0 := ⟨⟨rfl, by simp⟩, by simp⟩
  have hrun : CallsRun 0 (ObjectCall.Respects 0) {} false s :=
    callsRun_respects_of_callAll .refl (by decide +kernel) hs
  obtain ⟨hend, hrejected⟩ := handles_conserved hready hrun
  obtain ⟨y, hy⟩ := ends_of_destroyed hs'
  refine ⟨s, s', hrun, hs', hhandles, hrecords, hend {} y s' hy, fun x t hx => ?_⟩
  have hrespects : (connectCall none 1000).Respects 0 { init := false } s.ext :=
    ⟨by decide, nofun, fun h => absurd rfl h⟩
  exact (hrejected (connectCall none 1000) { init := false } x t rfl hrespects (.inr rfl) hx).1

/-- The first handle has not been closed, there is an entry in the table, or the caller's variable
is `NULL`. -/
def Traced.leaks (object : Ptr) (s : Traced) : Bool :=
  (0 < s.ext.handles.length && s.ops.count (.zookeeperClose 0) == 0) ||
    !s.ext.callbacks.isEmpty || s.ops.contains (.zvalNull object)

theorem not_conserved_of_leaks {object : Ptr} {s : Traced} (h : s.leaks object = true) :
    ¬ Conserved {} object s := by
  intro hc
  simp only [Traced.leaks, Bool.or_eq_true, Bool.and_eq_true, decide_eq_true_eq, beq_iff_eq] at h
  rcases h with (⟨hlen, hcount⟩ | hentry) | hnull
  · rw [hc.closed 0 (Nat.zero_le _) hlen] at hcount
    cases hcount
  · obtain ⟨e, he⟩ := List.exists_mem_of_ne_nil _ (by simpa using hentry)
    exact absurd (hc.removed e he) (Nat.not_lt_zero _)
  · exact hc.usable (by simpa using hnull)

/-- After the calls, each of which has been answered, the end of a new object leaves something. -/
def LeftBehind (cs : List ObjectCall) : Prop :=
  ∃ s s', CallsRun 0 (fun _ _ _ => True) {} false s ∧
    Traced.callAll 0 { ext := {} } (cs.map fun c => (c, {})) = some s ∧
    s.destroyed 0 = some s' ∧ ¬ Conserved {} 0 s'

theorem leftBehind_of_leaks {cs : List ObjectCall}
    (h : ((Traced.callAll 0 { ext := {} } (cs.map fun c => (c, {}))).bind fun s =>
      (s.destroyed 0).map (Traced.leaks 0)) = some true) : LeftBehind cs := by
  obtain ⟨s, hs, hmap⟩ := Option.bind_eq_some_iff.mp h
  obtain ⟨s', hs', hbad⟩ := Option.map_eq_some_iff.mp hmap
  exact ⟨s, s', callsRun_of_callAll .refl hs, hs, hs', not_conserved_of_leaks hbad⟩

/-- Two `connect` calls leave a handle open at the end of the object, `setWatcher` after a `connect`
with a watcher leaves a record in the table, and a `connect` with a `recv_timeout` of 0 takes the
object from its caller. -/
theorem connect_leaks : LeftBehind [connectCall none 1000, connectCall none 1000] ∧
    LeftBehind [connectCall (some 7) 1000, .setWatcher (some 8)] ∧
    LeftBehind [connectCall none 0] := by
  refine ⟨leftBehind_of_leaks ?_, leftBehind_of_leaks ?_, leftBehind_of_leaks ?_⟩
  · decide +kernel
  · decide +kernel
  · decide +kernel

end PhpZookeeper
