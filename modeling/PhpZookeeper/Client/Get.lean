import PhpZookeeper.Client.Calls
import Mathlib.Tactic.SplitIfs

/-!
# `Zookeeper::get`

The method finds a length, allocates a byte more, has `zoo_wget` fill the buffer, and ends it with a
0 at the length that comes back. `run_get` says what a call does, whoever else acts;
`bufferOk_iff` when it stays inside its buffer, and `getsAgree_iff` when its two ways of finding the
length give the same.
-/

namespace PhpZookeeper

open Theory Prog Status

variable {E : FullNodes → FullNodes → Prop} {object zk : Ptr} {path : CString}
  {fci : Option Callable} {cbData : Option Ptr} {statInfo : Bool} {maxSize : Int64} {L : Int32}
  {s s' : Call} {tr : List ExtOp} {v : MethodResult}

/-! ### What others do -/

namespace Call

/-- Others act for a while. -/
abbrev Later (E : FullNodes → FullNodes → Prop) : Call → Call → Prop :=
  Relation.ReflTransGen (Other E)

/-- The moments of a call go on, and stay the same when nobody else acts. -/
structure Onward (E : FullNodes → FullNodes → Prop) (s s' : Call) : Prop where
  subset : s.moments ⊆ s'.moments
  still : (∀ t t', ¬ E t t') → s'.moments = s.moments

theorem Onward.refl (s : Call) : Onward E s s := ⟨List.Subset.refl _, fun _ => rfl⟩

theorem Onward.trans {s₁ s₂ s₃ : Call} (h : Onward E s₁ s₂) (h' : Onward E s₂ s₃) :
    Onward E s₁ s₃ :=
  ⟨List.Subset.trans h.subset h'.subset, fun hE => (h'.still hE).trans (h.still hE)⟩

/-- What others leave alone. -/
structure Same (E : FullNodes → FullNodes → Prop) (s s' : Call) : Prop extends Onward E s s' where
  looked : s'.looked = s.looked
  fetched : s'.fetched = s.fetched
  records : s'.records = s.records
  watches : s'.watches = s.watches

theorem Same.refl (s : Call) : Same E s s := ⟨.refl s, rfl, rfl, rfl, rfl⟩

theorem Same.trans {s₁ s₂ s₃ : Call} (h : Same E s₁ s₂) (h' : Same E s₂ s₃) : Same E s₁ s₃ :=
  ⟨h.toOnward.trans h'.toOnward, h'.looked.trans h.looked, h'.fetched.trans h.fetched,
    h'.records.trans h.records, h'.watches.trans h.watches⟩

theorem Later.same (h : Later E s s') : Same E s s' := by
  induction h with
  | refl => exact .refl s
  | tail _ hstep ih =>
    obtain ⟨t, ht, rfl⟩ := hstep
    exact ih.trans ⟨⟨List.subset_cons_self .., fun hE => absurd ht (hE _ _)⟩, rfl, rfl, rfl, rfl⟩

theorem nodes_mem_moments (s : Call) : s.nodes ∈ s.moments := List.mem_cons_self

@[simp] theorem moments_watch (s : Call) (path : CString) (context : Option Ptr) :
    (s.watch path context).moments = s.moments := by
  unfold watch
  split <;> rfl

@[simp] theorem looked_watch (s : Call) (path : CString) (context : Option Ptr) :
    (s.watch path context).looked = s.looked := by
  unfold watch
  split <;> rfl

/-- The reply to `zoo_wget` has come. -/
def fetch (s : Call) (path : CString) (context : Option Ptr) (rc : Status) : Call :=
  { if rc = ZOK then s.watch path context else s with fetched := some (s.nodes, rc) }

@[simp] theorem moments_fetch (s : Call) (path : CString) (context : Option Ptr) (rc : Status) :
    (s.fetch path context rc).moments = s.moments := by
  unfold fetch
  split_ifs
  · exact s.moments_watch path context
  · rfl

@[simp] theorem looked_fetch (s : Call) (path : CString) (context : Option Ptr) (rc : Status) :
    (s.fetch path context rc).looked = s.looked := by
  unfold fetch
  split_ifs
  · exact s.looked_watch path context
  · rfl

@[simp] theorem fetched_fetch (s : Call) (path : CString) (context : Option Ptr) (rc : Status) :
    (s.fetch path context rc).fetched = some (s.nodes, rc) := rfl

end Call

open Call

/-! ### What a call does -/

/-- What `get` returns of a reply that is `ZOK`. -/
def GetReply.result (a : GetReply) (statInfo : Bool) : MethodResult where
  value := if a.length = -1 then .null else .string (a.buffer.take a.length.toInt.toNat)
  statInfo := fillStatInfo statInfo a.stat

/-- The buffer and what is stored in it, for the length `L`. -/
theorem run_getLength (h : Run (sem E) (Zookeeper.getLength zk path cbData statInfo L) s tr v s') :
    (L ≤ 0 ∧ tr = [] ∧ v = { value := .null } ∧ s' = s) ∨
    0 < L ∧ ∃ (a : GetReply) (s₁ : Call) (tr' : List ExtOp), a.Documented s₁.nodes path L ∧
      Later E s s₁ ∧ Later E (s₁.fetch path cbData a.rc) s' ∧
      tr = .emalloc (L + 1).toInt :: .zooWget zk path cbData L :: .terminate a.length.toInt :: tr' ∧
      if a.rc = ZOK then tr' = [] ∧ v = a.result statInfo
      else tr' = [.phpCbDataDestroy cbData, .warningStatus a.rc] := by
  unfold Zookeeper.getLength at h
  split_ifs at h with hL
  · obtain ⟨rfl, rfl, rfl⟩ := run_ret_iff.mp h
    exact .inl ⟨hL, rfl, rfl, rfl⟩
  · refine .inr ⟨by rwa [Int32.not_le] at hL, ?_⟩
    obtain ⟨_, s₁, tr₁, ⟨s₀, hs₀, rfl⟩, hwget, rfl⟩ := run_op_iff.mp h
    obtain ⟨a, s₂, tr₂, ⟨s₁', hs₁, hdoc, rfl⟩, hterminate, rfl⟩ := run_op_iff.mp hwget
    obtain ⟨_, s₃, tr₃, ⟨s₂', hs₂, rfl⟩, hrest, rfl⟩ := run_op_iff.mp hterminate
    refine ⟨a, s₁', tr₃, hdoc, hs₀.trans hs₁, ?_⟩
    by_cases hrc : a.rc = ZOK
    · simp only [ret_bind, hrc, ne_eq, not_true_eq_false, if_false] at hrest
      rw [if_pos hrc]
      split_ifs at hrest with hnull
      all_goals
        obtain ⟨rfl, rfl, rfl⟩ := run_ret_iff.mp hrest
        refine ⟨hs₂, rfl, rfl, ?_⟩
        simp [GetReply.result, hnull]
    · simp only [ret_bind, ne_eq, hrc, not_false_eq_true, if_true] at hrest
      rw [if_neg hrc]
      obtain ⟨_, s₄, tr₄, ⟨s₃', hs₃, rfl⟩, hwarn, rfl⟩ := run_op_iff.mp hrest
      obtain ⟨_, s₅, tr₅, ⟨s₄', hs₄, rfl⟩, hret, rfl⟩ := run_op_iff.mp hwarn
      have hlater := (hs₂.trans hs₃).trans hs₄
      simp only [ret_bind] at hret
      split_ifs at hret
      all_goals
        obtain ⟨rfl, rfl, rfl⟩ := run_ret_iff.mp hret
        exact ⟨hlater, rfl, rfl⟩

/-- The length a call asks `zoo_wget` for: what `zoo_exists` has said, or what is left of
`max_size` in 32 bits. -/
def AskedLength (path : CString) (maxSize : Int64) (s : Call) (L : Int32) : Prop :=
  if maxSize ≤ 0 then ∃ t n, s.looked = some t ∧ t path = some n ∧ L = n.stat.dataLength
  else L = maxSize.toInt32

theorem AskedLength.congr (h : s'.looked = s.looked) :
    AskedLength path maxSize s' L ↔ AskedLength path maxSize s L := by
  unfold AskedLength
  rw [h]

theorem AskedLength.unique {L' : Int32} (h : AskedLength path maxSize s L)
    (h' : AskedLength path maxSize s L') : L = L' := by
  unfold AskedLength at h h'
  split_ifs at h h'
  · obtain ⟨t, n, ht, hn, rfl⟩ := h
    obtain ⟨t', n', ht', hn', rfl⟩ := h'
    rw [ht, Option.some.injEq] at ht'
    rw [← ht', hn, Option.some.injEq] at hn'
    rw [hn']
  · rw [h, h']

/-- The operation has nothing to do with a buffer, and is no warning. -/
def ExtOp.Plain : ExtOp → Prop
  | .emalloc _ | .terminate _ | .warning _ | .warningStatus _ => False
  | _ => True

/-- The record of a callback, when there is one. -/
theorem run_newCbData {oneshot : Bool} {α : Type} {k : Option Ptr → ExtCode α} {b : α}
    (h : Run (sem E) ((newCbData fci oneshot).bind k) s tr b s') :
    ∃ cbData s₁ tr₀ tr₁, (∀ o ∈ tr₀, o.Plain) ∧ tr = tr₀ ++ tr₁ ∧
      (∀ f, fci = some f → cbData.bind (fun p => s₁.records[p]?) = some f) ∧
      s₁.looked = s.looked ∧ s₁.fetched = s.fetched ∧ s₁.watches = s.watches ∧
      Onward E s s₁ ∧ Run (sem E) (k cbData) s₁ tr₁ b s' := by
  cases fci with
  | none => exact ⟨none, s, [], tr, by simp, rfl, by simp, rfl, rfl, rfl, .refl s, h⟩
  | some f =>
    obtain ⟨p, s₁, tr₁, ⟨s₀, hs₀, rfl, rfl⟩, hk, rfl⟩ := run_op_iff.mp h
    have hsame := Later.same hs₀
    refine ⟨some s₀.records.length, { s₀ with records := s₀.records ++ [f] },
      [.phpCbDataNew f oneshot], tr₁, ?_, rfl, ?_, hsame.looked, hsame.fetched, hsame.watches,
      ⟨hsame.subset, hsame.still⟩, hk⟩
    · simp [ExtOp.Plain]
    · simp

/-- **A call of `get`**: it raises a warning before there is a buffer, or goes on with a length. -/
theorem run_get (h : Run (sem E) (Zookeeper.get object path fci statInfo maxSize) s tr v s') :
    (Warned tr ∧ s'.fetched = s.fetched ∧ ∀ o ∈ tr, o.Plain ∨ Warned [o]) ∨
    ∃ zk cbData L s₀ tr₀ tr₁, (∀ o ∈ tr₀, o.Plain) ∧ tr = tr₀ ++ tr₁ ∧
      AskedLength path maxSize s₀ L ∧
      (∀ f, fci = some f → cbData.bind (fun p => s₀.records[p]?) = some f) ∧
      s₀.fetched = s.fetched ∧ s₀.watches = s.watches ∧ Onward E s s₀ ∧
      (∀ t, s₀.looked = some t → t ∈ s₀.moments ∨ s.looked = some t) ∧
      Run (sem E) (Zookeeper.getLength zk path cbData statInfo L) s₀ tr₁ v s' := by
  obtain ⟨o, s₁, tr₁, ⟨s₁', hs₁, rfl⟩, hget, rfl⟩ := run_op_iff.mp h
  have hsame₁ := Later.same hs₁
  cases hzk : o.zk with
  | none =>
    simp only [ret_bind, hzk] at hget
    obtain ⟨_, s₂, tr₂, ⟨s₂', hs₂, rfl⟩, hret, rfl⟩ := run_op_iff.mp hget
    obtain ⟨rfl, -, rfl⟩ := run_ret_iff.mp hret
    refine .inl ⟨.inl ⟨_, List.mem_cons_of_mem _ List.mem_cons_self⟩, ?_, ?_⟩
    · exact (hsame₁.trans (Later.same hs₂)).fetched
    · simp [ExtOp.Plain, Warned]
  | some zk =>
    simp only [ret_bind, hzk, bind_eq] at hget
    obtain ⟨cbData, s₂, tr₂, tr₃, hplain, rfl, hrecord, hlooked, hfetched, hwatches, honward,
      hrest⟩ := run_newCbData hget
    have hplain' : ∀ o ∈ ExtOp.readObject object :: tr₂, o.Plain := by
      intro o ho
      rcases List.mem_cons.mp ho with rfl | ho
      · trivial
      · exact hplain o ho
    have hfetched' := hfetched.trans hsame₁.fetched
    have honward' := hsame₁.toOnward.trans honward
    split_ifs at hrest with hmax
    · obtain ⟨r, s₃, tr₄, ⟨s₃', hs₃, hdoc, rfl⟩, hbranch, rfl⟩ := run_op_iff.mp hrest
      have hsame₃ := Later.same hs₃
      by_cases hrc : r.rc = ZOK
      · simp only [ret_bind, hrc, ne_eq, not_true_eq_false, if_false] at hbranch
        obtain ⟨n, hn, hstat⟩ := hdoc.1 hrc
        refine .inr ⟨zk, cbData, r.stat.dataLength, { s₃' with looked := some s₃'.nodes },
          .readObject object :: (tr₂ ++ [.zooExists zk path]), tr₄, ?_, by simp, ?_, ?_,
          hsame₃.fetched.trans hfetched',
          hsame₃.watches.trans (hwatches.trans hsame₁.watches),
          honward'.trans ⟨hsame₃.subset, hsame₃.still⟩, ?_, hbranch⟩
        · intro o ho
          rw [← List.cons_append, List.mem_append, List.mem_singleton] at ho
          rcases ho with ho | rfl
          · exact hplain' o ho
          · trivial
        · rw [AskedLength, if_pos hmax]
          exact ⟨_, n, rfl, hn, by rw [hstat]⟩
        · simpa only [hsame₃.records] using hrecord
        · intro t ht
          exact .inl (Option.some.inj ht ▸ s₃'.nodes_mem_moments)
      · simp only [ret_bind, ne_eq, hrc, not_false_eq_true, if_true] at hbranch
        obtain ⟨_, s₄, tr₅, ⟨s₄', hs₄, rfl⟩, hwarn, rfl⟩ := run_op_iff.mp hbranch
        obtain ⟨_, s₅, tr₆, ⟨s₅', hs₅, rfl⟩, hret, rfl⟩ := run_op_iff.mp hwarn
        obtain ⟨rfl, -, rfl⟩ := run_ret_iff.mp hret
        refine .inl ⟨.inr ⟨r.rc, by simp⟩, ?_, ?_⟩
        · exact ((Later.same hs₄).trans (Later.same hs₅)).fetched.trans
            (hsame₃.fetched.trans hfetched')
        · intro o ho
          rw [← List.cons_append, List.mem_append] at ho
          rcases ho with ho | ho
          · exact .inl (hplain' o ho)
          · revert o
            simp [ExtOp.Plain, Warned]
    · refine .inr ⟨zk, cbData, maxSize.toInt32, s₂, .readObject object :: tr₂, tr₃, hplain',
        by simp,
        ?_, hrecord, hfetched', hwatches.trans hsame₁.watches, honward', ?_, hrest⟩
      · rw [AskedLength, if_neg hmax]
      · intro t ht
        rw [hlooked, hsame₁.looked] at ht
        exact .inr ht

/-! ### The buffer -/

/-- The buffer is allocated with a positive number of bytes, and ended inside. -/
def BufferOk (tr : List ExtOp) : Prop :=
  (∀ n, .emalloc n ∈ tr → 0 < n) ∧
    ∀ i, .terminate i ∈ tr → ∃ n, .emalloc n ∈ tr ∧ 0 ≤ i ∧ i < n

/-- A length that can be allocated with one byte more, and a value that is not `NULL`, if any comes
back. -/
def Fits (path : CString) (L : Int32) (t : FullNodes) (rc : Status) : Prop :=
  L ≠ Int32.maxValue ∧ (rc = ZOK → ∀ n, t path = some n → n.data ≠ none)

/-- When `zoo_wget` was answered, if it was, length and value fitted. -/
def GetFits (path : CString) (maxSize : Int64) (s : Call) : Prop :=
  ∀ t rc L, s.fetched = some (t, rc) → AskedLength path maxSize s L → Fits path L t rc

theorem Int32.toInt_add_one {L : Int32} (h : L ≠ Int32.maxValue) :
    (L + 1).toInt = L.toInt + 1 := by
  have hmax : L.toInt ≠ 2147483647 := fun h' => h (Int32.toInt_inj.mp h')
  have hlt := L.toInt_lt
  have hle := L.le_toInt
  rw [Int32.toInt_add, Int32.toInt_one]
  rw [Int.bmod_eq_of_le] <;> grind

theorem bufferOk_append {tr₀ tr₁ : List ExtOp} (h : ∀ o ∈ tr₀, o.Plain ∨ Warned [o]) :
    BufferOk (tr₀ ++ tr₁) ↔ BufferOk tr₁ := by
  have hemalloc : ∀ n, .emalloc n ∉ tr₀ := fun n hn => by
    simpa [ExtOp.Plain, Warned] using h _ hn
  have hterminate : ∀ i, .terminate i ∉ tr₀ := fun i hi => by
    simpa [ExtOp.Plain, Warned] using h _ hi
  simp [BufferOk, hemalloc, hterminate]

/-- One allocation, and one byte that is written. -/
theorem bufferOk_iff_index {n i : ℤ} {length : Int32} {tr' : List ExtOp}
    (h : ∀ o ∈ tr', o.Plain ∨ Warned [o]) :
    BufferOk (.emalloc n :: .zooWget zk path cbData length :: .terminate i :: tr') ↔
      0 ≤ i ∧ i < n := by
  have hemalloc : ∀ n, .emalloc n ∉ tr' := fun n hn => by
    simpa [ExtOp.Plain, Warned] using h _ hn
  have hterminate : ∀ i, .terminate i ∉ tr' := fun i hi => by
    simpa [ExtOp.Plain, Warned] using h _ hi
  simp only [BufferOk, List.mem_cons, ExtOp.emalloc.injEq, reduceCtorEq, hemalloc, false_or,
    or_false, ExtOp.terminate.injEq, hterminate, forall_eq, exists_eq_left]
  exact and_iff_right_of_imp fun hi => by omega

/-- The index at which the buffer ends, and what makes it one. -/
theorem fits_iff {t : FullNodes} {a : GetReply} (hL : 0 < L) (h : a.Documented t path L) :
    0 ≤ a.length.toInt ∧ a.length.toInt < (L + 1).toInt ↔ Fits path L t a.rc := by
  have hpos : 0 < L.toInt := Int32.lt_iff_toInt_lt.mp hL
  by_cases hmax : L = Int32.maxValue
  · have hneg : (L + 1).toInt < 0 := hmax ▸ by decide
    exact iff_of_false (fun hi => by omega) fun hfits => hfits.1 hmax
  · rw [Int32.toInt_add_one hmax]
    unfold GetReply.Documented at h
    split_ifs at h with hrc
    · obtain ⟨n, hn, -, hlength⟩ := h
      cases hdata : n.data with
      | none =>
        simp only [hdata] at hlength
        refine iff_of_false (fun hi => ?_) fun hfits => hfits.2 hrc n hn hdata
        rw [hlength.2] at hi
        exact absurd hi.1 (by decide)
      | some d =>
        simp only [hdata] at hlength
        refine iff_of_true (by rw [hlength.2]; omega) ⟨hmax, fun _ n' hn' hnull => ?_⟩
        rw [hn, Option.some.injEq] at hn'
        rw [← hn', hdata] at hnull
        cases hnull
    · exact iff_of_true (by rw [h]; omega) ⟨hmax, fun h' => absurd h' hrc⟩

/-- What follows the buffer. -/
theorem plain_of_getLength {a : GetReply} {tr' : List ExtOp}
    (h : if a.rc = ZOK then tr' = [] ∧ v = a.result statInfo
      else tr' = [.phpCbDataDestroy cbData, .warningStatus a.rc]) :
    ∀ o ∈ tr', o.Plain ∨ Warned [o] := by
  split_ifs at h
  · simp [h.1]
  · subst h
    simp [ExtOp.Plain, Warned]

/-- **When `get` stays inside its buffer**, whatever others do in the meantime: exactly when the
length is not the greatest `int` and what comes back, if it does, is not `NULL`. -/
theorem bufferOk_iff (h : Run (sem E) (Zookeeper.get object path fci statInfo maxSize) s tr v s')
    (hfetched : s.fetched = none) : BufferOk tr ↔ GetFits path maxSize s' := by
  rcases run_get h with ⟨-, hsame, hplain⟩ | ⟨zk, cbData, L, s₀, tr₀, tr₁, hplain, rfl, hasked, -,
    hsame, -, -, -, hrest⟩
  · refine iff_of_true ?_ fun t rc L ht => ?_
    · rw [← List.append_nil tr, bufferOk_append hplain]
      exact ⟨by simp, by simp⟩
    · rw [hsame, hfetched] at ht
      cases ht
  · rw [bufferOk_append fun o ho => .inl (hplain o ho)]
    rcases run_getLength hrest with ⟨-, rfl, -, rfl⟩ | ⟨hL, a, s₁, tr', hdoc, hlater, hlater', rfl,
      htr'⟩
    · refine iff_of_true ⟨by simp, by simp⟩ fun t rc L' ht => ?_
      rw [hsame, hfetched] at ht
      cases ht
    · have hlooked : s'.looked = s₀.looked := by
        rw [(Later.same hlater').looked, looked_fetch, (Later.same hlater).looked]
      have hfetch : s'.fetched = some (s₁.nodes, a.rc) := (Later.same hlater').fetched
      rw [bufferOk_iff_index (plain_of_getLength htr'), fits_iff hL hdoc]
      constructor
      · intro hfits t rc L' ht hL'
        rw [hfetch, Option.some.injEq, Prod.mk.injEq] at ht
        obtain ⟨rfl, rfl⟩ := ht
        exact hasked.unique ((AskedLength.congr hlooked).mp hL') ▸ hfits
      · exact fun hfits => hfits _ _ _ hfetch ((AskedLength.congr hlooked).mpr hasked)

/-! ### Runs without a failure -/

/-- The reply to `zoo_wget` for a node. -/
def FullNode.getReply (n : FullNode) (L : Int32) : GetReply where
  rc := ZOK
  buffer := (n.data.getD []).take L.toInt.toNat
  length := match n.data with
    | none => -1
    | some d => Int32.ofNat (min L.toInt.toNat d.length)
  stat := n.stat

theorem FullNode.getReply_documented {n : FullNode} {t : FullNodes} (hn : t path = some n)
    (L : Int32) : (n.getReply L).Documented t path L := by
  rw [GetReply.Documented, if_pos (show (n.getReply L).rc = ZOK from rfl)]
  refine ⟨n, hn, rfl, ?_⟩
  have hlt := L.toInt_lt
  cases hdata : n.data with
  | none => simp [FullNode.getReply, hdata]
  | some d =>
    simp only [FullNode.getReply, hdata, Option.getD_some, true_and]
    exact Int32.toInt_ofNat_of_lt (by omega)

theorem exists_run_getLength {n : FullNode} (zk : Ptr) (cbData : Option Ptr) (statInfo : Bool)
    (L : Int32) (hn : s.nodes path = some n) :
    ∃ tr v s', Run (sem E) (Zookeeper.getLength zk path cbData statInfo L) s tr v s' ∧
      ¬ Warned tr := by
  unfold Zookeeper.getLength
  split_ifs with hL
  · exact ⟨_, _, _, .ret, by simp [Warned]⟩
  · have hsem : sem E (.zooWget zk path cbData L) s (n.getReply L) (s.fetch path cbData ZOK) :=
      ⟨s, .refl, FullNode.getReply_documented hn L, rfl⟩
    have hrest : ∃ v : MethodResult, Run (sem E) (if (n.getReply L).length = -1 then
        .ret ⟨.null, fillStatInfo statInfo n.stat⟩
      else .ret ⟨.string ((n.getReply L).buffer.take (n.getReply L).length.toInt.toNat),
        fillStatInfo statInfo n.stat⟩) (s.fetch path cbData ZOK) [] v
        (s.fetch path cbData ZOK) := by
      split_ifs
      · exact ⟨_, .ret⟩
      · exact ⟨_, .ret⟩
    obtain ⟨v, hv⟩ := hrest
    refine ⟨_, v, _, run_op_iff.mpr ⟨(), s, _, ⟨s, .refl, rfl⟩, run_op_iff.mpr ⟨n.getReply L, _, _,
      hsem, run_op_iff.mpr ⟨(), _, _, ⟨_, .refl, rfl⟩, hv, rfl⟩, rfl⟩, rfl⟩, by simp [Warned]⟩

/-- A call of `get` for a node that is there can go without a failure. -/
theorem exists_run_get {n : FullNode} (object : Ptr) (path : CString) (fci : Option Callable)
    (statInfo : Bool) (maxSize : Int64) (hn : s.nodes path = some n) :
    ∃ tr v s', Run (sem E) (Zookeeper.get object path fci statInfo maxSize) s tr v s' ∧
      ¬ Warned tr := by
  let o : ZkObject := { zk := some 0 }
  have hrest : ∀ (s : Call) (cbData : Option Ptr), s.nodes path = some n → ∃ tr v s',
      Run (sem E) (if maxSize ≤ 0 then (extAct (.zooExists 0 path)).bind fun a =>
          if a.rc ≠ ZOK then (do
            extAct (.phpCbDataDestroy cbData)
            extAct (.warningStatus a.rc)
            return { value := .null })
          else Zookeeper.getLength 0 path cbData statInfo a.stat.dataLength
        else Zookeeper.getLength 0 path cbData statInfo maxSize.toInt32) s tr v s' ∧
        ¬ Warned tr := by
    intro s cbData hn
    split_ifs with hmax
    · obtain ⟨tr, v, s', hrun, hwarn⟩ := exists_run_getLength (E := E) 0 cbData statInfo
        n.stat.dataLength
        (show ({ s with looked := some s.nodes } : Call).nodes path = some n from hn)
      have hdoc : StatReply.Documented s.nodes path { rc := ZOK, stat := n.stat } :=
        ⟨fun _ => ⟨n, hn, rfl⟩, nofun⟩
      refine ⟨_, v, s', run_op_iff.mpr ⟨{ rc := ZOK, stat := n.stat }, _, tr, ⟨s, .refl, hdoc, rfl⟩,
        hrun, rfl⟩, ?_⟩
      simpa [Warned] using hwarn
    · exact exists_run_getLength 0 cbData statInfo maxSize.toInt32 hn
  cases fci with
  | none =>
    obtain ⟨tr, v, s', hrun, hwarn⟩ := hrest s none hn
    refine ⟨_, v, s', run_op_iff.mpr ⟨o, s, tr, ⟨s, .refl, rfl⟩, hrun, rfl⟩, ?_⟩
    simpa [Warned] using hwarn
  | some f =>
    obtain ⟨tr, v, s', hrun, hwarn⟩ :=
      hrest { s with records := s.records ++ [f] } (some s.records.length) hn
    refine ⟨_, v, s', run_op_iff.mpr ⟨o, s, _, ⟨s, .refl, rfl⟩, run_op_iff.mpr
      ⟨s.records.length, _, tr, ⟨s, .refl, rfl, rfl⟩, hrun, rfl⟩, rfl⟩, ?_⟩
    simpa [Warned] using hwarn

/-! ### Nobody else acts -/

/-- The length that a call asks for when the node does not change. -/
def FullNode.askedLength (n : FullNode) (maxSize : Int64) : Int32 :=
  if maxSize ≤ 0 then n.stat.dataLength else maxSize.toInt32

theorem Later.eq_of_alone (h : Later Alone s s') : s' = s := by
  cases h with
  | refl => rfl
  | tail _ hstep =>
    obtain ⟨_, hfalse, _⟩ := hstep
    exact hfalse.elim

theorem mem_watches_watch {f : Callable} (h : cbData.bind (fun p => s.records[p]?) = some f) :
    (path, f) ∈ (s.watch path cbData).watches := by
  unfold Call.watch
  rw [h]
  exact List.mem_cons_self

/-- What a call of `get` does when nothing changes and nothing fails. -/
theorem run_get_alone {t : FullNodes} {n : FullNode}
    (h : Run (sem Alone) (Zookeeper.get object path fci statInfo maxSize) { nodes := t } tr v s')
    (hn : t path = some n) (hwarn : ¬ Warned tr) :
    (n.askedLength maxSize ≤ 0 ∧ BufferOk tr ∧ v = { value := .null } ∧ s'.watches = []) ∨
    0 < n.askedLength maxSize ∧
      (BufferOk tr ↔ Fits path (n.askedLength maxSize) t ZOK) ∧
      (∀ f, fci = some f → (path, f) ∈ s'.watches) ∧
      ∃ a : GetReply, a.rc = ZOK ∧ a.Documented t path (n.askedLength maxSize) ∧
        v = a.result statInfo := by
  rcases run_get h with ⟨hwarned, -⟩ | ⟨zk, cbData, L, s₀, tr₀, tr₁, hplain, rfl, hasked, hrecord,
    -, hwatches, honward, hlooked, hrest⟩
  · exact absurd hwarned hwarn
  · have hmoments : s₀.moments = [t] := honward.still fun _ _ => id
    have hnodes : s₀.nodes = t := (List.cons.inj hmoments).1
    obtain rfl : n.askedLength maxSize = L := by
      unfold FullNode.askedLength
      unfold AskedLength at hasked
      split_ifs at hasked ⊢ with hmax
      · obtain ⟨t', n', ht', hn', rfl⟩ := hasked
        rcases hlooked t' ht' with hmem | hnone
        · rw [hmoments, List.mem_singleton] at hmem
          rw [hmem, hn, Option.some.injEq] at hn'
          rw [hn']
        · cases hnone
      · exact hasked.symm
    rw [bufferOk_append fun o ho => .inl (hplain o ho)]
    rcases run_getLength hrest with ⟨hL, rfl, hv, rfl⟩ | ⟨hL, a, s₁, tr', hdoc, hlater, hlater',
      rfl, htr'⟩
    · exact .inl ⟨hL, ⟨by simp, by simp⟩, hv, hwatches⟩
    · obtain rfl := Later.eq_of_alone hlater
      obtain rfl := Later.eq_of_alone hlater'
      rw [hnodes] at hdoc
      have hrc : a.rc = ZOK := by
        by_contra hne
        rw [if_neg hne] at htr'
        exact hwarn (.inr ⟨a.rc, by simp [htr']⟩)
      refine .inr ⟨hL, ?_, fun f hf => ?_, a, hrc, hdoc, ?_⟩
      · rw [bufferOk_iff_index (plain_of_getLength htr'), fits_iff hL hdoc, hrc]
      · rw [Call.fetch, if_pos hrc]
        exact mem_watches_watch (hrecord f hf)
      · rw [if_pos hrc] at htr'
        exact htr'.2

/-- What a length makes of the data. -/
theorem result_of_documented {t : FullNodes} {n : FullNode} {a : GetReply} (statInfo : Bool)
    (hn : t path = some n) (hrc : a.rc = ZOK) (h : a.Documented t path L) :
    (a.result statInfo).statInfo = fillStatInfo statInfo n.stat ∧
    (a.result statInfo).value = match n.data with
      | none => .null
      | some d => .string (d.take L.toInt.toNat) := by
  unfold GetReply.Documented at h
  rw [if_pos hrc] at h
  obtain ⟨n', hn', hstat, hlength⟩ := h
  obtain rfl : n = n' := Option.some.inj (hn.symm.trans hn')
  refine ⟨by rw [← hstat]; rfl, ?_⟩
  cases hdata : n.data with
  | none =>
    simp only [hdata] at hlength
    simp [GetReply.result, hlength.2]
  | some d =>
    simp only [hdata] at hlength
    have hne : a.length ≠ -1 := fun h => by
      rw [h] at hlength
      have := hlength.2
      rw [show (-1 : Int32).toInt = -1 from by decide] at this
      omega
    simp only [GetReply.result, if_neg hne, hlength, Zval.string.injEq]
    rw [List.take_take, List.take_eq_take_iff]
    omega

/-- A call for a node with data, by which the buffer is kept. -/
theorem bufferOk_with_data :
    ∃ tr v s', Run (sem Shared) (Zookeeper.get 0 ['/', 'a'] none true 1)
      { nodes := fun _ => some ⟨some [1], { dataLength := 1 }, [], rfl⟩ } tr v s' ∧
      (BufferOk tr ↔ GetFits ['/', 'a'] 1 s') := by
  obtain ⟨tr, v, s', hrun, -⟩ := exists_run_get (E := Shared)
    (s := { nodes := fun _ => some ⟨some [1], { dataLength := 1 }, [], rfl⟩ }) 0 ['/', 'a'] none
    true 1 rfl
  exact ⟨tr, v, s', hrun, bufferOk_iff hrun rfl⟩

/-- A `NULL` value spoils the byte before the buffer, even when nobody else acts. -/
theorem buffer_underrun :
    ¬ ∀ (E : FullNodes → FullNodes → Prop) (object : Ptr) (path : CString) (fci : Option Callable)
      (statInfo : Bool) (maxSize : Int64) (s s' : Call) (tr : List ExtOp) (v : MethodResult),
      s.fetched = none → Run (sem E) (Zookeeper.get object path fci statInfo maxSize) s tr v s' →
      BufferOk tr := by
  intro h
  let n : FullNode := { data := none, stat := {}, acl := [], dataLength := rfl }
  let t : FullNodes := fun _ => some n
  obtain ⟨tr, v, s', hrun, hwarn⟩ := exists_run_get (E := Alone) (s := { nodes := t }) (n := n)
    0 ['/', 'a'] none false 1 rfl
  rcases run_get_alone hrun rfl hwarn with ⟨hle, -⟩ | ⟨-, hbuffer, -⟩
  · exact absurd hle (by decide)
  · exact (hbuffer.mp (h _ _ _ _ _ _ _ _ _ _ rfl hrun)).2 rfl n rfl rfl

/-! ### The two ways of finding the length -/

/-- A call with a `max_size` and one without, for a node that stays as it is: both keep to their
buffers, return the same value and the node's `struct Stat`, and leave the callback on the node. -/
def GetsAgree (object : Ptr) (path : CString) (n : FullNode) (fci : Option Callable)
    (statInfo : Bool) (maxSize : Int64) : Prop :=
  ∀ t tr v s' tr₀ v₀ s₀', t path = some n →
    Run (sem Alone) (Zookeeper.get object path fci statInfo maxSize) { nodes := t } tr v s' →
    ¬ Warned tr →
    Run (sem Alone) (Zookeeper.get object path fci statInfo 0) { nodes := t } tr₀ v₀ s₀' →
    ¬ Warned tr₀ →
    BufferOk tr ∧ BufferOk tr₀ ∧ v.value = v₀.value ∧
      (statInfo = true → v.statInfo = some (phpStatToArray n.stat) ∧
        v₀.statInfo = some (phpStatToArray n.stat)) ∧
      ∀ f, fci = some f → (path, f) ∈ s'.watches ∧ (path, f) ∈ s₀'.watches

theorem FullNode.data_of_pos {n : FullNode} (h : 0 < n.stat.dataLength) :
    ∃ d, n.data = some d ∧ n.stat.dataLength.toInt = d.length := by
  have hlength := n.dataLength
  have hpos : 0 < n.stat.dataLength.toInt := Int32.lt_iff_toInt_lt.mp h
  cases hdata : n.data with
  | none => simp [hdata] at hlength; omega
  | some d => exact ⟨d, rfl, by simpa [hdata] using hlength⟩

theorem FullNode.pos_or_zero (n : FullNode) : 0 < n.stat.dataLength ∨ n.stat.dataLength = 0 := by
  rw [Int32.lt_iff_toInt_lt, ← Int32.toInt_inj, n.dataLength, Int32.toInt_zero]
  omega

/-- A call for a node with data, with a length that is long enough. -/
theorem run_get_whole {t : FullNodes} {n : FullNode} {d : Bytes}
    (h : Run (sem Alone) (Zookeeper.get object path fci statInfo maxSize) { nodes := t } tr v s')
    (hn : t path = some n) (hwarn : ¬ Warned tr) (hpos : 0 < n.askedLength maxSize)
    (hdata : n.data = some d) :
    (BufferOk tr ↔ n.askedLength maxSize ≠ Int32.maxValue) ∧
      v.value = .string (d.take (n.askedLength maxSize).toInt.toNat) ∧
      v.statInfo = fillStatInfo statInfo n.stat ∧ ∀ f, fci = some f → (path, f) ∈ s'.watches := by
  rcases run_get_alone h hn hwarn with ⟨hle, -⟩ | ⟨-, hbuffer, hwatch, a, hrc, hdoc, rfl⟩
  · exact absurd hpos (Int32.not_lt.mpr hle)
  · obtain ⟨hstat, hvalue⟩ := result_of_documented statInfo hn hrc hdoc
    rw [hdata] at hvalue
    refine ⟨hbuffer.trans ⟨fun hfits => hfits.1, fun hmax => ⟨hmax, fun _ n' hn' hnull => ?_⟩⟩,
      hvalue,
      hstat, hwatch⟩
    obtain rfl : n = n' := Option.some.inj (hn.symm.trans hn')
    rw [hdata] at hnull
    cases hnull

/-- **When a `max_size` makes no difference**: for data that is not empty, when what is left of it
in 32 bits is at least the length and not the greatest `int`; for an empty or `NULL` value, when
nothing is left of it, and neither the `struct Stat` nor a watch has been asked for. -/
theorem getsAgree_iff (object : Ptr) (path : CString) (n : FullNode) (fci : Option Callable)
    (statInfo : Bool) (maxSize : Int64) (hmax : 0 < maxSize) :
    GetsAgree object path n fci statInfo maxSize ↔
      (0 < n.stat.dataLength ∧ n.stat.dataLength ≤ maxSize.toInt32 ∧
        maxSize.toInt32 ≠ Int32.maxValue) ∨
      (n.stat.dataLength = 0 ∧ maxSize.toInt32 ≤ 0 ∧ statInfo = false ∧ fci = none) := by
  have hasked : n.askedLength maxSize = maxSize.toInt32 := if_neg (Int64.not_le.mpr hmax)
  have hasked₀ : n.askedLength 0 = n.stat.dataLength := if_pos (by decide)
  constructor
  · intro h
    let t : FullNodes := fun _ => some n
    have hn : t path = some n := rfl
    obtain ⟨tr, v, s', hrun, hwarn⟩ := exists_run_get (E := Alone) (s := { nodes := t }) object path
      fci statInfo maxSize hn
    obtain ⟨tr₀, v₀, s₀', hrun₀, hwarn₀⟩ := exists_run_get (E := Alone) (s := { nodes := t }) object
      path fci statInfo 0 hn
    obtain ⟨hbuffer, -, hvalue, hstat, hwatch⟩ := h t tr v s' tr₀ v₀ s₀' hn hrun hwarn hrun₀ hwarn₀
    rcases n.pos_or_zero with hpos | hzero
    · obtain ⟨d, hdata, hlength⟩ := FullNode.data_of_pos hpos
      obtain ⟨-, hvalue₀, -⟩ := run_get_whole hrun₀ hn hwarn₀ (hasked₀ ▸ hpos) hdata
      rw [hasked₀, List.take_of_length_le (by omega)] at hvalue₀
      by_cases hL : maxSize.toInt32 ≤ 0
      · rcases run_get_alone hrun hn hwarn with ⟨-, -, rfl, -⟩ | ⟨hlt, -⟩
        · rw [hvalue₀] at hvalue
          cases hvalue
        · exact absurd (hasked ▸ hL) (Int32.not_le.mpr hlt)
      · rw [Int32.not_le] at hL
        obtain ⟨hok, hvalue', -⟩ := run_get_whole hrun hn hwarn (hasked ▸ hL) hdata
        rw [hasked] at hok hvalue'
        rw [hvalue', hvalue₀, Zval.string.injEq, List.take_eq_self_iff] at hvalue
        have hL' : 0 < maxSize.toInt32.toInt := Int32.lt_iff_toInt_lt.mp hL
        exact .inl ⟨hpos, Int32.le_iff_toInt_le.mpr (by omega), hok.mp hbuffer⟩
    · rcases run_get_alone hrun₀ hn hwarn₀ with ⟨-, -, rfl, hwatches⟩ | ⟨hlt, -⟩
      · refine .inr ⟨hzero, ?_, ?_, ?_⟩
        · by_contra hL
          rcases run_get_alone hrun hn hwarn with ⟨hle, -⟩ | ⟨-, hfits, -, a, hrc, hdoc, rfl⟩
          · exact hL (hasked ▸ hle)
          · have hvalue' := (result_of_documented statInfo hn hrc hdoc).2
            rw [hvalue] at hvalue'
            have hnull := (hfits.mp hbuffer).2 rfl n hn
            cases hdata : n.data with
            | none => exact hnull hdata
            | some d => simp [hdata] at hvalue'
        · cases statInfo with
          | false => rfl
          | true => cases (hstat rfl).2
        · cases fci with
          | none => rfl
          | some f =>
            have hmem := (hwatch f rfl).2
            rw [hwatches] at hmem
            cases hmem
      · rw [hasked₀, hzero] at hlt
        exact absurd hlt (by decide)
  · rintro (⟨hpos, hle, hne⟩ | ⟨hzero, hle, rfl, rfl⟩) t tr v s' tr₀ v₀ s₀' hn hrun hwarn hrun₀
      hwarn₀
    · obtain ⟨d, hdata, hlength⟩ := FullNode.data_of_pos hpos
      have hpos' : 0 < n.stat.dataLength.toInt := Int32.lt_iff_toInt_lt.mp hpos
      have hle' := Int32.le_iff_toInt_le.mp hle
      have hlt := Int32.toInt_lt maxSize.toInt32
      obtain ⟨hok, hvalue, hstat, hwatch⟩ := run_get_whole hrun hn hwarn
        (by rw [hasked, Int32.lt_iff_toInt_lt, Int32.toInt_zero]; omega) hdata
      obtain ⟨hok₀, hvalue₀, hstat₀, hwatch₀⟩ :=
        run_get_whole hrun₀ hn hwarn₀ (hasked₀ ▸ hpos) hdata
      rw [hasked] at hok hvalue
      rw [hasked₀] at hok₀ hvalue₀
      rw [List.take_of_length_le (by omega)] at hvalue hvalue₀
      refine ⟨hok.mpr hne, hok₀.mpr fun hmax => ?_, hvalue.trans hvalue₀.symm, ?_, ?_⟩
      · rw [hmax, show Int32.maxValue.toInt = 2147483647 from by decide] at hle'
        refine hne (Int32.toInt_inj.mp ?_)
        rw [show Int32.maxValue.toInt = 2147483647 from by decide]
        omega
      · rintro rfl
        exact ⟨hstat, hstat₀⟩
      · exact fun f hf => ⟨hwatch f hf, hwatch₀ f hf⟩
    · rcases run_get_alone hrun hn hwarn with ⟨-, hok, rfl, -⟩ | ⟨hlt, -⟩
      · rcases run_get_alone hrun₀ hn hwarn₀ with ⟨-, hok₀, rfl, -⟩ | ⟨hlt, -⟩
        · exact ⟨hok, hok₀, rfl, nofun, nofun⟩
        · rw [hasked₀, hzero] at hlt
          exact absurd hlt (by decide)
      · exact absurd hle (Int32.not_le.mpr (hasked ▸ hlt))

/-- A node with one byte of data, and a `max_size` of 10. -/
theorem getsAgree_one_byte :
    GetsAgree 0 ['/', 'a'] ⟨some [1], { dataLength := 1 }, [], rfl⟩ (some 0) true 10 :=
  (getsAgree_iff _ _ _ _ _ _ (by decide)).mpr (.inl (by decide))

/-- Empty data comes back as an empty string, or as `NULL`. -/
theorem gets_disagree :
    ¬ ∀ (object : Ptr) (path : CString) (n : FullNode) (fci : Option Callable) (statInfo : Bool)
      (maxSize : Int64), 0 < maxSize → n.stat.dataLength.toInt ≤ maxSize.toInt →
      GetsAgree object path n fci statInfo maxSize := by
  intro h
  have hempty := h 0 ['/', 'a'] ⟨some [], {}, [], rfl⟩ none false 10 (by decide) (by decide)
  rw [getsAgree_iff _ _ _ _ _ _ (by decide)] at hempty
  revert hempty
  decide

end PhpZookeeper
