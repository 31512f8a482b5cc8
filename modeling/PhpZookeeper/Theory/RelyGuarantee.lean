import PhpZookeeper.Theory.Interactive
import Mathlib.Tactic.Choose

/-!
# Rely–guarantee reasoning for interactive programs

Programs that share a state take turns, one operation at a time. `Triple P p Q` says:
started in a state satisfying `P`, with other programs changing the state between its
operations only as the rely `R` allows, the program `p` performs only operations that
keep the guarantee `G`, and if it returns `a` it does so in a state satisfying `Q a`.

* The rely is indexed by the operation the program is about to perform: what others may
  do may depend on what the program is waiting to do.
* The guarantee is a relation between an operation, the state it was performed in, its
  result, and the state it left, so it can speak of the request as well as of its effect.

`Safe p Q s` is the invariant a program in the middle of its run keeps: it survives a step
of another program (`Safe.rely`) and a step of its own (`Safe.op`, `Safe.iter`), and what
the own step does is guaranteed. A system of programs is reasoned about by keeping each
one `Safe`. For a program that runs alone (`Contract.alone`) the triples are those of
sequential programs (`Triple.returns`).
-/

namespace PhpZookeeper.Theory

open Prog

variable {Op : Type} {Res : Op → Type} {S : Type} {α β γ : Type}

/-- What a program may do (`sem`), what it relies on, and what it guarantees. -/
structure Contract {Op : Type} (Res : Op → Type) (S : Type) where
  /-- What performing an operation may give. -/
  sem : (o : Op) → S → Res o → S → Prop
  /-- What others may do while the program is about to perform the operation. -/
  rely : Option Op → S → S → Prop
  /-- What the program promises of each of its operations. -/
  guar : (o : Op) → S → Res o → S → Prop

/-- The assertion `P` is kept by what others do while the program is about to do `o`. -/
def Contract.Stable (C : Contract Res S) (o : Option Op) (P : S → Prop) : Prop :=
  ∀ s s', C.rely o s s' → P s → P s'

/-- The contract that any program keeps. -/
def Contract.any : Contract Res S where
  sem _ _ _ _ := True
  rely _ _ _ := True
  guar _ _ _ _ := True

variable {C : Contract Res S}

theorem Contract.Stable.and {o : Option Op} {P Q : S → Prop} (hP : C.Stable o P)
    (hQ : C.Stable o Q) : C.Stable o fun s => P s ∧ Q s :=
  fun s s' hr h => ⟨hP s s' hr h.1, hQ s s' hr h.2⟩

theorem Contract.Stable.true (o : Option Op) : C.Stable o fun _ => True := fun _ _ _ _ => trivial

/-- `Triple C P p Q`: see the module's header. -/
inductive Triple (C : Contract Res S) : {α : Type} → (S → Prop) → Prog Res α →
    (α → S → Prop) → Prop where
  /-- A program that has ended. -/
  | ret {α : Type} {P : S → Prop} {a : α} {Q : α → S → Prop} :
      (∀ s, P s → Q a s) → Triple C P (.ret a) Q
  /-- One operation: performed in a state others may have changed. -/
  | op {α : Type} {P K : S → Prop} {o : Op} {k : Res o → Prog Res α} {M : Res o → S → Prop}
      {Q : α → S → Prop} :
      (∀ s, P s → K s) → C.Stable (some o) K →
      (∀ s r s', K s → C.sem o s r s' → C.guar o s r s' ∧ M r s') →
      (∀ r, Triple C (M r) (k r) Q) → Triple C P (.op o k) Q
  /-- A loop, with the invariant `I` and the outcome `J`. -/
  | iter {α β γ : Type} {P : S → Prop} {body : β → Prog Res (β ⊕ γ)} {b : β} {k : γ → Prog Res α}
      {I : β → S → Prop} {J : γ → S → Prop} {Q : α → S → Prop} :
      (∀ s, P s → I b s) → (∀ b, C.Stable none (I b)) →
      (∀ b, Triple C (I b) (body b) fun x s => Sum.elim (I · s) (J · s) x) →
      (∀ c, Triple C (J c) (k c) Q) → Triple C P (.iter body b k) Q

namespace Triple

variable {P P' : S → Prop} {p : Prog Res α} {Q Q' : α → S → Prop}

/-- A stronger precondition. -/
theorem pre (h : Triple C P p Q) (hP : ∀ s, P' s → P s) : Triple C P' p Q := by
  cases h with
  | ret hq => exact .ret fun s hs => hq s (hP s hs)
  | op h₀ hst hop hk => exact .op (fun s hs => h₀ s (hP s hs)) hst hop hk
  | iter hi hst hb hk => exact .iter (fun s hs => hi s (hP s hs)) hst hb hk

/-- A weaker postcondition. -/
theorem post (h : Triple C P p Q) (hQ : ∀ a s, Q a s → Q' a s) : Triple C P p Q' := by
  induction h with
  | ret hq => exact .ret fun s hs => hQ _ s (hq s hs)
  | op h₀ hst hop _ ih => exact .op h₀ hst hop fun r => ih r hQ
  | iter hi hst hb _ _ ih => exact .iter hi hst hb fun c => ih c hQ

/-- Nothing is asked of a program that is never started. -/
theorem of_false (hP : ∀ s, ¬ P s) : Triple C P p Q := by
  induction p generalizing P with
  | ret a => exact .ret fun s hs => absurd hs (hP s)
  | op o k ih =>
    exact .op (K := fun _ => False) (M := fun _ _ => False) hP (fun _ _ _ h => h)
      (fun s r s' h _ => h.elim) fun r => ih r fun _ h => h
  | iter body b k ihb ihk =>
    exact .iter (I := fun _ _ => False) (J := fun _ _ => False) hP (fun _ _ _ _ h => h)
      (fun b => ihb b fun _ h => h) fun c => ihk c fun _ h => h

/-- A precondition of several kinds. -/
theorem exists_pre {ι : Type} {P : ι → S → Prop} (h : ∀ i, Triple C (P i) p Q) :
    Triple C (fun s => ∃ i, P i s) p Q := by
  induction p generalizing ι with
  | ret a =>
    refine .ret fun s ⟨i, hs⟩ => ?_
    have hi := h i
    cases hi with
    | ret hq => exact hq s hs
  | op o k ih =>
    have hinv : ∀ i, ∃ (K : S → Prop) (M : Res o → S → Prop), (∀ s, P i s → K s) ∧
        C.Stable (some o) K ∧ (∀ s r s', K s → C.sem o s r s' → C.guar o s r s' ∧ M r s') ∧
        ∀ r, Triple C (M r) (k r) Q := by
      intro i
      have hi := h i
      cases hi with
      | op h₀ hst hop hk => exact ⟨_, _, h₀, hst, hop, hk⟩
    choose K M h₀ hst hop hk using hinv
    refine .op (K := fun s => ∃ i, K i s) (M := fun r s => ∃ i, M i r s)
      (fun s ⟨i, hs⟩ => ⟨i, h₀ i s hs⟩) (fun s s' hr ⟨i, hs⟩ => ⟨i, hst i s s' hr hs⟩)
      (fun s r s' ⟨i, hs⟩ hsem => ?_) fun r => ih r fun i => hk i r
    obtain ⟨hg, hm⟩ := hop i s r s' hs hsem
    exact ⟨hg, i, hm⟩
  | @iter _ β γ body b k ihb ihk =>
    have hinv : ∀ i, ∃ (I : β → S → Prop) (J : γ → S → Prop), (∀ s, P i s → I b s) ∧
        (∀ b, C.Stable none (I b)) ∧
        (∀ b, Triple C (I b) (body b) fun x s => Sum.elim (I · s) (J · s) x) ∧
        ∀ c, Triple C (J c) (k c) Q := by
      intro i
      have hi := h i
      cases hi with
      | iter hI hst hb hk => exact ⟨_, _, hI, hst, hb, hk⟩
    choose I J hI hst hb hk using hinv
    refine .iter (I := fun b s => ∃ i, I i b s) (J := fun c s => ∃ i, J i c s)
      (fun s ⟨i, hs⟩ => ⟨i, hI i s hs⟩) (fun b s s' hr ⟨i, hs⟩ => ⟨i, hst i b s s' hr hs⟩)
      (fun b => ihb b fun i => (hb i b).post fun x s hx => ?_) fun c => ihk c fun i => hk i c
    cases x with
    | inl b' => exact ⟨i, hx⟩
    | inr c => exact ⟨i, hx⟩

/-- Nothing is promised. -/
theorem of_guar (hg : ∀ o s r s', C.guar o s r s') :
    Triple C (fun _ => True) p fun _ _ => True := by
  induction p with
  | ret a => exact .ret fun _ _ => trivial
  | op o k ih =>
    exact .op (K := fun _ => True) (M := fun _ _ => True) (fun _ h => h) (Contract.Stable.true _)
      (fun s r s' _ _ => ⟨hg o s r s', trivial⟩) ih
  | iter body b k ihb ihk =>
    exact .iter (I := fun _ _ => True) (J := fun _ _ => True) (fun _ h => h)
      (fun _ => Contract.Stable.true _)
      (fun b => (ihb b).post fun x _ _ => by cases x <;> trivial) ihk

/-- `p`, then `f` of its result. -/
theorem bind {f : α → Prog Res β} {M : α → S → Prop} {Q : β → S → Prop} (hp : Triple C P p M)
    (hf : ∀ a, Triple C (M a) (f a) Q) : Triple C P (p.bind f) Q := by
  induction hp with
  | ret hq => exact (hf _).pre hq
  | op h₀ hst hop _ ih => exact .op h₀ hst hop fun r => ih r hf
  | iter hi hst hb _ _ ih => exact .iter hi hst hb fun c => ih c hf

/-- One operation, and what follows it: `K` is what holds when it is performed, whatever others
have done, and `M` what it gives. -/
theorem step {o : Op} {f : Res o → Prog Res α} {K : S → Prop} (M : Res o → S → Prop)
    (hK : ∀ s, P s → K s) (hst : C.Stable (some o) K)
    (hop : ∀ s r s', K s → C.sem o s r s' → C.guar o s r s' ∧ M r s')
    (hf : ∀ r, Triple C (M r) (f r) Q) : Triple C P ((Prog.perform o).bind f) Q :=
  .op hK hst hop hf

/-- The loop `whileLoop cond body`: `I` is kept by a round, and by what others do before the
next one. -/
theorem whileLoop {cond : β → Bool} {body : β → Prog Res β} {b : β} {I : β → S → Prop}
    (hst : ∀ b, cond b = true → C.Stable none (I b))
    (hb : ∀ b, cond b = true → Triple C (I b) (body b) I) :
    Triple C (I b) (Prog.whileLoop cond body b) fun c s => I c s ∧ cond c = false := by
  unfold Prog.whileLoop
  split
  · next hc =>
    refine .iter (I := fun b s => cond b = true ∧ I b s)
      (J := fun c s => I c s ∧ cond c = false) (fun _ h => ⟨hc, h⟩)
      (fun b s s' hr h => ⟨h.1, hst b h.1 s s' hr h.2⟩) (fun b => ?_) fun c => .ret fun _ h => h
    by_cases hb' : cond b = true
    · refine ((hb b hb').pre fun _ h => h.2).bind fun b' => .ret fun s h => ?_
      cases hc' : cond b' with
      | true => exact ⟨hc', h⟩
      | false => exact ⟨h, hc'⟩
    · exact of_false fun _ h => hb' h.1
  · next hc => exact .ret fun _ h => ⟨h, by simpa using hc⟩

/-- A program that keeps a contract keeps one that relies on less interference and promises
less. -/
theorem weaken {D : Contract Res S} (h : Triple C P p Q)
    (hsem : ∀ o s r s', D.sem o s r s' → C.sem o s r s')
    (hrely : ∀ o s s', D.rely o s s' → C.rely o s s')
    (hguar : ∀ o s r s', D.sem o s r s' → C.guar o s r s' → D.guar o s r s') : Triple D P p Q := by
  induction h with
  | ret hq => exact .ret hq
  | op h₀ hst hop _ ih =>
    refine .op h₀ (fun s s' hr => hst s s' (hrely _ s s' hr)) (fun s r s' h hs => ?_) ih
    obtain ⟨hg, hp⟩ := hop s r s' h (hsem _ _ _ _ hs)
    exact ⟨hguar _ _ _ _ hs hg, hp⟩
  | iter hi hst _ _ ihb ihk =>
    exact .iter hi (fun b s s' hr => hst b s s' (hrely _ s s' hr)) ihb ihk

/-- A loop whose first round is made: `H` is what a round needs, and `I` what it leaves. -/
theorem whileLoop_entered {cond : β → Bool} {body : β → Prog Res β} {b : β} {I : β → S → Prop}
    (hb : cond b = true) (hst : C.Stable none P) (hI : ∀ b s, cond b = true → I b s → P s)
    (hbody : ∀ b, Triple C P (body b) I) :
    Triple C P (Prog.whileLoop cond body b) fun c s => I c s ∧ cond c = false := by
  rw [Prog.whileLoop, if_pos hb]
  refine .iter (I := fun _ => P) (J := fun c s => I c s ∧ cond c = false) (fun _ h => h)
    (fun _ => hst) (fun b => ?_) fun c => .ret fun _ h => h
  refine (hbody b).bind fun b' => .ret fun s h => ?_
  cases hc : cond b' with
  | true => exact hI b' s hc h
  | false => exact ⟨h, hc⟩

/-- A critical section: a program that keeps the contract `C`, in which it can rely on more, as long
as `held` keeps others out. -/
theorem within {D : Contract Res S} {held : S → Prop} (h : Triple C P p Q)
    (hrely : ∀ o s s', held s → D.rely o s s' → held s' ∧ C.rely o s s')
    (hop : ∀ o s r s', held s → D.sem o s r s' →
      C.sem o s r s' ∧ (C.guar o s r s' → D.guar o s r s' ∧ held s')) :
    Triple D (fun s => held s ∧ P s) p fun a s => held s ∧ Q a s := by
  induction h with
  | ret hq => exact .ret fun s hs => ⟨hs.1, hq s hs.2⟩
  | @op _ _ K _ _ M _ h₀ hst hsem _ ih =>
    refine .op (K := fun s => held s ∧ K s) (M := fun r s => held s ∧ M r s)
      (fun s hs => ⟨hs.1, h₀ s hs.2⟩) (fun s s' hr hs => ?_) (fun s r s' hs hs' => ?_) ih
    · obtain ⟨hheld, hr'⟩ := hrely _ s s' hs.1 hr
      exact ⟨hheld, hst s s' hr' hs.2⟩
    · obtain ⟨hC, hD⟩ := hop _ s r s' hs.1 hs'
      obtain ⟨hg, hm⟩ := hsem s r s' hs.2 hC
      obtain ⟨hg', hheld⟩ := hD hg
      exact ⟨hg', hheld, hm⟩
  | @iter _ _ _ _ _ _ _ I J _ hi hst _ _ ihb ihk =>
    refine .iter (I := fun b s => held s ∧ I b s) (J := fun c s => held s ∧ J c s)
      (fun s hs => ⟨hs.1, hi s hs.2⟩) (fun b s s' hr hs => ?_) (fun b => ?_) ihk
    · obtain ⟨hheld, hr'⟩ := hrely _ s s' hs.1 hr
      exact ⟨hheld, hst b s s' hr' hs.2⟩
    · refine (ihb b).post fun x s hs => ?_
      cases x <;> exact hs

end Triple

/-! ### A program in the middle of its run -/

/-- What a program about to run `p`, and to end in `Q`, keeps true of the shared state `s`
until its next step. -/
def Safe (C : Contract Res S) (p : Prog Res α) (Q : α → S → Prop) (s : S) : Prop :=
  ∃ P : S → Prop, C.Stable p.next P ∧ P s ∧ Triple C P p Q

variable {p : Prog Res α} {Q : α → S → Prop} {s s' : S}

/-- A program that starts in its precondition is safe, when its outcome is stable. -/
theorem Triple.safe {P : S → Prop} (h : Triple C P p Q) (hQ : ∀ a, C.Stable none (Q a))
    (hs : P s) : Safe C p Q s := by
  cases h with
  | ret hq => exact ⟨_, hQ _, hq s hs, .ret fun _ h => h⟩
  | op h₀ hst hop hk => exact ⟨_, hst, h₀ s hs, .op (fun _ h => h) hst hop hk⟩
  | iter hi hst hb hk => exact ⟨_, hst _, hi s hs, .iter (fun _ h => h) hst hb hk⟩

/-- Any program keeps the contract that promises nothing. -/
theorem safe_any : Safe (.any : Contract Res S) p (fun _ _ => True) s :=
  (Triple.of_guar fun _ _ _ _ => trivial).safe (fun _ => Contract.Stable.true _) trivial

/-- A step of another program. -/
theorem Safe.rely (h : Safe C p Q s) (hr : C.rely p.next s s') : Safe C p Q s' := by
  obtain ⟨P, hst, hs, ht⟩ := h
  exact ⟨P, hst, hst s s' hr hs, ht⟩

/-- The program's own operation: it keeps the guarantee, and the rest is safe. -/
theorem Safe.op {o : Op} {k : Res o → Prog Res α} (h : Safe C (.op o k) Q s)
    (hQ : ∀ a, C.Stable none (Q a)) {r : Res o} (hs : C.sem o s r s') :
    C.guar o s r s' ∧ Safe C (k r) Q s' := by
  obtain ⟨P, -, hp, ht⟩ := h
  cases ht with
  | op h₀ _ hop hk =>
    obtain ⟨hg, hp'⟩ := hop s r s' (h₀ s hp) hs
    exact ⟨hg, (hk r).safe hQ hp'⟩

/-- The program enters a round of a loop. -/
theorem Safe.iter {body : β → Prog Res (β ⊕ γ)} {b : β} {k : γ → Prog Res α}
    (h : Safe C (.iter body b k) Q s) (hQ : ∀ a, C.Stable none (Q a)) :
    Safe C ((body b).bind (again body k)) Q s := by
  obtain ⟨P, -, hp, ht⟩ := h
  cases ht with
  | iter hi hst hb hk =>
    refine Triple.safe ((hb b).bind fun x => ?_) hQ (hi s hp)
    cases x with
    | inl b' => exact .iter (fun _ h => h) hst hb hk
    | inr c => exact hk c

/-- The program has ended: its outcome holds. -/
theorem Safe.ret {a : α} (h : Safe C (.ret a) Q s) : Q a s := by
  obtain ⟨P, -, hp, ht⟩ := h
  cases ht with
  | ret hq => exact hq s hp

/-! ### A program that runs alone -/

/-- Nobody else acts, and nothing is asked of single operations. -/
def Contract.alone (sem : (o : Op) → S → Res o → S → Prop) : Contract Res S where
  sem := sem
  rely _ s s' := s' = s
  guar _ _ _ _ := True

theorem Contract.stable_alone {sem : (o : Op) → S → Res o → S → Prop} (o : Option Op)
    (P : S → Prop) : (Contract.alone sem).Stable o P := fun _ _ hr h => hr ▸ h

namespace Triple

variable {sem : (o : Op) → S → Res o → S → Prop} {P : S → Prop}

/-- One operation, and what follows it. -/
theorem act {o : Op} {f : Res o → Prog Res α} (M : Res o → S → Prop)
    (hop : ∀ s r s', P s → sem o s r s' → M r s') (hf : ∀ r, Triple (.alone sem) (M r) (f r) Q) :
    Triple (.alone sem) P ((Prog.perform o).bind f) Q :=
  .op (fun _ h => h) (Contract.stable_alone _ _) (fun s r s' hs h => ⟨trivial, hop s r s' hs h⟩) hf

/-- One operation. -/
theorem perform {o : Op} {M : Res o → S → Prop} (hop : ∀ s r s', P s → sem o s r s' → M r s') :
    Triple (.alone sem) P (Prog.perform o) M :=
  .op (fun _ h => h) (Contract.stable_alone _ _) (fun s r s' hs h => ⟨True.intro, hop s r s' hs h⟩)
    fun _ => .ret fun _ h => h

/-- A loop, with the invariant `I`. -/
theorem loop {body : β → Prog Res (β ⊕ γ)} {b : β} {J : γ → S → Prop} (I : β → S → Prop)
    (hI : ∀ s, P s → I b s)
    (hbody : ∀ b, Triple (.alone sem) (I b) (body b) fun x s => Sum.elim (I · s) (J · s) x) :
    Triple (.alone sem) P (Prog.loop body b) J :=
  .iter hI (fun _ => Contract.stable_alone _ _) hbody fun _ => .ret fun _ h => h

/-- Nothing is asked of the outcome. -/
theorem trivial : Triple (.alone sem) P p fun _ _ => True :=
  (of_guar fun _ _ _ _ => True.intro).pre fun _ _ => True.intro

/-- **What a triple says of a program that runs alone holds when it returns.** -/
theorem returns (h : Triple (.alone sem) P p Q) (hs : P s) {a : α} (hr : Returns sem p s a s') :
    Q a s' := by
  have hstable : ∀ a, (Contract.alone sem).Stable none (Q a) := fun _ => Contract.stable_alone _ _
  obtain ⟨tr, hr⟩ := hr
  have hsafe := h.safe hstable hs
  clear h hs
  induction hr with
  | ret => exact hsafe.ret
  | op hsem _ ih => exact ih (hsafe.op hstable hsem).2
  | iter _ ih => exact ih (hsafe.iter hstable)

end Triple

end PhpZookeeper.Theory
