import PhpZookeeper.Lock.Call
import PhpZookeeper.Theory.RelyGuarantee
import PhpZookeeper.Theory.Sorting

/-!
# A client's place in the queue

`zkr_lock_operation` sorts the names it has listed by their numbers, and looks for its predecessor
by comparing whole names, of which the sessions' ids are the first part. `rightPlace_iff` says when
the two orders agree, so that the client is the owner or watches the node before its own.
-/

namespace PhpZookeeper

open Theory Prog Status

/-! ### Listings -/

/-- The name of a node of a queue. -/
def queueName (e : Sid × ℕ) : CString := lockPrefix e.1 ++ fixedDigits 10 10 e.2

/-- The nodes of a queue, as they are listed: each with the id of its session and its number. -/
structure Listing where
  entries : List (Sid × ℕ)
  lt : ∀ e ∈ entries, e.2 < 10 ^ 10
  nodup : (entries.map Prod.snd).Nodup

namespace Listing

/-- The names that are listed. -/
def names (l : Listing) : List CString := l.entries.map queueName

/-- The nodes in the order of their numbers. -/
def sorted (l : Listing) : List (Sid × ℕ) := l.entries.insertionSort fun a b => a.2 ≤ b.2

/-- The node `e` is the first of the queue. -/
def IsFirst (l : Listing) (e : Sid × ℕ) : Prop := ∀ e' ∈ l.entries, e.2 ≤ e'.2

/-- `p` is the node with the greatest number below that of `e`. -/
def IsPredecessor (l : Listing) (e p : Sid × ℕ) : Prop :=
  p ∈ l.entries ∧ p.2 < e.2 ∧ ∀ e' ∈ l.entries, e'.2 < e.2 → e'.2 ≤ p.2

/-- The ids of the sessions are in the order of the queue as far as the node `e` is concerned: none
behind it is smaller than its own, and its predecessor's is not greater. -/
def InOrder (l : Listing) (e : Sid × ℕ) : Prop :=
  (∀ e' ∈ l.entries, e.2 < e'.2 → e.1 ≤ e'.1) ∧ ∀ p, l.IsPredecessor e p → p.1 ≤ e.1

end Listing

/-- `strcmp` finds the name of `a` less than that of `b`. -/
def NameLt (a b : Sid × ℕ) : Prop := a.1 < b.1 ∨ a.1 = b.1 ∧ a.2 < b.2

instance (a b : Sid × ℕ) : Decidable (NameLt a b) := inferInstanceAs (Decidable (_ ∨ _))

variable {l : Listing} {a b e p : Sid × ℕ}

theorem afterLast_queueName (e : Sid × ℕ) :
    afterLast '-' (queueName e) = some (fixedDigits 10 10 e.2) := by
  have hdash : '-' ∉ fixedDigits 10 10 e.2 :=
    notMem_fixedDigits (by decide) (by decide) (by decide) 10 e.2
  have happend : queueName e =
      (['x', '-'] ++ fixedDigits 16 16 e.1.val) ++ '-' :: fixedDigits 10 10 e.2 := by
    rw [queueName, lockPrefix_eq]
    simp
  rw [happend, afterLast_append hdash]

theorem vstrcmp_queueName (ha : a.2 < 10 ^ 10) (hb : b.2 < 10 ^ 10) :
    vstrcmp (queueName a) (queueName b) = some (compare a.2 b.2) := by
  rw [vstrcmp, afterLast_queueName, afterLast_queueName]
  exact congrArg some (strcmp_fixedDigits (by decide) (by decide) ha hb)

/-- Whole names are in the order of the sessions' ids, then of the numbers. -/
theorem strcmp_queueName (ha : a.2 < 10 ^ 10) (hb : b.2 < 10 ^ 10) :
    strcmp (queueName a) (queueName b) = (compare a.1.val b.1.val).then (compare a.2 b.2) := by
  have hlt : ∀ s : Sid, s.val < 16 ^ 16 := fun s => s.isLt
  rw [queueName, queueName, strcmp_append (by rw [length_lockPrefix, length_lockPrefix]),
    strcmp_fixedDigits (by decide) (by decide) ha hb, lockPrefix_eq, lockPrefix_eq,
    List.append_assoc, List.append_assoc, strcmp_append rfl, strcmp_self,
    strcmp_append (by simp), strcmp_self,
    strcmp_fixedDigits (by decide) le_rfl (hlt a.1) (hlt b.1)]
  cases compare a.1.val b.1.val <;> rfl

theorem strcmp_queueName_lt_iff (ha : a.2 < 10 ^ 10) (hb : b.2 < 10 ^ 10) :
    strcmp (queueName a) (queueName b) = .lt ↔ NameLt a b := by
  rw [strcmp_queueName ha hb, Ordering.then_eq_lt, compare_lt_iff_lt, compare_eq_iff_eq,
    compare_lt_iff_lt, NameLt, Fin.lt_def, Fin.ext_iff]

/-! ### Sorted listings -/

/-- Two different nodes have different numbers. -/
theorem Listing.eq_of_number (l : Listing) (ha : a ∈ l.entries) (hb : b ∈ l.entries)
    (h : a.2 = b.2) : a = b :=
  List.inj_on_of_nodup_map l.nodup ha hb h

@[simp] theorem Listing.mem_sorted : e ∈ l.sorted ↔ e ∈ l.entries := List.mem_insertionSort _

/-- `sort_children` puts the names in the order of their numbers. -/
theorem sortChildren_names (l : Listing) :
    sortChildren l.names = some (l.sorted.map queueName) :=
  sortChildren_map fun a ha b hb => vstrcmp_queueName (l.lt a ha) (l.lt b hb)

/-- Where a node stands in the sorted queue: `before` it and `behind` it. -/
structure Listing.Around (l : Listing) (e : Sid × ℕ) (before behind : List (Sid × ℕ)) : Prop where
  sorted_eq : l.sorted = before ++ e :: behind
  before_lt : ∀ b ∈ before, b.2 < e.2
  lt_behind : ∀ b ∈ behind, e.2 < b.2
  ordered : before.Pairwise fun a b => a.2 < b.2

/-- The numbers of the sorted nodes increase. -/
theorem Listing.pairwise_sorted (l : Listing) : l.sorted.Pairwise fun a b => a.2 < b.2 := by
  have hsorted : SortedBy (fun a b : Sid × ℕ => a.2 ≤ b.2) l.entries l.sorted :=
    sortedBy_insertionSort Prod.snd l.entries
  have hnodup : (l.sorted.map Prod.snd).Nodup :=
    (hsorted.perm.map Prod.snd).nodup_iff.mpr l.nodup
  rw [List.Nodup, List.pairwise_map] at hnodup
  exact (hsorted.pairwise.and hnodup).imp fun h => Nat.lt_of_le_of_ne h.1 h.2

theorem Listing.around_of_sorted {before behind : List (Sid × ℕ)}
    (h : l.sorted = before ++ e :: behind) : l.Around e before behind := by
  have hpairwise := l.pairwise_sorted
  rw [h, List.pairwise_append, List.pairwise_cons] at hpairwise
  obtain ⟨hbefore, ⟨hbehind, -⟩, hcross⟩ := hpairwise
  exact ⟨h, fun b hb => hcross b hb e List.mem_cons_self, hbehind, hbefore⟩

theorem Listing.exists_around (he : e ∈ l.entries) : ∃ before behind, l.Around e before behind := by
  obtain ⟨before, behind, hsorted⟩ := List.append_of_mem (l.mem_sorted.mpr he)
  exact ⟨before, behind, around_of_sorted hsorted⟩

/-- The last of a list of increasing numbers has the greatest. -/
theorem le_getLast {before : List (Sid × ℕ)} (h : before.Pairwise fun a b => a.2 < b.2)
    (hp : before.getLast? = some p) (ha : a ∈ before) : a.2 ≤ p.2 := by
  obtain ⟨init, rfl⟩ := List.getLast?_eq_some_iff.mp hp
  rw [List.pairwise_append] at h
  rcases List.mem_append.mp ha with ha | ha
  · exact (h.2.2 a ha p List.mem_cons_self).le
  · rw [List.mem_singleton.mp ha]

namespace Listing.Around

variable {before behind : List (Sid × ℕ)}

theorem mem_iff (h : l.Around e before behind) :
    a ∈ l.entries ↔ a ∈ before ∨ a = e ∨ a ∈ behind := by
  rw [← l.mem_sorted, h.sorted_eq, List.mem_append, List.mem_cons]

theorem mem_before_iff (h : l.Around e before behind) :
    a ∈ before ↔ a ∈ l.entries ∧ a.2 < e.2 := by
  constructor
  · exact fun ha => ⟨h.mem_iff.mpr (.inl ha), h.before_lt a ha⟩
  · rintro ⟨ha, hlt⟩
    rcases h.mem_iff.mp ha with ha | rfl | ha
    · exact ha
    · exact absurd hlt (lt_irrefl _)
    · exact absurd hlt (h.lt_behind a ha).not_gt

theorem isFirst_iff (h : l.Around e before behind) : l.IsFirst e ↔ before = [] := by
  constructor
  · intro hfirst
    refine List.eq_nil_iff_forall_not_mem.mpr fun a ha => ?_
    obtain ⟨hmem, hlt⟩ := h.mem_before_iff.mp ha
    exact absurd hlt (hfirst a hmem).not_gt
  · rintro rfl a ha
    by_contra hlt
    cases h.mem_before_iff.mpr ⟨ha, not_le.mp hlt⟩

theorem isPredecessor_iff (h : l.Around e before behind) :
    l.IsPredecessor e p ↔ before.getLast? = some p := by
  constructor
  · rintro ⟨hp, hlt, hgreatest⟩
    have hmem := h.mem_before_iff.mpr ⟨hp, hlt⟩
    obtain ⟨last, hlast⟩ := Option.ne_none_iff_exists'.mp
      (mt List.getLast?_eq_none_iff.mp (List.ne_nil_of_mem hmem))
    obtain ⟨hlast', hlt'⟩ := h.mem_before_iff.mp (List.mem_of_getLast? hlast)
    have heq := le_antisymm (le_getLast h.ordered hlast hmem) (hgreatest last hlast' hlt')
    rw [hlast, l.eq_of_number hp hlast' heq]
  · intro hlast
    obtain ⟨hmem, hlt⟩ := h.mem_before_iff.mp (List.mem_of_getLast? hlast)
    exact ⟨hmem, hlt, fun a ha hlt => le_getLast h.ordered hlast (h.mem_before_iff.mpr ⟨ha, hlt⟩)⟩

/-- The name that `child_floor` finds: the last that is less, among those before the client's own
and those behind it. -/
theorem childFloor_eq (h : l.Around e before behind) :
    childFloor (l.sorted.map queueName) (queueName e) =
      ((before.filter (NameLt · e) ++ behind.filter (NameLt · e)).getLast?).map queueName := by
  have he : e ∈ l.entries := h.mem_iff.mpr (.inr (.inl rfl))
  have hself : ¬ NameLt e e := by simp [NameLt]
  have hfilter : l.sorted.filter ((fun x => strcmp x (queueName e) == .lt) ∘ queueName) =
      l.sorted.filter (NameLt · e) := List.filter_congr fun a ha => by
    rw [Bool.eq_iff_iff]
    simp [strcmp_queueName_lt_iff (l.lt a (l.mem_sorted.mp ha)) (l.lt e he)]
  rw [childFloor, List.filter_map, List.getLast?_map, hfilter, h.sorted_eq, List.filter_append,
    List.filter_cons_of_neg (by simpa using hself)]

/-- The sessions are in the order of the queue when `strcmp` finds no name behind the client's own
less, and the one just before it less. -/
theorem inOrder_iff (h : l.Around e before behind) :
    l.InOrder e ↔ (∀ b ∈ behind, ¬ NameLt b e) ∧ ∀ p, before.getLast? = some p → NameLt p e := by
  have hbehind : ∀ b ∈ behind, ¬ NameLt b e ↔ e.1 ≤ b.1 := fun b hb => by
    have hlt := h.lt_behind b hb
    rw [NameLt, ← not_lt]
    exact not_congr (or_iff_left fun heq => hlt.asymm heq.2)
  have hbefore : ∀ p, l.IsPredecessor e p → (p.1 ≤ e.1 ↔ NameLt p e) := fun p hp => by
    rw [NameLt, le_iff_lt_or_eq, and_iff_left hp.2.1]
  constructor
  · rintro ⟨hlater, hpred⟩
    refine ⟨fun b hb => (hbehind b hb).mpr ?_, fun p hp => ?_⟩
    · exact hlater b (h.mem_iff.mpr (.inr (.inr hb))) (h.lt_behind b hb)
    · have hp' := h.isPredecessor_iff.mpr hp
      exact (hbefore p hp').mp (hpred p hp')
  · rintro ⟨hlater, hpred⟩
    refine ⟨fun b hb hlt => ?_,
      fun p hp => (hbefore p hp).mpr (hpred p (h.isPredecessor_iff.mp hp))⟩
    rcases h.mem_iff.mp hb with hmem | rfl | hmem
    · exact absurd (h.before_lt b hmem) hlt.not_gt
    · exact le_rfl
    · exact (hbehind b hmem).mp (hlater b hmem)

/-- The last name that is less is the one just before the client's own, or there is neither. -/
theorem getLast?_eq_iff (h : l.Around e before behind) :
    (before.filter (NameLt · e) ++ behind.filter (NameLt · e)).getLast? = before.getLast? ↔
      l.InOrder e := by
  rw [h.inOrder_iff, List.getLast?_append]
  cases hlater : (behind.filter (NameLt · e)).getLast? with
  | some b =>
    -- a node behind the client's own
    obtain ⟨hb, hlt⟩ := List.mem_filter.mp (List.mem_of_getLast? hlater)
    refine iff_of_false (fun heq => ?_) fun hnone => hnone.1 b hb (by simpa using hlt)
    have hmem := List.mem_of_getLast? heq.symm
    exact (h.before_lt b hmem).asymm (h.lt_behind b hb)
  | none =>
    have hnone : ∀ b ∈ behind, ¬ NameLt b e := by
      simpa [List.getLast?_eq_none_iff, List.filter_eq_nil_iff] using hlater
    rw [Option.none_or, and_iff_right hnone]
    constructor
    · intro heq p hp
      rw [hp] at heq
      simpa using (List.mem_filter.mp (List.mem_of_getLast? heq)).2
    · intro hlt
      cases hlast : before.getLast? with
      | none =>
        rw [List.getLast?_eq_none_iff] at hlast
        rw [hlast]
        rfl
      | some p =>
        obtain ⟨init, rfl⟩ := List.getLast?_eq_some_iff.mp hlast
        rw [List.filter_append, List.filter_cons_of_pos (by simpa using hlt p hlast)]
        simp

end Listing.Around

/-! ### What `zkr_lock_operation` does -/

/-- No watch has been left, and the completion has not been called. -/
def Quiet (s : LockCall) : Prop := s.talk.watched = [] ∧ s.completed = []

/-- The place that `zkr_lock_operation` has found in its last listing: behind a node it watches, or
behind none. -/
def PlaceFound (s : LockCall) : Prop :=
  ∃ ownerId rest id, sortChildren s.talk.listed = some (ownerId :: rest) ∧
    s.memory.lock.ownerid = some ownerId ∧ s.memory.lock.id = some id ∧
    match childFloor (ownerId :: rest) id with
    | some x => s.memory.lock.isOwner = false ∧ s.completed = [] ∧
        ∃ p, s.memory.lock.path = some p ∧ s.talk.watched = [childOf p x]
    | none => s.talk.watched = [] ∧
        if id = ownerId then s.memory.lock.isOwner = true ∧
          s.completed = if s.memory.lock.completion then [0] else []
        else s.completed = []

section Operation

variable {th : Thread} {session : Sid}

/-- Triples of a call that may get any reply. -/
abbrev CallTriple (th : Thread) {α : Type} (P : LockCall → Prop) (p : Code α)
    (Q : α → LockCall → Prop) : Prop :=
  Triple (.alone (callSem th anyReply)) P p Q

/-- A request with retries: `P` holds while the connection is lost, and `Q` of each reply. -/
theorem triple_retryRequest {P : LockCall → Prop} {Q : Reply → LockCall → Prop}
    (path : Option CString) (r : CString → Req) (retry : ℕ)
    (hstart : ∀ s, P s → Q { rc := ZCONNECTIONLOSS } s)
    (hnull : ∀ s, P s → Q { rc := ZBADARGUMENTS } s)
    (hreply : ∀ p, path = some p → ∀ s a, P s →
      (a.rc = ZCONNECTIONLOSS → P (s.say (r p) a)) ∧ Q a (s.say (r p) a)) :
    CallTriple th P (retryRequest path r retry) Q := by
  let I : Reply × ℕ → LockCall → Prop := fun x s => (x.1.rc = ZCONNECTIONLOSS → P s) ∧ Q x.1 s
  have hafter : ∀ (n : ℕ) (a : Reply), CallTriple th (I (a, n)) (do
      if a.rc = ZCONNECTIONLOSS then
        act .nanosleep
        return (a, n + 1)
      else
        return (a, n)) I := by
    intro n a
    split_ifs with ha
    · refine .act (fun _ s => I (a, n) s) ?_ fun _ => .ret fun s hs => hs
      rintro s _ s' hs rfl
      exact hs
    · exact .ret fun s hs => hs
  refine Triple.bind (M := fun x s => I x s ∧ _) ((Triple.whileLoop (I := I)
    (fun _ _ => Contract.stable_alone _ _) fun x hx => ?_).pre fun s hs =>
      ⟨fun _ => hs, hstart s hs⟩) fun x => .ret fun s hs => hs.1.2
  have hlost : x.1.rc = ZCONNECTIONLOSS := by simpa using (Bool.and_eq_true_iff.mp hx).1
  cases path with
  | none =>
    refine (hafter x.2 _).pre fun s hs => ⟨fun h => ?_, hnull s (hs.1 hlost)⟩
    cases h
  | some p =>
    refine .act (fun a s => I (a, x.2) s) ?_ fun a => hafter x.2 a
    rintro s a s' hs ⟨-, rfl⟩
    exact hreply p rfl s a (hs.1 hlost)

/-- The listing that `zkr_lock_operation` goes on with is the last one. -/
theorem triple_retryGetchildren (path : Option CString) (retry : ℕ) :
    CallTriple th Quiet (retryGetchildren path retry) fun a s =>
      Quiet s ∧ (a.rc = ZOK → s.talk.listed = a.strings) := by
  refine triple_retryRequest path _ retry (fun s hs => ⟨hs, nofun⟩) (fun s hs => ⟨hs, nofun⟩)
    fun p _ s a hs => ?_
  have hquiet : Quiet (s.say (.zooGetChildren p) a) := by
    refine ⟨?_, hs.2⟩
    rw [LockCall.say, Talk.watched_append, hs.1]
    rfl
  refine ⟨fun _ => hquiet, hquiet, fun ha => ?_⟩
  rw [LockCall.say, Talk.listed_append]
  exact if_pos ha

/-- The `exists` of a node leaves a watch when it succeeds. -/
theorem triple_retryZoowexists {names : List CString} {P : LockCall → Prop} (p : CString)
    (retry : ℕ) (hP : ∀ s a, P s → P (s.say (.zooWexists p) a)) :
    CallTriple th (fun s => P s ∧ s.talk.watched = [] ∧ s.talk.listed = names)
      (retryZoowexists p retry) fun a s =>
        P s ∧ s.talk.listed = names ∧ (a.rc = ZOK → s.talk.watched = [p]) := by
  refine triple_retryRequest (some p) _ retry (fun s hs => ⟨hs.1, hs.2.2, nofun⟩)
    (fun s hs => ⟨hs.1, hs.2.2, nofun⟩) fun p' hp' s a hs => ?_
  obtain rfl : p = p' := Option.some.inj hp'
  obtain ⟨hs, hwatched, hlisted⟩ := hs
  have hlisted' : (s.say (.zooWexists p) a).talk.listed = names := by
    rw [LockCall.say, Talk.listed_append, hlisted]
    rfl
  refine ⟨fun ha => ⟨hP s a hs, ?_, hlisted'⟩, hP s a hs, hlisted', fun ha => ?_⟩
  · rw [LockCall.say, Talk.watched_append, hwatched]
    simp [Talk.watched, ha]
  · rw [LockCall.say, Talk.watched_append, hwatched]
    simp [Talk.watched, ha]

/-- `giveUp` does not return `ZOK`. -/
theorem triple_giveUp {P : LockCall → Prop} : CallTriple th P giveUp fun rc _ => rc ≠ ZOK := by
  refine Triple.bind Triple.trivial fun ret => .loop (fun _ _ => True) (fun _ _ => trivial)
    fun ret => ?_
  split_ifs with hret
  · exact Triple.bind Triple.trivial fun _ => .ret fun _ _ => trivial
  · exact .ret fun _ _ => hret

theorem triple_fault {α : Type} {P : LockCall → Prop} {Q : α → LockCall → Prop} :
    CallTriple th P fault Q :=
  .op (M := fun _ _ => True) (fun _ h => h) (Contract.stable_alone _ _) (fun _ _ _ _ h => h.elim)
    fun r => nomatch r

/-- The client's place behind the node it watches. -/
theorem triple_watch {names : List CString} {ownerId id path x : CString} {rest : List CString}
    {m : PhpZookeeperSession} (hsort : sortChildren names = some (ownerId :: rest))
    (howner : m.lock.ownerid = some ownerId) (hid : m.lock.id = some id)
    (hpath : m.lock.path = some path) (hfloor : childFloor (ownerId :: rest) id = some x) :
    CallTriple th (fun s => (m = s.memory ∧ s.completed = []) ∧ s.talk.watched = [] ∧
      s.talk.listed = names) (do
        let a ← retryZoowexists (childOf path x) 3
        if a.rc ≠ ZOK then
          giveUp
        else
          store (.lockIsOwner false)
          return ZOK) fun rc s => rc = ZOK → PlaceFound s := by
  refine (triple_retryZoowexists (childOf path x) 3 fun s a hs => hs).bind fun a => ?_
  split_ifs with ha
  · exact triple_giveUp.post fun rc s hrc h => absurd h hrc
  · refine .act (fun _ s => PlaceFound s) ?_ fun _ => .ret fun s hs _ => hs
    rintro s _ s' ⟨⟨rfl, hcompleted⟩, hlisted, hwatched⟩ rfl
    refine ⟨ownerId, rest, id, by rw [← hsort, ← hlisted], howner, hid, ?_⟩
    simp only [hfloor]
    exact ⟨rfl, hcompleted, path, hpath, hwatched (not_not.mp ha)⟩

/-- The client is the owner, and its completion is still to be called. -/
structure BecomesOwner (names : List CString) (id : CString) (s : LockCall) : Prop where
  isOwner : s.memory.lock.isOwner = true
  completed : s.completed = []
  watched : s.talk.watched = []
  listed : s.talk.listed = names
  ownerid : s.memory.lock.ownerid = some id
  id : s.memory.lock.id = some id

/-- The owner has its completion called, if it has one. -/
theorem triple_callCompletion {names : List CString} {id : CString} {rest : List CString}
    (hsort : sortChildren names = some (id :: rest)) (hfloor : childFloor (id :: rest) id = none) :
    CallTriple th (BecomesOwner names id) (callCompletion 0) fun _ s => PlaceFound s := by
  refine .act (fun m s => m = s.memory ∧ BecomesOwner names id s) ?_ fun m => ?_
  · rintro s m s' hs ⟨rfl, rfl⟩
    exact ⟨rfl, hs⟩
  split_ifs with hcompletion
  · refine Triple.perform ?_
    rintro s _ s' ⟨rfl, hs⟩ rfl
    refine ⟨id, rest, id, by rw [← hsort, ← hs.listed], hs.ownerid, hs.id, ?_⟩
    simp only [hfloor, if_true, hcompletion, hs.completed]
    exact ⟨hs.watched, hs.isOwner, rfl⟩
  · refine .ret fun s hs => ?_
    obtain ⟨rfl, hs⟩ := hs
    refine ⟨id, rest, id, by rw [← hsort, ← hs.listed], hs.ownerid, hs.id, ?_⟩
    simp only [hfloor, if_true, if_neg hcompletion]
    exact ⟨hs.watched, hs.isOwner, hs.completed⟩

/-- The client's place when no name is less than its own. -/
theorem triple_first {names : List CString} {ownerId id : CString} {rest : List CString}
    {m : PhpZookeeperSession} (hsort : sortChildren names = some (ownerId :: rest))
    (howner : m.lock.ownerid = some ownerId) (hid : m.lock.id = some id)
    (hfloor : childFloor (ownerId :: rest) id = none) :
    CallTriple th (fun s => (m = s.memory ∧ s.completed = []) ∧ s.talk.watched = [] ∧
      s.talk.listed = names) (do
        if strcmp id ownerId = .eq then
          store (.lockIsOwner true)
          callCompletion 0
          return ZOK
        else
          return ZOK) fun rc s => rc = ZOK → PlaceFound s := by
  split_ifs with hcmp
  · obtain rfl := (strcmp_eq_iff ..).mp hcmp
    refine .act (fun _ s => BecomesOwner names id s) ?_ fun _ =>
      Triple.bind (triple_callCompletion hsort hfloor) fun _ => .ret fun s hs _ => hs
    rintro s _ s' ⟨⟨rfl, hcompleted⟩, hwatched, hlisted⟩ rfl
    exact ⟨rfl, hcompleted, hwatched, hlisted, howner, hid⟩
  · have hfirst : id ≠ ownerId := fun h => hcmp ((strcmp_eq_iff ..).mpr h)
    refine .ret fun s hs _ => ?_
    obtain ⟨⟨rfl, hcompleted⟩, hwatched, hlisted⟩ := hs
    refine ⟨ownerId, rest, id, by rw [← hsort, ← hlisted], howner, hid, ?_⟩
    simp only [hfloor, if_neg hfirst]
    exact ⟨hwatched, hcompleted⟩

/-- The client's place among the names of its last listing. -/
theorem triple_findPlace (names : List CString) :
    CallTriple th (fun s => Quiet s ∧ s.talk.listed = names) (findPlace names) fun rc s =>
      rc = ZOK → PlaceFound s := by
  unfold findPlace
  split
  · next ownerId rest hsort =>
    refine .act (fun _ s => Quiet s ∧ s.talk.listed = names ∧
      s.memory.lock.ownerid = some ownerId) ?_ fun _ => ?_
    · rintro s _ s' hs rfl
      exact ⟨hs.1, hs.2, rfl⟩
    unfold takePlace
    refine .act (fun m s => m.lock.ownerid = some ownerId ∧ (m = s.memory ∧ s.completed = []) ∧
      s.talk.watched = [] ∧ s.talk.listed = names) ?_ fun m => ?_
    · rintro s m s' ⟨⟨hwatched, hcompleted⟩, hlisted, howner⟩ ⟨rfl, rfl⟩
      exact ⟨howner, ⟨rfl, hcompleted⟩, hwatched, hlisted⟩
    by_cases howner : m.lock.ownerid = some ownerId
    · refine Triple.pre ?_ fun s hs => hs.2
      split
      · next id hid =>
        split
        · next x hfloor =>
          split
          · next path hpath => exact triple_watch hsort howner hid hpath hfloor
          · exact triple_fault
        · next hfloor => exact triple_first hsort howner hid hfloor
      · exact triple_fault
    · exact Triple.of_false fun s hs => howner hs.1
  · exact triple_fault

/-- The client's node is looked up or made without a watch and without a completion. -/
theorem triple_lookupOrCreate (path : Option CString) (vector : List CString) :
    CallTriple th Quiet (lookupOrCreate session path vector) fun _ s => Quiet s := by
  have hsame : ∀ {m : PhpZookeeperSession} {s : LockCall}, Quiet s → Quiet { s with memory := m } :=
    fun hs => hs
  refine .act (fun _ s => Quiet s) (fun s _ s' hs h => h ▸ hsame hs) fun _ =>
    .act (fun _ s => Quiet s) (fun s m s' hs h => h.2 ▸ hs) fun m => ?_
  split_ifs
  · exact .ret fun s hs => hs
  · unfold createNode
    split
    · refine .act (fun _ s => Quiet s) (fun s m s' hs h => h.2 ▸ hs) fun m =>
        .act (fun _ s => Quiet s) ?_ fun a => ?_
      · rintro s a s' hs ⟨-, rfl⟩
        refine ⟨?_, hs.2⟩
        rw [LockCall.say, Talk.watched_append, hs.1]
        rfl
      split_ifs
      · exact .ret fun s hs => hs
      · exact .act (fun _ s => Quiet s) (fun s _ s' hs h => h ▸ hsame hs) fun _ =>
          .ret fun s hs => hs
    · exact triple_fault

theorem triple_zkrLockRound (path : Option CString) :
    CallTriple th Quiet (zkrLockRound session path) fun x s =>
      Sum.elim (fun _ => Quiet s) (fun rc => rc = ZOK → PlaceFound s) x := by
  refine (triple_retryGetchildren path 3).bind fun a => ?_
  split_ifs with ha
  · exact .ret fun s _ hrc => absurd hrc ha
  · refine ((triple_lookupOrCreate path a.strings).pre fun s hs => hs.1).bind fun ret => ?_
    split_ifs with hret
    · exact .ret fun s _ hrc => absurd hrc hret
    · refine .act (fun _ s => Quiet s) (fun s m s' hs h => h.2 ▸ hs) fun m => ?_
      split_ifs
      · refine (triple_retryGetchildren path 3).bind fun b => ?_
        split_ifs with hb
        · exact .ret fun s _ hrc => absurd hrc hb
        · exact ((triple_findPlace b.strings).pre fun s hs => ⟨hs.1, hs.2 (not_not.mp hb)⟩).bind
            fun ret => .ret fun s hs => hs
      · exact .ret fun s hs => hs

/-- **`zkr_lock_operation` finds the place of its client in the last listing.** -/
theorem triple_zkrLockOperation :
    CallTriple th Quiet (zkrLockOperation session) fun rc s => rc = ZOK → PlaceFound s := by
  refine .act (fun _ s => Quiet s) (fun s m s' hs h => h.2 ▸ hs) fun m =>
    .loop (fun _ s => Quiet s) (fun s hs => hs) fun _ => ?_
  exact (triple_zkrLockRound m.lock.path).post fun x s hs => by cases x <;> exact hs

end Operation

/-! ### The right place -/

/-- What is to come of `zkr_lock_operation`: the first of the queue is the owner, and has its
completion called; any other watches the node before its own. -/
def RightPlace (l : Listing) (e : Sid × ℕ) (s : LockCall) : Prop :=
  (l.IsFirst e ∧ s.memory.lock.isOwner = true ∧
    s.completed = (if s.memory.lock.completion then [0] else []) ∧ s.talk.watched = []) ∨
  ¬ l.IsFirst e ∧ s.memory.lock.isOwner = false ∧ s.memory.lock.isowner = false ∧
    ∃ p path, l.IsPredecessor e p ∧ s.memory.lock.path = some path ∧
      childOf path (queueName p) ∈ s.talk.watched

/-- `child_floor` finds the name just before the client's own in the sorted names. -/
def RightFloor (l : Listing) (e : Sid × ℕ) : Prop :=
  ∀ sorted before behind, sortChildren l.names = some sorted →
    sorted = before ++ queueName e :: behind → childFloor sorted (queueName e) = before.getLast?

theorem queueName_inj (ha : a.2 < 10 ^ 10) (hb : b.2 < 10 ^ 10) (h : queueName a = queueName b) :
    a = b := by
  have hcmp := strcmp_queueName ha hb
  rw [h, strcmp_self, eq_comm, Ordering.then_eq_eq, compare_eq_iff_eq, compare_eq_iff_eq] at hcmp
  exact Prod.ext (Fin.ext hcmp.1) hcmp.2

theorem map_queueName_inj {x y : Option (Sid × ℕ)} (hx : ∀ a ∈ x, a ∈ l.entries)
    (hy : ∀ a ∈ y, a ∈ l.entries) (h : x.map queueName = y.map queueName) : x = y := by
  cases x with
  | none => exact (Option.map_eq_none_iff.mp h.symm).symm
  | some a =>
    cases y with
    | none => cases h
    | some b =>
      have hname : queueName a = queueName b := Option.some.inj h
      rw [queueName_inj (l.lt a (hx a rfl)) (l.lt b (hy b rfl)) hname]

namespace Listing.Around

variable {before behind : List (Sid × ℕ)}

/-- What `strcmp` finds less is listed. -/
theorem mem_of_floor (h : l.Around e before behind) :
    ∀ a ∈ (before.filter (NameLt · e) ++ behind.filter (NameLt · e)).getLast?, a ∈ l.entries := by
  intro a ha
  rcases List.mem_append.mp (List.mem_of_getLast? ha) with hmem | hmem
  · exact h.mem_iff.mpr (.inl (List.mem_filter.mp hmem).1)
  · exact h.mem_iff.mpr (.inr (.inr (List.mem_filter.mp hmem).1))

theorem mem_of_getLast (h : l.Around e before behind) : ∀ a ∈ before.getLast?, a ∈ l.entries :=
  fun _ ha => h.mem_iff.mpr (.inl (List.mem_of_getLast? ha))

/-- The first name is the client's own exactly when nothing is before it. -/
theorem first_name_iff (h : l.Around e before behind) {ownerId : CString} {rest : List CString}
    (hsorted : l.sorted.map queueName = ownerId :: rest) : queueName e = ownerId ↔ before = [] := by
  rw [h.sorted_eq] at hsorted
  cases before with
  | nil => exact iff_of_true (List.cons.inj hsorted).1 rfl
  | cons b before =>
    refine iff_of_false (fun heq => ?_) (by simp)
    have hb := h.before_lt b List.mem_cons_self
    have he := h.mem_iff.mpr (.inr (.inl rfl))
    have hb' := h.mem_iff.mpr (.inl List.mem_cons_self)
    rw [← (List.cons.inj hsorted).1] at heq
    rw [queueName_inj (l.lt e he) (l.lt b hb') heq] at hb
    exact lt_irrefl _ hb

end Listing.Around

theorem rightFloor_iff (he : e ∈ l.entries) : RightFloor l e ↔ l.InOrder e := by
  constructor
  · intro hright
    obtain ⟨before, behind, h⟩ := l.exists_around he
    have hfloor := hright _ (before.map queueName) (behind.map queueName) (sortChildren_names l)
      (by rw [h.sorted_eq, List.map_append, List.map_cons])
    rw [h.childFloor_eq, List.getLast?_map] at hfloor
    exact h.getLast?_eq_iff.mp (map_queueName_inj h.mem_of_floor h.mem_of_getLast hfloor)
  · intro horder sorted before behind hsort hsorted
    rw [sortChildren_names, Option.some.injEq] at hsort
    subst hsort
    obtain ⟨before', rest, hentries, rfl, hrest⟩ := List.map_eq_append_iff.mp hsorted
    obtain ⟨e', behind', rfl, hname, rfl⟩ := List.map_eq_cons_iff.mp hrest
    have he' : e' ∈ l.entries := by
      rw [← l.mem_sorted, hentries]
      simp
    obtain rfl := queueName_inj (l.lt e' he') (l.lt e he) hname
    have h := Listing.around_of_sorted hentries
    rw [h.childFloor_eq, h.getLast?_eq_iff.mpr horder, List.getLast?_map]

theorem rightPlace_iff_of_found {s : LockCall} (he : e ∈ l.entries) (h : PlaceFound s)
    (hlisted : s.talk.listed = l.names) (hid : s.memory.lock.id = some (queueName e)) :
    RightPlace l e s ↔ l.InOrder e := by
  obtain ⟨ownerId, rest, id, hsort, howner, hid', hplace⟩ := h
  obtain rfl : queueName e = id := Option.some.inj (hid.symm.trans hid')
  obtain ⟨before, behind, h⟩ := l.exists_around he
  rw [hlisted, sortChildren_names, Option.some.injEq] at hsort
  rw [← hsort, h.childFloor_eq] at hplace
  have hfirst := h.first_name_iff hsort
  have hisowner : s.memory.lock.isowner = true ↔ before = [] := by
    rw [← hfirst, ZkrLockMutex.isowner, hid, howner]
    simp [strcmp_eq_iff]
  rw [← h.getLast?_eq_iff]
  cases hfloor : (before.filter (NameLt · e) ++ behind.filter (NameLt · e)).getLast? with
  | none =>
    simp only [hfloor, Option.map_none] at hplace
    obtain ⟨hwatched, howns⟩ := hplace
    rw [eq_comm, List.getLast?_eq_none_iff, RightPlace, h.isFirst_iff]
    constructor
    · rintro (⟨hnil, -⟩ | ⟨-, -, -, p, path, -, -, hmem⟩)
      · exact hnil
      · rw [hwatched] at hmem
        cases hmem
    · intro hnil
      rw [if_pos (hfirst.mpr hnil)] at howns
      exact .inl ⟨hnil, howns.1, howns.2, hwatched⟩
  | some x =>
    simp only [hfloor, Option.map_some] at hplace
    obtain ⟨hisOwner, -, path, hpath, hwatched⟩ := hplace
    rw [eq_comm, RightPlace, h.isFirst_iff]
    constructor
    · rintro (⟨-, -, -, hnone⟩ | ⟨-, -, -, p, path', hp, hpath', hmem⟩)
      · rw [hwatched] at hnone
        cases hnone
      · obtain rfl : path = path' := Option.some.inj (hpath.symm.trans hpath')
        rw [hwatched, List.mem_singleton] at hmem
        have hname : queueName p = queueName x := (List.cons.inj (List.append_cancel_left hmem)).2
        rw [← queueName_inj (l.lt p hp.1) (l.lt x (h.mem_of_floor x hfloor)) hname]
        exact h.isPredecessor_iff.mp hp
    · intro hlast
      have hne : before ≠ [] := by
        rintro rfl
        cases hlast
      refine .inr ⟨hne, hisOwner, ?_, x, path, h.isPredecessor_iff.mpr hlast, hpath, ?_⟩
      · rw [← Bool.not_eq_true, hisowner]
        exact hne
      · rw [hwatched]
        exact List.mem_singleton_self _

/-- **When a client is the owner or watches its predecessor**: exactly when the ids of the sessions
are in the order of the queue, as far as its own node is concerned. -/
theorem rightPlace_iff {th : Thread} {session : Sid} {s s' : LockCall}
    (h : Returns (callSem th anyReply) (zkrLockOperation session) s ZOK s')
    (htalk : s.talk = []) (hcompleted : s.completed = []) (hlisted : s'.talk.listed = l.names)
    (he : e ∈ l.entries) (hid : s'.memory.lock.id = some (queueName e)) :
    RightPlace l e s' ∧ RightFloor l e ↔ l.InOrder e := by
  have hquiet : Quiet s := ⟨by rw [htalk]; rfl, hcompleted⟩
  have hfound := triple_zkrLockOperation.returns hquiet h rfl
  rw [rightFloor_iff he, rightPlace_iff_of_found he hfound hlisted hid, and_self_iff]

/-- Each listing gives the names of `l`, and every node is there. -/
def listingReply (l : Listing) (_ : Talk) : Req → Reply
  | .zooGetChildren _ => { rc := ZOK, strings := l.names }
  | _ => { rc := ZOK }

/-- A call for the lock directory `/l`. -/
def lockCall : LockCall where
  memory := { lock := { path := some "/l".toList } }

/-- The call of `zkr_lock_operation` by a session, when the listings give the names of `l`. -/
def operationWith (session : Sid) (l : Listing) : Option (Status × LockCall) :=
  exec (callPerform .main (listingReply l)) 40 (zkrLockOperation session) lockCall

/-- The call succeeds, and has listed the names of `l` and found the node `e`. -/
def findsNode (session : Sid) (l : Listing) (e : Sid × ℕ) : Bool :=
  (operationWith session l).any fun x => x.1 = ZOK && x.2.talk.listed = l.names &&
    x.2.memory.lock.id = some (queueName e)

theorem returns_of_findsNode (session : Sid) (h : findsNode session l e = true) :
    ∃ s', Returns (callSem .main anyReply) (zkrLockOperation session) lockCall ZOK s' ∧
      s'.talk.listed = l.names ∧ s'.memory.lock.id = some (queueName e) := by
  obtain ⟨⟨rc, s'⟩, heval, hx⟩ := Option.any_eq_true _ _ |>.mp h
  simp only [Bool.and_eq_true, decide_eq_true_eq] at hx
  obtain ⟨⟨rfl, hlisted⟩, hid⟩ := hx
  exact ⟨s', returns_of_exec callSem_of_perform heval, hlisted, hid⟩

/-- The node of the session 1 between those of the sessions 0 and 2, which are listed the other way
round. -/
def betweenTwo : Listing where
  entries := [(2, 2), (1, 1), (0, 0)]
  lt := by decide
  nodup := by decide

/-- The node of the session 0 behind that of the session 1. -/
def behindOne : Listing where
  entries := [(1, 0), (0, 1)]
  lt := by decide
  nodup := by decide

theorem betweenTwo_inOrder : betweenTwo.InOrder (1, 1) := by
  refine ⟨by decide, fun p hp => ?_⟩
  have hbefore : ∀ p ∈ betweenTwo.entries, p.2 < 1 → p.1 ≤ (1 : Sid) := by decide
  exact hbefore p hp.1 hp.2.1

/-- A client in the middle of a queue watches the node before its own. -/
theorem rightPlace_between : ¬ betweenTwo.IsFirst (1, 1) ∧
    ∃ s', Returns (callSem .main anyReply) (zkrLockOperation 1) lockCall ZOK s' ∧
      RightPlace betweenTwo (1, 1) s' ∧ RightFloor betweenTwo (1, 1) := by
  obtain ⟨s', hreturns, hlisted, hid⟩ :=
    returns_of_findsNode 1 (l := betweenTwo) (e := (1, 1)) (by decide +kernel)
  refine ⟨fun hfirst => absurd (hfirst (0, 0) (by decide)) (by decide), s', hreturns, ?_⟩
  exact (rightPlace_iff hreturns rfl rfl hlisted (by decide) hid).mpr betweenTwo_inOrder

/-- The client behind a session with a greater id watches nobody. -/
theorem place_wrong :
    ¬ ∀ th session s s' l e, Returns (callSem th anyReply) (zkrLockOperation session) s ZOK s' →
      s.talk = [] → s.completed = [] → s'.talk.listed = l.names → e ∈ l.entries →
      s'.memory.lock.id = some (queueName e) → RightPlace l e s' ∧ RightFloor l e := by
  intro h
  have he : ((0, 1) : Sid × ℕ) ∈ behindOne.entries := by decide
  obtain ⟨s', hreturns, hlisted, hid⟩ :=
    returns_of_findsNode 0 (l := behindOne) (e := (0, 1)) (by decide +kernel)
  have hright := h .main 0 lockCall s' behindOne (0, 1) hreturns rfl rfl hlisted he hid
  have hpred : behindOne.IsPredecessor (0, 1) (1, 0) := by
    refine ⟨by decide, by decide, ?_⟩
    decide
  exact absurd (((rightFloor_iff he).mp hright.2).2 _ hpred) (by decide)

end PhpZookeeper
