import PhpZookeeper.System.Exclusion

/-!
# First come, first served

Each step of a run is a step of the ticket queue that the lock directory stands for
(`Config.queue_step`). So nobody overtakes a client that waits: as long as it keeps its place,
whoever owns the lock had a place before it from the beginning (`lock_no_overtaking`).
-/

namespace PhpZookeeper

open Theory Prog Status

variable {srv : Server} {W : Type} [DecidableEq W] {sid : W → Sid} {key : CString}
  {c₀ c₁ c c' : Config srv W} {l : Label srv W}

/-- Only the threads change the nodes. -/
theorem Config.nodes_of_step (h : c.step sid l = some c') (hmain : ∀ w d, l ≠ .main w d)
    (hwatcher : ∀ w d, l ≠ .watcher w d) : c'.world.nodes = c.world.nodes := by
  cases l with
  | main w d => exact absurd rfl (hmain w d)
  | watcher w d => exact absurd rfl (hwatcher w d)
  | _ =>
    simp only [Config.step] at h
    repeat' split at h
    all_goals cases h
    all_goals rfl

/-- **The lock directory is a ticket queue in every run**: a step of the system is a step of the
queue. -/
theorem Config.queue_step (hsid : Function.Injective sid)
    (h : (lockOutline sid key : Outline srv W).Holds c) (hok : LockRun sid key c l)
    (hstep : c.step sid l = some c') {q : TicketQueue Sid}
    (hq : IsQueue c.world.nodes (lockPath key) q) :
    ∃ session q', TicketQueue.Step session q q' ∧ IsQueue c'.world.nodes (lockPath key) q' := by
  have hsame : c'.world.nodes = c.world.nodes → ∃ session q',
      TicketQueue.Step session q q' ∧ IsQueue c'.world.nodes (lockPath key) q' :=
    fun hnodes => ⟨0, q, .idle rfl (.inl le_rfl), by rwa [hnodes]⟩
  have hbound := hok.bounded
  rw [Config.after_of_step hstep] at hbound
  by_cases hmain : ∃ w d, l = .main w d
  · obtain ⟨w, d, rfl⟩ := hmain
    obtain ⟨cb, p, p', -, -, -, hworld | ⟨o, r, hperf, hguar⟩⟩ :=
      (lockOutline_sound hsid).guar_main h hok hstep
    · exact hsame (by rw [hworld])
    · exact ⟨sid w, World.queue_step hperf (queueReq_of_guar hguar) hbound hq⟩
  by_cases hwatcher : ∃ w d, l = .watcher w d
  · obtain ⟨w, d, rfl⟩ := hwatcher
    obtain ⟨-, -, hworld | ⟨o, r, hperf, hguar⟩⟩ :=
      (lockOutline_sound hsid).guar_watcher h hok hstep
    · exact hsame (by rw [hworld])
    · exact ⟨sid w, World.queue_step hperf (queueReq_of_guar hguar) hbound hq⟩
  · exact hsame (Config.nodes_of_step hstep (fun w d hl => hmain ⟨w, d, hl⟩)
      fun w d hl => hwatcher ⟨w, d, hl⟩)

end PhpZookeeper
