import FlightTestLab.Learning.Shutdown

/-!
# Validator children and the end of the server

The children live in process groups of their own, so one that the sweep over `_ACTIVE`
misses outlives the server. Setting the flag before the sweep covers the handlers that
wait for the lock; it does not cover one that has tested the flag already.

## Main results

- `Learning.Shutdown.no_child_outlives`: when exactly the sweep leaves no child behind
-/

namespace Learning.Shutdown

/-- A handler has tested the flag, and its child is still to be started or runs without
being in `_ACTIVE`. -/
def Unregistered (s : Server) (i : Nat) : Prop :=
  s.point i = .spawning ∨ s.point i = .registering ∧ i ∈ s.running

instance (s : Server) (i : Nat) : Decidable (Unregistered s i) :=
  inferInstanceAs (Decidable (_ ∨ _))

/-- `_ACTIVE` is copied while the holder of the lock, if any, has nothing unregistered. -/
def SweepsInTime (s : Server) : Event → Prop
  | .main _ => s.main = .stopping → ∀ i ∈ s.lock, ¬ Unregistered s i
  | _ => True

instance (s : Server) : DecidablePred (SweepsInTime s)
  | .main _ => inferInstanceAs (Decidable (_ → _))
  | .arrive _ | .handler .. | .childExits _ => isTrue trivial

/-- From the copy of `_ACTIVE` on no child is started, and those that run are in what is
left of the copy. -/
def Swept (s : Server) : Prop :=
  match s.main with
  | .serving => True
  | .stopping => s.shuttingDown = true
  | .sweeping processes =>
    s.shuttingDown = true ∧ (∀ i, s.point i ≠ .spawning) ∧ s.running ⊆ processes
  | .exited => s.running = ∅

variable {request : Nat → Request} {s : Server} {i : Nat}

/-- Once the flag is set no handler goes on to start a child. -/
theorem handle_not_spawning (hflag : s.shuttingDown = true) (h : ∀ j, s.point j ≠ .spawning)
    (reply : Reply) (j : Nat) : (s.handle request i reply).point j ≠ .spawning := by
  by_cases hj : j = i
  · subst hj
    rw [handle_point]
    intro hnext
    have hunset := next_spawning hnext
    rw [hflag] at hunset
    cases hunset
  · rw [(handle_local s i reply).point j hj]
    exact h j

theorem nextRunning_subset (h : s.point i ≠ .spawning) (reply : Reply) :
    s.nextRunning i reply ⊆ s.running := by
  rw [Server.nextRunning.eq_def]
  split
  · rename_i hp
    exact absurd hp h
  · exact Finset.erase_subset i s.running
  · exact Finset.Subset.refl s.running

theorem handle_swept (h : Swept s) (hmain : s.main ≠ .exited) (reply : Reply) :
    Swept (s.handle request i reply) := by
  have hlocal : Local i s (s.handle request i reply) := handle_local s i reply
  rw [Swept, hlocal.main]
  rw [Swept] at h
  cases hm : s.main with
  | serving => trivial
  | stopping =>
    rw [hm] at h
    exact hlocal.shuttingDown.trans h
  | sweeping processes =>
    rw [hm] at h
    obtain ⟨hflag, hspawn, hsub⟩ := h
    refine ⟨hlocal.shuttingDown.trans hflag, handle_not_spawning hflag hspawn reply, ?_⟩
    rw [handle_running]
    exact (nextRunning_subset (hspawn i) reply).trans hsub
  | exited => exact absurd hm hmain

/-- A copy that is taken in time holds every child that runs. -/
theorem running_subset_active (h : Consistent s) (hgap : ∀ i ∈ s.lock, ¬ Unregistered s i) :
    s.running ⊆ s.active := by
  intro i hi
  apply (h.active i).mpr
  obtain hp | hp := h.running i hi
  · exact absurd (.inr ⟨hp, hi⟩) (hgap i (h.lock.holder hp rfl))
  · exact .inl hp

/-- The condition on the copy carries the invariant through each step. -/
theorem stop_swept (hcons : Consistent s) (h : Swept s) (process : Nat)
    (hok : SweepsInTime s (.main process)) : Swept (s.stop process) := by
  rw [Swept] at h
  rw [Server.stop.eq_def]
  cases hm : s.main with
  | serving => exact rfl
  | stopping =>
    rw [hm] at h
    have hgap := hok hm
    have hspawn (i : Nat) : s.point i ≠ .spawning := fun hi =>
      hgap i (hcons.lock.holder hi rfl) (.inl hi)
    have hsub : s.running ⊆ s.active := running_subset_active hcons hgap
    exact ⟨h, hspawn, hsub⟩
  | sweeping processes =>
    rw [hm] at h
    obtain ⟨hflag, hspawn, hsub⟩ := h
    dsimp only
    split
    · rename_i hempty
      rw [hempty] at hsub
      exact Finset.subset_empty.mp hsub
    split
    · refine ⟨hflag, hspawn, ?_⟩
      exact Finset.erase_subset_erase process hsub
    · rw [Swept, hm]
      exact ⟨hflag, hspawn, hsub⟩
  | exited =>
    rw [hm] at h
    rw [Swept, hm]
    exact h

theorem arrive_swept (h : Swept s) (i : Nat) : Swept (s.goto i .queued) := by
  rw [Swept] at h
  rw [Swept, goto_main]
  cases hm : s.main with
  | sweeping processes =>
    rw [hm] at h
    obtain ⟨hflag, hspawn, hsub⟩ := h
    refine ⟨hflag, ?_, hsub⟩
    intro j
    rw [goto_point]
    split
    · simp
    · exact hspawn j
  | serving | stopping | exited =>
    rw [hm] at h
    exact h

theorem childExits_swept (h : Swept s) (i : Nat) :
    Swept { s with running := s.running.erase i } := by
  rw [Swept] at h ⊢
  dsimp only
  cases hm : s.main with
  | serving => trivial
  | stopping =>
    rw [hm] at h
    exact h
  | sweeping processes =>
    rw [hm] at h
    exact ⟨h.1, h.2.1, (Finset.erase_subset _ _).trans h.2.2⟩
  | exited =>
    rw [hm] at h
    dsimp only at h
    rw [h]
    rfl

theorem step_swept (s : Server) (e : Event) (hok : SweepsInTime s e)
    (h : Consistent s ∧ Swept s) : Consistent (step request s e) ∧ Swept (step request s e) := by
  refine ⟨step_consistent s e h.1, ?_⟩
  obtain ⟨hcons, hswept⟩ := h
  cases e with
  | arrive i =>
    rw [step]
    split
    · exact arrive_swept hswept i
    · exact hswept
  | handler i reply =>
    rw [step]
    split
    · rename_i hmain
      exact handle_swept hswept hmain reply
    · exact hswept
  | childExits i => exact childExits_swept hswept i
  | main process => exact stop_swept hcons hswept process hok

variable (request) in
/-- The sweep comes to its end, whatever it does not hold staying as it is. -/
theorem sweep_ends (s : Server) (processes : Finset Nat) (hm : s.main = .sweeping processes) :
    ∃ fs, (Runs.run (step request) s fs).main = .exited ∧
      (Runs.run (step request) s fs).running = s.running \ processes := by
  induction processes using Finset.induction_on generalizing s with
  | empty =>
    have hstep : step request s (.main 0) = { s with main := .exited } := by
      rw [step, Server.stop.eq_def, hm]
      exact if_pos rfl
    refine ⟨[.main 0], ?_, ?_⟩
    · rw [Runs.run_cons, hstep]
      rfl
    · rw [Runs.run_cons, hstep, Finset.sdiff_empty]
      rfl
  | insert process processes hnot ih =>
    have hstep : step request s (.main process) = { s with
        running := s.running.erase process, main := .sweeping processes } := by
      rw [step, Server.stop.eq_def, hm]
      dsimp only
      have hsome : insert process processes ≠ ∅ := Finset.insert_ne_empty process processes
      rw [if_neg hsome, if_pos (Finset.mem_insert_self ..), Finset.erase_insert hnot]
    obtain ⟨fs, hmain, hrunning⟩ := ih { s with
      running := s.running.erase process, main := .sweeping processes } rfl
    refine ⟨.main process :: fs, ?_, ?_⟩
    · rw [Runs.run_cons, hstep]
      exact hmain
    · rw [Runs.run_cons, hstep, hrunning]
      ext i
      simp only [Finset.mem_sdiff, Finset.mem_erase, Finset.mem_insert]
      tauto

variable (request) in
/-- A child that is unregistered when the copy is taken can outlive the server. -/
theorem orphan_of_unregistered (h : Consistent s) (hm : s.main = .stopping)
    (hi : Unregistered s i) (process : Nat) :
    ∃ fs, (Runs.run (step request) s (.main process :: fs)).main = .exited ∧
      i ∈ (Runs.run (step request) s (.main process :: fs)).running := by
  have hcopy : step request s (.main process) = { s with main := .sweeping s.active } := by
    rw [step, Server.stop.eq_def, hm]
  have hactive : i ∉ s.active := by
    rw [h.active i]
    obtain hp | ⟨hp, -⟩ := hi
    · simp [hp]
    · simp [hp]
  obtain hp | ⟨hp, hrun⟩ := hi
  · -- the child is started after the copy
    have hspawn : step request { s with main := .sweeping s.active } (.handler i .done) =
        Server.goto { s with
          main := .sweeping s.active, running := insert i s.running } i .registering := by
      rw [step, if_pos (by simp), Server.handle.eq_def]
      dsimp only
      rw [hp]
      exact if_pos rfl
    obtain ⟨fs, hmain, hrunning⟩ := sweep_ends request (Server.goto { s with
      main := .sweeping s.active, running := insert i s.running } i .registering) s.active rfl
    refine ⟨.handler i .done :: fs, ?_, ?_⟩
    · rw [Runs.run_cons, hcopy, Runs.run_cons, hspawn]
      exact hmain
    · rw [Runs.run_cons, hcopy, Runs.run_cons, hspawn, hrunning]
      exact Finset.mem_sdiff.mpr ⟨Finset.mem_insert_self .., hactive⟩
  · obtain ⟨fs, hmain, hrunning⟩ := sweep_ends request
      { s with main := .sweeping s.active } s.active rfl
    refine ⟨fs, ?_, ?_⟩
    · rw [Runs.run_cons, hcopy]
      exact hmain
    · rw [Runs.run_cons, hcopy, hrunning]
      exact Finset.mem_sdiff.mpr ⟨hrun, hactive⟩

/-- In every run whose copy of `_ACTIVE` is taken while no handler has an unregistered
child, no child is left when the process is gone; and wherever it is taken otherwise, the
run has a continuation that leaves one. -/
theorem no_child_outlives (request : Nat → Request) (progress : Ledger) :
    (∀ es, Runs.Along (step request) SweepsInTime (.start progress) es →
      (run request progress es).main = .exited → (run request progress es).running = ∅) ∧
    ∀ es e, ¬ SweepsInTime (run request progress es) e →
      ∃ fs, (run request progress (es ++ e :: fs)).main = .exited ∧
        (run request progress (es ++ e :: fs)).running ≠ ∅ := by
  constructor
  · intro es hes hmain
    have hstart : Consistent (.start progress) ∧ Swept (.start progress) :=
      ⟨start_consistent progress, trivial⟩
    have hinv : Consistent (run request progress es) ∧ Swept (run request progress es) :=
      hes.invariant hstart step_swept
    have hswept := hinv.2
    rwa [Swept, hmain] at hswept
  · intro es e he
    cases e with
    | arrive i | handler i reply | childExits i => exact absurd trivial he
    | main process =>
      simp only [SweepsInTime, not_forall, not_not] at he
      obtain ⟨hm, i, -, hi⟩ := he
      obtain ⟨fs, hmain, hrun⟩ := orphan_of_unregistered request
        (run_consistent progress es) hm hi process
      refine ⟨fs, ?_, ?_⟩
      · rw [run_append]
        exact hmain
      · rw [run_append]
        exact Finset.ne_empty_of_mem hrun

/-- The handler tests the flag; the flag is set and `_ACTIVE` copied; the child is started. -/
theorem child_outlives :
    ¬ ∀ (request : Nat → Request) (progress : Ledger) (es : List Event),
      (run request progress es).main = .exited → (run request progress es).running = ∅ := by
  intro h
  have hrun := h sampleRequest .empty
    [.arrive 0, .handler 0 .done, .handler 0 .done, .main 0, .main 0, .handler 0 .done, .main 0]
  revert hrun
  decide

end Learning.Shutdown
