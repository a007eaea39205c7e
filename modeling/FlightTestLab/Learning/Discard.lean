import FlightTestLab.Learning.Shutdown

/-!
# The learner's record and the shutdown of the server

A validator run that the shutdown cut short says nothing about the learner, so its
outcome is discarded and not recorded. The `except` clause around the run knows nothing
of the shutdown: whatever is raised under it becomes a failing result that is recorded.

## Main results

- `Learning.Shutdown.record_kept`: when exactly only runs that were over are recorded
-/

namespace Learning.Shutdown

/-- Nothing is raised inside the `try` once the flag is set, but for a request whose
validator run was over before. -/
def RaisesNothing (s : Server) : Event → Prop
  | .handler i reply =>
    s.main ≠ .exited → reply = .raised → (s.point i).guarded = true → s.shuttingDown = true →
      i ∈ s.finished
  | _ => True

instance (s : Server) : DecidablePred (RaisesNothing s)
  | .handler .. => inferInstanceAs (Decidable (_ → _))
  | .arrive _ | .childExits _ | .main _ => isTrue trivial

/-- What is recorded, about to be recorded or to be checked for it comes from a validator run
that was over before `begin_shutdown`. -/
structure Kept (s : Server) : Prop where
  refused : ∀ i, s.point i = .refusing ∨ s.point i = .discarding → s.shuttingDown = true
  checking : ∀ i passed, s.point i = .checking passed →
    s.shuttingDown = true ∨ i ∈ s.finished
  recording : ∀ i passed crashed, s.point i = .recording passed crashed → i ∈ s.finished
  records : ∀ r ∈ s.records, r.id ∈ s.finished

variable {request : Nat → Request} {s : Server} {i : Nat}

theorem subset_nextFinished (s : Server) (i : Nat) (reply : Reply) :
    s.finished ⊆ s.nextFinished i reply := by
  rw [Server.nextFinished]
  split
  · exact Finset.subset_insert i s.finished
  · exact Finset.Subset.refl s.finished

/-- With the flag set no run is over in time any more. -/
theorem nextFinished_eq (hflag : s.shuttingDown = true) (reply : Reply) :
    s.nextFinished i reply = s.finished := by
  rw [Server.nextFinished, if_neg]
  rintro ⟨-, -, hunset⟩
  rw [hflag] at hunset
  cases hunset

/-- A validator run that ends is over in time unless the flag is set. -/
theorem finished_of_ends (hp : s.point i = .spawning ∨ s.point i = .finishing) {reply : Reply}
    (hreply : reply ≠ .done) : s.shuttingDown = true ∨ i ∈ s.nextFinished i reply := by
  cases hflag : s.shuttingDown with
  | true => exact .inl rfl
  | false =>
    right
    rw [Server.nextFinished, if_pos ⟨hp, hreply, hflag⟩]
    exact Finset.mem_insert_self i s.finished

variable (request) in
/-- A step of a handler records the outcome it stands before, or nothing. -/
theorem recorded_cases (s : Server) (i : Nat) :
    s.recorded request i = s ∨
      ∃ r : Record, s.point r.id = .recording r.passed r.crashed ∧
        s.recorded request i = s.record request r := by
  rw [Server.recorded.eq_def]
  split
  · rename_i passed crashed hp
    exact .inr ⟨⟨i, passed, crashed⟩, hp, rfl⟩
  · exact .inl rfl

/-- Who comes to record was checked with the flag unset, or raised something. -/
theorem finished_of_recording (h : Kept s) (hmain : s.main ≠ .exited) {reply : Reply}
    (hok : RaisesNothing s (.handler i reply)) {passed crashed : Bool}
    (hnext : s.next i reply = .recording passed crashed) : i ∈ s.nextFinished i reply := by
  have hsub : s.finished ⊆ s.nextFinished i reply := subset_nextFinished s i reply
  obtain ⟨hguarded, rfl⟩ | ⟨hp, hflag⟩ := next_recording hnext
  · cases hflag : s.shuttingDown with
    | true => exact hsub (hok hmain rfl hguarded hflag)
    | false =>
      obtain hp | hp := Point.guarded_iff.mp hguarded
      · rw [h.refused i hp] at hflag
        cases hflag
      · have hends : s.shuttingDown = true ∨ i ∈ s.nextFinished i .raised :=
          finished_of_ends hp (by simp)
        exact hends.resolve_left (by simp [hflag])
  · have hchecked := h.checking i passed hp
    rw [hflag] at hchecked
    exact hsub (hchecked.resolve_left (by simp))

theorem handle_kept (h : Kept s) (hmain : s.main ≠ .exited) (reply : Reply)
    (hok : RaisesNothing s (.handler i reply)) : Kept (s.handle request i reply) := by
  have hlocal : Local i s (s.handle request i reply) := handle_local s i reply
  have hsub : s.finished ⊆ s.nextFinished i reply := subset_nextFinished s i reply
  refine ⟨?_, ?_, ?_, ?_⟩
  · intro j hj
    rw [hlocal.shuttingDown]
    by_cases hji : j = i
    · subst hji
      rw [handle_point] at hj
      exact next_refusing hj
    · rw [hlocal.point j hji] at hj
      exact h.refused j hj
  · intro j passed hj
    rw [hlocal.shuttingDown, handle_finished]
    by_cases hji : j = i
    · subst hji
      rw [handle_point] at hj
      obtain ⟨hp, rfl⟩ := next_checking hj
      exact finished_of_ends hp (by simp)
    · rw [hlocal.point j hji] at hj
      exact (h.checking j passed hj).imp_right fun hmem => hsub hmem
  · intro j passed crashed hj
    rw [handle_finished]
    by_cases hji : j = i
    · subst hji
      rw [handle_point] at hj
      exact finished_of_recording h hmain hok hj
    · rw [hlocal.point j hji] at hj
      exact hsub (h.recording j passed crashed hj)
  · intro r hr
    rw [handle_finished]
    rw [handle_records] at hr
    obtain hsame | ⟨r', hp, hcons⟩ := recorded_cases request s i
    · rw [hsame] at hr
      exact hsub (h.records r hr)
    · rw [hcons] at hr
      obtain rfl | hr := List.mem_cons.mp hr
      · exact hsub (h.recording r.id r.passed r.crashed hp)
      · exact hsub (h.records r hr)

theorem arrive_kept (h : Kept s) (i : Nat) : Kept (s.goto i .queued) := by
  refine ⟨?_, ?_, ?_, h.records⟩
  · intro j hj
    rw [goto_point] at hj
    split at hj
    · simp at hj
    · exact h.refused j hj
  · intro j passed hj
    rw [goto_point] at hj
    split at hj
    · cases hj
    · exact h.checking j passed hj
  · intro j passed crashed hj
    rw [goto_point] at hj
    split at hj
    · cases hj
    · exact h.recording j passed crashed hj

theorem step_kept (s : Server) (e : Event) (hok : RaisesNothing s e) (h : Kept s) :
    Kept (step request s e) := by
  cases e with
  | arrive i =>
    rw [step]
    split
    · exact arrive_kept h i
    · exact h
  | handler i reply =>
    rw [step]
    split
    · rename_i hmain
      exact handle_kept h hmain reply hok
    · exact h
  | childExits i => exact ⟨h.refused, h.checking, h.recording, h.records⟩
  | main process =>
    rw [step, Server.stop.eq_def]
    split
    · exact ⟨fun _ _ => rfl, fun _ _ _ => .inl rfl, h.recording, h.records⟩
    · exact ⟨h.refused, h.checking, h.recording, h.records⟩
    · split
      · exact ⟨h.refused, h.checking, h.recording, h.records⟩
      split
      · exact ⟨h.refused, h.checking, h.recording, h.records⟩
      · exact h
    · exact h

theorem start_kept (progress : Ledger) : Kept (.start progress) where
  refused := by
    intro i hi
    obtain hi | hi := hi <;> cases hi
  checking := by
    intro i passed hi
    cases hi
  recording := by
    intro i passed crashed hi
    cases hi
  records := by
    intro r hr
    cases hr

/-- What has happened to the record since a state: some outcomes were recorded, and nothing
else. The flag stays set, and no run is over in time any more. -/
structure Since (request : Nat → Request) (s t : Server) : Prop where
  shuttingDown : t.shuttingDown = true
  finished : t.finished = s.finished
  recorded : ∃ late, t.records = late ++ s.records ∧
    t.progress = late.foldr (Record.apply request) s.progress

theorem Since.refl (hflag : s.shuttingDown = true) : Since request s s :=
  ⟨hflag, rfl, [], rfl, rfl⟩

theorem step_since {t : Server} (e : Event) (h : Since request s t) :
    Since request s (step request t e) := by
  obtain ⟨hflag, hfinished, late, hrecords, hprogress⟩ := h
  cases e with
  | arrive i =>
    rw [step]
    split
    · exact ⟨hflag, hfinished, late, hrecords, hprogress⟩
    · exact ⟨hflag, hfinished, late, hrecords, hprogress⟩
  | handler i reply =>
    rw [step]
    split
    · refine ⟨(handle_local t i reply).shuttingDown.trans hflag, ?_, ?_⟩
      · rw [handle_finished, nextFinished_eq hflag, hfinished]
      rw [handle_records, handle_progress]
      obtain hsame | ⟨r, -, hcons⟩ := recorded_cases request t i
      · rw [hsame]
        exact ⟨late, hrecords, hprogress⟩
      · rw [hcons]
        refine ⟨r :: late, ?_, ?_⟩
        · show r :: t.records = _
          rw [hrecords]
          rfl
        · show r.apply request t.progress = _
          rw [hprogress]
          rfl
    · exact ⟨hflag, hfinished, late, hrecords, hprogress⟩
  | childExits i => exact ⟨hflag, hfinished, late, hrecords, hprogress⟩
  | main process =>
    rw [step, Server.stop.eq_def]
    split
    · exact ⟨rfl, hfinished, late, hrecords, hprogress⟩
    · exact ⟨hflag, hfinished, late, hrecords, hprogress⟩
    · split
      · exact ⟨hflag, hfinished, late, hrecords, hprogress⟩
      split
      · exact ⟨hflag, hfinished, late, hrecords, hprogress⟩
      · exact ⟨hflag, hfinished, late, hrecords, hprogress⟩
    · exact ⟨hflag, hfinished, late, hrecords, hprogress⟩

variable (request) in
/-- What is raised inside the `try` is recorded in the handler's next step. -/
theorem recorded_of_raises {e : Event} (h : ¬ RaisesNothing s e) :
    ∃ i, i ∉ s.finished ∧
      (⟨i, false, true⟩ : Record) ∈
        (Runs.run (step request) s [e, .handler i .done]).records ∧
      (Runs.run (step request) s [e, .handler i .done]).finished = s.finished := by
  cases e with
  | arrive i | childExits i | main process => exact absurd trivial h
  | handler i reply =>
    simp only [RaisesNothing, Classical.not_imp] at h
    obtain ⟨hmain, rfl, hguarded, hflag, hnot⟩ := h
    have hraise : step request s (.handler i .raised) = s.crash i := by
      rw [step, if_pos hmain, Server.handle.eq_def]
      cases hp : s.point i <;> rw [hp] at hguarded <;> cases hguarded <;>
        simp [Server.refuse, Server.validated, Server.finish, hflag]
    have hrecord : step request (s.crash i) (.handler i .done) =
        ((s.crash i).record request ⟨i, false, true⟩).goto i .answered := by
      have hp : (s.crash i).point i = .recording false true := by
        rw [Server.crash, goto_point, if_pos rfl]
      rw [step, if_pos (show (s.crash i).main ≠ .exited from hmain), Server.handle.eq_def, hp]
    refine ⟨i, hnot, ?_, ?_⟩
    · rw [Runs.run_cons, hraise, Runs.run_cons, hrecord]
      exact List.mem_cons_self
    · rw [Runs.run_cons, hraise, Runs.run_cons, hrecord]
      rfl

/-- In every run in which nothing is raised inside the `try` after `begin_shutdown`, but for
requests whose validator run was over before, only the outcomes of such runs are recorded,
and all that `begin_shutdown` still leaves to happen to the learner's record are some of
these; and wherever something else is raised, the run has a continuation that records it. -/
theorem record_kept (request : Nat → Request) (progress : Ledger) :
    (∀ es, Runs.Along (step request) RaisesNothing (.start progress) es →
      ∀ r ∈ (run request progress es).records, r.id ∈ (run request progress es).finished) ∧
    (∀ es fs, Runs.Along (step request) RaisesNothing (.start progress) (es ++ fs) →
      (run request progress es).shuttingDown = true →
      ∃ late : List Record,
        (run request progress (es ++ fs)).progress =
          late.foldr (Record.apply request) (run request progress es).progress ∧
        ∀ r ∈ late, r.id ∈ (run request progress es).finished) ∧
    ∀ es e, ¬ RaisesNothing (run request progress es) e →
      ∃ fs, ∃ r ∈ (run request progress (es ++ e :: fs)).records,
        r.id ∉ (run request progress (es ++ e :: fs)).finished := by
  have hkept (es : List Event)
      (hes : Runs.Along (step request) RaisesNothing (.start progress) es) :
      Kept (run request progress es) :=
    hes.invariant (start_kept progress) step_kept
  refine ⟨?_, ?_, ?_⟩
  · intro es hes
    exact (hkept es hes).records
  · intro es fs hrun hflag
    have hsince : Since request (run request progress es) (run request progress (es ++ fs)) := by
      rw [run_append]
      exact Runs.run_invariant (.refl hflag) (fun t e => step_since e) fs
    obtain ⟨-, hfinished, late, hrecords, hprogress⟩ := hsince
    refine ⟨late, hprogress, ?_⟩
    intro r hr
    rw [← hfinished]
    apply (hkept (es ++ fs) hrun).records
    rw [hrecords]
    exact List.mem_append_left _ hr
  · intro es e he
    obtain ⟨i, hnot, hmem, hfinished⟩ := recorded_of_raises request he
    refine ⟨[.handler i .done], ⟨i, false, true⟩, ?_, ?_⟩
    · rw [run_append]
      exact hmem
    · rw [run_append, hfinished]
      exact hnot

/-- A record with the first lesson completed. -/
def sampleProgress : Ledger where
  lastLessonId := none
  lessons := Dict.empty.insert (sampleRequest 0).lessonId { Standing.fresh with status := complete }
  concepts := .empty
  interview := .empty

/-- The server is stopped while a check runs: the sweep kills the child, and the validator
raises. -/
def stopped : List Event :=
  [.arrive 0, .handler 0 .done, .handler 0 .done, .handler 0 .done, .handler 0 .done,
    .main 0, .main 0, .main 0,
    .handler 0 .done, .handler 0 .done, .handler 0 .raised, .handler 0 .done]

/-- The child is killed by the sweep, the validator raises, and the lesson is revoked. -/
theorem shutdown_revokes :
    (¬ ∀ (request : Nat → Request) (progress : Ledger) (es : List Event),
      ∀ r ∈ (run request progress es).records, r.id ∈ (run request progress es).finished) ∧
    (sampleProgress.lesson (sampleRequest 0).lessonId).status = complete ∧
    ((run sampleRequest sampleProgress stopped).progress.lesson
      (sampleRequest 0).lessonId).status = inProgress := by
  refine ⟨?_, by decide +kernel, by decide +kernel⟩
  intro h
  have hrun := h sampleRequest sampleProgress stopped
  revert hrun
  decide +kernel

end Learning.Shutdown
