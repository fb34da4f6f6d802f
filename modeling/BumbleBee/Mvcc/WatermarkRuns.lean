import BumbleBee.Mvcc.Chains

/-!
What the garbage-collection watermark says in every run: the oldest snapshot any
registered transaction holds, or the last commit when there is none, and it only
moves forward.
-/

namespace BumbleBee.Mvcc
open Library.Transition Concurrency Function

namespace Database

/-- A commit the watermark was not told of yet is one whose transaction is still registered. -/
def Told (s : Database) : Prop :=
  s.runningTxns.commitTs = s.lastCommitTs ∨
    ∃ id readTs commitTs, s.phase id = some (.leaving readTs (some commitTs))

variable {s next : Database} {id : Int}

theorem Told.setPhase {phase : Option Phase} {here : Option Phase} (told : s.Told) (before : s.phase id = here)
    (staying : ∀ r c, here ≠ some (.leaving r (some c)))
    (commitTs : next.runningTxns.commitTs = s.runningTxns.commitTs) (last : next.lastCommitTs = s.lastCommitTs)
    (after : next.phase = update s.phase id phase) : next.Told := by
  rcases told with told | ⟨leaver, readTs, ts, leaving⟩
  · exact .inl (by rw [commitTs, last, told])
  · have apart : leaver ≠ id := by
      rintro rfl
      exact staying readTs ts (before.symm.trans leaving)
    exact .inr ⟨leaver, readTs, ts, by rw [after, update_of_ne apart, leaving]⟩

theorem Told.step (told : s.Told) (control : Control s) {a : Action} {events : List Event}
    (steps : Steps s a next events) : next.Told := by
  cases steps with
  | began added =>
    obtain ⟨running, same, commitTs, -⟩ := Watermark.addTxn_eq control.published
    rw [added] at same
    cases same
    exact told.setPhase (control.unborn _ (le_refl _)) (by simp) commitTs rfl rfl
  | published phase found => exact .inr ⟨_, _, _, update_self _ _ _⟩
  | @leftCommitted id readTs commitTs runningTxns phase removed =>
    have registered : s.registeredTs id = some readTs := by simp only [registeredTs, phase]
    obtain ⟨w, same, last, -⟩ := Watermark.removeTxn_eq (w := s.runningTxns.updateCommitTs commitTs)
      (control.registry.counted registered)
    rw [removed] at same
    cases same
    obtain ⟨-, -, -, clock, -⟩ := control.leaving_committed phase
    exact .inl (last.trans clock)
  | @leftAborted id readTs runningTxns phase removed =>
    have registered : s.registeredTs id = some readTs := by simp only [registeredTs, phase]
    obtain ⟨w, same, last, -⟩ := Watermark.removeTxn_eq (control.registry.counted registered)
    rw [removed] at same
    cases same
    exact told.setPhase phase (by simp) last rfl rfl
  | commitStarted ready | lockedToStamp ready | abortStarted ready =>
    exact told.setPhase ready.idle (by simp) rfl rfl rfl
  | lockedToVerify phase | verifySkipped phase | verifyRejected phase | verifyPassed phase | verifyWalking phase
  | linkEnded phase | linkRejected phase | linkPassed phase | linkFollowed phase | verified phase
  | stampSkipped phase | stamped phase | rollbackSkipped phase | restored phase | tombstoned phase
  | rollbackFailed phase | markedAborted phase => exact told.setPhase phase (by simp) rfl rfl rfl
  | _ => exact told

theorem Control.old_getWatermark (control : Control s) : s.Old s.runningTxns.getWatermark :=
  control.readWatermark.watermarks _ List.mem_cons_self

/-- The watermark is a registered snapshot, or nobody is registered and it is the last commit. -/
theorem Control.getWatermark_cases (control : Control s) (told : s.Told) :
    (∃ id, s.registeredTs id = some s.runningTxns.getWatermark) ∨
      ((∀ id, s.registeredTs id = none) ∧ s.runningTxns.getWatermark = s.lastCommitTs) := by
  rcases s.runningTxns.getWatermark_cases with ⟨idle, uncounted⟩ | counted
  · have unregistered : ∀ id, s.registeredTs id = none := by
      intro id
      cases registered : s.registeredTs id with
      | none => rfl
      | some readTs =>
        have counted := control.registry.counted registered
        rw [uncounted readTs] at counted
        cases counted
    rcases told with told | ⟨id, readTs, commitTs, leaving⟩
    · exact .inr ⟨unregistered, idle.trans told⟩
    · have gone := unregistered id
      simp [registeredTs, leaving] at gone
  · exact .inl (control.registry.of_counted counted)

end Database

theorem told_run {meets : Database → Action → Prop} {log : List Event} {s : Database}
    (run : Run system meets log s) : s.Told := by
  refine Run.invariant (I := fun _ s => s.Told) ?_ ?_ run
  · intro s initial
    exact .inl (by rw [initial.runningTxns]; rfl)
  · intro log s next a events before told _ taken
    exact told.step (control_run before) (Database.steps_of_step taken)

/-- In every run the watermark is the smallest snapshot among the registered transactions, each counted
once, or the last commit when none is registered; and no step moves it back. -/
theorem getWatermark_tracks {meets : Database → Action → Prop} {log : List Event} {s : Database}
    (run : Run system meets log s) :
    s.Registry ∧
    (∀ id readTs, s.registeredTs id = some readTs → s.runningTxns.getWatermark ≤ readTs) ∧
    ((∃ id, s.registeredTs id = some s.runningTxns.getWatermark) ∨
      ((∀ id, s.registeredTs id = none) ∧ s.runningTxns.getWatermark = s.lastCommitTs)) ∧
    ∀ a next events, s.step a = some (next, events) →
      s.runningTxns.getWatermark ≤ next.runningTxns.getWatermark := by
  have control := control_run run
  have old := control.old_getWatermark
  refine ⟨control.registry, old.2, control.getWatermark_cases (told_run run), ?_⟩
  intro a next events taken
  have steps := Database.steps_of_step taken
  have kept := (control.keeps steps).old _ old
  rcases (control.step steps).getWatermark_cases ((told_run run).step control steps) with
    ⟨id, registered⟩ | ⟨-, last⟩
  · exact kept.2 id _ registered
  · exact le_of_le_of_eq kept.1 last.symm

/-- Two readers of the first snapshot, one of which has committed and left. -/
theorem getWatermark_tracks_readers :
    ∃ log s, Run system always log s ∧ s.lastCommitTs = 1 ∧
      s.runningTxns.count 0 = 1 ∧ s.runningTxns.getWatermark = 0 ∧
      ∀ a next events, s.step a = some (next, events) →
        s.runningTxns.getWatermark ≤ next.runningTxns.getWatermark := by
  obtain ⟨s, log, run, shown⟩ := exec_shows (M := system)
    [.begin .snapshotIsolation, .begin .snapshotIsolation, .lockCommit txnStartId, .publish txnStartId,
      .leave txnStartId] Database.opened_initial (fun _ _ _ => (trivial : always _ _))
    (fun r => (r.1.lastCommitTs, r.1.runningTxns.count 0, r.1.runningTxns.getWatermark)) (1, 1, 0) rfl
  simp only [Prod.mk.injEq] at shown
  exact ⟨log, s, run, shown.1, shown.2.1, shown.2.2, (getWatermark_tracks run).2.2.2⟩

end BumbleBee.Mvcc
