import BumbleBee.Mvcc.Window

/-!
Backward validation of a serializable commit. `Commit` runs `VerifyTxn` twice; the second
time it holds the commit mutex, so no history grows: every row changed since the snapshot is still to
be visited, or its versions back to the snapshot have been tested, or the walk over
them is under way along a trail that leads through all that are left.
-/

namespace BumbleBee.Mvcc
open Library.Transition Library.Versions Storage.SlottedPage Concurrency Function

namespace Database

/-- Every predicate the transaction recorded for the table misses the row. -/
def Unread (log : List Event) (id : Int) (oid : Nat) (row : RowBytes) : Prop :=
  ∀ p, Event.scanned id oid p ∈ log → p row = false

def Tested (log : List Event) (id readTs : Int) (e : Entry) : Prop :=
  Cleared (Unread log id e.oid) readTs (history e log)

/-- Following the link meets the versions, newest first: a chain of committed logs, or the log of a
transaction that holds or held the row and has not committed. -/
inductive Trail (s : Database) (readTs : Int) : Option UndoLink → List (Version RowBytes) → Prop
  | committed {above : Int} {link : Option UndoLink} {versions : List (Version RowBytes)}
      (newer : readTs < above) (chain : Chain false s above link versions) : Trail s readTs link versions
  | held {id : Int} {idx : Nat} {t : Transaction} {undo : UndoLog} {older : List (Version RowBytes)}
      (found : s.txnMap id = some t) (unsettled : t.state ≠ .committed)
      (logged : t.undoLogs[idx]? = some undo) (chain : Chain false s undo.ts (some undo.prevVersion) older) :
      Trail s readTs (some ⟨id, idx⟩) (UndoLog.version undo :: older)

def Walking (log : List Event) (s : Database) (id readTs : Int) (e : Entry) (link : Option UndoLink) : Prop :=
  ∃ seen older ground, IsGround ground ∧ seen ++ older = history e log ++ ground ∧
    (∀ v ∈ seen, ∀ row, v.value = some row → Unread log id e.oid row) ∧ Trail s readTs link older

def PhaseTested (log : List Event) (s : Database) (id : Int) (t : Transaction) : Option Phase → Prop
  | some (.verifying true rest walk) => ∀ e, Recent log t.readTs e →
    e ∈ rest ∨ Tested log id t.readTs e ∨
      ∃ link, walk = some (e.oid, link) ∧ Walking log s id t.readTs e link
  | some (.stamping _ _) => t.isolationLevel = .serializable → t.writeSet ≠ [] →
    ∀ e, Recent log t.readTs e → Tested log id t.readTs e
  | _ => True

def Validation (log : List Event) (s : Database) : Prop :=
  ∀ id t, s.txnMap id = some t → PhaseTested log s id t (s.phase id)

/-- No sweep removes the aborted owner of the link a validation is about to follow. -/
def SafeSweep (s : Database) (a : Action) : Prop :=
  ∀ watermark, a = .collect watermark → ∀ id rest oid link owner,
    s.phase id = some (.verifying true rest (some (oid, some link))) → s.txnMap link.prevTxn = some owner →
    owner.state ≠ .aborted

variable {s next : Database} {id : Int} {log : List Event} {e : Entry} {a : Action} {events : List Event}
  {readTs : Int} {link : Option UndoLink} {versions : List (Version RowBytes)}

/-- A transaction inside the commit mutex, before it publishes. -/
structure Committing (s : Database) (id : Int) : Prop where
  mutex : s.commitMutex = some id
  phase : (∃ rest walk, s.phase id = some (.verifying true rest walk)) ∨
    ∃ commitTs rest, s.phase id = some (.stamping commitTs rest)

theorem Control.committing_verifying (control : Control s) {rest : List Entry} {walk : WalkAt}
    (here : s.phase id = some (.verifying true rest walk)) : s.Committing id := by
  obtain ⟨t, -, -, inside, -⟩ := control.finalizing here (by simp)
  exact ⟨(inside rfl).1, .inl ⟨rest, walk, here⟩⟩

theorem Control.committing_stamping (control : Control s) {commitTs : Int} {rest : List Entry}
    (here : s.phase id = some (.stamping commitTs rest)) : s.Committing id := by
  obtain ⟨t, -, -, mutex, -⟩ := control.finalizing here (by simp)
  exact ⟨mutex, .inr ⟨commitTs, rest, here⟩⟩

theorem Committing.busy (committing : s.Committing id) : s.phase id ≠ some .idle := by
  rcases committing.phase with ⟨rest, walk, here⟩ | ⟨commitTs, rest, here⟩ <;> simp [here]

/-- Whoever publishes is the one inside the mutex, and leaves its phase. -/
theorem Control.publisher (control : Control s) (committing : s.Committing id) {other commitTs : Int}
    (here : s.phase other = some (.stamping commitTs [])) : other = id := by
  obtain ⟨t, -, -, mutex, -⟩ := control.finalizing here (by simp)
  rw [committing.mutex] at mutex
  exact (Option.some.inj mutex).symm

theorem Control.history_frozen (control : Control s) (committing : s.Committing id)
    (steps : Steps s a next events) (same : next.phase id = s.phase id) (e : Entry) :
    history e (events ++ log) = history e log := by
  cases steps with
  | @published writer commitTs t phase found =>
    have self := control.publisher committing phase
    subst self
    simp [Database.setPhase, phase] at same
  | _ => rfl

variable {oid : Nat}

theorem Committing.scans_frozen (committing : s.Committing id) (steps : Steps s a next events)
    {p : ScanPredicate} (member : Event.scanned id oid p ∈ events ++ log) : Event.scanned id oid p ∈ log := by
  cases steps with
  | scanned ready table serializable =>
    rcases List.mem_cons.mp member with same | before
    · cases same
      exact absurd ready.idle committing.busy
    · exact before
  | _ => simpa using member

theorem Control.record_frozen (control : Control s) (committing : s.Committing id)
    (steps : Steps s a next events) (same : next.phase id = s.phase id) : next.txnMap id = s.txnMap id := by
  have others : ∀ {other : Int} {changed : Transaction}, id ≠ other →
      update s.txnMap other (some changed) id = s.txnMap id := fun apart => update_of_ne apart _ _
  obtain ⟨after, step, control'⟩ := control.acts steps
  rw [control'.txnMap]
  rw [control'.phase] at same
  cases step with
  | same | moved | left | watermarkRead => rfl
  | begun added =>
    refine others ?_
    rintro rfl
    have unborn := control.unborn s.nextTxnId (le_refl _)
    rcases committing.phase with ⟨rest, walk, here⟩ | ⟨commitTs, rest, here⟩ <;> simp [here] at unborn
  | amended ready amends =>
    refine others ?_
    rintro rfl
    exact committing.busy ready.idle
  | published phase found | markedAborted phase found =>
    refine others ?_
    rintro rfl
    simp [Database.setPhase, phase] at same
  | collected sweeps pending =>
    obtain ⟨t, found, live⟩ : ∃ t, s.txnMap id = some t ∧ t.Live := by
      rcases committing.phase with ⟨rest, walk, here⟩ | ⟨commitTs, rest, here⟩
      all_goals
        obtain ⟨t, found, -⟩ := control.finalizing here (by simp)
        exact ⟨t, found, control.live_of_phase here (by simp) found⟩
    rw [found]
    exact sweep_kept found (not_collectible_of_live live)

variable {t : Transaction}

/-- While another transaction commits, one that has not committed does not, and keeps its logs. -/
theorem Control.unsettled_kept (control : Control s) {holder : Int} (committing : s.Committing holder)
    (steps : Steps s a next events) (same : next.phase holder = s.phase holder) (found : s.txnMap id = some t)
    (unsettled : t.state ≠ .committed) (unswept : ∀ watermark, a = .collect watermark → t.state ≠ .aborted) :
    ∃ t', next.txnMap id = some t' ∧ t'.state ≠ .committed ∧ t.undoLogs <+: t'.undoLogs := by
  have kept : ∃ t', s.txnMap id = some t' ∧ t'.state ≠ .committed ∧ t.undoLogs <+: t'.undoLogs :=
    ⟨t, found, unsettled, List.prefix_refl _⟩
  have updated : ∀ {other : Int} {u u' : Transaction}, s.txnMap other = some u → u'.state ≠ .committed →
      u.undoLogs <+: u'.undoLogs →
      ∃ t', update s.txnMap other (some u') id = some t' ∧ t'.state ≠ .committed ∧ t.undoLogs <+: t'.undoLogs := by
    intro other u u' here unfinished logs
    by_cases own : id = other
    · subst own
      cases found.symm.trans here
      exact ⟨u', update_self _ _ _, unfinished, logs⟩
    · rw [update_of_ne own]
      exact kept
  obtain ⟨after, step, control'⟩ := control.acts steps
  rw [control'.txnMap]
  rw [control'.phase] at same
  cases step with
  | same | moved | left | watermarkRead => exact kept
  | begun added => exact ⟨t, (update_of_ne (ne_of_lt (control.known id t found)) _ _).trans found, unsettled,
      List.prefix_refl _⟩
  | amended ready amends =>
    refine updated ready.found ?_ amends.grows
    rcases amends.live with running | tainted <;> simp [*]
  | published phase here =>
    have self := control.publisher committing phase
    subst self
    simp [Database.setPhase, phase] at same
  | markedAborted phase here => exact updated here (by simp) (List.prefix_refl _)
  | @collected watermark sweeps pending =>
    refine ⟨t, sweep_kept found ?_, unsettled, List.prefix_refl _⟩
    simp [collectible, unsettled, unswept watermark sweeps]

section
variable (trail : Trail s readTs link versions)
include trail

theorem Trail.step (control : Control s) {holder : Int}
    (committing : s.Committing holder) (steps : Steps s a next events)
    (same : next.phase holder = s.phase holder)
    (unswept : ∀ watermark l owner, a = .collect watermark → link = some l →
      s.txnMap l.prevTxn = some owner → owner.state ≠ .aborted) : Trail next readTs link versions := by
  have keeps := control.keeps steps
  cases trail with
  | committed newer chain => exact Trail.committed newer (chain.keeps control.known keeps)
  | held found unsettled logged chain =>
    obtain ⟨t', there, unfinished, logs⟩ := control.unsettled_kept committing steps same found unsettled
      fun watermark sweep => unswept watermark _ _ sweep rfl found
    exact Trail.held there unfinished (undoLog_extended logs logged) (chain.keeps control.known keeps)

/-- What following the link finds: nothing is left, or the next version is the log it leads to. -/
theorem Trail.follows (control : Control s) (registered : s.registeredTs id = some readTs) :
    versions = [] ∨ ∃ undo older, s.follow link = some undo ∧ versions = UndoLog.version undo :: older ∧
      Chain false s undo.ts (some undo.prevVersion) older := by
  cases trail with
  | committed newer chain =>
    cases chain with
    | bottom ends => exact .inl rfl
    | version valid found committed stamped logged rest =>
      exact .inr ⟨_, _, follow_of_logged valid found logged, rfl, rest⟩
    | swept valid known gone old =>
      have seen := old.2 id readTs registered
      omega
  | held found unsettled logged chain =>
    have valid := UndoLink.isValid_of_txn (control.txns _ _ found).old
    exact .inr ⟨_, _, follow_of_logged (valid _) found logged, rfl, chain⟩

end

section Frozen

variable (control : Control s) (committing : s.Committing id) (steps : Steps s a next events)
  (same : next.phase id = s.phase id)

include control committing steps same

theorem Recent.before (recent : Recent (events ++ log) readTs e) : Recent log readTs e := by
  obtain ⟨v, member, newer⟩ := recent
  rw [control.history_frozen committing steps same] at member
  exact ⟨v, member, newer⟩

theorem Tested.frozen (tested : Tested log id readTs e) : Tested (events ++ log) id readTs e := by
  unfold Tested
  rw [control.history_frozen committing steps same]
  exact tested.mono fun row unread p member => unread p (committing.scans_frozen steps member)

theorem Walking.frozen (walking : Walking log s id readTs e link)
    (unswept : ∀ watermark l owner, a = .collect watermark → link = some l →
      s.txnMap l.prevTxn = some owner → owner.state ≠ .aborted) :
    Walking (events ++ log) next id readTs e link := by
  obtain ⟨seen, older, ground, flat, versions, passed, trail⟩ := walking
  refine ⟨seen, older, ground, flat, ?_, ?_, trail.step control committing steps same unswept⟩
  · rw [control.history_frozen committing steps same]
    exact versions
  · intro v member row value p recorded
    exact passed v member row value p (committing.scans_frozen steps recorded)

end Frozen

theorem Validation.kept (validation : Validation log s) (control : Control s) (steps : Steps s a next events)
    (safe : s.SafeSweep a) (found : next.txnMap id = some t)
    (same : next.phase id = s.phase id) : PhaseTested (events ++ log) next id t (next.phase id) := by
  rw [same]
  cases here : s.phase id with
  | none => trivial
  | some phase =>
    cases phase with
    | verifying locked rest walk =>
      cases locked with
      | false => trivial
      | true =>
      have committing := control.committing_verifying here
      rw [control.record_frozen committing steps same] at found
      have before := validation id t found
      rw [here] at before
      intro e recent
      rcases before e (recent.before control committing steps same) with waiting | tested | ⟨link, under, walking⟩
      · exact .inl waiting
      · exact .inr (.inl (tested.frozen control committing steps same))
      · refine .inr (.inr ⟨link, under, walking.frozen control committing steps same ?_⟩)
        rintro watermark l owner sweep rfl held
        rw [under] at here
        exact safe watermark sweep id rest e.oid l owner here held
    | stamping commitTs rest =>
      have committing := control.committing_stamping here
      rw [control.record_frozen committing steps same] at found
      have before := validation id t found
      rw [here] at before
      intro serializable writer e recent
      exact (before serializable writer e (recent.before control committing steps same)).frozen control
        committing steps same
    | _ => trivial

/-- A version the code tested and did not match is unread. -/
theorem Ledger.unread (ledger : Ledger log s) (found : s.txnMap id = some t) {isDeleted : Bool}
    {row row' : RowBytes} (missed : (!isDeleted && t.isScanTuple oid row) = false)
    (value : (if isDeleted then none else some row) = some row') : Unread log id oid row' := by
  intro p member
  cases isDeleted with
  | true => cases value
  | false =>
    cases value
    have recorded := (ledger.scans id oid p member).2 t found
    by_contra hit
    have scanned : t.isScanTuple oid row = true :=
      List.any_eq_true.mpr ⟨(oid, p), recorded, by simpa using hit⟩
    simp [scanned] at missed

theorem Trail.moved (trail : Trail s readTs link versions) (control : Control s) (keeps : Keeps s next)
    (txns : next.txnMap = s.txnMap) : Trail next readTs link versions := by
  cases trail with
  | committed newer chain => exact Trail.committed newer (chain.keeps control.known keeps)
  | held found unsettled logged chain =>
    exact Trail.held (by rw [txns]; exact found) unsettled logged (chain.keeps control.known keeps)

theorem tested_of_versions {seen older ground : List (Version RowBytes)}
    (versions : seen ++ older = history e log ++ ground)
    (passed : ∀ v ∈ seen, ∀ row, v.value = some row → Unread log id e.oid row)
    (rest : Cleared (Unread log id e.oid) readTs older) : Tested log id readTs e := by
  have whole := cleared_append passed rest
  rw [versions] at whole
  exact whole.of_append

section Visit

variable {t : Transaction} {rest : List Entry} {walk : WalkAt} {tupleMeta : TupleMeta}
  {row : RowBytes}

section
variable (slots : Slots false log s)
include slots

section
variable (control : Control s)
include control

/-- While a validation runs, a tuple without a temporary timestamp is the row's newest version. -/
theorem Slots.settled_of_stamp (here : s.phase id = some (.verifying true rest walk)) (present : s.Present e)
    (base : s.store.getRow e.rid = some (tupleMeta, row)) (stamp : isTempTs tupleMeta.ts = false) :
    Settled false log s e := by
  apply slots.settled e present
  intro other member
  obtain ⟨u, found, -⟩ := control.live_of_pending member
  obtain ⟨tuple, base', carries, -⟩ := (slots.held other u e found member present).base
  rw [base] at base'
  cases base'
  have final : tupleMeta.ts < txnStartId := by simpa [isTempTs] using stamp
  have carries : tupleMeta.ts = s.stampTs other e := carries
  rcases control.stampTs_cases member with ⟨same, old⟩ | ⟨same, room, mutex⟩
  · omega
  · rw [(control.committing_verifying here).mutex] at mutex
    cases mutex
    have own : s.stampTs id e = id := stampTs_eq here
    have old := (control.txns id u found).old
    omega

/-- While a validation runs, a temporary timestamp on a row with a past leads to its newest version. -/
theorem Slots.walking_of_temp (present : s.Present e)
    (base : s.store.getRow e.rid = some (tupleMeta, row)) (stamp : isTempTs tupleMeta.ts = true)
    (recent : Recent log readTs e) : Walking log s id readTs e (s.versionInfo e.rid) := by
  have temp : txnStartId ≤ tupleMeta.ts := by simpa [isTempTs] using stamp
  have clock := control.clock
  obtain ⟨holder, member⟩ : ∃ holder, e ∈ s.pending holder := by
    by_contra free
    have published := slots.settled_ts control (slots.settled e present (not_exists.mp free)) base
    simp only at published
    omega
  obtain ⟨u, found, live, -⟩ := control.live_of_pending member
  rcases (slots.held holder u e found member present).below with
    ⟨fresh, -⟩ | ⟨idx, undo, older, ground, head, logged, flat, versions, chain⟩
  · obtain ⟨v, inside, -⟩ := recent
    rw [fresh] at inside
    cases inside
  · refine ⟨[], _, ground, flat, versions, by simp, ?_⟩
    rw [head]
    refine Trail.held found ?_ logged chain
    rcases live with running | tainted <;> simp [*]

theorem Slots.passed_base (ledger : Ledger log s) (here : s.phase id = some (.verifying true rest walk))
    (found : s.txnMap id = some t) (present : s.Present e) (base : s.store.getRow e.rid = some (tupleMeta, row))
    (stamp : isTempTs tupleMeta.ts = false) (missed : (!tupleMeta.isDeleted && t.isScanTuple e.oid row) = false)
    (inSnapshot : tupleMeta.ts ≤ readTs) : Tested log id readTs e := by
  obtain ⟨tuple, older, ground, base', flat, versions, chain⟩ :=
    slots.settled_of_stamp control here present base stamp
  rw [base] at base'
  cases base'
  have whole : [] ++ (tupleVersion (tupleMeta, row) :: older) = history e log ++ ground := versions
  refine tested_of_versions whole (by simp) ⟨fun row' value => ledger.unread found missed value, ?_⟩
  intro newer
  exact absurd inSnapshot (not_le.mpr newer)

theorem Slots.walking_base (ledger : Ledger log s)
    (here : s.phase id = some (.verifying true rest walk)) (found : s.txnMap id = some t) (present : s.Present e)
    (base : s.store.getRow e.rid = some (tupleMeta, row))
    (tested : isTempTs tupleMeta.ts = true ∨
      ((!tupleMeta.isDeleted && t.isScanTuple e.oid row) = false ∧ readTs < tupleMeta.ts))
    (recent : Recent log readTs e) : Walking log s id readTs e (s.versionInfo e.rid) := by
  cases stamp : isTempTs tupleMeta.ts with
  | true => exact slots.walking_of_temp control present base stamp recent
  | false =>
    obtain ⟨missed, newer⟩ := tested.resolve_left (by simp [stamp])
    obtain ⟨tuple, older, ground, base', flat, versions, chain⟩ :=
      slots.settled_of_stamp control here present base stamp
    rw [base] at base'
    cases base'
    refine ⟨[tupleVersion (tupleMeta, row)], older, ground, flat, versions, ?_, Trail.committed newer chain⟩
    intro v inside row' value
    rw [List.mem_singleton.mp inside] at value
    exact ledger.unread found missed value

end

end

end Visit

section Turns

variable {t : Transaction} {rest : List Entry} {walk : WalkAt}

theorem Walking.moved (walking : Walking log s id readTs e link) (control : Control s) (keeps : Keeps s next)
    (txns : next.txnMap = s.txnMap) : Walking log next id readTs e link := by
  obtain ⟨seen, older, ground, flat, versions, passed, trail⟩ := walking
  exact ⟨seen, older, ground, flat, versions, passed, trail.moved control keeps txns⟩

theorem PhaseTested.visited (before : PhaseTested log s id t (some (.verifying true rest none)))
    (done : Recent log t.readTs e → Tested log id t.readTs e ∨
      ∃ link, walk = some (e.oid, link) ∧ Walking log next id t.readTs e link) :
    PhaseTested log next id t (some (.verifying true (rest.erase e) walk)) := by
  intro e' recent
  by_cases same : e' = e
  · subst same
    exact .inr (done recent)
  · rcases before e' recent with waiting | tested | ⟨link, under, -⟩
    · exact .inl ((List.mem_erase_of_ne same).mpr waiting)
    · exact .inr (.inl tested)
    · cases under

theorem PhaseTested.walked (before : PhaseTested log s id t (some (.verifying true rest (some (oid, link)))))
    (done : ∀ e, e.oid = oid → Walking log s id t.readTs e link → Tested log id t.readTs e ∨
      ∃ link', walk = some (e.oid, link') ∧ Walking log next id t.readTs e link') :
    PhaseTested log next id t (some (.verifying true rest walk)) := by
  intro e recent
  rcases before e recent with waiting | tested | ⟨link', under, walking⟩
  · exact .inl waiting
  · exact .inr (.inl tested)
  · cases under
    exact .inr (done e rfl walking)

theorem Walking.tested (walking : Walking log s id t.readTs e link) (control : Control s)
    (registered : s.registeredTs id = some t.readTs) (ledger : Ledger log s) (found : s.txnMap id = some t)
    (ends : ∀ undo, s.follow link = some undo →
      (!undo.isDeleted && t.isScanTuple e.oid undo.row) = false ∧ undo.ts ≤ t.readTs) :
    Tested log id t.readTs e := by
  obtain ⟨seen, older, ground, flat, versions, passed, trail⟩ := walking
  refine tested_of_versions versions passed ?_
  rcases trail.follows control registered with rfl | ⟨undo, deeper, resolved, rfl, -⟩
  · trivial
  · obtain ⟨missed, inSnapshot⟩ := ends undo resolved
    refine ⟨fun row value => ledger.unread found missed value, ?_⟩
    intro newer
    exact absurd inSnapshot (not_le.mpr newer)

theorem Walking.follows (walking : Walking log s id t.readTs e link) (control : Control s)
    (registered : s.registeredTs id = some t.readTs) (ledger : Ledger log s) (found : s.txnMap id = some t)
    {undo : UndoLog} (resolved : s.follow link = some undo)
    (missed : (!undo.isDeleted && t.isScanTuple e.oid undo.row) = false) (newer : t.readTs < undo.ts) :
    Tested log id t.readTs e ∨ Walking log s id t.readTs e (some undo.prevVersion) := by
  obtain ⟨seen, older, ground, flat, versions, passed, trail⟩ := walking
  rcases trail.follows control registered with rfl | ⟨_, deeper, here, rfl, chain⟩
  · exact .inl (tested_of_versions versions passed trivial)
  · cases resolved.symm.trans here
    refine .inr ⟨seen ++ [UndoLog.version undo], deeper, ground, flat, ?_, ?_, Trail.committed newer chain⟩
    · rw [← versions, List.append_assoc]
      rfl
    · intro v member row value
      rcases List.mem_append.mp member with inside | last
      · exact passed v inside row value
      · rw [List.mem_singleton.mp last] at value
        exact ledger.unread found missed value

end Turns

/-- A commit that validates: no rollback throws, tables are dropped under the lease, and no sweep
takes a log from under a walk. -/
structure Validates (s : Database) (a : Action) : Prop where
  orderly : s.Orderly a
  safe : s.SafeSweep a

section Step

variable {t : Transaction} {locked : Bool} {rest : List Entry} {walk : WalkAt}

theorem phaseTested_verifying (inside : locked = true → PhaseTested log s id t (some (.verifying true rest walk))) :
    PhaseTested log s id t (some (.verifying locked rest walk)) := by
  cases locked with
  | false => trivial
  | true => exact inside rfl

theorem Sound.verifying (sound : Sound log s) (anchored : Anchored log s) (found : s.txnMap id = some t)
    (here : s.phase id = some (.verifying locked rest walk)) :
    s.registeredTs id = some t.readTs ∧ ∀ e, Recent log t.readTs e → s.Present e := by
  obtain ⟨u, same, registered, -, running⟩ := sound.control.finalizing here (by simp)
  cases found.symm.trans same
  exact ⟨registered, fun e recent => sound.present_of_recent anchored found (.inl running) recent⟩

variable (validation : Validation log s) (sound : Sound log s) (anchored : Anchored log s)
  (found : s.txnMap id = some t)

include validation found

theorem Validation.phase (here : s.phase id = some (.verifying true rest walk)) :
    PhaseTested log s id t (some (.verifying true rest walk)) := by
  have before := validation id t found
  rwa [here] at before

include sound anchored

theorem Validation.verifyRow (slots : Slots false log s) (steps : Steps s (.verifyRow id e) next events) :
    PhaseTested log next id t (next.phase id) := by
  have keeps := sound.control.keeps steps
  cases steps with
  | verifySkipped phase member dropped =>
    simp only [setPhase, update_self]
    refine phaseTested_verifying ?_
    rintro rfl
    refine (validation.phase found phase).visited fun recent => ?_
    obtain ⟨⟨heap, table, -⟩, -⟩ := (sound.verifying anchored found phase).2 _ recent
    simp [dropped] at table
  | verifyRejected phase here =>
    simp only [rejectCommit, setPhase, update_self]
    trivial
  | verifyPassed phase here member base settled unread inSnapshot =>
    cases here.symm.trans found
    simp only [setPhase, update_self]
    refine phaseTested_verifying ?_
    rintro rfl
    refine (validation.phase found phase).visited fun recent => .inl ?_
    exact slots.passed_base sound.control sound.ledger phase found
      ((sound.verifying anchored found phase).2 _ recent) base settled unread inSnapshot
  | verifyWalking phase here member table base tested =>
    cases here.symm.trans found
    rw [show (s.setPhase id _).phase id = _ from update_self _ _ _]
    refine phaseTested_verifying ?_
    rintro rfl
    refine (validation.phase found phase).visited fun recent => .inr ⟨_, rfl, ?_⟩
    have present := (sound.verifying anchored found phase).2 _ recent
    exact (slots.walking_base sound.control sound.ledger phase found present base tested recent).moved
      sound.control keeps rfl

theorem Validation.verifyLink (steps : Steps s (.verifyLink id) next events) :
    PhaseTested log next id t (next.phase id) := by
  have keeps := sound.control.keeps steps
  cases steps with
  | linkRejected phase here =>
    simp only [rejectCommit, setPhase, update_self]
    trivial
  | linkEnded phase missing =>
    simp only [setPhase, update_self]
    refine phaseTested_verifying ?_
    rintro rfl
    have registered := (sound.verifying anchored found phase).1
    refine (validation.phase found phase).walked fun e _ walking => .inl ?_
    refine walking.tested sound.control registered sound.ledger found fun undo resolved => ?_
    cases (show s.follow _ = none from missing).symm.trans resolved
  | linkPassed phase here resolved unread inSnapshot =>
    cases here.symm.trans found
    simp only [setPhase, update_self]
    refine phaseTested_verifying ?_
    rintro rfl
    have registered := (sound.verifying anchored found phase).1
    refine (validation.phase found phase).walked fun e oid walking => .inl ?_
    refine walking.tested sound.control registered sound.ledger found fun undo again => ?_
    cases (show s.follow _ = some _ from resolved).symm.trans again
    rw [oid]
    exact ⟨unread, inSnapshot⟩
  | linkFollowed phase here resolved unread newer =>
    cases here.symm.trans found
    rw [show (s.setPhase id _).phase id = _ from update_self _ _ _]
    refine phaseTested_verifying ?_
    rintro rfl
    have registered := (sound.verifying anchored found phase).1
    refine (validation.phase found phase).walked fun e oid walking => ?_
    subst oid
    rcases walking.follows sound.control registered sound.ledger found resolved unread newer with tested | deeper
    · exact .inl tested
    · exact .inr ⟨_, rfl, deeper.moved sound.control keeps rfl⟩

end Step

theorem Validation.step (validation : Validation log s) (sound : Sound log s) (slots : Slots false log s)
    (retained : Retained log s) (anchored : Anchored log s) (steps : Steps s a next events)
    (safe : s.SafeSweep a) : Validation (events ++ log) next := by
  intro other t found
  have taken := steps
  have actor : ∀ {id : Int} {phase : Option Phase}, next.phase = update s.phase id phase →
      (other = id → PhaseTested (events ++ log) next other t (next.phase other)) →
      PhaseTested (events ++ log) next other t (next.phase other) := by
    intro id phase moved own
    by_cases same : other = id
    · exact own same
    · exact validation.kept sound.control taken safe found (by rw [moved, update_of_ne same])
  have quiet : ∀ {id : Int} {phase : Option Phase}, next.phase = update s.phase id phase →
      PhaseTested (events ++ log) next other t phase →
      PhaseTested (events ++ log) next other t (next.phase other) := by
    intro id phase moved own
    refine actor moved ?_
    rintro rfl
    rwa [moved, update_self]
  cases steps with
  | lockedToVerify phase here free room =>
    refine actor rfl ?_
    rintro rfl
    cases here.symm.trans found
    obtain ⟨u, same, registered, -, running⟩ := sound.control.finalizing phase (by simp)
    cases here.symm.trans same
    simp only [setPhase, update_self]
    exact fun e recent => .inl (sound.suspects_complete retained here registered (by simp [running]) recent)
  | lockedToStamp ready running unchecked free room =>
    refine actor rfl ?_
    rintro rfl
    cases ready.found.symm.trans found
    simp only [setPhase, update_self]
    exact fun serializable writer => absurd ⟨serializable, writer⟩ unchecked
  | verifySkipped | verifyRejected | verifyPassed | verifyWalking =>
    refine actor rfl ?_
    rintro rfl
    exact validation.verifyRow sound anchored found slots taken
  | linkEnded | linkRejected | linkPassed | linkFollowed =>
    refine actor rfl ?_
    rintro rfl
    exact validation.verifyLink sound anchored found taken
  | verified phase here =>
    refine actor rfl ?_
    rintro rfl
    cases here.symm.trans found
    simp only [setPhase, update_self]
    intro _ _ e recent
    rcases validation.phase here phase e recent with waiting | tested | ⟨link, under, -⟩
    · cases waiting
    · exact tested
    · cases under
  | stampSkipped phase member dropped | stamped phase member table base stored =>
    refine actor rfl ?_
    rintro rfl
    have before := validation other t found
    rw [phase] at before
    simp only [setPhase, update_self]
    exact before
  | began added | commitStarted | published | abortStarted | rollbackSkipped | restored
  | tombstoned | rollbackFailed | markedAborted | leftCommitted | leftAborted => exact quiet rfl trivial
  | _ => exact validation.kept sound.control taken safe found rfl

end Database

theorem validation_run {log : List Event} {s : Database} (run : Run system Database.Validates log s) :
    Database.Validation log s := by
  refine Run.invariant (I := fun log s => Database.Validation log s) ?_ ?_ run
  · intro s initial id t found
    rw [initial.txnMap] at found
    cases found
  · intro log s next a events before validation meets taken
    have orderly := before.mono fun _ _ (validates : Database.Validates _ _) => validates.orderly
    have slots := slots_run (orderly.mono fun _ _ orderly => orderly.admits)
    obtain ⟨retained, anchored⟩ := window_run orderly
    exact validation.step (sound_run before) slots retained anchored (Database.steps_of_step taken) meets.safe

end BumbleBee.Mvcc
