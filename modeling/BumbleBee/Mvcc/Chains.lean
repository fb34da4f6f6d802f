import BumbleBee.Mvcc.Control
import BumbleBee.Mvcc.History

/-!
Version chains. `Chain` reads the versions below a tuple off the undo links: each
link leads into the log of the committed transaction that wrote the version above,
until it reaches a transaction already swept away, whose versions no snapshot can
ask for, or the bottom of the row's own history.

With `clean`, a bottom link must lead nowhere. Without it, a link left behind by
another table that owned the page before may lead into a committed transaction.
-/

namespace BumbleBee.Mvcc
open Library.Versions Storage.SlottedPage Concurrency Function

namespace Database

def Bottom (clean : Bool) (s : Database) (link : Option UndoLink) : Prop :=
  ∀ l ∈ link, l.isValid = true → l.prevTxn < s.nextTxnId ∧
    ∀ owner, s.txnMap l.prevTxn = some owner → clean = false ∧ owner.state = .committed

inductive Chain (clean : Bool) (s : Database) : Int → Option UndoLink → List (Version RowBytes) → Prop
  | bottom {above : Int} {link : Option UndoLink} (ends : s.Bottom clean link) : Chain clean s above link []
  | version {above : Int} {link : UndoLink} {owner : Transaction} {log : UndoLog}
      {older : List (Version RowBytes)} (valid : link.isValid = true)
      (found : s.txnMap link.prevTxn = some owner) (committed : owner.state = .committed)
      (stamped : owner.commitTs = above) (logged : owner.undoLogs[link.prevLogIdx]? = some log)
      (rest : Chain clean s log.ts (some log.prevVersion) older) :
      Chain clean s above (some link) (UndoLog.version log :: older)
  | swept {above : Int} {link : UndoLink} {versions : List (Version RowBytes)}
      (valid : link.isValid = true) (known : link.prevTxn < s.nextTxnId)
      (gone : s.txnMap link.prevTxn = none) (old : s.Old above) :
      Chain clean s above (some link) versions

/-- What a step may do to the transactions version chains lead into. -/
structure Keeps (s next : Database) : Prop where
  ids : s.nextTxnId ≤ next.nextTxnId
  committed : ∀ id t, s.txnMap id = some t → t.state = .committed →
    next.txnMap id = some t ∨ (next.txnMap id = none ∧ next.Old t.commitTs)
  gone : ∀ id, id < s.nextTxnId → s.txnMap id = none → next.txnMap id = none
  live : ∀ id t, s.txnMap id = some t → t.Live → ∃ t', next.txnMap id = some t' ∧
    t'.readTs = t.readTs ∧ t.undoLogs <+: t'.undoLogs
  old : ∀ ts, s.Old ts → next.Old ts

variable {s next : Database} {id : Int} {clean : Bool} {link : Option UndoLink}

theorem Bottom.keeps (ends : s.Bottom clean link) (keeps : Keeps s next) : next.Bottom clean link := by
  intro l member valid
  obtain ⟨known, owners⟩ := ends l member valid
  refine ⟨lt_of_lt_of_le known keeps.ids, ?_⟩
  intro owner found
  cases before : s.txnMap l.prevTxn with
  | none =>
    rw [keeps.gone _ known before] at found
    cases found
  | some t =>
    obtain ⟨unclean, committed⟩ := owners t before
    rcases keeps.committed _ t before committed with same | ⟨gone, -⟩
    · rw [same] at found
      cases found
      exact ⟨unclean, committed⟩
    · rw [gone] at found
      cases found

variable {versions : List (Version RowBytes)} {above : Int}

theorem Chain.keeps
    (chain : Chain clean s above link versions) (known : ∀ id t, s.txnMap id = some t → id < s.nextTxnId)
    (keeps : Keeps s next) : Chain clean next above link versions := by
  induction chain with
  | bottom ends => exact Chain.bottom (ends.keeps keeps)
  | version valid found committed stamped logged rest ih =>
    rcases keeps.committed _ _ found committed with same | ⟨gone, old⟩
    · exact Chain.version valid same committed stamped logged ih
    · exact Chain.swept valid (lt_of_lt_of_le (known _ _ found) keeps.ids) gone (stamped ▸ old)
  | swept valid below gone old =>
    exact Chain.swept valid (lt_of_lt_of_le below keeps.ids) (keeps.gone _ below gone) (keeps.old _ old)

theorem Chain.normalized {link : UndoLink} (chain : Chain clean s above (some link) versions) :
    Chain clean s above (if link.isValid then some link else none) versions := by
  split
  · exact chain
  · next invalid =>
    cases chain with
    | bottom ends => exact Chain.bottom fun l member => by cases member
    | version valid => exact absurd valid invalid
    | swept valid => exact absurd valid invalid

theorem Chain.getD
    (chain : Chain clean s above link versions) : Chain clean s above (some (link.getD {})) versions := by
  cases link with
  | some l => exact chain
  | none =>
    cases chain with
    | bottom ends =>
      refine Chain.bottom fun l member valid => ?_
      cases member
      cases valid

variable {t : Transaction}

theorem ActsOn.keeps (acts : ActsOn s next id) {t' : Transaction} (here : s.txnMap id = some t)
    (live : t.Live) (after : next.txnMap id = some t') (snapshot : t'.readTs = t.readTs)
    (logs : t.undoLogs <+: t'.undoLogs) : Keeps s next := by
  refine ⟨le_of_eq acts.nextTxnId.symm, ?_, ?_, ?_, ?_⟩
  · intro other u found committed
    by_cases same : other = id
    · subst same
      rw [here] at found
      rcases live with running | tainted <;> simp_all
    · exact .inl ((acts.txnMap other same).trans found)
  · intro other known gone
    by_cases same : other = id
    · subst same
      rw [here] at gone
      cases gone
    · exact (acts.txnMap other same).trans gone
  · intro other u found active
    by_cases same : other = id
    · subst same
      rw [here] at found
      cases found
      exact ⟨t', after, snapshot, logs⟩
    · exact ⟨u, (acts.txnMap other same).trans found, rfl, List.prefix_refl _⟩
  · intro ts old
    refine old.frame acts.grows ?_
    intro other readTs registered
    rw [acts.registeredTs] at registered
    exact .inl registered

theorem Keeps.congr (keeps : Keeps s next) {after : Database} (nextTxnId : after.nextTxnId = next.nextTxnId)
    (lastCommitTs : after.lastCommitTs = next.lastCommitTs) (txnMap : after.txnMap = next.txnMap)
    (phase : after.phase = next.phase) : Keeps s after := by
  have old : ∀ ts, next.Old ts → after.Old ts := by
    intro ts old
    refine old.frame (le_of_eq lastCommitTs.symm) ?_
    intro other readTs registered
    exact .inl (by simpa only [registeredTs, phase, txnMap] using registered)
  refine ⟨by rw [nextTxnId]; exact keeps.ids, ?_, by rw [txnMap]; exact keeps.gone,
    by rw [txnMap]; exact keeps.live, fun ts before => old ts (keeps.old ts before)⟩
  intro id t found committed
  rw [txnMap]
  rcases keeps.committed id t found committed with same | ⟨gone, before⟩
  · exact .inl same
  · exact .inr ⟨gone, old _ before⟩

theorem Keeps.refl (s : Database) : Keeps s s :=
  ⟨le_refl _, fun _ _ found _ => .inl found, fun _ _ gone => gone,
    fun _ t found _ => ⟨t, found, rfl, List.prefix_refl _⟩, fun _ old => old⟩

theorem keeps_setTxn {t' : Transaction} (ready : s.Ready id t) (amends : Amends s id t t') :
    Keeps s (s.setTxn id t') :=
  (actsOn_setTxn ready amends.readTs).keeps ready.found ready.live (update_self _ _ _) amends.readTs amends.grows

variable {mutex : Option Int}

theorem Control.keeps_begun (control : Control s) (isolationLevel : IsolationLevel)
    (runningTxns : Watermark) : Keeps s (s.begun isolationLevel runningTxns) := by
  have others : ∀ other, other < s.nextTxnId →
      (s.begun isolationLevel runningTxns).txnMap other = s.txnMap other := by
    intro other known
    exact update_of_ne (by omega) _ _
  refine ⟨Int.le_of_lt (Int.lt_succ _), ?_, ?_, ?_, ?_⟩
  · intro other t found _
    exact .inl ((others other (control.txns other t found).known).trans found)
  · intro other known gone
    exact (others other known).trans gone
  · intro other t found _
    exact ⟨t, (others other (control.txns other t found).known).trans found, rfl, List.prefix_refl _⟩
  · intro ts old
    refine old.frame (le_refl _) ?_
    intro other readTs registered
    rw [registeredTs_begun] at registered
    split at registered
    · cases registered
      exact .inr (le_refl _)
    · exact .inl registered

theorem keeps_left {runningTxns : Watermark} :
    Keeps s ({ s with runningTxns := runningTxns, commitMutex := mutex }.setPhase id none) := by
  refine ⟨le_refl _, fun _ _ found _ => .inl found, fun _ _ gone => gone,
    fun _ t found _ => ⟨t, found, rfl, List.prefix_refl _⟩, ?_⟩
  intro ts old
  refine old.frame (le_refl _) ?_
  intro other readTs registered
  by_cases same : other = id
  · subst same
    simp only [registeredTs, setPhase, update_self, reduceCtorEq] at registered
  · simp only [registeredTs, setPhase, update_of_ne same] at registered
    exact .inl registered

theorem Control.keeps_collected (control : Control s) {watermark : Int} (pending : watermark ∈ s.gcWatermarks) :
    Keeps s { s with
      txnMap := sweep watermark s.txnMap
      gcWatermarks := s.gcWatermarks.erase watermark } := by
  have old : ∀ ts, s.Old ts → Old { s with
      txnMap := sweep watermark s.txnMap
      gcWatermarks := s.gcWatermarks.erase watermark } ts := by
    intro ts old
    refine old.frame (le_refl _) ?_
    intro other readTs registered
    rw [control.registeredTs_collected pending] at registered
    exact .inl registered
  refine ⟨le_refl _, ?_, ?_, ?_, old⟩
  · intro other t found committed
    by_cases kept : collectible watermark t = false
    · exact .inl (sweep_kept found kept)
    · refine .inr ⟨by simp [sweep, found, kept], old _ ?_⟩
      have below : t.commitTs ≤ watermark := by
        simpa [collectible, committed] using kept
      have before := control.watermarks watermark pending
      exact ⟨le_trans below before.1, fun other readTs registered =>
        le_trans below (before.2 other readTs registered)⟩
  · intro other known gone
    simp [sweep, gone]
  · intro other t found live
    exact ⟨t, sweep_kept found (not_collectible_of_live live), rfl, List.prefix_refl _⟩

theorem undoLogs_appendWriteSet (t : Transaction) (e : Entry) : (t.appendWriteSet e).undoLogs = t.undoLogs := by
  unfold Transaction.appendWriteSet
  split <;> rfl

theorem Control.keeps (control : Control s) {a : Action} {events : List Event}
    (steps : Steps s a next events) : Keeps s next := by
  obtain ⟨after, step, same⟩ := control.acts steps
  refine Keeps.congr ?_ same.nextTxnId same.lastCommitTs same.txnMap same.phase
  cases step with
  | same => exact Keeps.refl s
  | begun added => exact control.keeps_begun _ _
  | amended ready amends => exact keeps_setTxn ready amends
  | moved found live registered staying ok others =>
    exact (actsOn_setPhase found registered staying others).keeps found live found rfl (List.prefix_refl _)
  | published here found =>
    exact (control.actsOn_publish here found).keeps found (control.live_of_phase here (by simp) found)
      (update_self _ _ _) rfl (List.prefix_refl _)
  | markedAborted here found =>
    exact (control.actsOn_markAborted here found).keeps found (control.live_of_phase here (by simp) found)
      (update_self _ _ _) rfl (List.prefix_refl _)
  | left phase counts published others => exact keeps_left
  | watermarkRead => exact (Keeps.refl s).congr rfl rfl rfl rfl
  | collected sweeps pending => exact control.keeps_collected pending

end Database

end BumbleBee.Mvcc
