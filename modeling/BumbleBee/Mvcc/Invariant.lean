import BumbleBee.Mvcc.Finalize

/-!
The slots over whole runs. A run is admitted when no rollback of a row is refused
and either every page handed to a heap is free of links into the transaction map,
or tables are dropped only while no transaction is live.
-/

namespace BumbleBee.Mvcc
open Library.Transition Storage Storage.SlottedPage Concurrency Function

namespace Database

/-- The step is no rollback that throws. -/
def RollbackSucceeds (s : Database) (a : Action) : Prop :=
  ∀ id e t heap, a = .rollback id e → s.txnMap id = some t → s.tables e.oid = some heap →
    s.mvccRollback id t e.rid ≠ .failed

/-- Every page the step hands to a heap carries no link into a transaction still in the map. -/
def CleanAlloc (s : Database) (a : Action) : Prop :=
  ∀ next events, s.step a = some (next, events) → FreshPages s next

/-- The exclusive schema lease: a table is dropped while no transaction is live. -/
def Leased (s : Database) (a : Action) : Prop :=
  ∀ oid, a = .dropTable oid → ∀ id t, s.txnMap id = some t → ¬t.Live

structure Admits (clean : Bool) (s : Database) (a : Action) : Prop where
  restores : s.RollbackSucceeds a
  fresh : clean = true → s.CleanAlloc a
  leased : clean = false → s.Leased a

variable {s next : Database} {id : Int} {clean : Bool} {log : List Event} {e : Entry}

theorem Slots.inserted (slots : Slots clean log s) (control : Control s) (heaps : Heaps s) (links : Links s)
    {t : Transaction} {oid : Nat} {heap grown : TableHeap} {linked after : PageStore} {row : RowBytes} {mid : Database}
    (ready : s.Ready id t) (table : s.tables oid = some heap) (grew : TableHeap.Grew heap s.store grown linked)
    (enlarged : mid = { s with store := linked, tables := update s.tables oid (some grown) })
    (placed : TableHeap.Placed linked grown.lastPageId (⟨id, false⟩, row) after)
    (slot : e = ⟨oid, grown.lastPageId, (linked.rows grown.lastPageId).length⟩)
    (moved : next = { mid with store := after }.setTxn id (t.appendWriteSet e))
    (kept : WriteSets (.inserted id e row :: log) next) (fresh : clean = true → FreshPages s mid) :
    Slots clean (.inserted id e row :: log) next := by
  have steps : Steps s (.insert id oid row) mid [] := enlarged ▸ Steps.insertTooLarge table grew
  have ready' : mid.Ready id t := enlarged ▸ ⟨ready.idle, ready.found, ready.live⟩
  have keeps : Keeps mid next := by
    rw [moved]
    exact (keeps_setTxn ready' ((amends_refl ready.live).wrote _)).congr rfl rfl rfl rfl
  have before : WriteSets log mid := slots.toWriteSets.step heaps control.known steps
  have space : Space s mid ∧ ∀ e, s.Present e → mid.Present e := enlarged ▸ heaps.space_grew table grew
  have kept' := (slots.extended control links before space.1 fresh space.2)
  subst enlarged slot
  exact kept'.placed (control.step steps) (heaps.step steps) ready' (update_self _ _ _) rfl placed keeps kept moved

theorem Slots.step (slots : Slots clean log s) (control : Control s) (heaps : Heaps s) (links : Links s)
    {a : Action} {events : List Event} (admitted : Admits clean s a) (taken : s.step a = some (next, events)) :
    Slots clean (events ++ log) next := by
  have steps := steps_of_step taken
  have keeps := control.keeps steps
  have kept := slots.toWriteSets.step heaps control.known steps
  have fresh : clean = true → FreshPages s next := fun cleaned => admitted.fresh cleaned next events taken
  have plain := Plain.refl log
  cases steps with
  | began added => exact slots.quiet control keeps kept (Plain.began ..) (control.quiet_begun _ _)
  | scanned ready table serializable =>
    exact slots.quiet control keeps kept (Plain.scanned ..) (quiet_setTxn ready rfl)
  | scanUnrecorded | rewriteTooLarge => exact slots
  | inserted ready table grew placed =>
    exact slots.inserted control heaps links ready table grew rfl placed rfl rfl kept fresh
  | insertTooLarge table grew =>
    obtain ⟨space, shrinks⟩ := heaps.space_grew table grew
    exact slots.extended control links kept space fresh shrinks
  | rewrote ready table listed base own stored =>
    have owned : s.Owns _ _ := ⟨_, table, listed⟩
    exact slots.rewrote control keeps kept ready owned
      (heaps.writesAt owned rfl rfl rfl rfl stored fun _ _ => rfl) base own stored rfl
  | versioned ready table listed base foreign inSnapshot stored =>
    have owned : s.Owns _ _ := ⟨_, table, listed⟩
    exact slots.versioned control keeps kept ready owned
      (heaps.writesAt owned rfl rfl rfl rfl stored fun rid apart => update_of_ne apart _ _) base inSnapshot stored
      (update_self _ _ _)
  | modifyConflict ready base foreign outside =>
    refine slots.quiet control keeps kept plain (quiet_setTxn ready ?_)
    unfold Transaction.setTainted
    split <;> rfl
  | versionTooLarge ready | cancelled ready =>
    exact slots.quiet control keeps kept plain (quiet_setTxn ready rfl)
  | commitStarted ready | abortStarted ready =>
    exact slots.quiet control keeps kept plain (quiet_ready ready rfl fun _ _ => rfl)
  | lockedToStamp ready running unchecked free room =>
    exact slots.quiet control keeps kept plain (quiet_ready ready rfl fun _ member => if_pos member)
  | verifySkipped phase member dropped | verifyPassed phase found member base settled unread inSnapshot
  | verifyWalking phase found member table base tested | linkEnded phase missing
  | linkPassed phase found resolved unread inSnapshot | linkFollowed phase found resolved unread newer =>
    exact slots.quiet control keeps kept plain (control.quiet_verifyMoved phase)
  | lockedToVerify phase found | verifyRejected phase found | linkRejected phase found =>
    exact slots.quiet control keeps kept plain (quiet_verifying phase found rfl fun _ _ => rfl)
  | verified phase found =>
    exact slots.quiet control keeps kept plain (quiet_verifying phase found rfl fun _ member => if_pos member)
  | stampSkipped phase member dropped =>
    exact slots.quiet control keeps kept plain (control.quiet_stampSkipped phase dropped)
  | stamped phase member table base stored =>
    obtain ⟨t, found, -⟩ := control.finalizing phase (by simp)
    exact slots.stamped control heaps keeps kept
      ⟨phase, found, rfl, rfl, rfl, rfl, ⟨_, stored⟩, fun _ _ => rfl, fun _ _ => Iff.rfl,
        fun e' apart => by simp only [Phase.stampTs, mem_erase_iff_of_ne apart]⟩ member table base stored rfl
  | published phase found =>
    exact slots.published control keeps kept ⟨phase, found, rfl, rfl, rfl, rfl, rfl, rfl⟩
  | rollbackSkipped phase member dropped =>
    exact slots.quiet control keeps kept plain (control.quiet_rollbackSkipped phase dropped)
  | restored phase found member table head valid own logged base stored =>
    exact slots.restored control heaps keeps kept
      ⟨phase, found, rfl, rfl, rfl, rfl, ⟨_, stored⟩, fun rid apart => update_of_ne apart _ _,
        fun e' apart => mem_erase_iff_of_ne apart, fun _ _ => rfl⟩
      member table head valid own logged stored (update_self _ _ _)
  | tombstoned phase member table unowned base stored =>
    obtain ⟨t, found, -⟩ := control.finalizing phase (by simp)
    exact slots.tombstoned control heaps keeps kept
      ⟨phase, found, rfl, rfl, rfl, rfl, ⟨_, stored⟩, fun _ _ => rfl,
        fun e' apart => mem_erase_iff_of_ne apart, fun _ _ => rfl⟩ member table unowned stored rfl
  | rollbackFailed phase found table refused =>
    exact absurd refused (admitted.restores _ _ _ _ rfl found table)
  | markedAborted phase found =>
    exact slots.quiet control keeps kept plain (quiet_markAborted phase found)
  | leftCommitted phase removed | leftAborted phase removed =>
    exact slots.quiet control keeps kept plain (quiet_left phase)
  | watermarkRead =>
    exact slots.quiet control keeps kept plain
      ⟨rfl, rfl, rfl, rfl, fun _ _ _ => Iff.rfl, fun _ _ _ _ => rfl⟩
  | collected pending => exact slots.quiet control keeps kept plain control.quiet_collected
  | created =>
    obtain ⟨space, shrinks⟩ := heaps.space_created
    exact slots.extended control links kept space fresh shrinks
  | dropped table => exact slots.dropped control heaps kept rfl fun unclean => admitted.leased unclean _ rfl

theorem Initial.slots (initial : Initial s) : Slots clean [] s := by
  have absent : ∀ e, ¬s.Present e := by
    rintro e ⟨⟨heap, table, -⟩, -⟩
    rw [initial.tables] at table
    cases table
  constructor
  · exact Initial.writeSets initial
  · exact fun id commitTs member => by cases member
  · exact fun e => List.Pairwise.nil
  · exact fun id t e found member present => absurd present (absent e)
  · exact fun e present => absurd present (absent e)
  · intro rid _ _ link member
    rw [initial.versionInfo] at member
    cases member

end Database

theorem slots_run {clean : Bool} {log : List Event} {s : Database}
    (run : Run system (Database.Admits clean) log s) : Database.Slots clean log s := by
  refine Run.invariant (I := fun log s => Database.Slots clean log s)
    (fun s initial => Database.Initial.slots initial) ?_ run
  intro log s next a events before slots admitted taken
  exact slots.step (control_run before) (heaps_run before) (links_run before) admitted taken

end BumbleBee.Mvcc
