import BumbleBee.HashTable.GroupRounds

/-!
`Probe`. Each selected row walks the buckets from its home to the first empty one and
collects the entries with its hash as candidates; whenever the batch is full, and at
the end, `Match` verifies the candidates and the matches are appended to the output.
-/

namespace BumbleBee.HashTable
open Library.LinearProbing

/-- Why a call does not return: a failed assertion or a loop without an end. -/
inductive CallError where
  | assertion
  | endless
  deriving DecidableEq

/-- `pairs` are `out_addrs` and `out_rows`. -/
structure ProbeOutput where
  pairs : List (StoredRow × Nat)
  matched : Nat → Bool

structure ProbeRun extends ProbeOutput where
  candidates : List (StoredRow × Nat)

def keyAt (keys : Chunk) (row : Nat) : InputRow := keys.getD row ⟨0, []⟩

namespace ProbeRun

def hits (layout : KeyLayout) (keys : Chunk) (candidates : List (StoredRow × Nat)) : List (StoredRow × Nat) :=
  (matchRows layout (fun cand => (keyAt keys cand.2).cells) (fun cand => cand.1.cells) candidates).1

def mark (matched : Nat → Bool) (pairs : List (StoredRow × Nat)) : Nat → Bool :=
  pairs.foldl (fun flags pair => Function.update flags pair.2 true) matched

def flush (layout : KeyLayout) (keys : Chunk) (run : ProbeRun) : ProbeRun where
  pairs := run.pairs ++ hits layout keys run.candidates
  matched := mark run.matched (hits layout keys run.candidates)
  candidates := []

def push (run : ProbeRun) (cand : StoredRow × Nat) : ProbeRun :=
  { run with candidates := run.candidates ++ [cand] }

def visit (layout : KeyLayout) (keys : Chunk) (row : Nat) (run : ProbeRun) (entry : HTEntry) : ProbeRun :=
  if entry.hash = (keyAt keys row).hash then
    if (run.push (entry.row, row)).candidates.length = standardVectorSize then
      (run.push (entry.row, row)).flush layout keys
    else run.push (entry.row, row)
  else run

end ProbeRun

namespace PRLHashTable

/-- The walk of one probe row. -/
def chase (t : PRLHashTable) (keys : Chunk) (row : Nat) : Nat → Nat → ProbeRun → Option ProbeRun
  | 0, _, _ => none
  | fuel + 1, bucket, run =>
    match t.directory bucket with
    | none => some run
    | some entry => t.chase keys row fuel (advance t.capacity bucket) (run.visit t.layout keys row entry)

def probeLoop (t : PRLHashTable) (keys : Chunk) : List Nat → ProbeRun → Option ProbeRun
  | [], run => some run
  | row :: sel, run => do
    let next ← t.chase keys row t.capacity (bucketOf t.capacity (keyAt keys row).hash) run
    t.probeLoop keys sel next

/-- Appends to `out` what the rows `sel` of `keys` find. -/
def probe (t : PRLHashTable) (keys : Chunk) (sel : List Nat) (out : ProbeOutput) : Except CallError ProbeOutput :=
  if sel.isEmpty || t.rows.isEmpty then .ok out
  else if t.directoryStale then .error .assertion
  else
    match t.probeLoop keys sel ⟨out, []⟩ with
    | none => .error .endless
    | some run => .ok (run.flush t.layout keys).toProbeOutput

end PRLHashTable

/-- All pairs of a stored row and a selected probe row with equal keys. -/
def joinPairs (layout : KeyLayout) (rows : List HTEntry) (keys : Chunk) (sel : List Nat) : List (StoredRow × Nat) :=
  sel.flatMap fun row =>
    (rows.filter fun entry => layout.keyEqual (keyAt keys row).cells entry.row.cells).map fun entry => (entry.row, row)

theorem joinPairs_nil (layout : KeyLayout) (keys : Chunk) (sel : List Nat) : joinPairs layout [] keys sel = [] :=
  List.flatMap_eq_nil_iff.mpr fun _ _ => rfl

namespace ProbeRun

variable {layout : KeyLayout} {keys : Chunk} {run : ProbeRun}

def verified (layout : KeyLayout) (keys : Chunk) (cand : StoredRow × Nat) : Bool :=
  layout.keyEqual (keyAt keys cand.2).cells cand.1.cells

/-- The output once the waiting candidates are verified. -/
def settled (layout : KeyLayout) (keys : Chunk) (run : ProbeRun) : List (StoredRow × Nat) :=
  run.pairs ++ run.candidates.filter (verified layout keys)

theorem hits_eq (candidates : List (StoredRow × Nat)) :
    hits layout keys candidates = candidates.filter (verified layout keys) :=
  matchRows_fst

theorem flush_pairs : (run.flush layout keys).pairs = run.settled layout keys := by
  rw [flush, hits_eq, settled]

theorem flush_settled : (run.flush layout keys).settled layout keys = run.settled layout keys := by
  rw [settled, flush_pairs, flush, List.filter_nil, List.append_nil]

theorem mark_eq (matched : Nat → Bool) (pairs : List (StoredRow × Nat)) (i : Nat) :
    mark matched pairs i = (matched i || pairs.any fun pair => pair.2 == i) := by
  induction pairs generalizing matched with
  | nil => rw [mark, List.foldl_nil, List.any_nil, Bool.or_false]
  | cons pair pairs ih =>
    rw [mark, List.foldl_cons, ← mark, ih, List.any_cons, ← Bool.or_assoc]
    by_cases same : i = pair.2
    · rw [same, Function.update_self, beq_self_eq_true, Bool.or_true]
    · rw [Function.update_of_ne same, beq_eq_false_iff_ne.mpr (Ne.symm same), Bool.or_false]

/-- What one entry of a probe row's cluster adds to the output. -/
def found (layout : KeyLayout) (keys : Chunk) (row : Nat) (entry : HTEntry) : Bool :=
  entry.hash == (keyAt keys row).hash && layout.keyEqual (keyAt keys row).cells entry.row.cells

theorem push_settled (cand : StoredRow × Nat) :
    (run.push cand).settled layout keys = run.settled layout keys ++ [cand].filter (verified layout keys) := by
  rw [settled, push, List.filter_append, ← List.append_assoc, settled]

theorem visit_settled (row : Nat) (entry : HTEntry) :
    (run.visit layout keys row entry).settled layout keys =
      run.settled layout keys ++ ([entry].filter (found layout keys row)).map fun entry => (entry.row, row) := by
  have added (same : entry.hash = (keyAt keys row).hash) : [(entry.row, row)].filter (verified layout keys) =
      ([entry].filter (found layout keys row)).map fun entry => (entry.row, row) := by
    rw [List.filter_singleton, List.filter_singleton, found, same, beq_self_eq_true, verified]
    cases layout.keyEqual (keyAt keys row).cells entry.row.cells <;> rfl
  rw [visit]
  split_ifs with same full
  · rw [flush_settled, push_settled, added same]
  · rw [push_settled, added same]
  · rw [List.filter_singleton, found, beq_eq_false_iff_ne.mpr same]
    exact (List.append_nil _).symm

theorem visitAll_settled (row : Nat) (entries : List HTEntry) :
    (entries.foldl (visit layout keys row) run).settled layout keys =
      run.settled layout keys ++ (entries.filter (found layout keys row)).map fun entry => (entry.row, row) := by
  induction entries generalizing run with
  | nil => exact (List.append_nil _).symm
  | cons entry entries ih =>
    rw [List.foldl_cons, ih, visit_settled, List.append_assoc, ← List.map_append, ← List.filter_append,
      List.singleton_append]

/-- The flags tell which probe rows have a pair in the output since `out`. -/
def Marked (out run : ProbeOutput) : Prop :=
  ∃ new, run.pairs = out.pairs ++ new ∧ ∀ i, run.matched i = (out.matched i || new.any fun pair => pair.2 == i)

variable {out : ProbeOutput}

section
variable (marked : Marked out run.toProbeOutput)
include marked

theorem Marked.flush : Marked out (run.flush layout keys).toProbeOutput := by
  obtain ⟨new, pairs, flags⟩ := marked
  refine ⟨new ++ hits layout keys run.candidates, ?_, ?_⟩
  · rw [ProbeRun.flush, pairs, List.append_assoc]
  · intro i
    refine (mark_eq _ _ i).trans ?_
    rw [flags, List.any_append, Bool.or_assoc]

theorem Marked.visit (row : Nat) (entry : HTEntry) :
    Marked out (run.visit layout keys row entry).toProbeOutput := by
  rw [ProbeRun.visit]
  split_ifs
  · have pushed : Marked out (run.push (entry.row, row)).toProbeOutput := marked
    exact pushed.flush
  · exact marked
  · exact marked

theorem Marked.visitAll (row : Nat)
    (entries : List HTEntry) : Marked out (entries.foldl (ProbeRun.visit layout keys row) run).toProbeOutput := by
  induction entries generalizing run with
  | nil => exact marked
  | cons entry entries ih => exact ih (marked.visit row entry)

end

end ProbeRun

namespace PRLHashTable

variable {t : PRLHashTable} {keys : Chunk} {run : ProbeRun}

theorem chase_eq (row fuel bucket : Nat) :
    t.chase keys row fuel bucket run =
      (cluster (advance t.capacity) t.directory fuel bucket).map
        fun entries => entries.foldl (ProbeRun.visit t.layout keys row) run := by
  induction fuel generalizing bucket run with
  | zero => rfl
  | succ fuel ih =>
    rw [chase, cluster]
    cases t.directory bucket with
    | none => rfl
    | some entry =>
      dsimp only
      rw [ih, Option.map_map]
      rfl

variable {pool : List InputRow}

/-- The entries a probe row finds are the stored rows with its key. -/
theorem Indexed.chase (indexed : t.Indexed) (consistent : Consistent t.layout pool)
    (drawn : ∀ entry ∈ t.rows, entry.input ∈ pool) {row : Nat} (key : keyAt keys row ∈ pool) :
    ∃ entries, cluster (advance t.capacity) t.directory t.capacity (bucketOf t.capacity (keyAt keys row).hash) =
        some entries ∧
      (entries.filter (ProbeRun.found t.layout keys row)).Perm
        (t.rows.filter fun entry => t.layout.keyEqual (keyAt keys row).cells entry.row.cells) := by
  have walk := walk_mask indexed.power
  have fewer : (entries t.capacity t.directory).length < t.capacity := by
    rw [indexed.complete.length_eq]
    exact indexed.fewer
  have home : bucketOf t.capacity (keyAt keys row).hash < t.capacity := by
    rw [bucketOf, and_mask indexed.power]
    exact Nat.mod_lt _ (power_pos indexed.power)
  obtain ⟨walked, result, all⟩ := indexed.linked.cluster walk fewer home
  refine ⟨walked, result, ?_⟩
  have homes : ∀ entry, ProbeRun.found t.layout keys row entry →
      homeOf t.capacity entry = bucketOf t.capacity (keyAt keys row).hash := by
    intro entry wanted
    rw [ProbeRun.found, Bool.and_eq_true, beq_iff_eq] at wanted
    rw [homeOf, wanted.1]
  refine (all _ homes).trans ((indexed.complete.filter _).trans ?_)
  have same : t.rows.filter (ProbeRun.found t.layout keys row) =
      t.rows.filter fun entry => t.layout.keyEqual (keyAt keys row).cells entry.row.cells := by
    apply List.filter_congr
    intro entry member
    rw [ProbeRun.found, Bool.and_eq_right_iff_imp, beq_iff_eq]
    intro equal
    exact (consistent _ key _ (drawn entry member) equal).symm
  rw [same]

theorem Indexed.probeLoop (indexed : t.Indexed) (consistent : Consistent t.layout pool)
    (drawn : ∀ entry ∈ t.rows, entry.input ∈ pool) (out : ProbeOutput) (sel : List Nat)
    (keyed : ∀ row ∈ sel, keyAt keys row ∈ pool) (marked : ProbeRun.Marked out run.toProbeOutput) :
    ∃ last new, t.probeLoop keys sel run = some last ∧
      last.settled t.layout keys = run.settled t.layout keys ++ new ∧ new.Perm (joinPairs t.layout t.rows keys sel) ∧
      ProbeRun.Marked out last.toProbeOutput := by
  induction sel generalizing run with
  | nil => exact ⟨run, [], rfl, (List.append_nil _).symm, List.Perm.refl _, marked⟩
  | cons row sel ih =>
    obtain ⟨entries, walked, same⟩ := indexed.chase consistent drawn (keyed row List.mem_cons_self)
    obtain ⟨last, new, result, settled, pairs, flags⟩ := ih
      (fun other member => keyed other (List.mem_cons_of_mem _ member)) (marked.visitAll row entries)
    refine ⟨last, (entries.filter (ProbeRun.found t.layout keys row)).map (fun entry => (entry.row, row)) ++ new,
      ?_, ?_, ?_, flags⟩
    · rw [PRLHashTable.probeLoop, chase_eq, walked]
      exact result
    · rw [settled, ProbeRun.visitAll_settled, List.append_assoc]
    · exact (same.map _).append pairs

/-- A call returns all pairs of the selected rows, each once, and flags the rows that have one. -/
theorem Indexed.probe (indexed : t.Indexed) (built : t.directoryStale = false)
    (consistent : Consistent t.layout pool) (drawn : ∀ entry ∈ t.rows, entry.input ∈ pool) (sel : List Nat)
    (keyed : ∀ row ∈ sel, keyAt keys row ∈ pool) (out : ProbeOutput) :
    ∃ result new, t.probe keys sel out = .ok result ∧ result.pairs = out.pairs ++ new ∧
      new.Perm (joinPairs t.layout t.rows keys sel) ∧
      ∀ i, result.matched i = (out.matched i || new.any fun pair => pair.2 == i) := by
  rw [PRLHashTable.probe]
  split_ifs with idle stale
  · refine ⟨out, [], rfl, (List.append_nil _).symm, ?_, fun i => (Bool.or_false _).symm⟩
    rw [Bool.or_eq_true, List.isEmpty_iff, List.isEmpty_iff] at idle
    rcases idle with nothing | empty
    · rw [nothing]
      exact List.Perm.refl _
    · rw [empty, joinPairs_nil]
  · rw [built] at stale
    cases stale
  · have start : ProbeRun.Marked out (⟨out, []⟩ : ProbeRun).toProbeOutput :=
      ⟨[], (List.append_nil _).symm, fun i => (Bool.or_false _).symm⟩
    obtain ⟨last, new, looped, settled, pairs, marked⟩ := indexed.probeLoop consistent drawn out sel keyed start
    obtain ⟨new', output, flags⟩ := marked.flush
    have whole : new' = new := by
      rw [ProbeRun.flush_pairs, settled] at output
      exact (List.append_cancel_left (output.symm.trans (congrArg (· ++ new) (List.append_nil _))))
    rw [looped]
    exact ⟨_, new, rfl, whole ▸ output, pairs, whole ▸ flags⟩

end PRLHashTable

end BumbleBee.HashTable
