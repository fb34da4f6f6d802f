import Mathlib.Data.List.Basic

/-!
`ArcReplacer`: four lists, the alive frames in two of them and the pages evicted
recently in the other two. An iterator kept in a `FrameStatus` is the place of the
frame or page in its list. The buffer pool relies on one view of the replacer only:
which frames are alive, and which of those may be evicted.
-/

namespace BumbleBee.Buffer
open Function

inductive ArcStatus where
  | mru
  | mfu
  | mruGhost
  | mfuGhost
  deriving DecidableEq

structure FrameStatus (F : Type) where
  pageId : Int
  frameId : F
  evictable : Bool
  arcStatus : ArcStatus
  deriving DecidableEq

structure ArcReplacer (F : Type) where
  mru : List F
  mfu : List F
  mruGhost : List Int
  mfuGhost : List Int
  aliveMap : F → Option (FrameStatus F)
  ghostMap : Int → Option (FrameStatus F)
  currSize : Nat
  mruTargetSize : Nat
  replacerSize : Nat

namespace ArcReplacer
variable {F : Type} [DecidableEq F]

def init (numFrames : Nat) : ArcReplacer F := ⟨[], [], [], [], fun _ => none, fun _ => none, 0, 0, numFrames⟩

section
variable (r : ArcReplacer F)

/-- `none` for a frame that is not alive, otherwise whether it is evictable. -/
def status (f : F) : Option Bool := (r.aliveMap f).map (·.evictable)

/-- The frame nearest to the back of the list that may be evicted. -/
def candidate (q : List F) : Option F := q.reverse.find? fun f => r.status f == some true

/-- Takes a frame out of the alive map and remembers its page as a ghost. -/
def retire (f : F) (status : FrameStatus F) : ArcReplacer F :=
  { r with
    aliveMap := update r.aliveMap f none
    ghostMap := update r.ghostMap status.pageId
      (some { status with arcStatus := if status.arcStatus = .mfu then .mfuGhost else .mruGhost })
    currSize := r.currSize - 1 }

/-- The frame, what is left of the two lists, and the maps after the eviction. -/
def evictFromList (q : List F) (ghost : List Int) : Option (F × List F × List Int × ArcReplacer F) :=
  match r.candidate q with
  | none => none
  | some f => (r.aliveMap f).map fun status =>
    (f, (q.reverse.erase f).reverse, status.pageId :: ghost, r.retire f status)

def evictFromMru : Option (F × ArcReplacer F) :=
  (r.evictFromList r.mru r.mruGhost).map fun (f, q, ghost, left) => (f, { left with mru := q, mruGhost := ghost })

def evictFromMfu : Option (F × ArcReplacer F) :=
  (r.evictFromList r.mfu r.mfuGhost).map fun (f, q, ghost, left) => (f, { left with mfu := q, mfuGhost := ghost })

/-- `UnsafeEvict`. -/
def evict : Option (F × ArcReplacer F) :=
  if r.currSize = 0 then none
  else if r.mru.length < r.mruTargetSize then r.evictFromMfu.or r.evictFromMru
  else r.evictFromMru.or r.evictFromMfu

def updateMruTargetSize (arcStatus : ArcStatus) (mruGhostSize mfuGhostSize mruTargetSize : Nat) : Nat :=
  if arcStatus = .mruGhost then
    if mfuGhostSize ≤ mruGhostSize then mruTargetSize + 1
    else mruTargetSize + if 0 < mruGhostSize then mfuGhostSize / mruGhostSize else 0
  else if mruGhostSize ≤ mfuGhostSize then if 0 < mruTargetSize then mruTargetSize - 1 else 0
  else
    let delta := if 0 < mfuGhostSize then mruGhostSize / mfuGhostSize else 0
    if delta ≤ mruTargetSize then mruTargetSize - delta else 0

def accessHits (f : F) (status : FrameStatus F) : ArcReplacer F :=
  if status.arcStatus = .mru then
    { r with
      mru := r.mru.erase f
      mfu := f :: r.mfu
      aliveMap := update r.aliveMap f (some { status with arcStatus := .mfu }) }
  else { r with mfu := f :: r.mfu.erase f }

def accessGhostHits (f : F) (pageId : Int) (status : FrameStatus F) : ArcReplacer F :=
  { r with
    mruTargetSize := min (updateMruTargetSize status.arcStatus r.mruGhost.length r.mfuGhost.length r.mruTargetSize)
      r.replacerSize
    mruGhost := if status.arcStatus = .mruGhost then r.mruGhost.erase pageId else r.mruGhost
    mfuGhost := if status.arcStatus = .mruGhost then r.mfuGhost else r.mfuGhost.erase pageId
    mfu := f :: r.mfu
    ghostMap := update r.ghostMap pageId none
    aliveMap := update r.aliveMap f (some ⟨pageId, f, false, .mfu⟩) }

def accessNew (f : F) (pageId : Int) : ArcReplacer F :=
  { r with
    mru := f :: r.mru
    aliveMap := update r.aliveMap f (some ⟨pageId, f, false, .mru⟩) }

/-- Keeps the ghost lists bounded. -/
def trim : ArcReplacer F :=
  if r.replacerSize < r.mru.length + r.mruGhost.length ∧ r.mruGhost ≠ [] then
    { r with
      ghostMap := match r.mruGhost.getLast? with
        | some page => update r.ghostMap page none
        | none => r.ghostMap
      mruGhost := r.mruGhost.dropLast }
  else if 2 * r.replacerSize < r.mru.length + r.mruGhost.length + r.mfuGhost.length + r.mfu.length ∧
      r.mfuGhost ≠ [] then
    { r with
      ghostMap := match r.mfuGhost.getLast? with
        | some page => update r.ghostMap page none
        | none => r.ghostMap
      mfuGhost := r.mfuGhost.dropLast }
  else r

def recordAccess (f : F) (pageId : Int) : ArcReplacer F :=
  (match r.aliveMap f with
  | some status => r.accessHits f status
  | none =>
    match r.ghostMap pageId with
    | some status => r.accessGhostHits f pageId status
    | none => r.accessNew f pageId).trim

/-- `none` is the range error. -/
def setEvictable (f : F) (setEvictable : Bool) : Option (ArcReplacer F) :=
  match r.aliveMap f with
  | none => none
  | some status =>
    if setEvictable = status.evictable then some r
    else some { r with
      aliveMap := update r.aliveMap f (some { status with evictable := setEvictable })
      currSize := if setEvictable then r.currSize + 1 else r.currSize - 1 }

/-- `none` is the range error. -/
def remove (f : F) : Option (ArcReplacer F) :=
  match r.aliveMap f with
  | none => some r
  | some status =>
    if status.evictable = false then none
    else some { r with
      mfu := if status.arcStatus = .mfu then r.mfu.erase f else r.mfu
      mru := if status.arcStatus = .mfu then r.mru else r.mru.erase f
      aliveMap := update r.aliveMap f none
      currSize := r.currSize - 1 }

omit [DecidableEq F] in
theorem status_trim : r.trim.status = r.status := by
  unfold trim
  split
  · rfl
  · split <;> rfl

end

variable {r : ArcReplacer F} {f : F}

theorem status_update {alive : F → Option (FrameStatus F)}
    {value : Option (FrameStatus F)} (updated : alive = update r.aliveMap f value) :
    (fun g => (alive g).map (·.evictable)) = update r.status f (value.map (·.evictable)) := by
  subst updated
  funext g
  by_cases same : g = f
  · subst same
    simp
  · simp [status, update_of_ne same]

theorem recordAccess_status (r : ArcReplacer F) (f : F) (pageId : Int) :
    (r.recordAccess f pageId).status = update r.status f (some ((r.status f).getD false)) := by
  rw [recordAccess, status_trim]
  cases alive : r.aliveMap f with
  | some status =>
    have before : r.status f = some status.evictable := by simp [ArcReplacer.status, alive]
    simp only [before, Option.getD_some]
    rw [← before]
    by_cases first : status.arcStatus = .mru
    · simp only [accessHits, if_pos first]
      rw [before]
      exact status_update rfl
    · simp only [accessHits, if_neg first, update_eq_self]
      rfl
  | none =>
    have before : r.status f = none := by simp [ArcReplacer.status, alive]
    simp only [before]
    cases r.ghostMap pageId with
    | some status => exact status_update rfl
    | none => exact status_update rfl

variable {next : ArcReplacer F}

theorem setEvictable_eq_some {flag : Bool} (done : r.setEvictable f flag = some next) :
    r.status f ≠ none ∧ next.status = update r.status f (some flag) := by
  unfold setEvictable at done
  split at done
  · cases done
  rename_i status alive
  have before : r.status f = some status.evictable := by simp [ArcReplacer.status, alive]
  split at done
  · rename_i same
    cases done
    refine ⟨by simp [before], ?_⟩
    rw [same, ← before, update_eq_self]
  · cases done
    exact ⟨by simp [before], status_update rfl⟩

omit [DecidableEq F] in
theorem aliveMap_eq_none : r.aliveMap f = none ↔ r.status f = none := by
  simp [status]

theorem setEvictable_eq_none {flag : Bool} : r.setEvictable f flag = none ↔ r.status f = none := by
  rw [← aliveMap_eq_none]
  unfold setEvictable
  split
  · simp_all
  · split <;> simp_all

theorem remove_eq_some (done : r.remove f = some next) :
    r.status f ≠ some false ∧ next.status = update r.status f none := by
  unfold remove at done
  split at done
  · rename_i dead
    cases done
    rw [aliveMap_eq_none] at dead
    refine ⟨by simp [dead], ?_⟩
    rw [← dead, update_eq_self]
  · rename_i status alive
    split at done
    · cases done
    · rename_i evictable
      cases done
      exact ⟨by simp [ArcReplacer.status, alive, evictable], status_update rfl⟩

theorem remove_eq_none : r.remove f = none ↔ r.status f = some false := by
  unfold remove
  split
  · simp_all [status]
  · split <;> simp_all [status]

omit [DecidableEq F] in
theorem candidate_evictable {q : List F} (chosen : r.candidate q = some f) : r.status f = some true := by
  have passed := List.find?_some chosen
  simpa using passed

theorem evictFromList_inv {q rest : List F} {ghost ghosts : List Int}
    (evicted : r.evictFromList q ghost = some (f, rest, ghosts, next)) :
    r.status f = some true ∧ ∃ entry, r.aliveMap f = some entry ∧ f ∈ q ∧ rest = (q.reverse.erase f).reverse ∧
      ghosts = entry.pageId :: ghost ∧ next = r.retire f entry := by
  unfold evictFromList at evicted
  split at evicted
  · cases evicted
  · rename_i g chosen
    obtain ⟨entry, found, same⟩ := Option.map_eq_some_iff.mp evicted
    cases same
    exact ⟨candidate_evictable chosen, entry, found, List.mem_reverse.mp (List.mem_of_find?_eq_some chosen), rfl, rfl,
      rfl⟩

theorem evict_inv (evicted : r.evict = some (f, next)) :
    r.evictFromMru = some (f, next) ∨ r.evictFromMfu = some (f, next) := by
  unfold evict at evicted
  split at evicted
  · cases evicted
  split at evicted
  · exact (Option.or_eq_some_iff.mp evicted).symm.imp_left And.right
  · exact (Option.or_eq_some_iff.mp evicted).imp_right And.right

/-- Only an evictable frame is evicted, and it is no longer alive then. -/
theorem evict_eq_some (evicted : r.evict = some (f, next)) :
    r.status f = some true ∧ next.status = update r.status f none := by
  rcases evict_inv evicted with taken | taken
  all_goals
    obtain ⟨⟨g, q, ghost, left⟩, found, same⟩ := Option.map_eq_some_iff.mp taken
    cases same
    obtain ⟨free, entry, -, -, -, -, rfl⟩ := evictFromList_inv found
    exact ⟨free, status_update rfl⟩

/-- `RecordAccess` and then `SetEvictable`, which does not throw: the frame is alive. -/
def access (r : ArcReplacer F) (f : F) (pageId : Int) (flag : Bool) : ArcReplacer F :=
  ((r.recordAccess f pageId).setEvictable f flag).getD (r.recordAccess f pageId)

theorem access_eq (r : ArcReplacer F) (f : F) (pageId : Int) (flag : Bool) :
    (r.recordAccess f pageId).setEvictable f flag = some (r.access f pageId flag) := by
  cases done : (r.recordAccess f pageId).setEvictable f flag with
  | some next => simp [access, done]
  | none =>
    rw [setEvictable_eq_none, recordAccess_status, update_self] at done
    cases done

theorem access_status (r : ArcReplacer F) (f : F) (pageId : Int) (flag : Bool) :
    (r.access f pageId flag).status = update r.status f (some flag) := by
  rw [(setEvictable_eq_some (access_eq r f pageId flag)).2, recordAccess_status, update_idem]

end ArcReplacer

end BumbleBee.Buffer
