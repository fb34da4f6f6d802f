import BumbleBee.Library.Transition
import Mathlib.Data.Fintype.Basic

/-!
Sessions of one database between the worker slots and the schema leases. A
statement takes its slot first and its lease second; an explicit transaction keeps
a shared lease between its statements; DDL takes an exclusive lease and no slot.
A step is one critical section of one of the two managers, and a waiting thread
sleeps until the manager it waits at notifies it.
-/

namespace BumbleBee.Main
open Library.Transition

structure WorkerSlotManager where
  capacity : Nat
  waiters : List Nat
  nextTicket : Nat
  used : Nat
  deriving DecidableEq

structure SchemaLeaseManager where
  sharedLeases : Nat
  waitingExclusive : Nat
  exclusiveLease : Bool
  deriving DecidableEq

namespace WorkerSlotManager

def maxThreads : Nat := 128

/-- The condition `Acquire` waits for. -/
def Admits (m : WorkerSlotManager) (ticket : Nat) : Prop :=
  m.waiters.head? = some ticket ∧ m.used < m.capacity

instance (m : WorkerSlotManager) (ticket : Nat) : Decidable (m.Admits ticket) := by
  unfold Admits
  infer_instance

section
variable (m : WorkerSlotManager)

def enqueue : WorkerSlotManager :=
  { m with nextTicket := m.nextTicket + 1, waiters := m.waiters ++ [m.nextTicket] }

def take : WorkerSlotManager :=
  { m with waiters := m.waiters.tail, used := m.used + 1 }

/-- The number of slots `TryAcquire` grants. -/
def tryAcquire (requested : Nat) : Nat :=
  if requested = 0 then 0
  else if m.waiters ≠ [] ∨ m.capacity ≤ m.used then 0
  else min requested (m.capacity - m.used)

/-- The additional slots `AcquireQueryWorkers` asks for on top of the statement's own one. -/
def additional (demand : Nat) : Nat :=
  let capacity := min (max m.capacity 1) maxThreads
  let base := min (max 1 1) capacity
  let desired := min (max demand 1) capacity
  if base < desired then desired - base else 0

def release (slots : Nat) : WorkerSlotManager :=
  { m with used := m.used - slots }

end

end WorkerSlotManager

namespace SchemaLeaseManager

def SharedReady (m : SchemaLeaseManager) : Prop := m.exclusiveLease = false ∧ m.waitingExclusive = 0

def ExclusiveReady (m : SchemaLeaseManager) : Prop := m.exclusiveLease = false ∧ m.sharedLeases = 0

instance (m : SchemaLeaseManager) : Decidable m.SharedReady := by
  unfold SharedReady
  infer_instance

instance (m : SchemaLeaseManager) : Decidable m.ExclusiveReady := by
  unfold ExclusiveReady
  infer_instance

end SchemaLeaseManager

/-- What a session may ask for; `create` is the second half of a bulk load into a new table. -/
inductive Request where
  | statement
  | inspect
  | beginTransaction
  | endTransaction
  | ddl
  | load
  | create
  deriving DecidableEq

def Request.takesSlot : Request → Bool
  | .statement | .load => true
  | _ => false

inductive Lease where
  | none
  | shared
  | exclusive
  deriving DecidableEq

inductive Place where
  | idle
  | entering (request : Request)
  | queued (request : Request) (ticket : Nat)
  | leasing (request : Request)
  | sharing (request : Request)
  | excluding (request : Request)
  | running (request : Request)
  | leaving
  | freeing
  deriving DecidableEq

def Place.atSlots : Place → Bool
  | .queued _ _ => true
  | _ => false

def Place.atLeases : Place → Bool
  | .sharing _ | .excluding _ => true
  | _ => false

/-- `lease` is the statement's own lease, `explicitLease` the one its explicit transaction keeps. -/
structure Session where
  place : Place
  workerSlot : Nat
  queryWorkers : Nat
  lease : Lease
  explicitLease : Bool
  deriving DecidableEq

/-- The session with the shared lease it asked for: `BEGIN` keeps it for the transaction. -/
def Session.withShared (x : Session) (request : Request) : Session :=
  match request with
  | .beginTransaction => { x with place := .running request, explicitLease := true }
  | _ => { x with place := .running request, lease := .shared }

structure Sessions (S : Type) where
  slots : WorkerSlotManager
  leases : SchemaLeaseManager
  session : S → Session
  asleep : S → Bool

inductive SessionAction (S : Type) where
  | issue (t : S) (request : Request)
  | advance (t : S)
  | borrow (t : S) (demand : Nat)
  | giveBack (t : S)
  | complete (t : S) (aborted : Bool)
  | upgrade (t : S)
  | abandon (t : S)

namespace Sessions
variable {S : Type} [DecidableEq S] (s : Sessions S) (t : S)

def move (x : Session) : Sessions S :=
  { s with session := Function.update s.session t x }

def sleep : Sessions S := { s with asleep := Function.update s.asleep t true }

def notifySlots : Sessions S :=
  { s with asleep := fun u => s.asleep u && !(s.session u).place.atSlots }

def notifyLeases : Sessions S :=
  { s with asleep := fun u => s.asleep u && !(s.session u).place.atLeases }

section
variable (request : Request)

/-- `Acquire` from the test of its condition on. -/
def testSlot (ticket : Nat) : Sessions S :=
  if s.slots.Admits ticket then
    ({ s with slots := s.slots.take }.move t
      { s.session t with place := .leasing request, workerSlot := 1 }).notifySlots
  else s.sleep t

def acquireSlot : Sessions S :=
  ({ s with slots := s.slots.enqueue }.move t
    { s.session t with place := .queued request s.slots.nextTicket }).testSlot t request s.slots.nextTicket

def freeSlots (slots : Nat) : Sessions S :=
  { s with slots := s.slots.release slots }.notifySlots

def acquireShared : Sessions S :=
  if s.leases.SharedReady then
    { s with leases := { s.leases with sharedLeases := s.leases.sharedLeases + 1 } }.move t
      ((s.session t).withShared request)
  else (s.move t { s.session t with place := .sharing request }).sleep t

/-- `AcquireExclusive` from the test of its condition on. -/
def testExclusive : Sessions S :=
  if s.leases.ExclusiveReady then
    { s with leases := { s.leases with
        waitingExclusive := s.leases.waitingExclusive - 1, exclusiveLease := true } }.move t
      { s.session t with place := .running request, lease := .exclusive }
  else s.sleep t

def acquireExclusive : Sessions S :=
  ({ s with leases := { s.leases with waitingExclusive := s.leases.waitingExclusive + 1 } }.move t
    { s.session t with place := .excluding request }).testExclusive t request

def releaseShared : Sessions S :=
  let next : Sessions S := { s with leases := { s.leases with sharedLeases := s.leases.sharedLeases - 1 } }
  if next.leases.sharedLeases = 0 then next.notifyLeases else next

def releaseExclusive : Sessions S :=
  { s with leases := { s.leases with exclusiveLease := false } }.notifyLeases

/-- What the connection does about a schema lease; inside an explicit transaction a statement uses the
transaction's lease, and `BEGIN`, DDL and bulk loads throw. -/
def chooseLease : Sessions S :=
  let x := s.session t
  match request with
  | .statement | .inspect =>
    if x.explicitLease then s.move t { x with place := .running request } else s.acquireShared t request
  | .beginTransaction | .load =>
    if x.explicitLease then s.move t { x with place := .leaving } else s.acquireShared t request
  | .endTransaction =>
    if x.explicitLease then s.move t { x with place := .running request }
    else s.move t { x with place := .leaving }
  | .ddl =>
    if x.explicitLease then s.move t { x with place := .leaving } else s.acquireExclusive t request
  | .create => s.acquireExclusive t request

end

def leave : Sessions S :=
  let next := s.move t { s.session t with place := .freeing, lease := .none }
  match (s.session t).lease with
  | .none => next
  | .shared => next.releaseShared
  | .exclusive => next.releaseExclusive

def free : Sessions S :=
  let next := s.move t { s.session t with place := .idle, workerSlot := 0 }
  if (s.session t).workerSlot = 0 then next else next.freeSlots (s.session t).workerSlot

def advance : Option (Sessions S) :=
  match (s.session t).place with
  | .idle | .running _ => none
  | .entering request => some (s.acquireSlot t request)
  | .queued request ticket => if s.asleep t then none else some (s.testSlot t request ticket)
  | .leasing request => some (s.chooseLease t request)
  | .sharing request => if s.asleep t then none else some (s.acquireShared t request)
  | .excluding request => if s.asleep t then none else some (s.testExclusive t request)
  | .leaving => some (s.leave t)
  | .freeing => some (s.free t)

def issue (request : Request) : Option (Sessions S) :=
  if (s.session t).place = .idle ∧ request ≠ .create then
    some (s.move t { s.session t with
      place := if request.takesSlot then .entering request else .leasing request })
  else none

def borrow (demand : Nat) : Option (Sessions S) :=
  if (s.session t).place = .running .statement ∧ (s.session t).queryWorkers = 0 then
    let granted := s.slots.tryAcquire (s.slots.additional demand)
    some ({ s with slots := { s.slots with used := s.slots.used + granted } }.move t
      { s.session t with queryWorkers := granted })
  else none

def giveBack : Option (Sessions S) :=
  if (s.session t).queryWorkers = 0 then none
  else some ((s.move t { s.session t with queryWorkers := 0 }).freeSlots (s.session t).queryWorkers)

/-- The request ends; `aborted` says that it ends the explicit transaction and returns its lease. -/
def complete (aborted : Bool) : Option (Sessions S) :=
  match (s.session t).place with
  | .running _ =>
    if (s.session t).queryWorkers = 0 then
      if aborted && (s.session t).explicitLease then
        some (s.move t { s.session t with place := .leaving, explicitLease := false }).releaseShared
      else some (s.move t { s.session t with place := .leaving })
    else none
  | _ => none

/-- A bulk load found no table: it returns its shared lease and asks for an exclusive one. -/
def upgrade : Option (Sessions S) :=
  if (s.session t).place = .running .load then
    some (s.move t { s.session t with place := .leasing .create, lease := .none }).releaseShared
  else none

/-- Closing an idle session, or giving up its timed-out transaction, returns the transaction's lease. -/
def abandon : Option (Sessions S) :=
  if (s.session t).place = .idle ∧ (s.session t).explicitLease = true then
    some (s.move t { s.session t with explicitLease := false }).releaseShared
  else none

def step : SessionAction S → Option (Sessions S)
  | .issue t request => s.issue t request
  | .advance t => s.advance t
  | .borrow t demand => s.borrow t demand
  | .giveBack t => s.giveBack t
  | .complete t aborted => s.complete t aborted
  | .upgrade t => s.upgrade t
  | .abandon t => s.abandon t

/-- A freshly opened database: every session idle, nothing held. -/
def Initial : Prop :=
  1 ≤ s.slots.capacity ∧ s.slots.waiters = [] ∧ s.slots.used = 0 ∧ s.leases = ⟨0, 0, false⟩ ∧
    ∀ t, s.session t = ⟨.idle, 0, 0, .none, false⟩ ∧ s.asleep t = false

end Sessions

def sessions (S : Type) [DecidableEq S] : System (Sessions S) (SessionAction S) Empty where
  init := Sessions.Initial
  step s a := (s.step a).map fun next => (next, [])

namespace Sessions
variable {S : Type}

/-- Whether the session's thread could go on if it were awake. -/
def Ready (s : Sessions S) (t : S) : Prop :=
  match (s.session t).place with
  | .queued _ ticket => s.slots.Admits ticket
  | .sharing _ => s.leases.SharedReady
  | .excluding _ => s.leases.ExclusiveReady
  | _ => True

def Blocked (s : Sessions S) (t : S) : Prop := s.asleep t = true ∨ ¬ s.Ready t

/-- Statements are pending and all of them are blocked, although no session that keeps a lease is idle. -/
def Stuck (s : Sessions S) : Prop :=
  (∃ t, (s.session t).place ≠ .idle) ∧ (∀ t, (s.session t).place ≠ .idle → s.Blocked t) ∧
    ∀ t, (s.session t).place = .idle → (s.session t).explicitLease = false

end Sessions

end BumbleBee.Main
