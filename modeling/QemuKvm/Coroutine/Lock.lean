import Mathlib.Data.Int.Notation
import Mathlib.Data.List.Nodup
import Mathlib.Logic.Function.Basic
import QemuKvm.Lib.Run

/-!
# Coroutine locks

qemu-coroutine-lock.c gives coroutines a mutex (`CoMutex`) and a
readers-writer lock (`CoRwlock`). A coroutine that finds a lock taken waits
in the lock's queue (`qemu_co_queue_wait`) and yields. An unlock does not
enter a waiter itself: `qemu_co_queue_next` moves the first waiter to the
global `unlock_bh_queue`, and a bottom half (`qemu_co_queue_next_bh`) later
enters the coroutines of that queue one by one. A woken coroutine is back in
the `while` loop of its lock function: it tests the lock again and takes it,
or waits again at the tail of the lock's queue if another coroutine took the
lock in between. A writer that unlocks a `CoRwlock` wakes every waiter
(`qemu_co_queue_restart_all`); the last reader to leave wakes one.

The model (`CoState`) holds every mutex and every readers-writer lock, the
bottom-half queue, and for each coroutine the loop it is suspended in
(`waitingIn`, the place the source keeps on the coroutine's stack). It also
holds, for stating what a lock is for, who holds each lock: the source keeps
no owner. A coroutine runs without interruption from one yield to the next,
so an action (`CoAction`) is one such stretch of a lock function: a call of
a lock function up to its return or its first wait, an unlock, or one round
of the bottom half's loop, which enters a coroutine and runs it to its
return from the lock function or its next wait. Any other code of a
coroutine does not touch the locks. An action that its caller could not make
— a call by a suspended coroutine, or an unlock of a lock the caller does
not hold — changes nothing. A failed assert is `none`.

`coLocks_safe` says what holds after every run from the initial state: no
assert fails; a mutex is locked exactly when one coroutine holds it; a
readers-writer lock has one writer and no reader, or no writer and as many
readers as its `reader` count; and once the bottom-half queue is empty,
every lock with a waiter is held. The last part rests on `Wake`: a lock
with waiters and no holder always has one of its waiters in the bottom-half
queue.
-/

namespace QemuKvm.Coroutine

open Function

variable {κ μ ρ : Type*}

/-- `CoMutex`; `queue` is its `CoQueue`, first to be woken first. -/
structure CoMutex (κ : Type*) where
  locked : Bool
  queue : List κ

/-- `CoRwlock`. -/
structure CoRwlock (κ : Type*) where
  writer : Bool
  reader : ℤ
  queue : List κ

/-- The lock function whose `while` loop a coroutine is suspended in. -/
inductive LockCall (μ ρ : Type*) where
  | mutexLock (m : μ)
  | rwlockRdlock (l : ρ)
  | rwlockWrlock (l : ρ)
  deriving DecidableEq

/-- The lock a call waits for: a mutex or a readers-writer lock. -/
def LockCall.lock : LockCall μ ρ → μ ⊕ ρ
  | .mutexLock m => .inl m
  | .rwlockRdlock l => .inr l
  | .rwlockWrlock l => .inr l

/-- The locks, `unlock_bh_queue`, the loop each coroutine is suspended in,
and who holds each lock (a coroutine may hold a read lock more than once). -/
structure CoState (κ μ ρ : Type*) where
  mutexes : μ → CoMutex κ
  rwlocks : ρ → CoRwlock κ
  unlockBhQueue : List κ
  waitingIn : κ → Option (LockCall μ ρ)
  mutexHolders : μ → List κ
  readHolders : ρ → List κ
  writeHolders : ρ → List κ

/-- Every lock as `qemu_co_mutex_init` / `qemu_co_rwlock_init` leave it, and
no coroutine suspended. -/
def coInit : CoState κ μ ρ where
  mutexes _ := ⟨false, []⟩
  rwlocks _ := ⟨false, 0, []⟩
  unlockBhQueue := []
  waitingIn _ := none
  mutexHolders _ := []
  readHolders _ := []
  writeHolders _ := []

/-! ## The queues -/

/-- `qemu_co_queue_wait`: `self` joins the tail of the queue (and yields). -/
def qemuCoQueueWait (queue : List κ) (self : κ) : List κ :=
  queue ++ [self]

/-- `qemu_co_queue_next`: the first waiter leaves the queue for the tail of
`unlock_bh_queue`. The queue, `unlock_bh_queue`, and whether there was a
waiter. -/
def qemuCoQueueNext (queue bh : List κ) : List κ × List κ × Bool :=
  match queue with
  | [] => ([], bh, false)
  | next :: rest => (rest, bh ++ [next], true)

/-- `qemu_co_queue_restart_all`: `qemu_co_queue_next` until it finds no
waiter. -/
def qemuCoQueueRestartAll : List κ → List κ → List κ × List κ
  | [], bh => ([], bh)
  | next :: rest, bh => qemuCoQueueRestartAll rest (bh ++ [next])

theorem qemuCoQueueRestartAll_eq (queue bh : List κ) :
    qemuCoQueueRestartAll queue bh = ([], bh ++ queue) := by
  induction queue generalizing bh with
  | nil => simp [qemuCoQueueRestartAll]
  | cons next rest ih => simp [qemuCoQueueRestartAll, ih]

/-- `qemu_co_queue_next` moves a prefix of the queue to `unlock_bh_queue`: its
first waiter, if there is one. -/
theorem qemuCoQueueNext_moves (queue bh : List κ) :
    ∃ p, queue = p ++ (qemuCoQueueNext queue bh).1 ∧ (qemuCoQueueNext queue bh).2.1 = bh ++ p ∧
      ((qemuCoQueueNext queue bh).1 ≠ [] → p ≠ []) := by
  cases queue with
  | nil => exact ⟨[], by simp [qemuCoQueueNext]⟩
  | cons next rest => exact ⟨[next], by simp [qemuCoQueueNext]⟩

section LockFunctions

variable [DecidableEq κ] [DecidableEq μ] [DecidableEq ρ]

/-! ## The lock functions -/

/-- `qemu_co_mutex_lock`, one test of its loop: wait while the mutex is
locked, else lock it. -/
def qemuCoMutexLock (s : CoState κ μ ρ) (self : κ) (m : μ) : CoState κ μ ρ :=
  let mutex := s.mutexes m
  if mutex.locked then
    { s with
      mutexes := update s.mutexes m { mutex with queue := qemuCoQueueWait mutex.queue self }
      waitingIn := update s.waitingIn self (some (.mutexLock m)) }
  else
    { s with
      mutexes := update s.mutexes m { mutex with locked := true }
      waitingIn := update s.waitingIn self none
      mutexHolders := update s.mutexHolders m (s.mutexHolders m ++ [self]) }

/-- `qemu_co_mutex_unlock`; `none` when `assert(mutex->locked == true)`
fails. -/
def qemuCoMutexUnlock (s : CoState κ μ ρ) (self : κ) (m : μ) : Option (CoState κ μ ρ) :=
  let mutex := s.mutexes m
  if mutex.locked then
    let next := qemuCoQueueNext mutex.queue s.unlockBhQueue
    some { s with
      mutexes := update s.mutexes m ⟨false, next.1⟩
      unlockBhQueue := next.2.1
      mutexHolders := update s.mutexHolders m ((s.mutexHolders m).erase self) }
  else none

/-- `qemu_co_rwlock_rdlock`, one test of its loop: wait while a writer holds
the lock, else count one more reader. -/
def qemuCoRwlockRdlock (s : CoState κ μ ρ) (self : κ) (l : ρ) : CoState κ μ ρ :=
  let lock := s.rwlocks l
  if lock.writer then
    { s with
      rwlocks := update s.rwlocks l { lock with queue := qemuCoQueueWait lock.queue self }
      waitingIn := update s.waitingIn self (some (.rwlockRdlock l)) }
  else
    { s with
      rwlocks := update s.rwlocks l { lock with reader := lock.reader + 1 }
      waitingIn := update s.waitingIn self none
      readHolders := update s.readHolders l (s.readHolders l ++ [self]) }

/-- `qemu_co_rwlock_wrlock`, one test of its loop: wait while a writer or a
reader holds the lock, else take it as the writer. -/
def qemuCoRwlockWrlock (s : CoState κ μ ρ) (self : κ) (l : ρ) : CoState κ μ ρ :=
  let lock := s.rwlocks l
  if lock.writer ∨ lock.reader ≠ 0 then
    { s with
      rwlocks := update s.rwlocks l { lock with queue := qemuCoQueueWait lock.queue self }
      waitingIn := update s.waitingIn self (some (.rwlockWrlock l)) }
  else
    { s with
      rwlocks := update s.rwlocks l { lock with writer := true }
      waitingIn := update s.waitingIn self none
      writeHolders := update s.writeHolders l (s.writeHolders l ++ [self]) }

/-- `qemu_co_rwlock_unlock`: a writer leaves and wakes every waiter; a
reader leaves, and the last one wakes one waiter. `none` when
`assert(lock->reader >= 0)` fails. -/
def qemuCoRwlockUnlock (s : CoState κ μ ρ) (self : κ) (l : ρ) : Option (CoState κ μ ρ) :=
  let lock := s.rwlocks l
  if lock.writer then
    let all := qemuCoQueueRestartAll lock.queue s.unlockBhQueue
    some { s with
      rwlocks := update s.rwlocks l { lock with writer := false, queue := all.1 }
      unlockBhQueue := all.2
      writeHolders := update s.writeHolders l ((s.writeHolders l).erase self) }
  else
    let reader := lock.reader - 1
    if reader < 0 then none
    else if reader = 0 then
      -- wake up only one waiting writer
      let next := qemuCoQueueNext lock.queue s.unlockBhQueue
      some { s with
        rwlocks := update s.rwlocks l { lock with reader := reader, queue := next.1 }
        unlockBhQueue := next.2.1
        readHolders := update s.readHolders l ((s.readHolders l).erase self) }
    else
      some { s with
        rwlocks := update s.rwlocks l { lock with reader := reader }
        readHolders := update s.readHolders l ((s.readHolders l).erase self) }

/-- A coroutine in the loop of `call` tests its lock once more. -/
def resume (s : CoState κ μ ρ) (self : κ) : LockCall μ ρ → CoState κ μ ρ
  | .mutexLock m => qemuCoMutexLock s self m
  | .rwlockRdlock l => qemuCoRwlockRdlock s self l
  | .rwlockWrlock l => qemuCoRwlockWrlock s self l

/-- One round of the loop of `qemu_co_queue_next_bh`: the first coroutine of
`unlock_bh_queue` leaves it and is entered, back in the loop it waits in. -/
def qemuCoQueueNextBh (s : CoState κ μ ρ) : CoState κ μ ρ :=
  match s.unlockBhQueue with
  | [] => s
  | next :: rest =>
    match s.waitingIn next with
    | some call => resume { s with unlockBhQueue := rest } next call
    | none => { s with unlockBhQueue := rest }

/-- What may happen next: a coroutine calls a lock function or unlocks, or
the bottom half enters the next coroutine of its queue. -/
inductive CoAction (κ μ ρ : Type*) where
  | lock (c : κ) (call : LockCall μ ρ)
  | mutexUnlock (c : κ) (m : μ)
  | rwlockUnlock (c : κ) (l : ρ)
  | bh

/-- One action; a call by a suspended coroutine, or an unlock of a lock the
caller does not hold, is not one the program can make and changes nothing. -/
def CoAction.step (s : CoState κ μ ρ) : CoAction κ μ ρ → Option (CoState κ μ ρ)
  | .lock c call => if s.waitingIn c = none then some (resume s c call) else some s
  | .mutexUnlock c m =>
    if s.waitingIn c = none ∧ c ∈ s.mutexHolders m then qemuCoMutexUnlock s c m else some s
  | .rwlockUnlock c l =>
    if s.waitingIn c = none ∧ (c ∈ s.readHolders l ∨ c ∈ s.writeHolders l) then
      qemuCoRwlockUnlock s c l
    else some s
  | .bh => some (qemuCoQueueNextBh s)

/-- The state after a run of actions, `none` once an assert fails. -/
def runCo (s : CoState κ μ ρ) (acts : List (CoAction κ μ ρ)) : Option (CoState κ μ ρ) :=
  acts.foldlM CoAction.step s

end LockFunctions

/-! ## The invariant -/

namespace CoState

variable (s : CoState κ μ ρ)

/-- The queue of a lock. -/
def queueOf : μ ⊕ ρ → List κ
  | .inl m => (s.mutexes m).queue
  | .inr l => (s.rwlocks l).queue

/-- Some coroutine holds the lock, as its fields say. -/
def Held : μ ⊕ ρ → Prop
  | .inl m => (s.mutexes m).locked = true
  | .inr l => (s.rwlocks l).writer = true ∨ (s.rwlocks l).reader ≠ 0

/-- `c` is suspended in a loop of lock `k`. -/
def WaitsOn (c : κ) (k : μ ⊕ ρ) : Prop :=
  (s.waitingIn c).map LockCall.lock = some k

/-- The waiters of `k`: each once, each suspended in a loop of `k` and not
in `unlock_bh_queue` as well. -/
def Queued (k : μ ⊕ ρ) : Prop :=
  (s.queueOf k).Nodup ∧ ∀ c ∈ s.queueOf k, s.WaitsOn c k ∧ c ∉ s.unlockBhQueue

/-- No lost wake-up: a lock with waiters and no holder has one of its
waiters in `unlock_bh_queue`. -/
def Wake (k : μ ⊕ ρ) : Prop :=
  s.queueOf k ≠ [] → ¬s.Held k → ∃ c ∈ s.unlockBhQueue, s.WaitsOn c k

end CoState

/-- A mutex is locked exactly when one coroutine holds it. -/
structure MutexSafe (s : CoState κ μ ρ) (m : μ) : Prop where
  locked : (s.mutexes m).locked = true ↔ s.mutexHolders m ≠ []
  one : (s.mutexHolders m).length ≤ 1

/-- A readers-writer lock has one writer and no reader, or no writer and as
many readers as it counts. -/
structure RwlockSafe (s : CoState κ μ ρ) (l : ρ) : Prop where
  writer : (s.rwlocks l).writer = true ↔ s.writeHolders l ≠ []
  one : (s.writeHolders l).length ≤ 1
  excl : (s.rwlocks l).writer = true → s.readHolders l = []
  reader : (s.rwlocks l).reader = (s.readHolders l).length

/-- The invariant without the wake-up witnesses, which a round of the bottom
half gives up for a moment: `unlock_bh_queue` has each coroutine once, each
suspended in a lock loop. -/
structure PreInv (s : CoState κ μ ρ) : Prop where
  bh_nodup : s.unlockBhQueue.Nodup
  bh_waiting : ∀ c ∈ s.unlockBhQueue, s.waitingIn c ≠ none
  queued : ∀ k, s.Queued k
  mutex : ∀ m, MutexSafe s m
  rwlock : ∀ l, RwlockSafe s l

/-- The invariant of the locks. -/
structure CoInv (s : CoState κ μ ρ) : Prop extends PreInv s where
  wake : ∀ k, s.Wake k

variable {s s' : CoState κ μ ρ} {c : κ} {k : μ ⊕ ρ}

theorem waitsOn_inl {m : μ} : s.WaitsOn c (.inl m) ↔ s.waitingIn c = some (.mutexLock m) := by
  unfold CoState.WaitsOn
  cases h : s.waitingIn c with
  | none => simp
  | some call => cases call <;> simp [LockCall.lock]

theorem waitsOn_inr {l : ρ} :
    s.WaitsOn c (.inr l) ↔
      s.waitingIn c = some (.rwlockRdlock l) ∨ s.waitingIn c = some (.rwlockWrlock l) := by
  unfold CoState.WaitsOn
  cases h : s.waitingIn c with
  | none => simp
  | some call => cases call <;> simp [LockCall.lock]

theorem waitsOn_congr (h : s'.waitingIn c = s.waitingIn c) : s'.WaitsOn c k ↔ s.WaitsOn c k := by
  simp [CoState.WaitsOn, h]

theorem waitsOn_lock {call : LockCall μ ρ} (h : s.waitingIn c = some call) :
    s.WaitsOn c call.lock := by
  simp [CoState.WaitsOn, h]

theorem CoState.WaitsOn.ne_none (h : s.WaitsOn c k) : s.waitingIn c ≠ none := by
  intro hn
  simp [CoState.WaitsOn, hn] at h

/-- A coroutine that is not suspended is in no queue. -/
theorem PreInv.not_mem_queueOf (h : PreInv s) (hc : s.waitingIn c = none) (k : μ ⊕ ρ) :
    c ∉ s.queueOf k :=
  fun hm => CoState.WaitsOn.ne_none ((h.queued k).2 c hm).1 hc

theorem PreInv.not_mem_bh (h : PreInv s) (hc : s.waitingIn c = none) :
    c ∉ s.unlockBhQueue :=
  fun hm => h.bh_waiting c hm hc

/-- The frame rule for the waiters of a lock: its queue and holder state are
the same, and so is the suspension of every waiter in its queue or in
`unlock_bh_queue`. -/
theorem queued_wake_frame (hq : s.Queued k) (hw : s.Wake k)
    (hqueue : s'.queueOf k = s.queueOf k) (hheld : s'.Held k ↔ s.Held k)
    (hwait : ∀ c, (c ∈ s.queueOf k ∨ c ∈ s.unlockBhQueue) → s.WaitsOn c k →
      s'.waitingIn c = s.waitingIn c)
    (hkeep : ∀ c ∈ s.unlockBhQueue, s.WaitsOn c k → c ∈ s'.unlockBhQueue)
    (hnew : ∀ c ∈ s'.unlockBhQueue, c ∈ s.unlockBhQueue ∨ ¬s.WaitsOn c k) :
    s'.Queued k ∧ s'.Wake k := by
  refine ⟨⟨hqueue ▸ hq.1, fun c hc => ?_⟩, fun hne hheld' => ?_⟩
  · rw [hqueue] at hc
    obtain ⟨hwc, hbh⟩ := hq.2 c hc
    refine ⟨(waitsOn_congr (hwait c (.inl hc) hwc)).mpr hwc, fun hbh' => ?_⟩
    rcases hnew c hbh' with h' | h'
    · exact hbh h'
    · exact h' hwc
  · obtain ⟨c, hc, hwc⟩ := hw (hqueue ▸ hne) (fun h' => hheld' (hheld.mpr h'))
    exact ⟨c, hkeep c hc hwc, (waitsOn_congr (hwait c (.inr hc) hwc)).mpr hwc⟩

theorem CoState.WaitsOn.unique {k' : μ ⊕ ρ} (h : s.WaitsOn c k) (h' : s.WaitsOn c k') :
    k = k' := by
  unfold CoState.WaitsOn at h h'
  rw [h] at h'
  exact Option.some.inj h'

theorem MutexSafe.congr {m : μ} (h : MutexSafe s m)
    (hl : (s'.mutexes m).locked = (s.mutexes m).locked)
    (hh : s'.mutexHolders m = s.mutexHolders m) : MutexSafe s' m := by
  constructor
  · rw [hl, hh]; exact h.locked
  · rw [hh]; exact h.one

theorem RwlockSafe.congr {l : ρ} (h : RwlockSafe s l)
    (hw : (s'.rwlocks l).writer = (s.rwlocks l).writer)
    (hr : (s'.rwlocks l).reader = (s.rwlocks l).reader)
    (hrh : s'.readHolders l = s.readHolders l) (hwh : s'.writeHolders l = s.writeHolders l) :
    RwlockSafe s' l := by
  constructor
  · rw [hw, hwh]; exact h.writer
  · rw [hwh]; exact h.one
  · rw [hw, hrh]; exact h.excl
  · rw [hr, hrh]; exact h.reader

/-- Every mutex is safe after a change of mutex `m` alone, once `m` is. -/
theorem mutexSafe_of_update {m : μ} (hs : ∀ m, MutexSafe s m) (hm : MutexSafe s' m)
    (hmut : ∀ m' ≠ m, s'.mutexes m' = s.mutexes m')
    (hh : ∀ m' ≠ m, s'.mutexHolders m' = s.mutexHolders m') : ∀ m', MutexSafe s' m' := by
  intro m'
  by_cases he : m' = m
  · rw [he]
    exact hm
  · exact (hs m').congr (by rw [hmut m' he]) (hh m' he)

/-- Every readers-writer lock is safe after a change of lock `l` alone, once
`l` is. -/
theorem rwlockSafe_of_update {l : ρ} (hs : ∀ l, RwlockSafe s l) (hl : RwlockSafe s' l)
    (hrw : ∀ l' ≠ l, s'.rwlocks l' = s.rwlocks l')
    (hrh : ∀ l' ≠ l, s'.readHolders l' = s.readHolders l')
    (hwh : ∀ l' ≠ l, s'.writeHolders l' = s.writeHolders l') : ∀ l', RwlockSafe s' l' := by
  intro l'
  by_cases he : l' = l
  · rw [he]
    exact hl
  · exact (hs l').congr (by rw [hrw l' he]) (by rw [hrw l' he]) (hrh l' he) (hwh l' he)

/-- A list of at most one element that holds `c` is `[c]`: the holder of a
mutex, or the writer of a readers-writer lock. -/
theorem eq_singleton_of_mem {l : List κ} (hc : c ∈ l) (hl : l.length ≤ 1) : l = [c] := by
  match l, hc with
  | [a], hc => rw [List.mem_singleton.mp hc]
  | _ :: _ :: _, _ => simp at hl

/-- A change of one mutex leaves the other locks as they were. -/
theorem queueOf_held_of_mutexes {m : μ} (hm : ∀ m' ≠ m, s'.mutexes m' = s.mutexes m')
    (hr : s'.rwlocks = s.rwlocks) (k : μ ⊕ ρ) (hk : k ≠ .inl m) :
    s'.queueOf k = s.queueOf k ∧ (s'.Held k ↔ s.Held k) := by
  cases k with
  | inl m' =>
    have he := hm m' (fun h => hk (h ▸ rfl))
    simp [CoState.queueOf, CoState.Held, he]
  | inr l => simp [CoState.queueOf, CoState.Held, hr]

/-- A change of one readers-writer lock leaves the other locks as they were. -/
theorem queueOf_held_of_rwlocks {l : ρ} (hm : s'.mutexes = s.mutexes)
    (hr : ∀ l' ≠ l, s'.rwlocks l' = s.rwlocks l') (k : μ ⊕ ρ) (hk : k ≠ .inr l) :
    s'.queueOf k = s.queueOf k ∧ (s'.Held k ↔ s.Held k) := by
  cases k with
  | inl m => simp [CoState.queueOf, CoState.Held, hm]
  | inr l' =>
    have he := hr l' (fun h => hk (h ▸ rfl))
    simp [CoState.queueOf, CoState.Held, he]

/-! ## One test of a lock loop -/

/-- A lock function's test, as the invariant sees it: it leaves
`unlock_bh_queue`, the other coroutines and the other locks alone, and its
caller either takes the lock or joins the tail of its queue. Either way the
lock is held afterwards. -/
structure LockStep (s s' : CoState κ μ ρ) (c : κ) (call : LockCall μ ρ) : Prop where
  bh : s'.unlockBhQueue = s.unlockBhQueue
  waitingIn : ∀ c' ≠ c, s'.waitingIn c' = s.waitingIn c'
  other : ∀ k ≠ call.lock, s'.queueOf k = s.queueOf k ∧ (s'.Held k ↔ s.Held k)
  own : (s'.waitingIn c = none ∧ s'.queueOf call.lock = s.queueOf call.lock) ∨
    (s'.waitingIn c = some call ∧ s'.queueOf call.lock = s.queueOf call.lock ++ [c])
  held : s'.Held call.lock
  mutex : ∀ m, MutexSafe s' m
  rwlock : ∀ l, RwlockSafe s' l

section LockStep

variable {call : LockCall μ ρ}

theorem LockStep.queued_lock (h : LockStep s s' c call) (hq : s.Queued call.lock)
    (hc : c ∉ s.queueOf call.lock) (hbh : c ∉ s.unlockBhQueue) : s'.Queued call.lock := by
  -- the waiters already there are coroutines other than `c`
  have hold : ∀ c' ∈ s.queueOf call.lock, s'.WaitsOn c' call.lock ∧ c' ∉ s'.unlockBhQueue := by
    intro c' hc'
    have hne : c' ≠ c := fun he => hc (he ▸ hc')
    rw [h.bh, waitsOn_congr (h.waitingIn c' hne)]
    exact hq.2 c' hc'
  rcases h.own with ⟨-, hqueue⟩ | ⟨hwc, hqueue⟩
  · rw [CoState.Queued, hqueue]
    exact ⟨hq.1, hold⟩
  · rw [CoState.Queued, hqueue]
    refine ⟨List.nodup_append.mpr ⟨hq.1, List.nodup_singleton c, ?_⟩, fun c' hc' => ?_⟩
    · intro a ha b hb
      rw [List.mem_singleton.mp hb]
      exact fun he => hc (he ▸ ha)
    · rcases List.mem_append.mp hc' with hc' | hc'
      · exact hold c' hc'
      · rw [List.mem_singleton.mp hc', h.bh]
        exact ⟨waitsOn_lock hwc, hbh⟩

/-- A coroutine that is in no queue tests its lock: the invariant holds
afterwards, given the wake-up witnesses of the other locks. -/
theorem LockStep.coInv (h : LockStep s s' c call) (hs : PreInv s)
    (hbh : c ∉ s.unlockBhQueue) (hq : ∀ k, c ∉ s.queueOf k)
    (hw : ∀ k ≠ call.lock, s.Wake k) : CoInv s' := by
  -- every coroutine in a queue is one other than `c`
  have hkeep : ∀ c' k, c' ∈ s.queueOf k ∨ c' ∈ s.unlockBhQueue →
      s'.waitingIn c' = s.waitingIn c' := by
    intro c' k hc'
    refine h.waitingIn c' fun he => ?_
    rw [he] at hc'
    exact hc'.elim (hq k) hbh
  have hframe : ∀ k ≠ call.lock, s'.Queued k ∧ s'.Wake k := fun k hk =>
    queued_wake_frame (hs.queued k) (hw k hk) (h.other k hk).1 (h.other k hk).2
      (fun c' hc' _ => hkeep c' k hc') (fun c' hc' _ => h.bh ▸ hc')
      (fun c' hc' => .inl (h.bh ▸ hc'))
  refine ⟨⟨?_, fun c' hc' => ?_, fun k => ?_, h.mutex, h.rwlock⟩, fun k => ?_⟩
  · rw [h.bh]
    exact hs.bh_nodup
  · rw [h.bh] at hc'
    rw [hkeep c' call.lock (.inr hc')]
    exact hs.bh_waiting c' hc'
  · by_cases hk : k = call.lock
    · rw [hk]
      exact h.queued_lock (hs.queued _) (hq _) hbh
    · exact (hframe k hk).1
  · by_cases hk : k = call.lock
    · rw [hk]
      exact fun _ hn => absurd h.held hn
    · exact (hframe k hk).2

end LockStep

/-! ## An unlock -/

/-- An unlock, as the invariant sees it: the first waiters `p` of its lock
move to the tail of `unlock_bh_queue`, no coroutine changes the loop it is
suspended in, and the other locks are left alone. If the lock is left with
waiters and no holder, a waiter has moved. -/
structure UnlockStep (s s' : CoState κ μ ρ) (k₀ : μ ⊕ ρ) (p : List κ) : Prop where
  queue : s.queueOf k₀ = p ++ s'.queueOf k₀
  bh : s'.unlockBhQueue = s.unlockBhQueue ++ p
  waitingIn : s'.waitingIn = s.waitingIn
  other : ∀ k ≠ k₀, s'.queueOf k = s.queueOf k ∧ (s'.Held k ↔ s.Held k)
  wake : s'.queueOf k₀ ≠ [] → ¬s'.Held k₀ → p ≠ []
  mutex : ∀ m, MutexSafe s' m
  rwlock : ∀ l, RwlockSafe s' l

theorem UnlockStep.coInv {k₀ : μ ⊕ ρ} {p : List κ} (h : UnlockStep s s' k₀ p) (hs : CoInv s) :
    CoInv s' := by
  have hwait : ∀ c k, s'.WaitsOn c k ↔ s.WaitsOn c k := fun c _ =>
    waitsOn_congr (congrFun h.waitingIn c)
  -- the moved waiters wait on `k₀`, and were not in `unlock_bh_queue`
  have hp : ∀ c ∈ p, s.WaitsOn c k₀ ∧ c ∉ s.unlockBhQueue := fun c hc =>
    (hs.queued k₀).2 c (h.queue ▸ List.mem_append_left _ hc)
  have hnd : (p ++ s'.queueOf k₀).Nodup := h.queue ▸ (hs.queued k₀).1
  have hframe : ∀ k ≠ k₀, s'.Queued k ∧ s'.Wake k := fun k hk =>
    queued_wake_frame (hs.queued k) (hs.wake k) (h.other k hk).1 (h.other k hk).2
      (fun c _ _ => congrFun h.waitingIn c) (fun c hc _ => h.bh ▸ List.mem_append_left _ hc)
      (fun c hc => by
        rw [h.bh] at hc
        rcases List.mem_append.mp hc with hc | hc
        · exact .inl hc
        · exact .inr fun hk' => hk ((hp c hc).1.unique hk').symm)
  refine ⟨⟨?_, fun c hc => ?_, fun k => ?_, h.mutex, h.rwlock⟩, fun k => ?_⟩
  · rw [h.bh]
    exact List.nodup_append.mpr ⟨hs.bh_nodup, (List.nodup_append.mp hnd).1,
      fun a ha b hb he => (hp b hb).2 (he ▸ ha)⟩
  · rw [h.bh] at hc
    rw [h.waitingIn]
    rcases List.mem_append.mp hc with hc | hc
    · exact hs.bh_waiting c hc
    · exact (hp c hc).1.ne_none
  · by_cases hk : k = k₀
    · rw [hk]
      refine ⟨(List.nodup_append.mp hnd).2.1, fun c hc => ⟨?_, ?_⟩⟩
      · rw [hwait]
        exact ((hs.queued k₀).2 c (h.queue ▸ List.mem_append_right _ hc)).1
      · rw [h.bh]
        intro hc'
        rcases List.mem_append.mp hc' with hc' | hc'
        · exact ((hs.queued k₀).2 c (h.queue ▸ List.mem_append_right _ hc)).2 hc'
        · exact (List.nodup_append.mp hnd).2.2 c hc' c hc rfl
    · exact (hframe k hk).1
  · by_cases hk : k = k₀
    · rw [hk]
      intro hne hheld
      obtain ⟨c, p', hcp⟩ := List.exists_cons_of_ne_nil (h.wake hne hheld)
      have hc : c ∈ p := hcp ▸ List.mem_cons_self
      exact ⟨c, h.bh ▸ List.mem_append_right _ hc, (hwait c k₀).mpr (hp c hc).1⟩
    · exact (hframe k hk).2

section Steps

variable [DecidableEq κ] [DecidableEq μ] [DecidableEq ρ]

omit [DecidableEq ρ] in
theorem qemuCoMutexLock_lockStep (hs : PreInv s) (c : κ) (m : μ) :
    LockStep s (qemuCoMutexLock s c m) c (.mutexLock m) := by
  have hsafe := hs.mutex m
  dsimp only [qemuCoMutexLock]
  split_ifs with hl
  · -- the mutex is locked: `c` waits at the tail of its queue
    refine ⟨rfl, fun c' hc' => update_of_ne hc' _ _,
      queueOf_held_of_mutexes (fun m' hm' => update_of_ne hm' _ _) rfl,
      .inr ⟨update_self .., by simp [CoState.queueOf, LockCall.lock, qemuCoQueueWait]⟩,
      by simpa [CoState.Held, LockCall.lock] using hl,
      mutexSafe_of_update hs.mutex (hsafe.congr (by simp) rfl)
        (fun m' hm' => update_of_ne hm' _ _) (fun _ _ => rfl),
      fun l => (hs.rwlock l).congr rfl rfl rfl rfl⟩
  · -- the mutex is free: `c` takes it
    have hnil : s.mutexHolders m = [] := by
      by_contra hne
      exact hl (hsafe.locked.mpr hne)
    refine ⟨rfl, fun c' hc' => update_of_ne hc' _ _,
      queueOf_held_of_mutexes (fun m' hm' => update_of_ne hm' _ _) rfl,
      .inl ⟨update_self .., by simp [CoState.queueOf, LockCall.lock]⟩,
      by simp [CoState.Held, LockCall.lock],
      mutexSafe_of_update hs.mutex (by constructor <;> simp [hnil])
        (fun m' hm' => update_of_ne hm' _ _) (fun m' hm' => update_of_ne hm' _ _),
      fun l => (hs.rwlock l).congr rfl rfl rfl rfl⟩

omit [DecidableEq μ] in
theorem qemuCoRwlockRdlock_lockStep (hs : PreInv s) (c : κ) (l : ρ) :
    LockStep s (qemuCoRwlockRdlock s c l) c (.rwlockRdlock l) := by
  have hsafe := hs.rwlock l
  dsimp only [qemuCoRwlockRdlock]
  split_ifs with hw
  · -- a writer holds the lock: `c` waits
    refine ⟨rfl, fun c' hc' => update_of_ne hc' _ _,
      queueOf_held_of_rwlocks rfl (fun l' hl' => update_of_ne hl' _ _),
      .inr ⟨update_self .., by simp [CoState.queueOf, LockCall.lock, qemuCoQueueWait]⟩,
      by simp [CoState.Held, LockCall.lock, hw], fun m => (hs.mutex m).congr rfl rfl,
      rwlockSafe_of_update hs.rwlock (hsafe.congr (by simp) (by simp) rfl rfl)
        (fun l' hl' => update_of_ne hl' _ _) (fun _ _ => rfl) (fun _ _ => rfl)⟩
  · -- no writer: `c` is one more reader
    have hnil : s.writeHolders l = [] := by
      by_contra hne
      exact hw (hsafe.writer.mpr hne)
    refine ⟨rfl, fun c' hc' => update_of_ne hc' _ _,
      queueOf_held_of_rwlocks rfl (fun l' hl' => update_of_ne hl' _ _),
      .inl ⟨update_self .., by simp [CoState.queueOf, LockCall.lock]⟩,
      .inr (by simp [hsafe.reader]; omega), fun m => (hs.mutex m).congr rfl rfl,
      rwlockSafe_of_update hs.rwlock (by constructor <;> simp [hw, hnil, hsafe.reader])
        (fun l' hl' => update_of_ne hl' _ _) (fun l' hl' => update_of_ne hl' _ _)
        (fun _ _ => rfl)⟩

omit [DecidableEq μ] in
theorem qemuCoRwlockWrlock_lockStep (hs : PreInv s) (c : κ) (l : ρ) :
    LockStep s (qemuCoRwlockWrlock s c l) c (.rwlockWrlock l) := by
  have hsafe := hs.rwlock l
  dsimp only [qemuCoRwlockWrlock]
  split_ifs with hw
  · -- a writer or a reader holds the lock: `c` waits
    refine ⟨rfl, fun c' hc' => update_of_ne hc' _ _,
      queueOf_held_of_rwlocks rfl (fun l' hl' => update_of_ne hl' _ _),
      .inr ⟨update_self .., by simp [CoState.queueOf, LockCall.lock, qemuCoQueueWait]⟩,
      by simpa [CoState.Held, LockCall.lock] using hw, fun m => (hs.mutex m).congr rfl rfl,
      rwlockSafe_of_update hs.rwlock (hsafe.congr (by simp) (by simp) rfl rfl)
        (fun l' hl' => update_of_ne hl' _ _) (fun _ _ => rfl) (fun _ _ => rfl)⟩
  · -- the lock is free: `c` takes it as the writer
    obtain ⟨hw, hr⟩ : (s.rwlocks l).writer = false ∧ (s.rwlocks l).reader = 0 := by
      simpa using hw
    have hwnil : s.writeHolders l = [] := by
      by_contra hne
      simp [hsafe.writer.mpr hne] at hw
    have hrnil : s.readHolders l = [] := by
      have := hsafe.reader
      rw [hr] at this
      exact List.length_eq_zero_iff.mp (by omega)
    refine ⟨rfl, fun c' hc' => update_of_ne hc' _ _,
      queueOf_held_of_rwlocks rfl (fun l' hl' => update_of_ne hl' _ _),
      .inl ⟨update_self .., by simp [CoState.queueOf, LockCall.lock]⟩,
      by simp [CoState.Held, LockCall.lock], fun m => (hs.mutex m).congr rfl rfl,
      rwlockSafe_of_update hs.rwlock (by constructor <;> simp [hwnil, hrnil, hr])
        (fun l' hl' => update_of_ne hl' _ _) (fun _ _ => rfl)
        (fun l' hl' => update_of_ne hl' _ _)⟩

theorem resume_lockStep (hs : PreInv s) (c : κ) :
    ∀ call, LockStep s (resume s c call) c call
  | .mutexLock m => qemuCoMutexLock_lockStep hs c m
  | .rwlockRdlock l => qemuCoRwlockRdlock_lockStep hs c l
  | .rwlockWrlock l => qemuCoRwlockWrlock_lockStep hs c l

omit [DecidableEq ρ] in
theorem qemuCoMutexUnlock_unlockStep (hs : PreInv s) {m : μ} (hc : c ∈ s.mutexHolders m) :
    ∃ s' p, qemuCoMutexUnlock s c m = some s' ∧ UnlockStep s s' (.inl m) p := by
  have hsafe := hs.mutex m
  have hone : s.mutexHolders m = [c] := eq_singleton_of_mem hc hsafe.one
  have hl : (s.mutexes m).locked = true := hsafe.locked.mpr (by simp [hone])
  obtain ⟨p, hq, hbh, hwake⟩ := qemuCoQueueNext_moves (s.mutexes m).queue s.unlockBhQueue
  dsimp only [qemuCoMutexUnlock]
  rw [if_pos hl]
  refine ⟨_, p, rfl, by simpa [CoState.queueOf] using hq, hbh, rfl,
    queueOf_held_of_mutexes (fun m' hm' => update_of_ne hm' _ _) rfl,
    fun hne _ => hwake (by simpa [CoState.queueOf] using hne),
    mutexSafe_of_update hs.mutex (by constructor <;> simp [hone])
      (fun m' hm' => update_of_ne hm' _ _) (fun m' hm' => update_of_ne hm' _ _),
    fun l => (hs.rwlock l).congr rfl rfl rfl rfl⟩

omit [DecidableEq μ] in
theorem qemuCoRwlockUnlock_unlockStep (hs : PreInv s) {l : ρ}
    (hc : c ∈ s.readHolders l ∨ c ∈ s.writeHolders l) :
    ∃ s' p, qemuCoRwlockUnlock s c l = some s' ∧ UnlockStep s s' (.inr l) p := by
  have hsafe := hs.rwlock l
  by_cases hw : (s.rwlocks l).writer = true
  · -- the writer leaves and wakes every waiter
    have hrnil := hsafe.excl hw
    have hone : s.writeHolders l = [c] :=
      eq_singleton_of_mem (hc.resolve_left (by simp [hrnil])) hsafe.one
    dsimp only [qemuCoRwlockUnlock]
    rw [if_pos hw]
    refine ⟨_, (s.rwlocks l).queue, rfl, by simp [CoState.queueOf, qemuCoQueueRestartAll_eq],
      by simp [qemuCoQueueRestartAll_eq], rfl,
      queueOf_held_of_rwlocks rfl (fun l' hl' => update_of_ne hl' _ _),
      fun hne => absurd (by simp [CoState.queueOf, qemuCoQueueRestartAll_eq]) hne,
      fun m => (hs.mutex m).congr rfl rfl,
      rwlockSafe_of_update hs.rwlock (by constructor <;> simp [hone, hrnil, hsafe.reader])
        (fun l' hl' => update_of_ne hl' _ _) (fun _ _ => rfl)
        (fun l' hl' => update_of_ne hl' _ _)⟩
  · -- a reader leaves: there is one, so the count stays non-negative
    have hwnil : s.writeHolders l = [] := by
      by_contra hne
      exact hw (hsafe.writer.mpr hne)
    have hcr : c ∈ s.readHolders l := hc.resolve_right (by simp [hwnil])
    have hlen := List.length_erase_add_one hcr
    have hr := hsafe.reader
    by_cases hlast : (s.rwlocks l).reader - 1 = 0
    · -- the last reader wakes one waiter
      obtain ⟨p, hq, hbh, hwake⟩ := qemuCoQueueNext_moves (s.rwlocks l).queue s.unlockBhQueue
      dsimp only [qemuCoRwlockUnlock]
      rw [if_neg hw, if_neg (by omega), if_pos hlast]
      refine ⟨_, p, rfl, by simpa [CoState.queueOf] using hq, hbh, rfl,
        queueOf_held_of_rwlocks rfl (fun l' hl' => update_of_ne hl' _ _),
        fun hne _ => hwake (by simpa [CoState.queueOf] using hne),
        fun m => (hs.mutex m).congr rfl rfl,
        rwlockSafe_of_update hs.rwlock ?_ (fun l' hl' => update_of_ne hl' _ _)
          (fun l' hl' => update_of_ne hl' _ _) (fun _ _ => rfl)⟩
      constructor <;> simp [hw, hwnil]
      -- one reader fewer, counted and listed
      omega
    · -- readers remain: no waiter is woken
      dsimp only [qemuCoRwlockUnlock]
      rw [if_neg hw, if_neg (by omega), if_neg hlast]
      refine ⟨_, [], rfl, by simp [CoState.queueOf], by simp, rfl,
        queueOf_held_of_rwlocks rfl (fun l' hl' => update_of_ne hl' _ _),
        fun _ hheld => absurd (.inr (by simpa using hlast)) hheld,
        fun m => (hs.mutex m).congr rfl rfl,
        rwlockSafe_of_update hs.rwlock ?_ (fun l' hl' => update_of_ne hl' _ _)
          (fun l' hl' => update_of_ne hl' _ _) (fun _ _ => rfl)⟩
      constructor <;> simp [hw, hwnil]
      -- one reader fewer, counted and listed
      omega

/-- A round of the bottom half keeps the invariant. The coroutine it enters
leaves `unlock_bh_queue`; it was there as the wake-up witness of its own lock
only, and its test leaves that lock held. -/
theorem qemuCoQueueNextBh_coInv (hs : CoInv s) : CoInv (qemuCoQueueNextBh s) := by
  unfold qemuCoQueueNextBh
  split
  · exact hs
  · rename_i next rest hbh
    have hnext : next ∈ s.unlockBhQueue := hbh ▸ List.mem_cons_self
    have hrest : ∀ c ∈ rest, c ∈ s.unlockBhQueue := fun c hc => hbh ▸ List.mem_cons_of_mem _ hc
    obtain ⟨call, hcall⟩ := Option.ne_none_iff_exists'.mp (hs.bh_waiting next hnext)
    have hnd : (next :: rest).Nodup := hbh ▸ hs.bh_nodup
    -- the state with `next` popped: the invariant but for the witness of `call.lock`
    have hpre : PreInv { s with unlockBhQueue := rest } :=
      ⟨(List.nodup_cons.mp hnd).2, fun c hc => hs.bh_waiting c (hrest c hc),
        fun k => ⟨(hs.queued k).1, fun c hc =>
          ⟨((hs.queued k).2 c hc).1, fun hr => ((hs.queued k).2 c hc).2 (hrest c hr)⟩⟩,
        fun m => (hs.mutex m).congr rfl rfl, fun l => (hs.rwlock l).congr rfl rfl rfl rfl⟩
    have hwake : ∀ k ≠ call.lock, CoState.Wake { s with unlockBhQueue := rest } k := by
      intro k hk hne hheld
      obtain ⟨c, hc, hwc⟩ := hs.wake k hne hheld
      rcases List.mem_cons.mp (hbh ▸ hc) with he | hc
      · rw [he] at hwc
        exact absurd (hwc.unique (waitsOn_lock hcall)) hk
      · exact ⟨c, hc, hwc⟩
    simp only [hcall]
    exact (resume_lockStep hpre next call).coInv hpre (List.nodup_cons.mp hnd).1
      (fun k hk => ((hs.queued k).2 next hk).2 hnext) hwake

/-- Every action from a state of the invariant goes on, to a state of the
invariant. -/
theorem CoAction.step_coInv (hs : CoInv s) :
    ∀ a : CoAction κ μ ρ, ∃ s', a.step s = some s' ∧ CoInv s'
  | .lock c call => by
    by_cases hc : s.waitingIn c = none
    · refine ⟨resume s c call, by simp only [CoAction.step, if_pos hc], ?_⟩
      exact (resume_lockStep hs.toPreInv c call).coInv hs.toPreInv (hs.not_mem_bh hc)
        (hs.not_mem_queueOf hc) (fun k _ => hs.wake k)
    · exact ⟨s, by simp only [CoAction.step, if_neg hc], hs⟩
  | .mutexUnlock c m => by
    by_cases hc : s.waitingIn c = none ∧ c ∈ s.mutexHolders m
    · obtain ⟨s', p, hs', hstep⟩ := qemuCoMutexUnlock_unlockStep hs.toPreInv hc.2
      exact ⟨s', by simp only [CoAction.step, if_pos hc, hs'], hstep.coInv hs⟩
    · exact ⟨s, by simp only [CoAction.step, if_neg hc], hs⟩
  | .rwlockUnlock c l => by
    by_cases hc : s.waitingIn c = none ∧ (c ∈ s.readHolders l ∨ c ∈ s.writeHolders l)
    · obtain ⟨s', p, hs', hstep⟩ := qemuCoRwlockUnlock_unlockStep hs.toPreInv hc.2
      exact ⟨s', by simp only [CoAction.step, if_pos hc, hs'], hstep.coInv hs⟩
    · exact ⟨s, by simp only [CoAction.step, if_neg hc], hs⟩
  | .bh => ⟨_, rfl, qemuCoQueueNextBh_coInv hs⟩

end Steps

theorem coInit_coInv : CoInv (coInit : CoState κ μ ρ) where
  bh_nodup := List.nodup_nil
  bh_waiting _ h := absurd h List.not_mem_nil
  queued k := by cases k <;> simp [CoState.Queued, CoState.queueOf, coInit]
  mutex _ := ⟨by simp [coInit], by simp [coInit]⟩
  rwlock _ := ⟨by simp [coInit], by simp [coInit], by simp [coInit], by simp [coInit]⟩
  wake k := by cases k <;> simp [CoState.Wake, CoState.queueOf, coInit]

/-- With no wake-up pending, every lock with a waiter is held. -/
theorem CoInv.held_of_queueOf (hs : CoInv s) (hbh : s.unlockBhQueue = []) (k : μ ⊕ ρ)
    (hq : s.queueOf k ≠ []) : s.Held k := by
  by_contra hheld
  obtain ⟨c, hc, -⟩ := hs.wake k hq hheld
  rw [hbh] at hc
  exact List.not_mem_nil hc

/-- After every run from the initial state: no assert has failed; a mutex is
locked exactly while a coroutine holds it, and at most one does; a
readers-writer lock has at most one writer, no reader while it has one, and
as many readers as `reader` counts, which is never negative; and with no
wake-up pending, no waiter sleeps on a free lock. -/
theorem coLocks_safe [DecidableEq κ] [DecidableEq μ] [DecidableEq ρ]
    (acts : List (CoAction κ μ ρ)) :
    ∃ s, runCo coInit acts = some s ∧
      (∀ m, ((s.mutexes m).locked = true ↔ s.mutexHolders m ≠ []) ∧
        (s.mutexHolders m).length ≤ 1) ∧
      (∀ l, ((s.rwlocks l).writer = true ↔ s.writeHolders l ≠ []) ∧
        (s.writeHolders l).length ≤ 1 ∧
        ((s.rwlocks l).writer = true → (s.rwlocks l).reader = 0 ∧ s.readHolders l = []) ∧
        0 ≤ (s.rwlocks l).reader ∧ (s.rwlocks l).reader = (s.readHolders l).length) ∧
      (s.unlockBhQueue = [] →
        (∀ m, (s.mutexes m).queue ≠ [] → (s.mutexes m).locked = true) ∧
        (∀ l, (s.rwlocks l).queue ≠ [] →
          (s.rwlocks l).writer = true ∨ (s.rwlocks l).reader ≠ 0)) := by
  obtain ⟨s, hrun, hs⟩ :=
    foldlM_invariant CoAction.step CoInv (fun s a hs => CoAction.step_coInv hs a) coInit_coInv acts
  refine ⟨s, hrun, fun m => ⟨(hs.mutex m).locked, (hs.mutex m).one⟩, fun l => ?_,
    fun hbh => ⟨fun m => hs.held_of_queueOf hbh (.inl m), fun l => hs.held_of_queueOf hbh (.inr l)⟩⟩
  have hsafe := hs.rwlock l
  refine ⟨hsafe.writer, hsafe.one, fun hw => ?_, by rw [hsafe.reader]; omega, hsafe.reader⟩
  have hr := hsafe.excl hw
  rw [hsafe.reader, hr]
  exact ⟨rfl, rfl⟩

end QemuKvm.Coroutine
