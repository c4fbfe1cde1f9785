import RestfulWebserver.Http.Message
import RestfulWebserver.Library.OrderedMap

/-!
# `MutexPool`

One mutex for each key, counted by its users. Mutexes are told apart by the
order in which the pool made them; a `shared_ptr` handed out earlier keeps its
mutex alive after the pool has dropped it.
-/

namespace RestfulWebserver.Entity

open RestfulWebserver.Library RestfulWebserver.Http

structure MutexPool (Key : Type) [LinearOrder Key] where
  mutexPool : OrderedMap Key Nat
  /-- An `int`, far above the number of threads that hold a handler. -/
  mutexCount : OrderedMap Key Int
  /-- How many mutexes have been made. -/
  made : Nat

inductive PoolError (Key : Type) where
  | mutexMissing (key : Key)
  /-- `std::map::at` without such a key. -/
  | outOfRange

def PoolError.what : PoolError Bytes → Bytes
  | .mutexMissing key => "mutex missing at key: ".toList ++ key
  | .outOfRange => "map::at".toList

namespace MutexPool

variable {Key : Type} [LinearOrder Key]

def empty : MutexPool Key := ⟨OrderedMap.empty, OrderedMap.empty, 0⟩

def atKey {Value : Type} (map : OrderedMap Key Value) (key : Key) :
    Except (PoolError Key) Value :=
  match map.find? key with
  | some value => .ok value
  | none => .error .outOfRange

def validateKey (pool : MutexPool Key) (key : Key) : Except (PoolError Key) Unit :=
  if pool.mutexPool.contains key then .ok () else .error (.mutexMissing key)

def insert (pool : MutexPool Key) (key : Key) : Except (PoolError Key) (MutexPool Key) :=
  if !pool.mutexPool.contains key then
    .ok {
      mutexPool := pool.mutexPool.insert key pool.made
      mutexCount := pool.mutexCount.insert key 1
      made := pool.made + 1
    }
  else do
    let count ← atKey pool.mutexCount key
    .ok { pool with mutexCount := pool.mutexCount.assign key (count + 1) }

def request (pool : MutexPool Key) (key : Key) : Except (PoolError Key) Nat := do
  pool.validateKey key
  atKey pool.mutexPool key

def erase (pool : MutexPool Key) (key : Key) : Except (PoolError Key) (MutexPool Key) := do
  pool.validateKey key
  let count ← atKey pool.mutexCount key
  let fewer := pool.mutexCount.assign key (count - 1)
  if (← atKey fewer key) ≤ 0 then
    .ok { pool with mutexCount := fewer.erase key, mutexPool := pool.mutexPool.erase key }
  else .ok { pool with mutexCount := fewer }

/-! ## What the operations leave -/

@[simp] theorem ok_bind {Key Value Other : Type} (value : Value)
    (onward : Value → Except (PoolError Key) Other) : (.ok value >>= onward) = onward value := rfl

@[simp] theorem error_bind {Key Value Other : Type} (thrown : PoolError Key)
    (onward : Value → Except (PoolError Key) Other) : (.error thrown >>= onward) = .error thrown :=
  rfl

section Results

variable {pool : MutexPool Key} {key : Key}

theorem insert_absent (absent : pool.mutexPool.contains key = false) :
    pool.insert key = .ok {
      mutexPool := pool.mutexPool.insert key pool.made
      mutexCount := pool.mutexCount.insert key 1
      made := pool.made + 1 } := by
  simp [insert, absent]

theorem insert_present (present : pool.mutexPool.contains key = true) {count : Int}
    (counted : pool.mutexCount.find? key = some count) :
    pool.insert key = .ok { pool with mutexCount := pool.mutexCount.assign key (count + 1) } := by
  simp [insert, present, atKey, counted]

theorem request_present {mutex : Nat} (stored : pool.mutexPool.find? key = some mutex) :
    pool.request key = .ok mutex := by
  have present : pool.mutexPool.contains key = true := by
    rw [OrderedMap.contains, stored]
    rfl
  simp [request, validateKey, present, atKey, stored]

theorem erase_present (present : pool.mutexPool.contains key = true) {count : Int}
    (counted : pool.mutexCount.find? key = some count) :
    pool.erase key =
      if count - 1 ≤ 0 then .ok { pool with
        mutexCount := (pool.mutexCount.assign key (count - 1)).erase key
        mutexPool := pool.mutexPool.erase key }
      else .ok { pool with mutexCount := pool.mutexCount.assign key (count - 1) } := by
  simp only [erase, validateKey, present, if_true, ok_bind, atKey, counted,
    OrderedMap.find_assign_self]

end Results

/-! ## What the pool stores for a key with a number of users -/

/-- The key is there while it has users, and its count is their number. -/
structure Tracks (pool : MutexPool Key) (key : Key) (users : Nat) : Prop where
  present : pool.mutexPool.contains key = true ↔ 0 < users
  counted : pool.mutexCount.find? key = if users = 0 then none else some (users : Int)

section Tracks

variable {pool : MutexPool Key} {key : Key} {users : Nat}

theorem empty_tracks : (empty : MutexPool Key).Tracks key 0 where
  present := by simp [empty, OrderedMap.contains]
  counted := rfl

/-- A key in use keeps its mutex when it gets one more user. -/
theorem insert_tracks (tracks : pool.Tracks key users) :
    ∃ next, pool.insert key = .ok next ∧ next.Tracks key (users + 1) ∧
      (0 < users → next.mutexPool.find? key = pool.mutexPool.find? key) := by
  by_cases used : 0 < users
  · have present := tracks.present.mpr used
    have counted := tracks.counted
    rw [if_neg (Nat.ne_of_gt used)] at counted
    refine ⟨_, insert_present present counted, ?_, ?_⟩
    · constructor
      · simp [present]
      · simp
    · intro _
      rfl
  · have absent : pool.mutexPool.contains key = false := by
      simpa using mt tracks.present.mp used
    have unused : users = 0 := Nat.eq_zero_of_not_pos used
    have uncounted := tracks.counted
    rw [if_pos unused] at uncounted
    refine ⟨_, insert_absent absent, ?_, ?_⟩
    · constructor
      · simp [OrderedMap.contains, OrderedMap.find_insert]
      · simp [OrderedMap.find_insert, uncounted, unused]
    · intro positive
      exact absurd positive used

/-- A key with a user has a mutex. -/
theorem request_tracks (tracks : pool.Tracks key users) (used : 0 < users) :
    ∃ mutex, pool.request key = .ok mutex ∧ pool.mutexPool.find? key = some mutex := by
  have present := tracks.present.mpr used
  obtain ⟨mutex, found⟩ := (OrderedMap.contains_iff _ _).mp present
  exact ⟨mutex, request_present found, found⟩

theorem erase_tracks (tracks : pool.Tracks key (users + 1)) :
    ∃ next, pool.erase key = .ok next ∧ next.Tracks key users ∧
      (0 < users → next.mutexPool.find? key = pool.mutexPool.find? key) := by
  have present := tracks.present.mpr (Nat.succ_pos users)
  have counted := tracks.counted
  rw [if_neg (Nat.succ_ne_zero users)] at counted
  have left : ((users + 1 : Nat) : Int) - 1 = users := by omega
  rw [erase_present present counted, left]
  by_cases used : 0 < users
  · have more : ¬ (users : Int) ≤ 0 := by omega
    refine ⟨_, if_neg more, ?_, ?_⟩
    · constructor
      · simp [present, used]
      · simp [Nat.ne_of_gt used]
    · intro _
      rfl
  · have unused : users = 0 := Nat.eq_zero_of_not_pos used
    have last : (users : Int) ≤ 0 := by omega
    refine ⟨_, if_pos last, ?_, ?_⟩
    · constructor
      · simp [OrderedMap.contains, unused]
      · simp [unused]
    · intro positive
      exact absurd positive used

end Tracks

end MutexPool

end RestfulWebserver.Entity
