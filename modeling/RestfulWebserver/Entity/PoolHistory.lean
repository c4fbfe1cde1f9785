import RestfulWebserver.Entity.MutexPool
import RestfulWebserver.Library.Numeral
import RestfulWebserver.Library.SharedTable

/-!
# What a mutex pool answers in its lifetime

Here the member functions of `MutexPool` are taken statement by statement, with
what they have stored by the time they throw. Each holds `map_mutex_` from its
first statement to its last, so that whatever threads do with a pool is a list of
operations.
-/

namespace RestfulWebserver.Entity.MutexPool

open RestfulWebserver.Library RestfulWebserver.Http
open SharedTable (History Leads Step successes)

variable {Key : Type} [LinearOrder Key]

/-! ## The member functions as they execute -/

/-- What has been stored before a throw stays stored. -/
abbrev Action (Key Value : Type) [LinearOrder Key] :=
  ExceptT (PoolError Key) (StateM (MutexPool Key)) Value

namespace Action

def makeShared : Action Key Nat := do
  let pool ← get
  modify fun pool => { pool with made := pool.made + 1 }
  pure pool.made

/-- `mutex_count_.at(key) += amount`, in an `int`. -/
def addToCount (key : Key) (amount : Int) : Action Key Unit := do
  let count ← MonadExcept.ofExcept (atKey (← get).mutexCount key)
  modify fun pool =>
    { pool with mutexCount := pool.mutexCount.assign key ((count + amount).bmod (2 ^ 32)) }

def validateKey (key : Key) : Action Key Unit := do
  if !(← get).mutexPool.contains key then throw (.mutexMissing key)

def insert (key : Key) : Action Key Unit := do
  if !(← get).mutexPool.contains key then
    let mutex ← makeShared
    modify fun pool => { pool with mutexPool := pool.mutexPool.insert key mutex }
    modify fun pool => { pool with mutexCount := pool.mutexCount.insert key 1 }
  else
    addToCount key 1

def request (key : Key) : Action Key Nat := do
  validateKey key
  MonadExcept.ofExcept (atKey (← get).mutexPool key)

def erase (key : Key) : Action Key Unit := do
  validateKey key
  addToCount key (-1)
  if (← MonadExcept.ofExcept (atKey (← get).mutexCount key)) ≤ 0 then
    modify fun pool => { pool with mutexCount := pool.mutexCount.erase key }
    modify fun pool => { pool with mutexPool := pool.mutexPool.erase key }

def perform : SharedTable.Operation Key → Action Key (Option Nat)
  | .insert key => do
      insert key
      pure none
  | .request key => some <$> request key
  | .erase key => do
      erase key
      pure none

def exec {Value : Type} (action : Action Key Value) (pool : MutexPool Key) :
    Except (PoolError Key) Value × MutexPool Key :=
  action.run pool

section Exec

variable {Value Other : Type} (pool : MutexPool Key)

@[simp] theorem exec_bind (action : Action Key Value) (onward : Value → Action Key Other) :
    exec (action >>= onward) pool =
      match exec action pool with
      | (.ok value, next) => exec (onward value) next
      | (.error thrown, next) => (.error thrown, next) := by
  change (match (ExceptT.run action) pool with
    | (result, next) => ((ExceptT.bindCont onward result) next)) = _
  unfold exec
  rcases ExceptT.run action pool with ⟨_ | value, next⟩ <;> rfl

@[simp] theorem exec_map (onward : Value → Other) (action : Action Key Value) :
    exec (onward <$> action) pool =
      match exec action pool with
      | (.ok value, next) => (.ok (onward value), next)
      | (.error thrown, next) => (.error thrown, next) := by
  rw [map_eq_pure_bind, exec_bind]
  rfl

@[simp] theorem exec_pure (value : Value) :
    exec (pure value : Action Key Value) pool = (.ok value, pool) := rfl

@[simp] theorem exec_throw (thrown : PoolError Key) :
    exec (throw thrown : Action Key Value) pool = (.error thrown, pool) := rfl

@[simp] theorem exec_get : exec (get : Action Key (MutexPool Key)) pool = (.ok pool, pool) := rfl

@[simp] theorem exec_modify (change : MutexPool Key → MutexPool Key) :
    exec (modify change : Action Key PUnit) pool = (.ok ⟨⟩, change pool) := rfl

@[simp] theorem exec_of_except (result : Except (PoolError Key) Value) :
    exec (MonadExcept.ofExcept result : Action Key Value) pool = (result, pool) := by
  cases result <;> rfl

end Exec

end Action

def settled (pool : MutexPool Key) :
    Except (PoolError Key) (MutexPool Key) → Except (PoolError Key) (Option Nat) × MutexPool Key
  | .ok next => (.ok none, next)
  | .error thrown => (.error thrown, pool)

section Executed

variable {pool : MutexPool Key} {key : Key}

def Fits (pool : MutexPool Key) (key : Key) (amount : Int) : Prop :=
  ∀ count, pool.mutexCount.find? key = some count →
    intMin ≤ count + amount ∧ count + amount ≤ intMax

theorem exec_add_to_count {amount : Int} (fits : pool.Fits key amount) :
    (Action.addToCount key amount).exec pool =
      match atKey pool.mutexCount key with
      | .ok count =>
          (.ok (), { pool with mutexCount := pool.mutexCount.assign key (count + amount) })
      | .error thrown => (.error thrown, pool) := by
  cases counted : pool.mutexCount.find? key with
  | none => simp [Action.addToCount, atKey, counted]
  | some count =>
      obtain ⟨lower, upper⟩ := fits count counted
      have exact : (count + amount).bmod (2 ^ 32) = count + amount := by
        unfold intMin intMax at *
        apply Int.bmod_eq_of_le <;> omega
      simp only [Action.addToCount, atKey, counted, exact, Action.exec_bind, Action.exec_get,
        Action.exec_of_except, Action.exec_modify]

theorem exec_validate_key :
    (Action.validateKey key).exec pool = (pool.validateKey key, pool) := by
  cases present : pool.mutexPool.contains key <;>
    simp [Action.validateKey, validateKey, present]

theorem exec_missing (operation : SharedTable.Operation Key) (needs : operation.needsKey = true)
    (absent : pool.mutexPool.contains operation.key = false) :
    (Action.perform operation).exec pool = (.error (.mutexMissing operation.key), pool) := by
  have missing : pool.validateKey operation.key = .error (.mutexMissing operation.key) := by
    rw [validateKey, absent]
    rfl
  cases operation with
  | insert key => cases needs
  | request key =>
      simp only [SharedTable.Operation.key] at missing
      simp [Action.perform, Action.request, exec_validate_key, missing, SharedTable.Operation.key]
  | erase key =>
      simp only [SharedTable.Operation.key] at missing
      simp [Action.perform, Action.erase, exec_validate_key, missing, SharedTable.Operation.key]

theorem exec_insert (fits : pool.Fits key 1) :
    (Action.perform (.insert key)).exec pool = settled pool (pool.insert key) := by
  cases present : pool.mutexPool.contains key with
  | false => simp [Action.perform, Action.insert, Action.makeShared, insert, settled, present]
  | true =>
      cases counted : pool.mutexCount.find? key <;>
        simp [Action.perform, Action.insert, exec_add_to_count fits, insert, settled, present,
          atKey, counted]

theorem exec_request :
    (Action.perform (.request key)).exec pool = ((pool.request key).map some, pool) := by
  cases present : pool.mutexPool.contains key with
  | false =>
      simp [Action.perform, Action.request, exec_validate_key, request, validateKey, present,
        Except.map]
  | true =>
      cases stored : pool.mutexPool.find? key <;>
        simp [Action.perform, Action.request, exec_validate_key, request, validateKey, present,
          atKey, stored, Except.map]

theorem exec_erase (fits : pool.Fits key (-1)) :
    (Action.perform (.erase key)).exec pool = settled pool (pool.erase key) := by
  cases present : pool.mutexPool.contains key with
  | false =>
      simp [Action.perform, Action.erase, exec_validate_key, erase, validateKey, present, settled]
  | true =>
      cases counted : pool.mutexCount.find? key with
      | none =>
          simp [Action.perform, Action.erase, exec_validate_key, exec_add_to_count fits, erase,
            validateKey, settled, present, atKey, counted]
      | some count =>
          have less : count + -1 = count - 1 := (sub_eq_add_neg count 1).symm
          by_cases last : count - 1 ≤ 0
          · simp only [Action.perform, Action.erase, Action.exec_bind, Action.exec_get,
              Action.exec_of_except, Action.exec_modify, Action.exec_pure, exec_validate_key,
              exec_add_to_count fits, erase, validateKey, settled, present, atKey, counted, ok_bind,
              OrderedMap.find_assign_self, less, if_true, if_pos last]
          · simp only [Action.perform, Action.erase, Action.exec_bind, Action.exec_get,
              Action.exec_of_except, Action.exec_pure, exec_validate_key, exec_add_to_count fits,
              erase, validateKey, settled, present, atKey, counted, ok_bind,
              OrderedMap.find_assign_self, less, if_true, if_neg last]

end Executed

/-! ## Histories -/

structure Trace (Key : Type) [LinearOrder Key] where
  pool : MutexPool Key
  history : History Key Nat (PoolError Key)

def Trace.step (trace : Trace Key) (operation : SharedTable.Operation Key) : Trace Key :=
  let (answer, pool) := (Action.perform operation).exec trace.pool
  ⟨pool, trace.history ++ [(operation, answer)]⟩

def executed (operations : List (SharedTable.Operation Key)) : Trace Key :=
  operations.foldl Trace.step ⟨empty, []⟩

theorem executed_snoc (operations : List (SharedTable.Operation Key))
    (operation : SharedTable.Operation Key) :
    executed (operations ++ [operation]) = (executed operations).step operation :=
  List.foldl_concat _ _ _ _

theorem executed_length (operations : List (SharedTable.Operation Key)) :
    (executed operations).history.length = operations.length := by
  induction operations using List.reverseRecOn with
  | nil => rfl
  | append_singleton operations operation ih =>
      rw [executed_snoc, List.length_append, ← ih]
      exact List.length_append

/-- At any time fewer than `2 ^ 31` insertions of a key are not taken back. -/
def FewLive (operations : List (SharedTable.Operation Key)) : Prop :=
  ∀ before key, before <+: operations →
    successes (.insert key) (executed before).history <
      successes (.erase key) (executed before).history + 2 ^ 31

theorem FewLive.front {operations before : List (SharedTable.Operation Key)}
    (few : FewLive operations) (starts : before <+: operations) : FewLive before := by
  intro early key earlier
  exact few early key (earlier.trans starts)

theorem few_live_of_short {operations : List (SharedTable.Operation Key)}
    (short : operations.length < 2 ^ 31) : FewLive operations := by
  intro before key starts
  have bounded := SharedTable.successes_le_length (.insert key) (executed before).history
  have shorter := starts.length_le
  rw [executed_length] at bounded
  omega

/-- The pool stores what the table lends, under numbers it has given out. -/
structure Stores (pool : MutexPool Key) (table : SharedTable Key Nat) : Prop where
  mutex : ∀ key, pool.mutexPool.find? key = (table key).map Shared.object
  count : ∀ key, pool.mutexCount.find? key = (table key).map fun shared => (shared.users : Int)
  made : ∀ key shared, table key = some shared → shared.object < pool.made

section Stores

variable {pool : MutexPool Key} {table : SharedTable Key Nat} {key : Key}

theorem Stores.contains (stores : pool.Stores table) (key : Key) :
    pool.mutexPool.contains key = (table key).isSome := by
  rw [OrderedMap.contains, stores.mutex, Option.isSome_map]

theorem Stores.counts (stores : pool.Stores table) (key : Key) :
    pool.mutexCount.contains key = (table key).isSome := by
  rw [OrderedMap.contains, stores.count, Option.isSome_map]

theorem Stores.absent (stores : pool.Stores table) (unused : table key = none) :
    pool.mutexPool.contains key = false := by
  rw [stores.contains, unused]
  rfl

theorem Stores.present (stores : pool.Stores table) {shared : Shared Nat}
    (lent : table key = some shared) : pool.mutexPool.contains key = true := by
  rw [stores.contains, lent]
  rfl

theorem Stores.find_mutex (stores : pool.Stores table) {shared : Shared Nat}
    (lent : table key = some shared) : pool.mutexPool.find? key = some shared.object := by
  rw [stores.mutex, lent]
  rfl

theorem Stores.find_count (stores : pool.Stores table) {shared : Shared Nat}
    (lent : table key = some shared) : pool.mutexCount.find? key = some (shared.users : Int) := by
  rw [stores.count, lent]
  rfl

theorem empty_stores : (empty : MutexPool Key).Stores SharedTable.empty where
  mutex := fun _ => rfl
  count := fun _ => rfl
  made := by
    intro key shared lent
    cases lent

theorem Stores.update (stores : pool.Stores table) {next : MutexPool Key}
    {entry : Option (Shared Nat)}
    (mutex : ∀ other, next.mutexPool.find? other =
      if key = other then entry.map Shared.object else pool.mutexPool.find? other)
    (count : ∀ other, next.mutexCount.find? other =
      if key = other then entry.map fun shared => (shared.users : Int)
      else pool.mutexCount.find? other)
    (more : pool.made ≤ next.made)
    (given : ∀ shared, entry = some shared → shared.object < next.made) :
    next.Stores (Function.update table key entry) where
  mutex := by
    intro other
    by_cases here : key = other
    · subst here
      rw [mutex, if_pos rfl, Function.update_self]
    · rw [mutex, if_neg here, Function.update_of_ne (Ne.symm here), stores.mutex]
  count := by
    intro other
    by_cases here : key = other
    · subst here
      rw [count, if_pos rfl, Function.update_self]
    · rw [count, if_neg here, Function.update_of_ne (Ne.symm here), stores.count]
  made := by
    intro other shared lent
    by_cases here : key = other
    · subst here
      rw [Function.update_self] at lent
      exact given shared lent
    · rw [Function.update_of_ne (Ne.symm here)] at lent
      exact Nat.lt_of_lt_of_le (stores.made other shared lent) more

theorem insert_first (stores : pool.Stores table) (lent : table key = none) :
    ∃ inserted, pool.insert key = .ok inserted ∧
      inserted.Stores (Function.update table key (some (.first pool.made))) := by
  have absent := stores.absent lent
  have uncounted : pool.mutexCount.contains key = false := by
    rw [stores.counts, lent]
    rfl
  refine ⟨_, insert_absent absent, stores.update ?_ ?_ (Nat.le_succ pool.made) ?_⟩
  · intro other
    exact OrderedMap.find_insert_absent absent other pool.made
  · intro other
    exact OrderedMap.find_insert_absent uncounted other 1
  · intro shared made
    rw [← Option.some.inj made]
    exact Nat.lt_succ_self pool.made

theorem insert_again (stores : pool.Stores table) {shared : Shared Nat}
    (lent : table key = some shared) :
    ∃ inserted, pool.insert key = .ok inserted ∧
      inserted.Stores (Function.update table key (some shared.join)) := by
  have present := stores.present lent
  have stored := stores.find_mutex lent
  have counted := stores.find_count lent
  refine ⟨_, insert_present present counted, stores.update ?_ ?_ (Nat.le_refl pool.made) ?_⟩
  · intro other
    split_ifs with here
    · rw [← here, stored]
      rfl
    · rfl
  · intro other
    rw [OrderedMap.find_assign]
    rfl
  · intro joined same
    rw [← Option.some.inj same]
    exact stores.made key shared lent

theorem erase_used (stores : pool.Stores table) {shared : Shared Nat}
    (lent : table key = some shared) :
    ∃ erased, pool.erase key = .ok erased ∧
      erased.Stores (Function.update table key shared.leave) := by
  have present := stores.present lent
  have stored := stores.find_mutex lent
  have counted := stores.find_count lent
  rw [erase_present present counted]
  by_cases others : 0 < shared.users - 1
  · have more : ¬ (shared.users : Int) - 1 ≤ 0 := by omega
    have left : (shared.users : Int) - 1 = (shared.users - 1 : Nat) := by omega
    have leaves : shared.leave = some ⟨shared.object, shared.users - 1, others⟩ := by
      rw [Shared.leave, dif_pos others]
    rw [leaves]
    refine ⟨_, if_neg more, stores.update ?_ ?_ (Nat.le_refl pool.made) ?_⟩
    · intro other
      split_ifs with here
      · rw [← here, stored]
        rfl
      · rfl
    · intro other
      rw [OrderedMap.find_assign, left]
      rfl
    · intro fewer same
      rw [← Option.some.inj same]
      exact stores.made key shared lent
  · have last : (shared.users : Int) - 1 ≤ 0 := by omega
    have leaves : shared.leave = none := by
      rw [Shared.leave, dif_neg others]
    rw [leaves]
    refine ⟨_, if_pos last, stores.update ?_ ?_ (Nat.le_refl pool.made) ?_⟩
    · intro other
      rw [OrderedMap.find_erase]
      rfl
    · intro other
      rw [OrderedMap.find_erase]
      split_ifs with here
      · rfl
      · rw [OrderedMap.find_assign, if_neg here]
    · intro fewer same
      cases same

/-- What is added to the number of users stays within an `int`. -/
theorem Stores.fits (stores : pool.Stores table) {amount : Int} (lower : -1 ≤ amount)
    (upper : (table.users key : Int) + amount < 2 ^ 31) : pool.Fits key amount := by
  intro count counted
  rw [stores.count] at counted
  obtain ⟨shared, lent, same⟩ := Option.map_eq_some_iff.mp counted
  rw [SharedTable.users, lent, Option.elim] at upper
  have used := shared.used
  rw [← same]
  unfold intMin intMax
  constructor <;> omega

/-- An insertion returns, also where the count of the key overflows. -/
theorem exec_insert_returns (stores : pool.Stores table) (key : Key) :
    ((Action.perform (.insert key)).exec pool).1 = .ok none := by
  cases lent : table key with
  | none =>
      simp [Action.perform, Action.insert, Action.makeShared, stores.absent lent]
  | some shared =>
      simp [Action.perform, Action.insert, Action.addToCount, stores.present lent, atKey,
        stores.find_count lent]

theorem exec_refines (stores : pool.Stores table) (operation : SharedTable.Operation Key)
    (bounded : table.users operation.key < 2 ^ 31)
    (room : operation.needsKey = false → table.users operation.key + 1 < 2 ^ 31) :
    ∃ next, Step PoolError.mutexMissing table operation
        ((Action.perform operation).exec pool).1 next ∧
      ((Action.perform operation).exec pool).2.Stores next := by
  cases operation with
  | insert key =>
      have more : table.users key + 1 < 2 ^ 31 := room rfl
      have fits : pool.Fits key 1 := by
        apply stores.fits (by decide)
        omega
      rw [exec_insert fits]
      cases lent : table key with
      | none =>
          obtain ⟨inserted, ran, storesNext⟩ := insert_first stores lent
          have fresh : ∀ other shared, table other = some shared → shared.object ≠ pool.made := by
            intro other shared found
            exact Nat.ne_of_lt (stores.made other shared found)
          rw [ran]
          exact ⟨_, .make key pool.made lent fresh, storesNext⟩
      | some shared =>
          obtain ⟨inserted, ran, storesNext⟩ := insert_again stores lent
          rw [ran]
          exact ⟨_, .join key shared lent, storesNext⟩
  | request key =>
      cases lent : table key with
      | none =>
          rw [exec_missing (.request key) rfl (stores.absent lent)]
          exact ⟨table, .refuse (.request key) rfl lent, stores⟩
      | some shared =>
          rw [exec_request, request_present (stores.find_mutex lent)]
          exact ⟨table, .lend key shared lent, stores⟩
  | erase key =>
      cases lent : table key with
      | none =>
          rw [exec_missing (.erase key) rfl (stores.absent lent)]
          exact ⟨table, .refuse (.erase key) rfl lent, stores⟩
      | some shared =>
          have held : table.users key < 2 ^ 31 := bounded
          have fits : pool.Fits key (-1) := by
            apply stores.fits (by decide)
            omega
          obtain ⟨erased, ran, storesNext⟩ := erase_used stores lent
          rw [exec_erase fits, ran]
          exact ⟨_, .leave key shared lent, storesNext⟩

end Stores

/-- The next operation of a pool is a step of the table it stores. -/
theorem next_refines {before : List (SharedTable.Operation Key)}
    {operation : SharedTable.Operation Key} (few : FewLive (before ++ [operation]))
    {table : SharedTable Key Nat}
    (leads : Leads PoolError.mutexMissing SharedTable.empty (executed before).history table)
    (stores : (executed before).pool.Stores table) :
    ∃ next, Step PoolError.mutexMissing table operation
        ((Action.perform operation).exec (executed before).pool).1 next ∧
      ((Action.perform operation).exec (executed before).pool).2.Stores next := by
  have balance := SharedTable.users_of_history leads operation.key
  have fewNow := few before operation.key (List.prefix_append before [operation])
  apply exec_refines stores operation
  · omega
  · intro isInsert
    have fewNext := few (before ++ [operation]) operation.key (List.prefix_refl _)
    cases operation with
    | insert key =>
        rw [executed_snoc] at fewNext
        simp only [Trace.step, exec_insert_returns stores, SharedTable.successes_append,
          SharedTable.successes_ok, SharedTable.Operation.key, if_true, reduceCtorEq, if_false]
          at fewNext balance ⊢
        omega
    | request key => cases isInsert
    | erase key => cases isInsert

/-- Every history of a pool is one of a table of shared mutexes. -/
theorem executed_refines (operations : List (SharedTable.Operation Key))
    (few : FewLive operations) :
    ∃ table, Leads PoolError.mutexMissing SharedTable.empty (executed operations).history table ∧
      (executed operations).pool.Stores table := by
  induction operations using List.reverseRecOn with
  | nil => exact ⟨SharedTable.empty, rfl, empty_stores⟩
  | append_singleton operations operation ih =>
      obtain ⟨table, leads, stores⟩ := ih (few.front (List.prefix_append operations [operation]))
      obtain ⟨next, step, storesNext⟩ := next_refines few leads stores
      refine ⟨next, ?_, ?_⟩
      · rw [executed_snoc]
        exact SharedTable.leads_append.mpr ⟨table, leads, next, step, rfl⟩
      · rw [executed_snoc]
        exact storesNext

/-! ## Reference counting -/

/-- The two maps say of each key how often it has been inserted and not erased. -/
structure Counted (trace : Trace Key) : Prop where
  sameKeys : trace.pool.mutexPool.entries.map Prod.fst = trace.pool.mutexCount.entries.map Prod.fst
  present : ∀ key, trace.pool.mutexPool.contains key = true ↔
    successes (.erase key) trace.history < successes (.insert key) trace.history
  counted : ∀ key count, trace.pool.mutexCount.find? key = some count →
    count = (successes (.insert key) trace.history : Int) - successes (.erase key) trace.history
  /-- No two keys have one mutex. -/
  apart : ∀ key other mutex, trace.pool.mutexPool.find? key = some mutex →
    trace.pool.mutexPool.find? other = some mutex → key = other

/-- What an operation throws, and what it leaves alone. -/
structure WellAnswered (pool : MutexPool Key) (operation : SharedTable.Operation Key) : Prop where
  refused : ((Action.perform operation).exec pool).1 = .error (.mutexMissing operation.key) ↔
    operation.needsKey = true ∧ pool.mutexPool.contains operation.key = false
  unchanged : ∀ thrown, ((Action.perform operation).exec pool).1 = .error thrown →
    thrown = .mutexMissing operation.key ∧ ((Action.perform operation).exec pool).2 = pool
  elsewhere : ∀ key, key ≠ operation.key →
    ((Action.perform operation).exec pool).2.mutexPool.find? key = pool.mutexPool.find? key ∧
      ((Action.perform operation).exec pool).2.mutexCount.find? key = pool.mutexCount.find? key

/-- While a key is never without a user all requests for it return one mutex: in
particular between the insertion that makes it present and the erasure that
removes it. -/
def OneMutex (history : History Key Nat (PoolError Key)) : Prop :=
  ∀ key before during after, history = before ++ during ++ after →
    (∀ early, early <+: during →
      successes (.erase key) (before ++ early) < successes (.insert key) (before ++ early)) →
    ∃ mutex, ∀ answer, (.request key, answer) ∈ during → answer = .ok (some mutex)

section ReferenceCounting

variable {operations : List (SharedTable.Operation Key)}

theorem executed_counted (few : FewLive operations) :
    Counted (executed operations) := by
  obtain ⟨table, leads, stores⟩ := executed_refines operations few
  have balanced := SharedTable.users_of_history leads
  constructor
  · apply OrderedMap.keys_eq_of_contains
    intro key
    rw [stores.contains, stores.counts]
  · intro key
    have balance := balanced key
    rw [stores.contains, Option.isSome_iff_exists, ← SharedTable.users_pos_iff]
    omega
  · intro key count counted
    rw [stores.count] at counted
    obtain ⟨shared, lent, same⟩ := Option.map_eq_some_iff.mp counted
    have balance := balanced key
    simp only [SharedTable.users, lent, Option.elim] at balance
    omega
  · intro key other mutex stored storedOther
    rw [stores.mutex] at stored storedOther
    obtain ⟨shared, lent, same⟩ := Option.map_eq_some_iff.mp stored
    obtain ⟨found, lentOther, sameOther⟩ := Option.map_eq_some_iff.mp storedOther
    have apart := SharedTable.leads_apart leads SharedTable.empty_apart
    exact apart key other shared found lent lentOther (same.trans sameOther.symm)

theorem executed_well_answered
    (few : FewLive operations)
    {before : List (SharedTable.Operation Key)} {operation : SharedTable.Operation Key}
    (starts : before ++ [operation] <+: operations) :
    WellAnswered (executed before).pool operation := by
  have fewNext := few.front starts
  obtain ⟨table, leads, stores⟩ :=
    executed_refines before (fewNext.front (List.prefix_append before [operation]))
  obtain ⟨next, step, storesNext⟩ := next_refines fewNext leads stores
  constructor
  · constructor
    · intro refused
      obtain ⟨needs, unused, _⟩ := SharedTable.step_error step refused
      exact ⟨needs, stores.absent unused⟩
    · intro ⟨needs, absent⟩
      rw [exec_missing operation needs absent]
  · intro thrown refused
    obtain ⟨needs, unused, same⟩ := SharedTable.step_error step refused
    apply And.intro same
    rw [exec_missing operation needs (stores.absent unused)]
  · intro key elsewhere
    rw [storesNext.mutex, storesNext.count, SharedTable.step_elsewhere step elsewhere,
      stores.mutex, stores.count]
    exact ⟨rfl, rfl⟩

theorem executed_one_mutex
    (few : FewLive operations) :
    OneMutex (executed operations).history := by
  obtain ⟨table, leads, _⟩ := executed_refines operations few
  intro key before during after split stays
  rw [split] at leads
  exact SharedTable.same_object_of_history leads stays

end ReferenceCounting

/-- A mutex pool is a reference-counted map, as long as its counts fit an `int`. -/
theorem reference_counted (operations : List (SharedTable.Operation Key))
    (few : FewLive operations) :
    Counted (executed operations) ∧
      (∀ before operation, before ++ [operation] <+: operations →
        WellAnswered (executed before).pool operation) ∧
      OneMutex (executed operations).history := by
  refine ⟨executed_counted few, ?_, executed_one_mutex few⟩
  intro before operation starts
  exact executed_well_answered few starts

/-- A key that is inserted twice and erased as often, and then made anew. -/
def counting : List (SharedTable.Operation Bytes) :=
  [.insert ['a'], .insert ['a'], .insert ['b'], .erase ['a'], .request ['a'], .erase ['a'],
    .erase ['a'], .insert ['a'], .request ['a']]

theorem reference_counted_twice :
    (executed counting).history.map Prod.snd =
        [.ok none, .ok none, .ok none, .ok none, .ok (some 0), .ok none,
          .error (.mutexMissing ['a']), .ok none, .ok (some 2)] ∧
      Counted (executed counting) ∧
      (∀ before operation, before ++ [operation] <+: counting →
        WellAnswered (executed before).pool operation) ∧
      OneMutex (executed counting).history :=
  ⟨rfl, reference_counted counting (few_live_of_short (by decide))⟩

end RestfulWebserver.Entity.MutexPool
