import RustyPotato.Snapshot

/-!
# Health checks (`monitoring/health.rs`)

The check of the store sets a key, reads it back and deletes it, in the keyspace of the clients.
Whoever uses that key loses what is under it.
-/

namespace RustyPotato

inductive HealthState where
  | healthy | degraded | unhealthy
deriving DecidableEq

/-- Without the time of the check and how long it took. -/
structure ComponentHealth where
  status : HealthState
  details : List (String × String)
  error : Option String
deriving DecidableEq

structure HealthSummary where
  healthyComponents : Nat
  unhealthyComponents : Nat
  totalComponents : Nat
  overallStatus : HealthState
deriving DecidableEq

structure HealthCheckResult where
  isHealthy : Bool
  components : List (String × ComponentHealth)
  summary : HealthSummary
deriving DecidableEq

/--
What the other checks find. They read the metrics, the memory of the machine, the disk and the
connections, and have no part of the store. The summary of the metrics can panic.
-/
structure OtherChecks where
  metrics : Option ComponentHealth
  memory : ComponentHealth
  disk : ComponentHealth
  network : ComponentHealth

def testKey : String := "__health_check_test__"

def testValue : String := "health_check_value"

section
variable (c : Clock)

/-- `set` and `get` of the store return no errors, so their branches for one are left out. -/
def checkStorageHealth (s : MemoryStore) : ComponentHealth × MemoryStore :=
  let s := (s.atKey testKey fun t => ((), t.set c (.string (utf8 testValue)))).2
  let found := (s.atKey testKey (Slot.get c)).1
  let s := (s.atKey testKey (Slot.get c)).2
  match found with
  | some stored =>
    if stored.value.asString = testValue then
      (⟨.healthy, [("test_operation", "success"), ("storage_type", "memory")], none⟩,
        (s.atKey testKey (Slot.delete c)).2)
    else (⟨.unhealthy, [("test_operation", "value_mismatch")], some "Storage test value mismatch"⟩,
      s)
  | none =>
    (⟨.unhealthy, [("test_operation", "key_not_found")],
      some "Storage test key not found after set"⟩, s)

def overallStatus (healthy unhealthy : Nat) : HealthState :=
  if unhealthy = 0 then .healthy else if unhealthy < healthy then .degraded else .unhealthy

def summarize (components : List (String × ComponentHealth)) : HealthSummary :=
  let healthy := components.countP fun p => p.2.status = .healthy
  let unhealthy := components.length - healthy
  ⟨healthy, unhealthy, components.length, overallStatus healthy unhealthy⟩

/--
Every component has its own name in the map. `none` is the panic, which comes after the check of the
store.
-/
def checkAllComponents (others : OtherChecks) (s : MemoryStore) :
    Option HealthCheckResult × MemoryStore :=
  let storage := checkStorageHealth c s
  (others.metrics.map fun metrics =>
    let components := [("storage", storage.1), ("metrics", metrics), ("memory", others.memory),
      ("disk", others.disk), ("network", others.network)]
    ⟨(summarize components).overallStatus = .healthy, components, summarize components⟩, storage.2)

def isReady (others : OtherChecks) (s : MemoryStore) : Option Bool × MemoryStore :=
  let storage := checkStorageHealth c s
  (others.metrics.map fun metrics => storage.1.status = .healthy ∧ metrics.status = .healthy,
    storage.2)

/-! ## What they leave -/

/-- What the check of the store does, as steps. -/
def testSteps : List Step :=
  [.on testKey (.set (.string (utf8 testValue))), .on testKey .purge, .on testKey .delete]

/-- The check finds what it has written, always, and takes it away again. -/
theorem checkStorageHealth_eq (s : MemoryStore) :
    checkStorageHealth c s =
      (⟨.healthy, [("test_operation", "success"), ("storage_type", "memory")], none⟩,
        Step.runAll c testSteps s) := by
  have hshown : (ValueType.string (utf8 testValue)).asString = testValue :=
    fromUtf8Lossy_utf8 testValue
  have hfound : ((s.put testKey (Slot.set c (.string (utf8 testValue)) (s.slot testKey))).slot
      testKey).unexpired c = some (.new c (.string (utf8 testValue))) := by
    rw [MemoryStore.slot_put_self]
    exact Slot.unexpired_alive c _ none rfl
  simp only [checkStorageHealth, MemoryStore.atKey, Slot.get, hfound, StoredValue.new_value, hshown,
    if_true]
  rfl

theorem live_testSteps (s : MemoryStore) (k : String) :
    (Step.runAll c testSteps s).live c k = if k = testKey then none else s.live c k := by
  rw [Step.live_runAll]
  simp only [testSteps, Step.actAll_cons, Step.actAll_nil, Step.act]
  split_ifs <;> rfl

theorem live_testSteps_iff (s : MemoryStore) :
    (∀ k, (Step.runAll c testSteps s).live c k = s.live c k) ↔ s.live c testKey = none := by
  simp only [live_testSteps]
  constructor
  · intro h
    have hkey := h testKey
    rw [if_pos rfl] at hkey
    exact hkey.symm
  · intro h k
    split_ifs with hk
    · rw [hk, h]
    · rfl

/-- The two checks leave what the clients see exactly when they see nothing under the test key. -/
theorem health_checks_invisible_iff (others : OtherChecks) (s : MemoryStore) :
    ((∀ k, (checkAllComponents c others s).2.live c k = s.live c k) ∧
      ∀ k, (isReady c others s).2.live c k = s.live c k) ↔ s.live c testKey = none := by
  have hall : (checkAllComponents c others s).2 = Step.runAll c testSteps s := by
    rw [checkAllComponents, checkStorageHealth_eq]
  have hready : (isReady c others s).2 = Step.runAll c testSteps s := by
    rw [isReady, checkStorageHealth_eq]
  rw [hall, hready, and_self, live_testSteps_iff]

end

/-- A client has put something under the test key. -/
def testKeyTaken : MemoryStore :=
  (handleConnection asciiCaseMap .default (fun _ => .sample)
    [encodeCommand [utf8 "SET", utf8 testKey, utf8 "v"]] .new).store

/-- Nothing else is wrong. -/
def quietMachine : OtherChecks :=
  ⟨some ⟨.healthy, [], none⟩, ⟨.healthy, [], none⟩, ⟨.healthy, [], none⟩, ⟨.healthy, [], none⟩⟩

/-- One readiness check later it is gone. -/
theorem isReady_deletes_client_key : Reachable asciiCaseMap testKeyTaken ∧
    testKeyTaken.live Env.sample.clock testKey = some ⟨.string (utf8 "v"), none⟩ ∧
    (isReady Env.sample.clock quietMachine testKeyTaken).2.live Env.sample.clock testKey =
      none := by
  refine ⟨handleConnection_reachable .., by decide +kernel, ?_⟩
  rw [isReady, checkStorageHealth_eq, live_testSteps, if_pos rfl]

end RustyPotato
