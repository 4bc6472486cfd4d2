import RustyPotato.Lib.Decimal
import RustyPotato.Lib.Machine
import RustyPotato.Time

/-!
# Command metrics (`metrics/mod.rs`, `metrics/collector.rs`)

Counts, latencies and errors by the name of the command. A new name gets a key of its own as long as
there are few names among the counts, and goes to a common key after that. The errors are bounded by
the same test, but they do not make the counts grow.
-/

namespace RustyPotato

open Lib

/-! ## Histograms -/

/-- A `u64` that is incremented. It wraps around in a release build. -/
def increment (n : Nat) : Nat := (n + 1) % 2 ^ 64

/-- `Duration + Duration` in nanoseconds. It panics when the seconds leave `u64`. -/
def addDurations (a b : Nat) : Option Nat :=
  if a + b < 2 ^ 64 * nanosPerSec then some (a + b) else none

/--
`Duration / u32`, which panics at zero. Seconds and nanoseconds are divided on their own, and then
what is left of both.
-/
def divDuration (d rhs : Nat) : Option Nat :=
  let secs := d / nanosPerSec
  let nanos := d % nanosPerSec
  if rhs = 0 then none
  else
    let rest := secs % rhs * nanosPerSec + nanos % rhs
    some (secs / rhs * nanosPerSec + (nanos / rhs + rest / rhs))

/-- The buckets are pairs of an upper bound in nanoseconds and a count. -/
structure Histogram where
  buckets : List (Nat × Nat)
  totalCount : Nat
  totalSum : Nat
deriving DecidableEq

namespace Histogram

/-- Microseconds, in nanoseconds. -/
def fromMicros (n : Nat) : Nat := n * 1000

def new : Histogram where
  buckets := [(fromMicros 10, 0), (fromMicros 50, 0), (fromMicros 100, 0), (fromMicros 500, 0),
    (fromMillis 1, 0), (fromMillis 5, 0), (fromMillis 10, 0), (fromMillis 50, 0),
    (fromMillis 100, 0), (fromMillis 500, 0), (fromSecs 1, 0), (fromSecs 5, 0)]
  totalCount := 0
  totalSum := 0

/-- The loop over the buckets: the first whose bound is no smaller counts the value. -/
def countFirst (value : Nat) : List (Nat × Nat) → Option (List (Nat × Nat))
  | [] => none
  | (limit, count) :: rest =>
    if value ≤ limit then some ((limit, increment count) :: rest)
    else (countFirst value rest).map ((limit, count) :: ·)

/-- `buckets.last_mut()`. -/
def countLast : List (Nat × Nat) → List (Nat × Nat)
  | [] => []
  | [(limit, count)] => [(limit, increment count)]
  | bucket :: rest => bucket :: countLast rest

/--
A sum that cannot be represented is a panic, `none` here, and comes after the total has been
counted.
-/
def record (value : Nat) (h : Histogram) : Option Unit × Histogram :=
  let h := { h with totalCount := increment h.totalCount }
  match addDurations h.totalSum value with
  | none => (none, h)
  | some sum =>
    (some (), { h with
      totalSum := sum
      buckets := (countFirst value h.buckets).getD (countLast h.buckets) })

/--
The count is narrowed to the `u32` that a duration is divided by. The outer `none` is the panic.
-/
def average (h : Histogram) : Option (Option Nat) :=
  if h.totalCount = 0 then some none else (divDuration h.totalSum (h.totalCount % 2 ^ 32)).map some

end Histogram

/-! ## Command metrics -/

def maxDistinctCommands : Nat := 64

def otherBucket : String := "_other_"

structure CommandMetrics where
  commandCounts : Finmap fun _ : String => Nat
  commandLatencies : Finmap fun _ : String => Histogram
  commandErrors : Finmap fun _ : String => Nat
deriving DecidableEq

/-- `*map.entry(key).or_insert(0) += 1`. -/
def tick (m : Finmap fun _ : String => Nat) (key : String) : Finmap fun _ : String => Nat :=
  m.insert key (increment ((m.lookup key).getD 0))

namespace CommandMetrics

def new : CommandMetrics := ⟨∅, ∅, ∅⟩

def bucketKey (m : CommandMetrics) (command : String) : String :=
  if (m.commandCounts.lookup command).isSome ∨
      m.commandCounts.keys.card < maxDistinctCommands then command
  else otherBucket

/-- A panic of the histogram leaves the maps as they are by then. -/
def recordCommand (m : CommandMetrics) (command : String) (duration : Nat) :
    Option Unit × CommandMetrics :=
  let key := m.bucketKey command
  let recorded := ((m.commandLatencies.lookup key).getD .new).record duration
  (recorded.1, { m with
    commandCounts := tick m.commandCounts key
    commandLatencies := m.commandLatencies.insert key recorded.2 })

def recordCommandError (m : CommandMetrics) (command : String) : CommandMetrics :=
  { m with commandErrors := tick m.commandErrors (m.bucketKey command) }

end CommandMetrics

inductive MetricsCall where
  | command (name : String) (duration : Nat)
  | error (name : String)
deriving DecidableEq

namespace MetricsCall

def isCommand : MetricsCall → Bool
  | command _ _ => true
  | error _ => false

def run : MetricsCall → CommandMetrics → CommandMetrics
  | command name duration, m => (m.recordCommand name duration).2
  | error name, m => m.recordCommandError name

/-- One call after the other. -/
def step (call : MetricsCall) (m : CommandMetrics) : Option CommandMetrics := some (call.run m)

end MetricsCall

/-! ## The sums -/

/-- The sum of all counts. -/
def total (m : Finmap fun _ : String => Nat) : Nat := ∑ k ∈ m.keys, (m.lookup k).getD 0

theorem keys_insert {β : Type} (m : Finmap fun _ : String => β) (k : String) (v : β) :
    (m.insert k v).keys = insert k m.keys := by
  ext x
  simp [Finmap.mem_keys, Finmap.mem_insert]

theorem total_insert (m : Finmap fun _ : String => Nat) (k : String) (v : Nat) :
    total (m.insert k v) + (m.lookup k).getD 0 = total m + v := by
  have hothers : ∀ x ∈ m.keys.erase k, ((m.insert k v).lookup x).getD 0 = (m.lookup x).getD 0 := by
    intro x hx
    rw [Finmap.lookup_insert_of_ne _ (Finset.ne_of_mem_erase hx)]
  unfold total
  rw [keys_insert, ← Finset.insert_erase (Finset.mem_insert_self k m.keys),
    Finset.erase_insert_eq_erase, Finset.sum_insert (Finset.notMem_erase k _),
    Finset.sum_congr rfl hothers, Finmap.lookup_insert, Option.getD_some]
  by_cases hk : k ∈ m.keys
  · rw [← Finset.add_sum_erase _ _ hk]
    omega
  · have hnone : m.lookup k = none := by
      rw [Finmap.lookup_eq_none]
      exact fun hmem => hk (Finmap.mem_keys.mpr hmem)
    rw [Finset.erase_eq_of_notMem hk, hnone, Option.getD_none]
    omega

theorem lookup_le_total (m : Finmap fun _ : String => Nat) (k : String) :
    (m.lookup k).getD 0 ≤ total m := by
  have h := total_insert m k 0
  omega

theorem total_tick (m : Finmap fun _ : String => Nat) (k : String) (h : total m + 1 < 2 ^ 64) :
    total (tick m k) = total m + 1 := by
  have hle := lookup_le_total m k
  have htotal := total_insert m k (increment ((m.lookup k).getD 0))
  have hincrement : increment ((m.lookup k).getD 0) = (m.lookup k).getD 0 + 1 :=
    Nat.mod_eq_of_lt (by omega)
  unfold tick
  omega

/-- The counts and the errors add up to the calls. -/
structure Tallied (calls : List MetricsCall) (m : CommandMetrics) : Prop where
  counts : total m.commandCounts = calls.countP fun call => call.isCommand
  errors : total m.commandErrors = calls.countP fun call => !call.isCommand

theorem Tallied.step (calls : List MetricsCall) (call : MetricsCall) (m : CommandMetrics)
    (h : Tallied calls m) (hlength : (calls ++ [call]).length < 2 ^ 64) :
    Tallied (calls ++ [call]) (call.run m) := by
  have hcounts := calls.countP_le_length (p := fun call => call.isCommand)
  have herrors := calls.countP_le_length (p := fun call => !call.isCommand)
  rw [List.length_append, List.length_singleton] at hlength
  constructor
  · rw [List.countP_append, List.countP_singleton, ← h.counts]
    cases call with
    | command name duration => exact total_tick _ _ (by rw [h.counts]; omega)
    | error name => rfl
  · rw [List.countP_append, List.countP_singleton, ← h.errors]
    cases call with
    | command name duration => rfl
    | error name => exact total_tick _ _ (by rw [h.errors]; omega)

theorem tallied (calls : List MetricsCall) (hlength : calls.length < 2 ^ 64) (m : CommandMetrics)
    (hrun : Machine.run MetricsCall.step calls .new = some m) : Tallied calls m := by
  refine Machine.run_induction MetricsCall.step .new (fun calls m => calls.length < 2 ^ 64 →
    Tallied calls m) (fun _ => ⟨rfl, rfl⟩) ?_ calls m hrun hlength
  intro calls m call m' _ ih hstep hlength
  cases hstep
  refine Tallied.step calls call m (ih ?_) hlength
  rw [List.length_append] at hlength
  omega

/-! ## The keys -/

/-- The names that have a key of their own. -/
def ownKeys {β : Type} (m : Finmap fun _ : String => β) : Finset String := m.keys.erase otherBucket

theorem card_keys_le {β : Type} (m : Finmap fun _ : String => β)
    (h : (ownKeys m).card ≤ maxDistinctCommands) : m.keys.card ≤ maxDistinctCommands + 1 := by
  have hpred : m.keys.card - 1 ≤ (ownKeys m).card := Finset.pred_card_le_card_erase
  omega

/-- At most 64 names of their own among the counts, and the same keys among the latencies. -/
structure CommandMetrics.Bounded (m : CommandMetrics) : Prop where
  counts : (ownKeys m.commandCounts).card ≤ maxDistinctCommands
  latencies : m.commandLatencies.keys = m.commandCounts.keys

theorem mem_keys_iff (m : CommandMetrics) (name : String) :
    (m.commandCounts.lookup name).isSome ↔ name ∈ m.commandCounts.keys := by
  rw [Finmap.lookup_isSome, Finmap.mem_keys]

/-- The key is a name that is counted already, a new one while there is room, or the common key. -/
theorem CommandMetrics.bucketKey_cases (m : CommandMetrics) (name : String) :
    m.bucketKey name ∈ m.commandCounts.keys ∨
      (m.bucketKey name = name ∧ m.commandCounts.keys.card < maxDistinctCommands) ∨
        m.bucketKey name = otherBucket := by
  unfold bucketKey
  split_ifs with h
  · exact h.imp (mem_keys_iff m name).mp fun hroom => .inl ⟨rfl, hroom⟩
  · exact .inr (.inr rfl)

theorem CommandMetrics.Bounded.recordCommand (m : CommandMetrics) (h : m.Bounded) (name : String)
    (duration : Nat) : (m.recordCommand name duration).2.Bounded := by
  constructor
  · unfold CommandMetrics.recordCommand tick ownKeys
    rw [keys_insert]
    rcases m.bucketKey_cases name with hmem | ⟨_, hroom⟩ | hother
    · rw [Finset.insert_eq_of_mem hmem]
      exact h.counts
    · calc ((insert (m.bucketKey name) m.commandCounts.keys).erase otherBucket).card
          ≤ (insert (m.bucketKey name) m.commandCounts.keys).card := Finset.card_erase_le
        _ ≤ m.commandCounts.keys.card + 1 := Finset.card_insert_le _ _
        _ ≤ maxDistinctCommands := hroom
    · rw [hother, Finset.erase_insert_eq_erase]
      exact h.counts
  · unfold CommandMetrics.recordCommand tick
    rw [keys_insert, keys_insert, h.latencies]

theorem MetricsCall.bounded (calls : List MetricsCall) (m : CommandMetrics)
    (hrun : Machine.run step calls .new = some m) : m.Bounded := by
  refine Machine.invariant step (fun _ _ => True) CommandMetrics.Bounded ?_ calls .new m
    (Machine.along_of_mem step _ calls (fun _ _ _ => trivial) .new) hrun ⟨by decide, rfl⟩
  intro call m m' h _ hstep
  cases hstep
  cases call with
  | command name duration => exact h.recordCommand m name duration
  | error name => exact ⟨h.counts, h.latencies⟩

/-- An error is recorded for a command that is counted, or when the counts have no room left. -/
def MetricsCall.Counted : MetricsCall → CommandMetrics → Bool
  | command _ _, _ => true
  | error name, m =>
    (m.commandCounts.lookup name).isSome || decide (maxDistinctCommands ≤ m.commandCounts.keys.card)

theorem CommandMetrics.bucketKey_counted (m : CommandMetrics) (name : String)
    (h : (MetricsCall.error name).Counted m = true) :
    m.bucketKey name ∈ insert otherBucket m.commandCounts.keys := by
  unfold MetricsCall.Counted at h
  rw [Bool.or_eq_true, decide_eq_true_iff, mem_keys_iff] at h
  unfold bucketKey
  split_ifs with hown
  · rw [mem_keys_iff] at hown
    refine Finset.mem_insert_of_mem ?_
    rcases h with hmem | hfull
    · exact hmem
    · exact hown.resolve_right (by omega)
  · exact Finset.mem_insert_self ..

/-- The errors have no key that the counts do not have. -/
theorem MetricsCall.errors_keys (calls : List MetricsCall) (m : CommandMetrics)
    (hcounted : Machine.Along step (fun call m => call.Counted m = true) calls .new)
    (hrun : Machine.run step calls .new = some m) :
    m.commandErrors.keys ⊆ insert otherBucket m.commandCounts.keys := by
  refine Machine.invariant step _
    (fun m => m.commandErrors.keys ⊆ insert otherBucket m.commandCounts.keys) ?_ calls .new m
    hcounted hrun (Finset.empty_subset _)
  intro call m m' h hcall hstep
  cases hstep
  cases call with
  | command name duration =>
    refine h.trans (Finset.insert_subset_insert _ ?_)
    unfold run CommandMetrics.recordCommand tick
    rw [keys_insert]
    exact Finset.subset_insert ..
  | error name =>
    unfold run CommandMetrics.recordCommandError tick
    rw [keys_insert]
    exact Finset.insert_subset (m.bucketKey_counted name hcall) h

/--
The sums are exact for any calls, and so is the bound for the counts and the latencies. The errors
need commands that have been counted.
-/
theorem metrics_bounded_and_lossless (calls : List MetricsCall) (hlength : calls.length < 2 ^ 64)
    (m : CommandMetrics) (hrun : Machine.run MetricsCall.step calls .new = some m) :
    m.commandCounts.keys.card ≤ maxDistinctCommands + 1 ∧
      m.commandLatencies.keys.card ≤ maxDistinctCommands + 1 ∧
      (Machine.Along MetricsCall.step (fun call m => call.Counted m = true) calls .new →
        m.commandErrors.keys.card ≤ maxDistinctCommands + 1) ∧
      total m.commandCounts = (calls.countP fun call => call.isCommand) ∧
      total m.commandErrors = calls.countP fun call => !call.isCommand := by
  have hbounded := MetricsCall.bounded calls m hrun
  have htallied := tallied calls hlength m hrun
  have hcounts := card_keys_le m.commandCounts hbounded.counts
  refine ⟨hcounts, hbounded.latencies ▸ hcounts, fun hcounted => ?_, htallied.counts,
    htallied.errors⟩
  refine card_keys_le m.commandErrors (le_trans (Finset.card_le_card ?_) hbounded.counts)
  calc ownKeys m.commandErrors
      ⊆ (insert otherBucket m.commandCounts.keys).erase otherBucket :=
        Finset.erase_subset_erase _ (MetricsCall.errors_keys calls m hcounted hrun)
    _ = ownKeys m.commandCounts := Finset.erase_insert_eq_erase ..

/-- A command and an error of it. -/
def failingGet : List MetricsCall := [.command "GET" 700, .error "GET"]

theorem failingGet_bounded : ∃ m, Machine.run MetricsCall.step failingGet .new = some m ∧
    m.commandErrors.keys.card ≤ maxDistinctCommands + 1 ∧ total m.commandErrors = 1 := by
  have h := metrics_bounded_and_lossless failingGet (by decide) _ rfl
  refine ⟨_, rfl, h.2.2.1 ?_, h.2.2.2.2⟩
  exact Machine.along_of_check MetricsCall.step MetricsCall.Counted failingGet .new
    (by decide +kernel)

/-- The errors alone never fill the counts, so that each new name has its own key. -/
theorem run_errors_alone (names : List String) (m : CommandMetrics) (h : m.commandCounts = ∅) :
    ∃ t, Machine.run MetricsCall.step (names.map .error) m = some t ∧
      t.commandErrors.keys = m.commandErrors.keys ∪ names.toFinset := by
  induction names generalizing m with
  | nil => exact ⟨m, rfl, by rw [List.toFinset_nil, Finset.union_empty]⟩
  | cons name names ih =>
    have hkey : m.bucketKey name = name := by
      unfold CommandMetrics.bucketKey
      rw [h, if_pos (.inr (by decide))]
    obtain ⟨t, hrun, hkeys⟩ := ih (m.recordCommandError name) h
    refine ⟨t, hrun, ?_⟩
    rw [hkeys, List.toFinset_cons, Finset.union_insert]
    unfold CommandMetrics.recordCommandError tick
    rw [keys_insert, hkey, Finset.insert_union]

/-- Sixty-six names that have not been counted. -/
def manyNames : List String := (List.range 66).map toString

theorem errors_alone_unbounded : ∃ m,
    Machine.run MetricsCall.step (manyNames.map .error) .new = some m ∧
      ¬ m.commandErrors.keys.card ≤ maxDistinctCommands + 1 := by
  obtain ⟨m, hrun, hkeys⟩ := run_errors_alone manyNames .new rfl
  refine ⟨m, hrun, ?_⟩
  have hnodup : manyNames.Nodup := List.nodup_range.map Decimal.toString_nat_injective
  have hcard : m.commandErrors.keys.card = 66 := by
    rw [hkeys, show CommandMetrics.new.commandErrors.keys = ∅ from rfl, Finset.empty_union,
      List.toFinset_card_of_nodup hnodup, manyNames, List.length_map, List.length_range]
  rw [hcard]
  decide

end RustyPotato
