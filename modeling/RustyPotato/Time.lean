import RustyPotato.Text

/-!
# Clocks

A deadline is an `Instant` of the monotonic clock, here an `Int`. The wall clock only enters where a
command or the rewrite names a Unix time. All times are in nanoseconds.
-/

namespace RustyPotato

def nanosPerMilli : Nat := 1000000

def nanosPerSec : Nat := 1000000000

/--
One reading of both clocks, at which a command runs. The wall clock counts from the Unix epoch. The
bound says that a count of milliseconds still fits a `u64`.
-/
structure Clock where
  mono : Nat
  wall : Int
  mono_lt : mono < 2 ^ 64 * nanosPerMilli
  wall_lt : wall < 2 ^ 64 * nanosPerMilli
deriving DecidableEq

/-- Both clocks at this count. -/
def Clock.ofNanos (nanos : Nat) (h : nanos < 2 ^ 64) : Clock where
  mono := nanos
  wall := nanos
  mono_lt := by
    simp only [nanosPerMilli]
    omega
  wall_lt := by
    simp only [nanosPerMilli]
    push_cast
    omega

def Clock.ofSecs (secs : Nat) (h : secs < 2 ^ 32) : Clock :=
  .ofNanos (secs * nanosPerSec) (by simp only [nanosPerSec]; omega)

/-- `Instant::now()`. -/
def Clock.now (c : Clock) : Int := c.mono

/--
`SystemTime::now().duration_since(UNIX_EPOCH)` as `u64` milliseconds, an error before the epoch.
-/
def Clock.unixMillis (c : Clock) : Option Nat :=
  if c.wall < 0 then none else some ((c.wall / nanosPerMilli).toNat % 2 ^ 64)

/-- `Instant + Duration`. It panics when the seconds leave `i64`. -/
def addDuration (i : Int) (nanos : Nat) : Option Int :=
  if i + nanos < 2 ^ 63 * nanosPerSec then some (i + nanos) else none

/-- `Duration::from_secs`. -/
def fromSecs (n : Nat) : Nat := n * nanosPerSec

/-- `Duration::from_millis`. -/
def fromMillis (n : Nat) : Nat := n * nanosPerMilli

/-- What the wall clock shows at an instant, as long as nobody sets it. -/
def Clock.wallOf (c : Clock) (instant : Int) : Int := instant - c.now + c.wall

/-- Both clocks moved by the same amount: one process, and nobody set the wall clock in between. -/
def Clock.inStep (a b : Clock) : Prop := a.wall - a.now = b.wall - b.now

instance (a b : Clock) : Decidable (a.inStep b) := inferInstanceAs (Decidable (_ = _))

theorem Clock.inStep.wallOf_eq (a b : Clock) (h : a.inStep b) (instant : Int) :
    a.wallOf instant = b.wallOf instant := by
  unfold inStep at h
  unfold wallOf
  omega

theorem addDuration_eq_some (i d : Int) (nanos : Nat) (h : addDuration i nanos = some d) :
    d = i + nanos := by
  unfold addDuration at h
  split at h
  · exact (Option.some.inj h).symm
  · cases h

/-- Milliseconds never overflow: both operands are far below the seconds of an `i64`. -/
theorem addDuration_millis (c : Clock) (n : Nat) (h : n < 2 ^ 64) :
    addDuration c.now (fromMillis n) = some (c.now + fromMillis n) := by
  unfold addDuration
  rw [if_pos]
  have hm := c.mono_lt
  simp only [Clock.now, fromMillis, nanosPerMilli, nanosPerSec] at *
  push_cast
  omega

/-- The milliseconds of the wall clock, without the cast. -/
theorem unixMillis_eq (c : Clock) (h : 0 ≤ c.wall) :
    ∃ ms : Nat, c.unixMillis = some ms ∧ (ms : Int) = c.wall / nanosPerMilli ∧ ms < 2 ^ 64 := by
  have hlt := c.wall_lt
  refine ⟨(c.wall / nanosPerMilli).toNat, ?_, ?_, ?_⟩
  · rw [Clock.unixMillis, if_neg (by omega), Nat.mod_eq_of_lt]
    simp only [nanosPerMilli] at *
    omega
  · simp only [nanosPerMilli] at *
    omega
  · simp only [nanosPerMilli] at *
    omega

theorem unixMillis_eq_some (c : Clock) (ms : Nat) (h : c.unixMillis = some ms) :
    0 ≤ c.wall ∧ (ms : Int) = c.wall / nanosPerMilli ∧ ms < 2 ^ 64 := by
  have hw : 0 ≤ c.wall := by
    by_contra hneg
    rw [Clock.unixMillis, if_pos (by omega)] at h
    cases h
  obtain ⟨n, hn, heq, hlt⟩ := unixMillis_eq c hw
  rw [hn] at h
  obtain rfl := Option.some.inj h
  exact ⟨hw, heq, hlt⟩

end RustyPotato
