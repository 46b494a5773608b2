import Orchestration.Time.Instant

/-!
# Instants as numbers of nanoseconds

An instant outside the leap seconds is a whole number of nanoseconds since the first second of 1970.
The order of instants is the order of these numbers.  A span earlier is the difference and a span
later the sum, or there is no instant so early or so late.
-/

set_option autoImplicit false

namespace Orchestration

namespace Span

def length (span : Span) : Int :=
  span.seconds * nanosPerSecond + span.nanos

theorem length_ofSeconds (n : Nat) :
    (ofSeconds n).length = min (n * nanosPerSecond : Int) greatest.length := by
  rw [ofSeconds]
  split
  · rename_i short
    simp only [length, greatest, nanosPerSecond] at short ⊢
    omega
  · rename_i long
    simp only [length, greatest, nanosPerSecond] at long ⊢
    omega

theorem nanos_ofSeconds (n : Nat) : (ofSeconds n).nanos < nanosPerSecond := by
  rw [ofSeconds]
  split
  · exact (by decide : 0 < nanosPerSecond)
  · decide

end Span

namespace Instant

/-- Not in a leap second. -/
def IsOrdinary (t : Instant) : Prop :=
  t.nano < nanosPerSecond

instance (t : Instant) : Decidable t.IsOrdinary :=
  inferInstanceAs (Decidable (_ < _))

/-- The nanoseconds since the first second of 1970, negative before it. -/
def nanos (t : Instant) : Int :=
  t.second * nanosPerSecond + t.nano

theorem firstSecond_eq : firstSecond = -8334601228800 := by decide

theorem lastSecond_eq : lastSecond = 8210266876799 := by decide

theorem le_iff_nanos {a b : Instant} (ordinary : a.IsOrdinary) (ordinary' : b.IsOrdinary) :
    a.le b = true ↔ a.nanos ≤ b.nanos := by
  simp only [IsOrdinary, nanosPerSecond] at ordinary ordinary'
  simp only [le, nanos, nanosPerSecond, Bool.or_eq_true, Bool.and_eq_true, decide_eq_true_eq,
    beq_iff_eq]
  omega

theorem first_le_nanos (t : Instant) : firstSecond * nanosPerSecond ≤ t.nanos := by
  have := t.inRange.1
  simp only [nanos, nanosPerSecond]
  omega

/-- No two instants are as far apart as the greatest span is long. -/
theorem apart_lt {later : Instant} (ordinary : later.IsOrdinary) (earlier : Instant) :
    later.nanos - earlier.nanos < Span.greatest.length := by
  have first := earlier.inRange.1
  have last := later.inRange.2
  rw [firstSecond_eq] at first
  rw [lastSecond_eq] at last
  simp only [IsOrdinary, nanosPerSecond] at ordinary
  simp only [nanos, Span.length, Span.greatest, nanosPerSecond]
  omega

theorem of?_eq_some {second : Int} {nano : Nat} {t : Instant} (made : of? second nano = some t) :
    t.second = second ∧ t.nano = nano := by
  rw [of?] at made
  split at made
  · split at made
    · cases made
      exact ⟨rfl, rfl⟩
    · cases made
  · cases made

theorem of?_eq_none {second : Int} {nano : Nat} (small : nano < nanosPerSecond)
    (missing : of? second nano = none) : second < firstSecond ∨ lastSecond < second := by
  have formed : nano < 2 * nanosPerSecond ∧ (nanosPerSecond ≤ nano → second % 60 = 59) := by omega
  rw [of?, dif_pos formed] at missing
  split at missing
  · cases missing
  · omega

theorem add?_later {t later : Instant} {span : Span} (whole : 0 < span.seconds)
    (there : t.add? span = some later) : t.second < later.second := by
  have notWithin : (span.seconds == 0) = false := by
    rw [beq_eq_false_iff_ne]
    omega
  simp only [add?, notWithin, Bool.and_false, Bool.false_and, Bool.false_eq_true, if_false] at there
  rw [(of?_eq_some there).1]
  generalize (_ / nanosPerSecond : Nat) = carried
  omega

section Earlier

variable {t : Instant} {span : Span} (ordinary : t.IsOrdinary) (small : span.nanos < nanosPerSecond)

include ordinary small

theorem sub?_eq : ∃ (second : Int) (nano : Nat), t.sub? span = of? second nano ∧
    nano < nanosPerSecond ∧ second ≤ t.second ∧
    second * nanosPerSecond + nano = t.nanos - span.length := by
  simp only [IsOrdinary] at ordinary
  have notLeap : ¬ nanosPerSecond ≤ t.nano := by omega
  simp only [sub?, notLeap, decide_false, Bool.false_and, Bool.false_eq_true, if_false, nanos,
    Span.length]
  simp only [nanosPerSecond] at ordinary small ⊢
  split
  · exact ⟨_, _, rfl, by omega, by omega, by omega⟩
  · exact ⟨_, _, rfl, by omega, by omega, by omega⟩

theorem sub?_eq_some {start : Instant} (earlier : t.sub? span = some start) :
    start.IsOrdinary ∧ start.nanos = t.nanos - span.length := by
  obtain ⟨second, nano, asked, below, _, exactly⟩ := sub?_eq ordinary small
  obtain ⟨rfl, rfl⟩ := of?_eq_some (asked.symm.trans earlier)
  exact ⟨below, exactly⟩

theorem sub?_eq_none (missing : t.sub? span = none) :
    t.nanos - span.length < firstSecond * nanosPerSecond := by
  obtain ⟨second, nano, asked, below, early, exactly⟩ := sub?_eq ordinary small
  have last := t.inRange.2
  rcases of?_eq_none below (asked.symm.trans missing) with before | after
  · simp only [nanosPerSecond] at below exactly ⊢
    omega
  · omega

end Earlier

section Later

variable {t : Instant} {span : Span} (ordinary : t.IsOrdinary)

include ordinary

theorem add?_eq (span : Span) : ∃ (second : Int) (nano : Nat), t.add? span = of? second nano ∧
    nano < nanosPerSecond ∧ t.second ≤ second ∧
    second * nanosPerSecond + nano = t.nanos + span.length := by
  simp only [IsOrdinary] at ordinary
  have notLeap : ¬ nanosPerSecond ≤ t.nano := by omega
  simp only [add?, notLeap, decide_false, Bool.false_and, Bool.false_eq_true, if_false, nanos,
    Span.length]
  simp only [nanosPerSecond]
  exact ⟨_, _, rfl, by omega, by omega, by omega⟩

theorem add?_eq_some {later : Instant} (there : t.add? span = some later) :
    later.IsOrdinary ∧ later.nanos = t.nanos + span.length := by
  obtain ⟨second, nano, asked, below, _, exactly⟩ := add?_eq ordinary span
  obtain ⟨rfl, rfl⟩ := of?_eq_some (asked.symm.trans there)
  exact ⟨below, exactly⟩

theorem add?_eq_none (missing : t.add? span = none) {other : Instant}
    (ordinary' : other.IsOrdinary) : other.nanos < t.nanos + span.length := by
  obtain ⟨second, nano, asked, below, late, exactly⟩ := add?_eq ordinary span
  have first := t.inRange.1
  have last := other.inRange.2
  rcases of?_eq_none below (asked.symm.trans missing) with before | after
  · omega
  · simp only [IsOrdinary, nanosPerSecond] at ordinary'
    simp only [nanos, nanosPerSecond] at exactly ⊢
    omega

end Later

end Instant

end Orchestration
