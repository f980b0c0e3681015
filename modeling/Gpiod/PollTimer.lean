import Gpiod.Config
import Gpiod.Loop
import Gpiod.LoopSetup

/-!
The poll period of the configuration as the time of the poll timer.

All of it is put into the nanoseconds, which the kernel takes up to one second only, and the
test of the configuration lets a period of zero pass, for which the timer is disarmed.
-/

namespace Gpiod.PollTimer

open Gpiod.Pin Gpiod.Config Gpiod.CLong Gpiod.LoopSetup Gpiod.Loop Gpiod.Changed Gpiod.Dispatch

/-! ### The timer -/

/-- A time in normalized form, as the kernel takes it. -/
structure Normal (ts : Timespec) : Prop where
  sec : 0 ≤ ts.tv_sec
  low : 0 ≤ ts.tv_nsec
  high : ts.tv_nsec ≤ 999999999

instance (ts : Timespec) : Decidable (Normal ts) :=
  decidable_of_iff (0 ≤ ts.tv_sec ∧ 0 ≤ ts.tv_nsec ∧ ts.tv_nsec ≤ 999999999)
    ⟨fun ⟨hs, hl, hh⟩ => ⟨hs, hl, hh⟩, fun h => ⟨h.sec, h.low, h.high⟩⟩

def nanoseconds (ts : Timespec) : ℤ := ts.tv_sec * 1000000000 + ts.tv_nsec

/-- `timerfd_settime` on a timer, without flags. -/
def timerfdSettime (ts : Itimerspec) : ℤ :=
  if Normal ts.it_interval ∧ Normal ts.it_value then 0 else -1

/-- The nanoseconds from the setting of a timer to an expiry; a timer set to zero is disarmed, and
one without an interval expires once. -/
def expiry (ts : Itimerspec) (n : ℕ) : Option ℤ :=
  if nanoseconds ts.it_value = 0 then none
  else if nanoseconds ts.it_interval = 0 ∧ n ≠ 0 then none
  else some (nanoseconds ts.it_value + n * nanoseconds ts.it_interval)

/-! ### The poll period -/

/-- A poll value of the configuration that `conf_validate_positive` accepts. -/
structure AcceptedPoll (w : LongWidth) where
  value : ℤ
  isLong : IsLong w value
  accepted : confValidatePositive value = 0

/-- The time that the timer is set to for a poll value, which `loadConfig` puts in an `int`. -/
def pollSpec (w : LongWidth) (poll : ℤ) : Itimerspec := timerSpec w (toInt poll)

/-- The poll value, in milliseconds, drives the poll timer. -/
structure Drives (w : LongWidth) (poll : ℤ) : Prop where
  normal : Normal (pollSpec w poll).it_interval ∧ Normal (pollSpec w poll).it_value
  period : nanoseconds (pollSpec w poll).it_interval = poll * 1000000
  first : nanoseconds (pollSpec w poll).it_value = poll * 1000000
  armed : (pollSpec w poll).it_value ≠ ⟨0, 0⟩
  taken : timerfdSettime (pollSpec w poll) = 0
  /-- whatever the other calls of the set-up return -/
  stays : ∀ calls : SetupCalls, calls.timerfdSettime = timerfdSettime →
    setup w (toInt poll) calls ≠ some .closeTimerfd
  /-- at every expiry each pin of the poll list is handled -/
  sampled : ∀ n, expiry (pollSpec w poll) n = some ((n + 1) * (poll * 1000000)) ∧
    ∀ gp_list, ∀ i ∈ pList gp_list, ∀ (reads : ℕ → Reads) (x : ℕ → Returns),
      .handle .timer i (reads i) (x i) ∈ readySteps gp_list (.timerFd reads x)

lemma pollSpec_value (w : LongWidth) (poll : ℤ) :
    (pollSpec w poll).it_value = ⟨0, pollNsec w (toInt poll)⟩ := rfl

lemma pollSpec_interval (w : LongWidth) (poll : ℤ) :
    (pollSpec w poll).it_interval = ⟨0, pollNsec w (toInt poll)⟩ := rfl

lemma nanoseconds_nsec (n : ℤ) : nanoseconds ⟨0, n⟩ = n := by simp [nanoseconds]

lemma pollNsec_eq (w : LongWidth) {poll : ℤ} (h0 : 0 ≤ poll) (h : poll ≤ 999) :
    pollNsec w (toInt poll) = poll * 1000000 := by
  have hint : toInt poll = poll := Int.bmod_eq_of_le (by omega) (by omega)
  have hlong : IsLong w (poll * 1000000) := by
    cases w <;> exact ⟨by simp only [LongWidth.half]; omega, by simp only [LongWidth.half]; omega⟩
  have hulong : toULong w poll = poll := by
    refine Int.emod_eq_of_lt h0 ?_
    cases w <;> simp only [LongWidth.modulus] <;> omega
  rw [pollNsec, hint, hulong, toLong_toULong, toLong_eq hlong]

/-- The label behind `timerfd_settime` is gone to from there only. -/
lemma setup_closeTimerfd {w : LongWidth} {poll_period : ℤ} {calls : SetupCalls}
    (h : setup w poll_period calls = some .closeTimerfd) :
    calls.timerfdSettime (timerSpec w poll_period) = -1 := by
  by_contra hne
  rw [setup, if_neg hne] at h
  split_ifs at h <;> cases h

lemma handled_of_mem {gp_list : List GpioPin} {i : ℕ} (hi : i ∈ pList gp_list) (reads : ℕ → Reads)
    (x : ℕ → Returns) :
    .handle .timer i (reads i) (x i) ∈ readySteps gp_list (.timerFd reads x) :=
  List.mem_map.mpr ⟨i, hi, rfl⟩

lemma drives_of_range (w : LongWidth) {poll : ℤ} (h1 : 1 ≤ poll) (h : poll ≤ 999) :
    Drives w poll := by
  have hvalue := pollSpec_value w poll
  have hinterval := pollSpec_interval w poll
  rw [pollNsec_eq w (by omega) h] at hvalue hinterval
  have hnormal : Normal ⟨0, poll * 1000000⟩ :=
    ⟨Int.le_refl 0, by simp only; omega, by simp only; omega⟩
  have htaken : timerfdSettime (pollSpec w poll) = 0 := by
    rw [timerfdSettime, hvalue, hinterval, if_pos ⟨hnormal, hnormal⟩]
  refine ⟨⟨hinterval ▸ hnormal, hvalue ▸ hnormal⟩, by rw [hinterval, nanoseconds_nsec],
    by rw [hvalue, nanoseconds_nsec], ?_, htaken, fun calls hcalls hexit => ?_, fun n => ⟨?_, ?_⟩⟩
  · rw [hvalue, Ne, Timespec.mk.injEq]
    omega
  · have hfail := setup_closeTimerfd hexit
    rw [hcalls] at hfail
    exact absurd (htaken.symm.trans hfail) (by decide)
  · rw [expiry, hvalue, hinterval, nanoseconds_nsec, if_neg (by omega), if_neg (by omega),
      Int.add_mul, Int.one_mul, Int.add_comm]
  · exact fun gp_list i hi reads x => handled_of_mem hi reads x

/-- **Which accepted poll values drive the timer**: those from one millisecond on and below one
second, with either width of `long`. -/
theorem drives_iff (w : LongWidth) (poll : AcceptedPoll w) :
    Drives w poll.value ↔ 1 ≤ poll.value ∧ poll.value ≤ 999 := by
  constructor
  · intro h
    have hnsec := h.first
    rw [pollSpec_value, nanoseconds_nsec] at hnsec
    have hlow : 0 ≤ pollNsec w (toInt poll.value) := h.normal.2.low
    have hhigh : pollNsec w (toInt poll.value) ≤ 999999999 := h.normal.2.high
    have hne : pollNsec w (toInt poll.value) ≠ 0 := fun h0 => by
      refine h.armed ?_
      rw [pollSpec_value, h0]
    omega
  · rintro ⟨h1, h⟩
    exact drives_of_range w h1 h

/-- A period of one second is accepted, and the loop is left at the setting of the timer; one of
zero is accepted, and the timer never expires. -/
theorem second_and_zero :
    (confValidatePositive 1000 = 0 ∧ ¬ Drives .w32 1000 ∧ ¬ Drives .w64 1000 ∧
        setup .w64 (toInt 1000) ⟨0, 0, 0, 0, 0, timerfdSettime, 0⟩ = some .closeTimerfd) ∧
      confValidatePositive 0 = 0 ∧ ¬ Drives .w64 0 ∧ ∀ n, expiry (pollSpec .w64 0) n = none := by
  refine ⟨⟨by decide, fun h => ?_, fun h => ?_, by decide⟩, by decide, fun h => ?_, fun n => rfl⟩
  · exact absurd h.taken (by decide)
  · exact absurd h.taken (by decide)
  · exact h.armed (by decide)

end Gpiod.PollTimer
