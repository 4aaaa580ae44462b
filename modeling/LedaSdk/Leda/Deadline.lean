import LedaSdk.Base.CInt
import LedaSdk.ErrorCode

/-!
# The deadline of a synchronous call

`sdk/leda.c:452–499`: `_ws_get_reply_result` computes the absolute time up to which
`sem_timedwait` waits for the reply. `int` has 32 bits, `long` and `time_t` have 64.
-/

namespace LedaSdk.Leda
open LedaSdk.Base

/-- `struct timespec`. -/
structure Timespec where
  tvSec : Int
  tvNsec : Int
  deriving DecidableEq

namespace Timespec

/-- The time in nanoseconds. -/
def nanoseconds (t : Timespec) : Int := t.tvSec * 10 ^ 9 + t.tvNsec

/-- The nanoseconds are less than a second. -/
def Normalised (t : Timespec) : Prop := 0 ≤ t.tvNsec ∧ t.tvNsec < 10 ^ 9

instance (t : Timespec) : Decidable t.Normalised := inferInstanceAs (Decidable (_ ∧ _))

end Timespec

/-- What `clock_gettime` reads. The seconds stay in `time_t` when the seconds of a timeout
are added. -/
structure ClockTime extends Timespec where
  normalised : toTimespec.Normalised
  le_tvSec : -2 ^ 63 ≤ tvSec
  tvSec_lt : tvSec + 2147483 < 2 ^ 63

/-- The deadline that is computed from the time of the clock, `leda.c:472–473`. -/
def replyDeadline (timeoutMs : Int32) (now : Timespec) : Option Timespec := do
  let nsec ← signedResult 32 (timeoutMs.toInt.tmod 1000 * 1000000000)
  let tvNsec ← signedResult 64 (now.tvNsec + nsec)
  let tvSec ← signedResult 64 (now.tvSec + timeoutMs.toInt.tdiv 1000)
  some ⟨tvSec, tvNsec⟩

/-- The values of `errno` after a `sem_timedwait` that is not interrupted. -/
inductive WaitError where
  | einval
  | etimedout
  deriving DecidableEq

/-- `sem_timedwait` on a semaphore with a value, where `posted` says whether it is posted
before the deadline. Whether the deadline is looked at when there is no need to wait is left
open. -/
inductive SemTimedwait (absTimeout : Timespec) : Nat → Bool → Option WaitError → Prop where
  | locked {value : Nat} {posted : Bool} (h : 0 < value) :
      SemTimedwait absTimeout value posted none
  | refused {value : Nat} {posted : Bool} (h : ¬ absTimeout.Normalised) :
      SemTimedwait absTimeout value posted (some .einval)
  | woken (h : absTimeout.Normalised) : SemTimedwait absTimeout 0 true none
  | timedOut (h : absTimeout.Normalised) : SemTimedwait absTimeout 0 false (some .etimedout)

/-- What `_ws_get_reply_result` returns after the wait, `leda.c:474–498`. -/
def waitRet : Option WaitError → Int32
  | none => leSuccess
  | some _ => leErrorTimeout

section Wait
variable {absTimeout : Timespec} {value : Nat} {posted : Bool} {err : Option WaitError}

/-- A wait is refused only for its deadline. -/
theorem SemTimedwait.ne_einval (h : absTimeout.Normalised)
    (hwait : SemTimedwait absTimeout value posted err) : err ≠ some .einval := by
  rintro rfl
  cases hwait with
  | refused hnot => exact hnot h

/-- A call that has to wait for such a deadline is refused, and reports a timeout. -/
theorem SemTimedwait.waitRet_eq (h : ¬ absTimeout.Normalised)
    (hwait : SemTimedwait absTimeout 0 posted err) :
    err = some .einval ∧ waitRet err = leErrorTimeout := by
  cases hwait with
  | locked hpos => exact absurd hpos (Nat.lt_irrefl 0)
  | refused _ => exact ⟨rfl, rfl⟩
  | woken hn | timedOut hn => exact absurd hn h

end Wait

/-- The deadline overflows no type and is the time of the clock plus the timeout, and no wait
for it is refused. -/
def DeadlineExact (timeoutMs : Int32) (now : Timespec) : Prop :=
  ∃ ts, replyDeadline timeoutMs now = some ts ∧
    ts.nanoseconds = now.nanoseconds + timeoutMs.toInt * 10 ^ 6 ∧ ts.Normalised ∧
    ∀ value posted, ¬ SemTimedwait ts value posted (some .einval)

section Deadline
variable {timeoutMs : Int32} {now : ClockTime}

/-- A timeout of whole seconds is added to the seconds. -/
theorem replyDeadline_whole (h0 : 0 ≤ timeoutMs.toInt) (h : 1000 ∣ timeoutMs.toInt) :
    replyDeadline timeoutMs now.toTimespec =
      some ⟨now.tvSec + timeoutMs.toInt / 1000, now.tvNsec⟩ := by
  have hlt := timeoutMs.toInt_lt
  have hlo := now.le_tvSec
  have hhi := now.tvSec_lt
  obtain ⟨hn0, hn1⟩ := now.normalised
  have hrest : timeoutMs.toInt.tmod 1000 = 0 := Int.tmod_eq_zero_of_dvd h
  have hzero : signedResult 32 0 = some 0 := rfl
  have hnsec : signedResult 64 (now.tvNsec + 0) = some now.tvNsec := by
    rw [Int.add_zero]
    exact signedResult_of_bounds (by omega) (by omega)
  have hsec : signedResult 64 (now.tvSec + timeoutMs.toInt / 1000) =
      some (now.tvSec + timeoutMs.toInt / 1000) :=
    signedResult_of_bounds (by omega) (by omega)
  rw [replyDeadline, hrest, Int.tdiv_eq_ediv_of_nonneg h0]
  simp only [Int.zero_mul, hzero,
    Option.bind_eq_bind, Option.bind_some, hnsec, hsec]

/-- Any other timeout puts a second or more into the nanoseconds, or overflows. -/
theorem not_normalised_of_fraction (h0 : 0 ≤ timeoutMs.toInt) (h : ¬ 1000 ∣ timeoutMs.toInt)
    {ts : Timespec} (hts : replyDeadline timeoutMs now.toTimespec = some ts) :
    ¬ ts.Normalised := by
  obtain ⟨nsec, hnsec, hts⟩ := Option.bind_eq_some_iff.mp hts
  obtain ⟨tvNsec, htvNsec, hts⟩ := Option.bind_eq_some_iff.mp hts
  obtain ⟨tvSec, -, hts⟩ := Option.bind_eq_some_iff.mp hts
  obtain rfl := Option.some.inj hts
  have hrest : timeoutMs.toInt.tmod 1000 = timeoutMs.toInt % 1000 :=
    Int.tmod_eq_emod_of_nonneg h0
  have hn0 := now.normalised.1
  rw [hrest] at hnsec
  have hnsec := eq_of_signedResult hnsec
  have htvNsec := eq_of_signedResult htvNsec
  rintro ⟨-, hlt⟩
  dsimp only at hlt
  omega

/-- The deadline is exact for the timeouts of whole seconds. -/
theorem deadlineExact_iff (h0 : 0 ≤ timeoutMs.toInt) :
    DeadlineExact timeoutMs now.toTimespec ↔ 1000 ∣ timeoutMs.toInt := by
  constructor
  · rintro ⟨ts, hts, -, hnormalised, -⟩
    by_contra h
    exact not_normalised_of_fraction h0 h hts hnormalised
  · intro h
    have hnormalised : Timespec.Normalised
        ⟨now.tvSec + timeoutMs.toInt / 1000, now.tvNsec⟩ := now.normalised
    refine ⟨_, replyDeadline_whole h0 h, ?_, hnormalised,
      fun _ _ hwait ↦ hwait.ne_einval hnormalised rfl⟩
    simp only [Timespec.nanoseconds]
    omega

end Deadline

/-- The timeout of `leda_send_method`, `leda.c:965`. -/
def sendMethodTimeoutMs : Int32 := 10000

/-- The start of the epoch. -/
def epoch : ClockTime := ⟨⟨0, 0⟩, by decide, by decide, by decide⟩

/-- Synchronous calls wait ten seconds. -/
theorem deadlineExact_iff_sendMethod :
    0 ≤ sendMethodTimeoutMs.toInt ∧ DeadlineExact sendMethodTimeoutMs epoch.toTimespec :=
  ⟨by decide, (deadlineExact_iff (by decide)).mpr (by decide)⟩

/-- One millisecond is added as a second of nanoseconds, and a call that has to wait until then
is refused and reports a timeout, even when it is answered. -/
theorem millisecond_refused :
    replyDeadline 1 epoch.toTimespec = some ⟨0, 1000000000⟩ ∧
      SemTimedwait ⟨0, 1000000000⟩ 0 true (some .einval) ∧
      (∀ err, SemTimedwait ⟨0, 1000000000⟩ 0 true err → waitRet err = leErrorTimeout) ∧
      ¬ DeadlineExact 1 epoch.toTimespec := by
  have hnot : ¬ Timespec.Normalised ⟨0, 1000000000⟩ := by decide
  refine ⟨by decide, .refused hnot, fun err hwait ↦ (hwait.waitRet_eq hnot).2, ?_⟩
  rintro ⟨ts, hts, -, hnormalised, -⟩
  exact not_normalised_of_fraction (by decide) (by decide) hts hnormalised

end LedaSdk.Leda
