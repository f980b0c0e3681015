import Gpiod.CLong
import Gpiod.Pin

/-!
The set-up of `loop`: the calls it makes in order, and the label it goes to where one fails.

What the calls return is left open. The result of `make_non_blocking` is not kept, and the
variable tested behind it is zero, so no label is gone to from there.
-/

namespace Gpiod.LoopSetup

open Gpiod.Pin Gpiod.CLong

structure Itimerspec where
  it_interval : Timespec
  it_value : Timespec
  deriving DecidableEq, Repr

/-- The labels behind the loop, in the order of the code: each runs on into the next. -/
inductive Label
  | closeTimerfd | closeSocket | spliceLists
  deriving DecidableEq, Repr

/-- What the calls of the set-up return. -/
structure SetupCalls where
  epollCtlSig : ℤ
  initSocket : ℤ
  listen : ℤ
  epollCtlListen : ℤ
  timerfdCreate : ℤ
  timerfdSettime : Itimerspec → ℤ
  epollCtlTimer : ℤ

/-- `poll_period * 1000000UL`, in a member of the type `long`. -/
def pollNsec (w : LongWidth) (poll_period : ℤ) : ℤ :=
  toLong w (toULong w (toULong w poll_period * 1000000))

def timerSpec (w : LongWidth) (poll_period : ℤ) : Itimerspec where
  it_interval := ⟨0, pollNsec w poll_period⟩
  it_value := ⟨0, pollNsec w poll_period⟩

/-- The label gone to, or `none` where the set-up comes to its end and the loop is entered. -/
def setup (w : LongWidth) (poll_period : ℤ) (calls : SetupCalls) : Option Label :=
  if calls.epollCtlSig = -1 then some .spliceLists
  else if calls.initSocket < 0 then some .spliceLists
  else if calls.listen = -1 then some .closeSocket
  else if calls.epollCtlListen = -1 then some .closeSocket
  else if calls.timerfdCreate = -1 then some .closeSocket
  else if calls.timerfdSettime (timerSpec w poll_period) = -1 then some .closeTimerfd
  else if calls.epollCtlTimer = -1 then some .closeSocket
  else none

end Gpiod.LoopSetup
