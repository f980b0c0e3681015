import Mathlib.Data.List.Basic
import Mathlib.Data.Nat.Notation
import Mathlib.Data.Int.Notation

/-!
Pins and hooks, as `gpiod-pin.h` and `gpiod-hooktab.h` declare them, and the comparison of C
strings their tables are searched with.

A C string is the list of its bytes without the terminating NUL.
-/

namespace Gpiod.Pin

/-- A C string, without its NUL. -/
abbrev Str := List UInt8

def bytes (s : String) : Str := s.toList.map Char.toUInt8

/-- `strncmp(a, b, n) == 0`. -/
def strncmpEq : Str → Str → ℕ → Bool
  | _, _, 0 => true
  | [], [], _ + 1 => true
  | a :: as, b :: bs, n + 1 => a == b && strncmpEq as bs n
  | _, _, _ + 1 => false

lemma strncmpEq_comm (v w : Str) (n : ℕ) : strncmpEq v w n = strncmpEq w v n := by
  induction n generalizing v w with
  | zero => simp only [strncmpEq]
  | succ n ih => cases v <;> cases w <;> simp only [strncmpEq, ih, Bool.beq_comm]

lemma strncmpEq_length (v w : Str) : strncmpEq v w v.length = v.isPrefixOf w := by
  induction v generalizing w with
  | nil => simp [strncmpEq]
  | cons a v ih => cases w <;> simp [strncmpEq, List.isPrefixOf, ih]

/-! ### Hooks -/

def hooktabModRise : ℕ := 1 <<< 0
def hooktabModFall : ℕ := 1 <<< 1
def hooktabModNoLoop : ℕ := 1 <<< 2
def hooktabModOneshot : ℕ := 1 <<< 3
def hooktabModMax : ℕ := 0xff

inductive HooktabArgs
  | label | eventText | eventNum | max
  deriving DecidableEq, Repr

structure GpiodHookArgs where
  arg : HooktabArgs
  c_arg : Option Str
  deriving DecidableEq, Repr

structure GpiodHook where
  path : Str
  flags : ℕ
  fired : ℤ
  spawned : ℤ
  arg_list_size : ℕ
  arg_list : List GpiodHookArgs
  deriving DecidableEq, Repr

/-! ### Pins -/

structure Timespec where
  tv_sec : ℤ
  tv_nsec : ℤ
  deriving DecidableEq, Repr

inductive GpiodFacility
  | sysfs | uapi
  deriving DecidableEq, Repr

/-- `max` is what a section without an `edge` option leaves. -/
inductive GpiodEdge
  | rising | falling | both | polled | max
  deriving DecidableEq, Repr

def GpiodEdge.code : GpiodEdge → ℤ
  | .rising => 0
  | .falling => 1
  | .both => 2
  | .polled => 3
  | .max => 4

/-- `local_` is the field `local` of the source, and `label` the string that is read at the array
of that name. -/
structure GpioPin where
  label : Str
  local_ : ℤ
  facility : GpiodFacility
  edge : GpiodEdge
  value_ : ℤ
  hook_list : List GpiodHook
  deriving DecidableEq, Repr

/-- The position in `gp_list` of the pin that `find_pin_by_label` returns. -/
def findPinByLabel (gp_list : List GpioPin) (label : Str) : Option ℕ :=
  gp_list.findIdx? fun pin => strncmpEq label pin.label label.length

/-- `list_add_tail(&(hook->list), &(pin->hook_list))`. -/
def GpioPin.addHook (pin : GpioPin) (hook : GpiodHook) : GpioPin :=
  { pin with hook_list := pin.hook_list ++ [hook] }

@[simp] lemma addHook_label (pin : GpioPin) (hook : GpiodHook) :
    (pin.addHook hook).label = pin.label := rfl
@[simp] lemma addHook_hook_list (pin : GpioPin) (hook : GpiodHook) :
    (pin.addHook hook).hook_list = pin.hook_list ++ [hook] := rfl

lemma addHook_ne (pin : GpioPin) (hook : GpiodHook) : pin.addHook hook ≠ pin := by
  intro h
  have := congrArg (fun p => p.hook_list.length) h
  simp at this

end Gpiod.Pin
