import Mathlib.Tactic.Common
import Gpiod.Pin

/-!
The `changed` functions of the two facilities: what they read of a pin, what they return,
and what they store.

Both return -1, 0 or 1 and store the event and the timestamp with the 1 only. Whether plain
`char` is signed is up to the target: where it is not, the -1 of a failed read is the
character 255 and passes for a value.
-/

namespace Gpiod.Changed

open Gpiod.Pin

/-! ### Reads -/

/-- `lseek` and `read` on the `value` file. -/
inductive SysfsRead
  | seekFails
  | readFails
  | byte (b : UInt8)
  deriving DecidableEq, Repr

inductive LineRead
  | fails
  | value (b : UInt8)
  deriving DecidableEq, Repr

/-- The `read` of a line event; a short one leaves the structure with what the stack held. -/
inductive EventRead
  | fails
  | short (id timestamp : ℕ)
  | whole (id timestamp : ℕ)
  deriving DecidableEq, Repr

/-- What the system calls of a `changed` function would come to, and the clock. -/
structure Reads where
  sysfs : SysfsRead
  line : LineRead
  event : EventRead
  now : Timespec
  deriving DecidableEq, Repr

/-- Whether plain `char` is signed. -/
inductive CharSign
  | signed | unsigned
  deriving DecidableEq, Repr

/-- The value of a variable of type `int8_t`. -/
def int8 (x : ℤ) : ℤ := (x + 128) % 256 - 128

/-- The value of a variable of type `char`. -/
def CharSign.char : CharSign → ℤ → ℤ
  | .signed, x => int8 x
  | .unsigned, x => x % 256

def sysfsReadValue : SysfsRead → ℤ
  | .byte b => int8 (b.toNat - 0x30)
  | _ => -1

def uapiReadValue : LineRead → ℤ
  | .value b => int8 b.toNat
  | .fails => -1

/-! ### The changed functions -/

structure Outcome where
  ret : ℤ
  /-- `value_` of the pin afterwards -/
  value_ : ℤ
  /-- what is stored through `event` and `time` -/
  stored : Option (ℤ × Timespec)
  deriving DecidableEq, Repr

/-- What both functions do with the value they have read. -/
def changedFrom (sign : CharSign) (read : ℤ) (pin : GpioPin) (now : Timespec) : Outcome :=
  let value := sign.char read
  if value < 0 then ⟨-1, pin.value_, none⟩
  else if value = int8 pin.value_ then ⟨0, pin.value_, none⟩
  else ⟨1, int8 value,
    some (if value = 1 then GpiodEdge.rising.code else GpiodEdge.falling.code, now)⟩

section ChangedFrom

variable {sign : CharSign} {read : ℤ} {pin : GpioPin} {now : Timespec}

lemma changedFrom_neg (h : sign.char read < 0) :
    changedFrom sign read pin now = ⟨-1, pin.value_, none⟩ := if_pos h

lemma changedFrom_same (h0 : 0 ≤ sign.char read) (h : sign.char read = int8 pin.value_) :
    changedFrom sign read pin now = ⟨0, pin.value_, none⟩ := by
  rw [changedFrom, if_neg (by omega), if_pos h]

lemma changedFrom_new (h0 : 0 ≤ sign.char read) (h : sign.char read ≠ int8 pin.value_) :
    changedFrom sign read pin now = ⟨1, int8 (sign.char read), some
      (if sign.char read = 1 then GpiodEdge.rising.code else GpiodEdge.falling.code, now)⟩ := by
  rw [changedFrom, if_neg (by omega), if_neg h]

end ChangedFrom

def sysfsChangedValue (sign : CharSign) (pin : GpioPin) (reads : Reads) : Outcome :=
  changedFrom sign (sysfsReadValue reads.sysfs) pin reads.now

def gpioeventEventRisingEdge : ℕ := 1
def gpioeventEventFallingEdge : ℕ := 2

/-- The switch over the id of the event read. -/
def changedBy (id timestamp : ℕ) (pin : GpioPin) : Outcome :=
  let time : Timespec := ⟨(timestamp / 1000000000 : ℕ), (timestamp % 1000000000 : ℕ)⟩
  if id = gpioeventEventRisingEdge then ⟨1, 1, some (GpiodEdge.rising.code, time)⟩
  else if id = gpioeventEventFallingEdge then ⟨1, 0, some (GpiodEdge.falling.code, time)⟩
  else ⟨-1, pin.value_, none⟩

def uapiChangedValue (sign : CharSign) (pin : GpioPin) (reads : Reads) : Outcome :=
  if pin.edge ≠ .polled then
    match reads.event with
    | .fails => ⟨-1, pin.value_, none⟩
    | .short id timestamp | .whole id timestamp => changedBy id timestamp pin
  else changedFrom sign (uapiReadValue reads.line) pin reads.now

/-- `pin->changed`. -/
def changed (sign : CharSign) (pin : GpioPin) (reads : Reads) : Outcome :=
  match pin.facility with
  | .sysfs => sysfsChangedValue sign pin reads
  | .uapi => uapiChangedValue sign pin reads

/-! ### What was read -/

/-- The pin is read as an event, not as a value. -/
def ReadsEvent (pin : GpioPin) : Prop := pin.facility = .uapi ∧ pin.edge ≠ .polled

instance (pin : GpioPin) : Decidable (ReadsEvent pin) := inferInstanceAs (Decidable (_ ∧ _))

/-- The event that is looked at, read whole or not. -/
def EventRead.seen : EventRead → Option (ℕ × ℕ)
  | .fails => none
  | .short id timestamp | .whole id timestamp => some (id, timestamp)

/-- What the read function of the facility returns. -/
def valueRead (pin : GpioPin) (reads : Reads) : ℤ :=
  match pin.facility with
  | .sysfs => sysfsReadValue reads.sysfs
  | .uapi => uapiReadValue reads.line

/-- The system calls of the read succeed and deliver all that was asked for. -/
def ReadOk (pin : GpioPin) (reads : Reads) : Prop :=
  if ReadsEvent pin then ∃ id timestamp, reads.event = .whole id timestamp
  else match pin.facility with
    | .sysfs => ∃ b, reads.sysfs = .byte b
    | .uapi => ∃ b, reads.line = .value b

lemma changed_event {pin : GpioPin} (h : ReadsEvent pin) (sign : CharSign) (reads : Reads) :
    changed sign pin reads =
      match reads.event.seen with
      | none => ⟨-1, pin.value_, none⟩
      | some (id, timestamp) => changedBy id timestamp pin := by
  obtain ⟨hf, he⟩ := h
  simp only [changed, hf, uapiChangedValue, he, ne_eq, not_false_eq_true, ↓reduceIte]
  cases reads.event <;> rfl

lemma changed_value {pin : GpioPin} (h : ¬ ReadsEvent pin) (sign : CharSign) (reads : Reads) :
    changed sign pin reads = changedFrom sign (valueRead pin reads) pin reads.now := by
  unfold changed valueRead
  cases hf : pin.facility with
  | sysfs => rfl
  | uapi =>
    have he : pin.edge = .polled := by
      by_contra he
      exact h ⟨hf, he⟩
    simp [uapiChangedValue, he]

/-- **What the result says about the store**: the event and the timestamp are stored with the
result 1 and no other. -/
theorem changed_ret (sign : CharSign) (pin : GpioPin) (reads : Reads) :
    ((changed sign pin reads).ret = 1 ∧ (changed sign pin reads).stored.isSome) ∨
      ((changed sign pin reads).ret = 0 ∧ (changed sign pin reads).stored = none) ∨
        ((changed sign pin reads).ret = -1 ∧ (changed sign pin reads).stored = none) := by
  by_cases h : ReadsEvent pin
  · rw [changed_event h]
    cases reads.event.seen with
    | none => simp
    | some e =>
      simp only [changedBy]
      split_ifs <;> simp
  · rw [changed_value h]
    rcases Int.lt_or_le (sign.char (valueRead pin reads)) 0 with h0 | h0
    · simp [changedFrom_neg h0]
    · by_cases hv : sign.char (valueRead pin reads) = int8 pin.value_
      · simp [changedFrom_same h0 hv]
      · simp [changedFrom_new h0 hv]

lemma int8_bounds (x : ℤ) : -128 ≤ int8 x ∧ int8 x < 128 := by
  unfold int8; omega

lemma char_failed (sign : CharSign) : sign.char (-1) < 0 ∨ 128 ≤ sign.char (-1) := by
  cases sign
  · exact Or.inl (by decide)
  · exact Or.inr (by decide)

lemma readOk_of_ret_zero {sign : CharSign} {pin : GpioPin} {reads : Reads}
    (h : (changed sign pin reads).ret = 0) : ReadOk pin reads := by
  by_cases he : ReadsEvent pin
  · rw [changed_event he] at h
    cases hs : reads.event.seen with
    | none => simp [hs] at h
    | some e =>
      simp only [hs, changedBy] at h
      split_ifs at h <;> cases h
  · rw [changed_value he] at h
    have hval : 0 ≤ sign.char (valueRead pin reads) ∧ sign.char (valueRead pin reads) < 128 := by
      have := int8_bounds pin.value_
      rcases Int.lt_or_le (sign.char (valueRead pin reads)) 0 with h0 | h0
      · rw [changedFrom_neg h0] at h; cases h
      · by_cases hv : sign.char (valueRead pin reads) = int8 pin.value_
        · omega
        · rw [changedFrom_new h0 hv] at h; cases h
    -- so the read did not return the -1 of a failure
    have hne : valueRead pin reads ≠ -1 := by
      intro hf
      rw [hf] at hval
      have := char_failed sign
      omega
    unfold ReadOk
    rw [if_neg he]
    unfold valueRead at hne
    cases hf : pin.facility with
    | sysfs =>
      rw [hf] at hne
      cases hr : reads.sysfs with
      | byte b => exact ⟨b, rfl⟩
      | seekFails => simp [hr, sysfsReadValue] at hne
      | readFails => simp [hr, sysfsReadValue] at hne
    | uapi =>
      rw [hf] at hne
      cases hr : reads.line with
      | value b => exact ⟨b, rfl⟩
      | fails => simp [hr, uapiReadValue] at hne

end Gpiod.Changed
