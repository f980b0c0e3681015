import Gpiod.Phantom
import Gpiod.Sampling

/-!
Reads of a value that fail.

The -1 of a failed read goes through a plain `char`. Where that is signed the `changed`
functions see it and store nothing, however many reads fail; where it is not, the character
255 passes for a level that no pin can have had before.
-/

namespace Gpiod.FailedRead

open Gpiod.Pin Gpiod.Changed Gpiod.Machine Gpiod.Sampling Gpiod.Phantom

/-- A pin that is read as a value, any sysfs pin or a polled uapi pin, with the variables that its
`changed` function stores to. -/
structure Vars where
  pin : GpioPin
  event : ℤ
  ts : Timespec
  value : ¬ ReadsEvent pin

/-- A call of `pin->changed(pin, &ts, &event)`, which puts out its result. -/
def call (sign : CharSign) (v : Vars) (reads : Reads) : Vars × List ℤ :=
  let c := changed sign v.pin reads
  (⟨{ v.pin with value_ := c.value_ }, (c.stored.map Prod.fst).getD v.event,
    (c.stored.map Prod.snd).getD v.ts, v.value⟩, [c.ret])

/-- Failed reads leave the pin and the variables alone, each with the result -1, and the read
behind them is compared with the last level that was read. -/
structure FailuresKept (sign : CharSign) (v : Vars) : Prop where
  kept : ∀ fails : List Reads, (∀ r ∈ fails, ¬ ReadOk v.pin r) →
    after (call sign) v fails = v ∧ outputs (call sign) v fails = fails.map fun _ => -1
  compared : ∀ (done : List Reads) (last : Reads) (fails : List Reads) (next : Reads),
    ReadOk v.pin last → IsLevel (valueRead v.pin last) → (∀ r ∈ fails, ¬ ReadOk v.pin r) →
      ReadOk v.pin next → IsLevel (valueRead v.pin next) →
        (call sign (after (call sign) v (done ++ last :: fails)) next).2 =
          [if valueRead v.pin next = valueRead v.pin last then 0 else 1]

/-! ### One read -/

lemma valueRead_failed {pin : GpioPin} (hv : ¬ ReadsEvent pin) {reads : Reads}
    (h : ¬ ReadOk pin reads) : valueRead pin reads = -1 := by
  unfold ReadOk at h
  rw [if_neg hv] at h
  unfold valueRead
  cases hf : pin.facility with
  | sysfs =>
    rw [hf] at h
    cases hr : reads.sysfs with
    | byte b => exact absurd ⟨b, hr⟩ h
    | seekFails => rfl
    | readFails => rfl
  | uapi =>
    rw [hf] at h
    cases hr : reads.line with
    | value b => exact absurd ⟨b, hr⟩ h
    | fails => rfl

lemma call_failed (v : Vars) {reads : Reads} (h : ¬ ReadOk v.pin reads) :
    call .signed v reads = (v, [-1]) := by
  have hneg : CharSign.signed.char (valueRead v.pin reads) < 0 := by
    rw [valueRead_failed v.value h]
    decide
  have hc := (changed_value v.value .signed reads).trans (changedFrom_neg hneg)
  rw [call, hc]
  rfl

lemma call_failed_unsigned (v : Vars) {reads : Reads} (h : ¬ ReadOk v.pin reads) :
    (call .unsigned v reads).2 = [1] := by
  have hchar : CharSign.unsigned.char (valueRead v.pin reads) = 255 := by
    rw [valueRead_failed v.value h]
    rfl
  have hne : CharSign.unsigned.char (valueRead v.pin reads) ≠ int8 v.pin.value_ := by
    have := int8_bounds v.pin.value_
    omega
  have hc := (changed_value v.value .unsigned reads).trans (changedFrom_new (by omega) hne)
  rw [call, hc]

lemma call_level (sign : CharSign) (v : Vars) {reads : Reads}
    (hl : IsLevel (valueRead v.pin reads)) :
    int8 (call sign v reads).1.pin.value_ = valueRead v.pin reads ∧
      (call sign v reads).2 = [if valueRead v.pin reads = int8 v.pin.value_ then 0 else 1] := by
  have hchar := hl.char_eq sign
  have h0 : 0 ≤ sign.char (valueRead v.pin reads) := hchar.symm ▸ hl.nonneg
  have hvalue := changed_value v.value sign reads
  by_cases hv : valueRead v.pin reads = int8 v.pin.value_
  · have hc := hvalue.trans (changedFrom_same h0 (hchar.trans hv))
    rw [call, hc, if_pos hv]
    exact ⟨hv.symm, rfl⟩
  · have hc := hvalue.trans (changedFrom_new h0 (by rwa [hchar]))
    rw [call, hc, if_neg hv, hchar]
    refine ⟨?_, rfl⟩
    rw [hl.int8_eq, hl.int8_eq]

lemma noRead_fails (v : Vars) : ¬ ReadOk v.pin noRead := by
  unfold ReadOk
  rw [if_neg v.value]
  cases v.pin.facility with
  | sysfs => exact fun ⟨_, hb⟩ => by cases hb
  | uapi => exact fun ⟨_, hb⟩ => by cases hb

/-! ### Reads one after the other -/

lemma kept_of_signed (v : Vars) {fails : List Reads} (h : ∀ r ∈ fails, ¬ ReadOk v.pin r) :
    after (call .signed) v fails = v ∧
      outputs (call .signed) v fails = fails.map fun _ => -1 := by
  induction fails with
  | nil => exact ⟨rfl, rfl⟩
  | cons r fails ih =>
    obtain ⟨hr, hrest⟩ := List.forall_mem_cons.mp h
    obtain ⟨hafter, hout⟩ := ih hrest
    rw [after_cons, outputs_cons, call_failed v hr]
    exact ⟨hafter, by rw [hout]; rfl⟩

lemma reads_after (sign : CharSign) (v : Vars) (rs : List Reads) (r : Reads) :
    (ReadOk (after (call sign) v rs).pin r ↔ ReadOk v.pin r) ∧
      valueRead (after (call sign) v rs).pin r = valueRead v.pin r := by
  induction rs generalizing v with
  | nil => exact ⟨Iff.rfl, rfl⟩
  | cons r' rs ih => exact ih (call sign v r').1

lemma compared_of_signed (v : Vars) {last next : Reads} {fails : List Reads}
    (hlast : IsLevel (valueRead v.pin last)) (hf : ∀ r ∈ fails, ¬ ReadOk v.pin r)
    (hnext : IsLevel (valueRead v.pin next)) :
    (call .signed (after (call .signed) v (last :: fails)) next).2 =
      [if valueRead v.pin next = valueRead v.pin last then 0 else 1] := by
  obtain ⟨hvalue, -⟩ := call_level .signed v hlast
  have hkept : after (call .signed) v (last :: fails) = (call .signed v last).1 :=
    (kept_of_signed (call .signed v last).1 hf).1
  have hlevel : IsLevel (valueRead (call .signed v last).1.pin next) := hnext
  have hcmp := (call_level .signed (call .signed v last).1 hlevel).2
  rw [hvalue] at hcmp
  rw [hkept]
  exact hcmp

/-- **Failures kept**: a failed read changes nothing, of any pin and any number of times, exactly
if plain `char` is signed. -/
theorem failuresKept_iff (sign : CharSign) (v : Vars) :
    FailuresKept sign v ↔ sign = .signed := by
  constructor
  · intro h
    cases sign with
    | signed => rfl
    | unsigned =>
      obtain ⟨-, hout⟩ := h.kept [noRead] (List.forall_mem_singleton.mpr (noRead_fails v))
      rw [outputs_cons, call_failed_unsigned v (noRead_fails v)] at hout
      cases hout
  · rintro rfl
    refine ⟨fun fails hf => kept_of_signed v hf, fun done last fails next _ hlast hf _ hnext => ?_⟩
    have hsame := reads_after .signed v done
    have hlast' : IsLevel (valueRead (after (call .signed) v done).pin last) := by
      rwa [(hsame last).2]
    have hnext' : IsLevel (valueRead (after (call .signed) v done).pin next) := by
      rwa [(hsame next).2]
    have hcmp := compared_of_signed (after (call .signed) v done) hlast'
      (fun r hr => (hsame r).1.not.mpr (hf r hr)) hnext'
    rw [(hsame last).2, (hsame next).2] at hcmp
    rw [after_append]
    exact hcmp

/-- A sysfs pin at level 1. -/
def high : GpioPin := ⟨bytes "WD0", 0, .sysfs, .both, 1, []⟩

lemma high_value : ¬ ReadsEvent high := by decide

def highPin : Vars := ⟨high, GpiodEdge.max.code, ⟨0, 0⟩, high_value⟩

/-- On a target without a signed `char` a failed read is a falling edge, and the level behind it,
which the pin had before, a rising one. -/
theorem failed_read_falls :
    outputs (call .unsigned) highPin [noRead, ⟨.byte 0x31, .fails, .fails, ⟨8, 0⟩⟩] = [1, 1] ∧
      (call .unsigned highPin noRead).1.event = GpiodEdge.falling.code ∧
      (call .unsigned highPin noRead).1.pin.value_ = -1 ∧
      ¬ FailuresKept .unsigned highPin := by
  refine ⟨by decide, by decide, by decide, fun h => ?_⟩
  have hsign := (failuresKept_iff .unsigned highPin).mp h
  cases hsign

end Gpiod.FailedRead
