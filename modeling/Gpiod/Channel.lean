import Gpiod.Config
import Gpiod.Stream

/-!
The local number of a pin on its way from the configuration to the packets of `dispatch`.

The option is a `long`, the pin keeps an `int`, `dispatch` takes a `uint32_t` and
`dispatch_raw_pack` a `uint8_t`. Only the last conversion loses anything.
-/

namespace Gpiod.Channel

open Gpiod.Pin Gpiod.Config Gpiod.Broadcast Gpiod.Stream

/-- The packet `dispatch` sends for a pin. -/
def sent (pin : GpioPinMem) (ts : Timespec) (value : ℤ) : Str :=
  rawPacket ts (u32 pin.local_) value

/-- The channel of a packet, read as a decimal integer. -/
def channelField (packet : Str) : Option ℕ := do
  let (_, _, chan, _) ← (← decode packet).head?
  return chan

/-- A configured number that is a non-negative `int`. -/
structure LocalInt (v : ℤ) : Prop where
  nonneg : 0 ≤ v
  lt : v < 0x80000000

/-- The pin is loaded from the section. -/
def LoadedFrom (gp : GpioSection) (pin : GpioPinMem) : Prop :=
  ∃ gpiodUapi g mem, loadPin gpiodUapi g gp mem = some pin

/-- The packets of two pins differ, and carry the configured numbers. -/
structure IdentityKept (gp gp' : GpioSection) (pin pin' : GpioPinMem) : Prop where
  ne : ∀ ts value, sent pin ts value ≠ sent pin' ts value
  left : ∀ ts value, (channelField (sent pin ts value)).map Int.ofNat = some gp.local_
  right : ∀ ts value, (channelField (sent pin' ts value)).map Int.ofNat = some gp'.local_

/-! ### The conversions -/

lemma LocalInt.toInt {v : ℤ} (h : LocalInt v) : toInt v = v :=
  Int.bmod_eq_of_le (by have := h.nonneg; omega) (by have := h.lt; omega)

lemma u8_u32 (x : ℤ) : u8 (u32 x) = u8 x := by
  unfold u8 u32; omega

lemma LoadedFrom.local_ {gp : GpioSection} {pin : GpioPinMem} (h : LoadedFrom gp pin) :
    pin.local_ = Config.toInt gp.local_ := by
  obtain ⟨gpiodUapi, g, mem, hload⟩ := h
  exact (filledFrom_of_loadPin hload).local_

/-! ### The channel of a packet -/

lemma channelField_sent (pin : GpioPinMem) (ts : Timespec) (value : ℤ) :
    channelField (sent pin ts value) = some (u8 pin.local_) := by
  unfold channelField sent
  rw [decode_rawPacket, u8_u32]
  rfl

lemma sent_eq_iff (pin pin' : GpioPinMem) (ts : Timespec) (value : ℤ) :
    sent pin ts value = sent pin' ts value ↔ u8 pin.local_ = u8 pin'.local_ := by
  constructor
  · intro h
    have hfield := congrArg channelField h
    rw [channelField_sent, channelField_sent] at hfield
    exact Option.some.inj hfield
  · intro h
    unfold sent
    rw [rawPacket_eq, rawPacket_eq, dispatchRawPack_eq, dispatchRawPack_eq, u8_u32, u8_u32, h]

lemma LocalInt.u8_eq_iff {v : ℤ} (h : LocalInt v) : (u8 v : ℤ) = v ↔ v < 256 := by
  have := h.nonneg
  unfold u8
  omega

lemma LoadedFrom.channel_iff {gp : GpioSection} {pin : GpioPinMem} (hp : LoadedFrom gp pin)
    (h : LocalInt gp.local_) (ts : Timespec) (value : ℤ) :
    (channelField (sent pin ts value)).map Int.ofNat = some gp.local_ ↔ gp.local_ < 256 := by
  rw [channelField_sent, hp.local_, h.toInt, Option.map_some, Option.some_inj]
  exact h.u8_eq_iff

variable {gp gp' : GpioSection} {pin pin' : GpioPinMem}

lemma sent_ne (hp : LoadedFrom gp pin) (hp' : LoadedFrom gp' pin') (h : LocalInt gp.local_)
    (h' : LocalInt gp'.local_) (hne : gp.local_ ≠ gp'.local_) (hlt : gp.local_ < 256)
    (hlt' : gp'.local_ < 256) (ts : Timespec) (value : ℤ) :
    sent pin ts value ≠ sent pin' ts value := by
  intro heq
  have hu8 := (sent_eq_iff pin pin' ts value).mp heq
  rw [hp.local_, hp'.local_, h.toInt, h'.toInt] at hu8
  exact hne (by rw [← h.u8_eq_iff.mpr hlt, hu8, h'.u8_eq_iff.mpr hlt'])

/-- **The identity of pins survives** the way into the packets exactly where both local numbers
are bytes. -/
theorem identityKept_iff (hp : LoadedFrom gp pin) (hp' : LoadedFrom gp' pin')
    (h : LocalInt gp.local_) (h' : LocalInt gp'.local_) (hne : gp.local_ ≠ gp'.local_) :
    IdentityKept gp gp' pin pin' ↔ gp.local_ < 256 ∧ gp'.local_ < 256 := by
  constructor
  · intro hk
    exact ⟨(hp.channel_iff h ⟨0, 0⟩ 0).mp (hk.left ⟨0, 0⟩ 0),
      (hp'.channel_iff h' ⟨0, 0⟩ 0).mp (hk.right ⟨0, 0⟩ 0)⟩
  · rintro ⟨hlt, hlt'⟩
    exact ⟨sent_ne hp hp' h h' hne hlt hlt', fun ts value => (hp.channel_iff h ts value).mpr hlt,
      fun ts value => (hp'.channel_iff h' ts value).mpr hlt'⟩

/-- A section that configures a local number. -/
def sectionOf (v : ℤ) : GpioSection := ⟨none, -1, none, -1, v, none, none, .both, false⟩

def pinOf (v : ℤ) : GpioPinMem :=
  { dirty with
    local_ := Config.toInt v
    name := clearedName dirty
    edge := .both }

lemma loadedFrom_pinOf (v : ℤ) : LoadedFrom (sectionOf v) (pinOf v) :=
  ⟨false, .sysfs, dirty, rfl⟩

theorem bytes_kept : IdentityKept (sectionOf 0) (sectionOf 255) (pinOf 0) (pinOf 255) :=
  (identityKept_iff (loadedFrom_pinOf 0) (loadedFrom_pinOf 255) ⟨by decide, by decide⟩
    ⟨by decide, by decide⟩ (by decide)).mpr ⟨by decide, by decide⟩

/-- The packets of the pins 0 and 256 are the same, whatever the time and the value. -/
theorem pins_collide : LoadedFrom (sectionOf 0) (pinOf 0) ∧
    LoadedFrom (sectionOf 256) (pinOf 256) ∧
    (∀ ts value, sent (pinOf 0) ts value = sent (pinOf 256) ts value) ∧
    ¬ IdentityKept (sectionOf 0) (sectionOf 256) (pinOf 0) (pinOf 256) := by
  have heq : ∀ ts value, sent (pinOf 0) ts value = sent (pinOf 256) ts value :=
    fun ts value => (sent_eq_iff _ _ ts value).mpr (by decide)
  exact ⟨loadedFrom_pinOf 0, loadedFrom_pinOf 256, heq, fun h => h.ne ⟨0, 0⟩ 0 (heq _ _)⟩

end Gpiod.Channel
