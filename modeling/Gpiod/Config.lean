import Gpiod.CString
import Gpiod.Pin

/-!
The pins of the configuration, as `loadConfig` of `gpiod-config.c` makes them from the
sections that libconfuse has parsed.

The memory of a pin comes from `malloc`, and what it held before is anything. Of the three
arrays only `name` is cleared, and the copies into them are bounded by their size.
-/

namespace Gpiod.Config

open Gpiod.CString Gpiod.Pin

/-- Conversion of a `long` to `int`. -/
def toInt (x : ℤ) : ℤ := Int.bmod x 0x100000000

inductive GpiodActiveLow
  | no | yes
  deriving DecidableEq, Repr

/-- The size of `gpiochip`, `name` and `label`. -/
def arraySize : ℕ := 32

/-- `struct gpio_pin` as it lies in memory. -/
structure GpioPinMem where
  system : ℤ
  gpiochip : Bytes arraySize
  offset : ℤ
  local_ : ℤ
  name : Bytes arraySize
  label : Bytes arraySize
  facility : GpiodFacility
  edge : GpiodEdge
  active_low : GpiodActiveLow
  deriving DecidableEq

/-- A text that fits behind the options of libconfuse has no NUL. -/
abbrev Text := { s : Str // 0 ∉ s }

/-- A section `gpio` with the values of its options; `none` is a text that is not given, or the
facility `GPIOD_FACILITY_MAX`. -/
structure GpioSection where
  facility : Option GpiodFacility
  system : ℤ
  gpiochip : Option Text
  offset : ℤ
  local_ : ℤ
  name : Option Text
  label : Option Text
  edge : GpiodEdge
  active_low : Bool

structure Cfg where
  listen : Option Str
  port : ℤ
  poll : ℤ
  facility : GpiodFacility
  gpio : List GpioSection

/-- What `cfg_parse` comes to. -/
inductive Parsed
  | fileError
  | parseError
  | success (cfg : Cfg)

/-- The entries of an array of names, with the enumerators they stand at. -/
def gpiodFacilityArray : List (Str × GpiodFacility) :=
  [(bytes "sysfs", .sysfs), (bytes "uapi", .uapi)]

def gpiodEdgeArray : List (Str × GpiodEdge) :=
  [(bytes "rising", .rising), (bytes "falling", .falling), (bytes "both", .both),
    (bytes "polled", .polled)]

/-- The loop of the two parse functions: what is stored as the result, or `none` for -1. -/
def confParse {α : Type} (array : List (Str × α)) (value : Str) : Option α :=
  (array.find? fun e => strncmpEq e.1 value e.1.length).map Prod.snd

def confParseFacility (value : Str) : Option GpiodFacility := confParse gpiodFacilityArray value

def confParseEdge (value : Str) : Option GpiodEdge := confParse gpiodEdgeArray value

/-- `conf_validate_positive`, on the value of an option. -/
def confValidatePositive (value : ℤ) : ℤ := if toInt value < 0 then -1 else 0

/-! ### Allocation -/

def allocSysfsGpioPin (mem : GpioPinMem) : GpioPinMem := { mem with facility := .sysfs }

def allocUapiGpioPin (mem : GpioPinMem) : GpioPinMem := { mem with facility := .uapi }

/-- `alloc_gpio_pin`, in a build with or without GPIOD_UAPI; `mem` is what `malloc` returns. -/
def allocGpioPin (gpiodUapi : Bool) (facility : GpiodFacility) (mem : GpioPinMem) :
    Option GpioPinMem :=
  let pin : Option GpioPinMem :=
    match facility with
    | .sysfs => some (allocSysfsGpioPin mem)
    | .uapi => if gpiodUapi then some (allocUapiGpioPin mem) else none
  pin.map fun pin =>
    { pin with name := ⟨memset pin.name 0 arraySize, length_memset 0 pin.name.property⟩ }

/-- `if(text) strncpy(array, text, sizeof(array))`. -/
def copyOption (array : Bytes arraySize) : Option Text → Bytes arraySize
  | none => array
  | some s => ⟨strncpy array s arraySize, length_strncpy array.property⟩

/-! ### Loading -/

/-- The body of the loop over the sections: the pin that is appended, if one is. -/
def loadPin (gpiodUapi : Bool) (globalFacility : GpiodFacility) (gp : GpioSection)
    (mem : GpioPinMem) : Option GpioPinMem :=
  (allocGpioPin gpiodUapi (gp.facility.getD globalFacility) mem).map fun pin =>
    { pin with
      system := toInt gp.system
      gpiochip := copyOption pin.gpiochip gp.gpiochip
      offset := toInt gp.offset
      local_ := toInt gp.local_
      name := copyOption pin.name gp.name
      label := copyOption pin.label gp.label
      edge := gp.edge
      active_low := if gp.active_low then .yes else .no }

/-- The loop, from section `i` on; `heap` is the memory each round gets. -/
def loadPins (gpiodUapi : Bool) (globalFacility : GpiodFacility) (heap : ℕ → GpioPinMem) :
    ℕ → List GpioSection → List GpioPinMem
  | _, [] => []
  | i, gp :: gps =>
    match loadPin gpiodUapi globalFacility gp (heap i) with
    | none => loadPins gpiodUapi globalFacility heap (i + 1) gps
    | some pin => pin :: loadPins gpiodUapi globalFacility heap (i + 1) gps

/-- What the code relies on outside of it: the build, the outcome of `inet_pton`, and the memory
that `malloc` returns. -/
structure Env where
  gpiodUapi : Bool
  inetPton : Str → ℤ
  heap : ℕ → GpioPinMem

/-- What `loadConfig` leaves: its result, and the pins appended to `gp_list`. -/
structure Loaded where
  ret : ℤ
  pins : List GpioPinMem

def cfgFileError : ℤ := -1
def cfgParseError : ℤ := 1
def einval : ℤ := 22

/-- `loadConfig`; `none` where it passes NULL to `inet_pton`, the option `listen` not being
given. -/
def loadConfig (env : Env) : Parsed → Option Loaded
  | .fileError => some ⟨cfgFileError, []⟩
  | .parseError => some ⟨cfgParseError, []⟩
  | .success cfg =>
    match cfg.listen with
    | none => none
    | some ip =>
      if env.inetPton ip = 0 then some ⟨einval, []⟩
      else some ⟨0, loadPins env.gpiodUapi cfg.facility env.heap 0 cfg.gpio⟩

/-! ### The strings of a pin -/

structure Strings where
  gpiochip : Str
  name : Str
  label : Str
  deriving DecidableEq

/-- The strings a pin holds, where each of its arrays has a NUL. -/
def GpioPinMem.strings (pin : GpioPinMem) : Option Strings := do
  return ⟨← cstring pin.gpiochip, ← cstring pin.name, ← cstring pin.label⟩

/-- The string is the option's text where that fits, and empty where the option is omitted. -/
def TextOf (opt : Option Text) (s : Str) : Prop :=
  match opt with
  | none => s = []
  | some t => t.val.length < arraySize → s = t

/-- The strings are those that a section asks for. -/
structure Names (gp : GpioSection) (s : Strings) : Prop where
  gpiochip : TextOf gp.gpiochip s.gpiochip
  name : TextOf gp.name s.name
  label : TextOf gp.label s.label

/-- A pin of this facility is allocated. -/
def hasFacility (gpiodUapi : Bool) : GpiodFacility → Bool
  | .sysfs => true
  | .uapi => gpiodUapi

/-- The sections of a list that get a pin. -/
def withPin (gpiodUapi : Bool) (g : GpiodFacility) (gps : List GpioSection) : List GpioSection :=
  gps.filter fun gp => hasFacility gpiodUapi (gp.facility.getD g)

def loadedSections (gpiodUapi : Bool) (inetPton : Str → ℤ) : Parsed → List GpioSection
  | .success cfg =>
    match cfg.listen with
    | none => []
    | some ip =>
      if inetPton ip = 0 then []
      else withPin gpiodUapi cfg.facility cfg.gpio
  | _ => []

/-- Whatever memory the pins get, each array has a NUL, and holds a string that is a function of
the section. -/
def Determined (gpiodUapi : Bool) (inetPton : Str → ℤ) (parsed : Parsed) : Prop :=
  ∃ f : GpioSection → Strings, (∀ gp, Names gp (f gp)) ∧
    ∀ heap loaded, loadConfig ⟨gpiodUapi, inetPton, heap⟩ parsed = some loaded →
      loaded.pins.map GpioPinMem.strings =
        (loadedSections gpiodUapi inetPton parsed).map fun gp => some (f gp)

/-- The chip and the label are given, and no text is as long as its array. -/
structure Complete (gp : GpioSection) : Prop where
  gpiochip : ∃ t, gp.gpiochip = some t ∧ t.val.length < arraySize
  name : ∀ t, gp.name = some t → t.val.length < arraySize
  label : ∃ t, gp.label = some t ∧ t.val.length < arraySize

/-! ### One pin -/

/-- The string an option asks for. -/
def asked : Option Text → Str
  | none => []
  | some t => t

def GpioSection.strings (gp : GpioSection) : Strings :=
  ⟨asked gp.gpiochip, asked gp.name, asked gp.label⟩

lemma textOf_asked (opt : Option Text) : TextOf opt (asked opt) := by
  cases opt with
  | none => rfl
  | some t => exact fun _ => rfl

lemma names_strings (gp : GpioSection) : Names gp gp.strings :=
  ⟨textOf_asked _, textOf_asked _, textOf_asked _⟩

lemma cstring_copy (array : Bytes arraySize) (t : Text) :
    cstring (copyOption array (some t)) =
      if t.val.length < arraySize then some t.val else none :=
  cstring_strncpy array.property t.property

lemma cstring_copyOption {array : Bytes arraySize} (h : cstring array = some [])
    {opt : Option Text} (hfits : ∀ t, opt = some t → t.val.length < arraySize) :
    cstring (copyOption array opt) = some (asked opt) := by
  cases opt with
  | none => exact h
  | some t => rw [cstring_copy, if_pos (hfits t rfl), asked]

/-- Over an array without a NUL it leaves a string only where a text is given that fits. -/
lemma fits_of_cstring {array : Bytes arraySize} (h : 0 ∉ array.val) {opt : Option Text} {s : Str}
    (hs : cstring (copyOption array opt) = some s) :
    ∃ t, opt = some t ∧ t.val.length < arraySize := by
  cases opt with
  | none =>
    rw [copyOption, cstring_none h] at hs
    cases hs
  | some t =>
    refine ⟨t, rfl, ?_⟩
    by_contra hlen
    rw [cstring_copy, if_neg hlen] at hs
    cases hs

/-- The array `name` as `alloc_gpio_pin` leaves it. -/
def clearedName (mem : GpioPinMem) : Bytes arraySize :=
  ⟨memset mem.name 0 arraySize, length_memset 0 mem.name.property⟩

lemma cstring_clearedName (mem : GpioPinMem) : cstring (clearedName mem) = some [] :=
  cstring_memset mem.name.property (by decide)

/-- What a section leaves in the memory of its pin. -/
structure FilledFrom (gp : GpioSection) (mem pin : GpioPinMem) : Prop where
  gpiochip : pin.gpiochip = copyOption mem.gpiochip gp.gpiochip
  name : pin.name = copyOption (clearedName mem) gp.name
  label : pin.label = copyOption mem.label gp.label
  local_ : pin.local_ = toInt gp.local_

variable {gpiodUapi : Bool} {g : GpiodFacility} {gp : GpioSection}

lemma loadPin_some (h : hasFacility gpiodUapi (gp.facility.getD g) = true) (mem : GpioPinMem) :
    ∃ pin, loadPin gpiodUapi g gp mem = some pin ∧ FilledFrom gp mem pin := by
  unfold loadPin allocGpioPin
  cases hf : gp.facility.getD g with
  | sysfs => exact ⟨_, rfl, rfl, rfl, rfl, rfl⟩
  | uapi =>
    rw [hf, hasFacility] at h
    rw [h]
    exact ⟨_, rfl, rfl, rfl, rfl, rfl⟩

lemma loadPin_none (h : hasFacility gpiodUapi (gp.facility.getD g) = false) (mem : GpioPinMem) :
    loadPin gpiodUapi g gp mem = none := by
  unfold loadPin allocGpioPin
  cases hf : gp.facility.getD g with
  | sysfs =>
    rw [hf] at h
    cases h
  | uapi =>
    rw [hf, hasFacility] at h
    rw [h]
    rfl

lemma filledFrom_of_loadPin {mem pin : GpioPinMem} (h : loadPin gpiodUapi g gp mem = some pin) :
    FilledFrom gp mem pin := by
  cases hf : hasFacility gpiodUapi (gp.facility.getD g) with
  | false =>
    rw [loadPin_none hf] at h
    cases h
  | true =>
    obtain ⟨pin', hpin', hfilled⟩ := loadPin_some hf mem
    cases h.symm.trans hpin'
    exact hfilled

/-- **A complete section** determines the strings of its pin. -/
lemma FilledFrom.strings {mem pin : GpioPinMem} (h : FilledFrom gp mem pin) (hc : Complete gp) :
    pin.strings = some gp.strings := by
  obtain ⟨chip, hchip, hclen⟩ := hc.gpiochip
  obtain ⟨label, hlabel, hllen⟩ := hc.label
  have hgpiochip : cstring pin.gpiochip = some (asked gp.gpiochip) := by
    rw [h.gpiochip, hchip, cstring_copy, if_pos hclen, asked]
  have hname : cstring pin.name = some (asked gp.name) := by
    rw [h.name, cstring_copyOption (cstring_clearedName mem) hc.name]
  have hlab : cstring pin.label = some (asked gp.label) := by
    rw [h.label, hlabel, cstring_copy, if_pos hllen, asked]
  unfold GpioPinMem.strings GpioSection.strings
  rw [hgpiochip, hname, hlab]
  rfl

/-- Memory without a single NUL. -/
def filled : Bytes arraySize := ⟨List.replicate arraySize 0x41, List.length_replicate⟩

def dirty : GpioPinMem :=
  ⟨-1, filled, -1, -1, filled, filled, .sysfs, .max, .no⟩

lemma filled_nul : 0 ∉ filled.val := fun h => by
  have := List.eq_of_mem_replicate h
  cases this

/-- In memory without a NUL only a complete section gives its pin three strings. -/
lemma FilledFrom.complete {pin : GpioPinMem} (h : FilledFrom gp dirty pin) {s : Strings}
    (hs : pin.strings = some s) : Complete gp := by
  unfold GpioPinMem.strings at hs
  rw [h.gpiochip, h.name, h.label] at hs
  obtain ⟨chip, hchip, hs⟩ := Option.bind_eq_some_iff.mp hs
  obtain ⟨name, hname, hs⟩ := Option.bind_eq_some_iff.mp hs
  obtain ⟨label, hlabel, -⟩ := Option.bind_eq_some_iff.mp hs
  refine ⟨fits_of_cstring filled_nul hchip, fun t ht => ?_, fits_of_cstring filled_nul hlabel⟩
  by_contra hlen
  rw [ht, cstring_copy, if_neg hlen] at hname
  cases hname

/-! ### All pins -/

lemma withPin_cons (gps : List GpioSection) : withPin gpiodUapi g (gp :: gps) =
    if hasFacility gpiodUapi (gp.facility.getD g) then gp :: withPin gpiodUapi g gps
    else withPin gpiodUapi g gps :=
  List.filter_cons

lemma loadPins_filled (heap : ℕ → GpioPinMem) (i : ℕ) (gps : List GpioSection) :
    List.Forall₂ (fun gp pin => ∃ j, FilledFrom gp (heap j) pin) (withPin gpiodUapi g gps)
      (loadPins gpiodUapi g heap i gps) := by
  induction gps generalizing i with
  | nil => exact .nil
  | cons gp gps ih =>
    rw [withPin_cons, loadPins]
    cases h : hasFacility gpiodUapi (gp.facility.getD g) with
    | false =>
      rw [loadPin_none h]
      exact ih (i + 1)
    | true =>
      obtain ⟨pin, hpin, hfilled⟩ := loadPin_some h (heap i)
      rw [hpin]
      exact .cons ⟨i, hfilled⟩ (ih (i + 1))

/-- The outcome of `loadConfig`: a fault where no pin is loaded, or one pin for each section. -/
lemma loadConfig_cases (env : Env) (parsed : Parsed) :
    loadConfig env parsed = none ∧ loadedSections env.gpiodUapi env.inetPton parsed = [] ∨
      ∃ loaded, loadConfig env parsed = some loaded ∧
        List.Forall₂ (fun gp pin => ∃ j, FilledFrom gp (env.heap j) pin)
          (loadedSections env.gpiodUapi env.inetPton parsed) loaded.pins := by
  cases parsed with
  | fileError => exact Or.inr ⟨_, rfl, .nil⟩
  | parseError => exact Or.inr ⟨_, rfl, .nil⟩
  | success cfg =>
    cases hl : cfg.listen with
    | none => exact Or.inl (by simp [loadConfig, loadedSections, hl])
    | some ip =>
      by_cases hip : env.inetPton ip = 0
      · exact Or.inr ⟨⟨einval, []⟩, by simp [loadConfig, loadedSections, hl, hip]⟩
      · refine Or.inr ⟨⟨0, loadPins env.gpiodUapi cfg.facility env.heap 0 cfg.gpio⟩, ?_⟩
        simp only [loadConfig, loadedSections, hl, hip, ↓reduceIte, true_and]
        exact loadPins_filled env.heap 0 cfg.gpio

lemma strings_of_complete {heap : ℕ → GpioPinMem} {gps : List GpioSection}
    {pins : List GpioPinMem}
    (hpins : List.Forall₂ (fun gp pin => ∃ j, FilledFrom gp (heap j) pin) gps pins)
    (h : ∀ gp ∈ gps, Complete gp) :
    pins.map GpioPinMem.strings = gps.map fun gp => some gp.strings := by
  induction hpins with
  | nil => rfl
  | cons hfilled _ ih =>
    obtain ⟨hc, hrest⟩ := List.forall_mem_cons.mp h
    obtain ⟨j, hfilled⟩ := hfilled
    rw [List.map_cons, List.map_cons, hfilled.strings hc, ih hrest]

lemma complete_of_strings {gps : List GpioSection} {pins : List GpioPinMem}
    (hpins : List.Forall₂ (fun gp pin => ∃ _ : ℕ, FilledFrom gp dirty pin) gps pins)
    {f : GpioSection → Strings}
    (h : pins.map GpioPinMem.strings = gps.map fun gp => some (f gp)) :
    ∀ gp ∈ gps, Complete gp := by
  induction hpins with
  | nil => exact List.forall_mem_nil _
  | cons hfilled _ ih =>
    obtain ⟨hs, hrest⟩ := List.cons.inj h
    obtain ⟨-, hfilled⟩ := hfilled
    exact List.forall_mem_cons.mpr ⟨hfilled.complete hs, ih hrest⟩

/-! ### Loading depends on the section alone -/

variable {inetPton : Str → ℤ} {parsed : Parsed}

lemma determined_of_complete
    (h : ∀ gp ∈ loadedSections gpiodUapi inetPton parsed, Complete gp) :
    Determined gpiodUapi inetPton parsed := by
  refine ⟨GpioSection.strings, names_strings, fun heap loaded hl => ?_⟩
  rcases loadConfig_cases ⟨gpiodUapi, inetPton, heap⟩ parsed with
    ⟨hnone, -⟩ | ⟨loaded', hloaded, hpins⟩
  · cases hl.symm.trans hnone
  · cases hl.symm.trans hloaded
    exact strings_of_complete hpins h

lemma Determined.complete (h : Determined gpiodUapi inetPton parsed) :
    ∀ gp ∈ loadedSections gpiodUapi inetPton parsed, Complete gp := by
  obtain ⟨f, -, hf⟩ := h
  rcases loadConfig_cases ⟨gpiodUapi, inetPton, fun _ => dirty⟩ parsed with
    ⟨-, hnil⟩ | ⟨loaded, hloaded, hpins⟩
  · intro gp hgp
    cases hnil ▸ hgp
  · exact complete_of_strings hpins (hf _ loaded hloaded)

/-- **Loading a pin depends only on its section**, whatever the memory held before, exactly if
every section that a pin is loaded from gives the chip and the label, and no text of it takes
up its whole array. -/
theorem determined_iff (gpiodUapi : Bool) (inetPton : Str → ℤ) (parsed : Parsed) :
    Determined gpiodUapi inetPton parsed ↔
      ∀ gp ∈ loadedSections gpiodUapi inetPton parsed, Complete gp :=
  ⟨Determined.complete, determined_of_complete⟩

lemma wd0_clear : (0 : UInt8) ∉ bytes "WD0" := by decide

/-- A section for a sysfs pin, without the option `gpiochip`. -/
def chiplessSection : GpioSection :=
  ⟨none, 5, none, -1, 0, none, some ⟨bytes "WD0", wd0_clear⟩, .both, false⟩

/-- The pin gets its chip from what its memory held. -/
theorem chipless_undetermined :
    ¬ Determined true (fun _ => 1)
      (.success ⟨some (bytes "127.0.0.1"), 1500, 50, .sysfs, [chiplessSection]⟩) := by
  intro h
  obtain ⟨t, ht, -⟩ := (h.complete chiplessSection List.mem_cons_self).gpiochip
  cases ht

end Gpiod.Config
