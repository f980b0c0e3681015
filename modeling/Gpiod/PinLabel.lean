import Gpiod.Config

/-!
The label of a pin, as it is configured and as it is read.

`loadConfig` copies the label into an array of 32 bytes, and everything else reads it as a C
string from there. A label that takes up the whole array leaves no NUL in it, so that the string
runs on into the bytes behind the array.
-/

namespace Gpiod.PinLabel

open Gpiod.CString Gpiod.Pin Gpiod.Config

/-- A label of the configuration in the array of its pin: the text, what the memory held before it
was copied there, and the bytes behind the array. -/
structure Label where
  text : Text
  array : Bytes arraySize
  behind : Str

/-- The C string at the array, up to the first NUL in it or behind it. -/
def Label.read (l : Label) : Str := cstringAt (copyOption l.array (some l.text)).val l.behind

/-- The pins have the labels of the configuration. -/
def Labelled (labels : List Label) (gp_list : List GpioPin) : Prop :=
  gp_list.map (·.label) = labels.map Label.read

instance (labels : List Label) (gp_list : List GpioPin) : Decidable (Labelled labels gp_list) :=
  inferInstanceAs (Decidable (_ = _))

/-- The labels of the configuration are pairwise distinct. -/
def Distinct (labels : List Label) : Prop := (labels.map fun l => l.text.val).Nodup

instance (labels : List Label) : Decidable (Distinct labels) :=
  inferInstanceAs (Decidable (List.Nodup _))

/-- **From the section to the string**: what is read at the label of the pin it is loaded into. -/
theorem read_of_loadPin {gpiodUapi : Bool} {g : GpiodFacility} {gp : GpioSection}
    {mem pin : GpioPinMem} {t : Text} (ht : gp.label = some t)
    (hload : loadPin gpiodUapi g gp mem = some pin) (behind : Str) :
    cstringAt pin.label.val behind = (Label.mk t mem.label behind).read := by
  rw [(filledFrom_of_loadPin hload).label, ht]
  rfl

/-- **What is read** is the text, with the bytes behind the array where the text leaves no NUL. -/
theorem Label.read_eq (l : Label) : l.read =
    if l.text.val.length < arraySize then l.text.val
    else l.text.val.take arraySize ++ l.behind.takeWhile (· != 0) := by
  split
  · next hlt =>
    refine cstringAt_of_cstring ?_ l.behind
    rw [cstring_copy, if_pos hlt]
  · next hge =>
    have hcopy : (copyOption l.array (some l.text)).val = l.text.val.take arraySize :=
      strncpy_long l.array.property (by omega)
    have hall : ∀ c ∈ l.text.val.take arraySize, (c != 0) = true := by
      intro c hc
      rw [bne_iff_ne]
      rintro rfl
      exact l.text.property (List.mem_of_mem_take hc)
    rw [Label.read, hcopy, cstringAt, List.takeWhile_append_of_pos hall]

lemma Label.read_of_short {l : Label} (h : l.text.val.length < arraySize) :
    l.read = l.text.val := by
  rw [l.read_eq, if_pos h]

/-- **When it is the text**: where the text is shorter than the array, or the bytes behind the array
go on with the rest of it. -/
theorem Label.read_eq_text_iff (l : Label) : l.read = l.text.val ↔
    l.text.val.length < arraySize ∨
      l.text.val.drop arraySize = l.behind.takeWhile (· != 0) := by
  rw [l.read_eq]
  split
  · next hlt => exact iff_of_true rfl (Or.inl hlt)
  · next hge =>
    rw [or_iff_right hge]
    have hsplit := List.take_append_drop arraySize l.text.val
    constructor
    · intro h
      exact List.append_cancel_left (hsplit.trans h.symm)
    · intro h
      rw [← h, hsplit]

variable {labels : List Label} {gp_list : List GpioPin}

lemma pin_of_label (hl : Labelled labels gp_list) {i : ℕ} {label : Label}
    (hi : labels[i]? = some label) : ∃ pin, gp_list[i]? = some pin ∧ pin.label = label.read := by
  have hmap : (gp_list.map (·.label))[i]? = some label.read := by rw [hl]; simp [hi]
  rw [List.getElem?_map] at hmap
  exact Option.map_eq_some_iff.mp hmap

lemma label_of_pin (hl : Labelled labels gp_list) {i : ℕ} {pin : GpioPin}
    (hi : gp_list[i]? = some pin) : ∃ label, labels[i]? = some label ∧ pin.label = label.read := by
  have hmap : (labels.map Label.read)[i]? = some pin.label := by rw [← hl]; simp [hi]
  rw [List.getElem?_map] at hmap
  obtain ⟨label, h, heq⟩ := Option.map_eq_some_iff.mp hmap
  exact ⟨label, h, heq.symm⟩

end Gpiod.PinLabel
