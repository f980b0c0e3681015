import Gpiod.PinLabel
import Gpiod.TabBuffer

/-!
Which pin the hook of a tab line belongs to.

`loadTab` should append the hook of a line to the pin that is configured with the first token of
the line as its label. It takes the first pin whose label begins with the token, as the label is
read from its array, so the two agree exactly where the first such pin is the right one.
-/

namespace Gpiod.Routing

open Gpiod.Config (filled)
open Gpiod.Pin Gpiod.PinLabel Gpiod.TabScan Gpiod.TabField Gpiod.TabRoute Gpiod.TabBounds
open Gpiod.TabBuffer (LineLoads buffers lineLoads_congr loadLine_eq loadLine_iff)

/-! ### One line -/

/-- The line in `mem` went to the pins it names: a pin whose label is its first token got its
hook behind the hooks it had, and any other pin is as it was. -/
def Routes (labels : List Label) (gp_list : List GpioPin) (line : Str) (mem : Mem)
    (gp_list' : List GpioPin) : Prop :=
  ∀ (i : ℕ) (label : Label) (pin : GpioPin), labels[i]? = some label → gp_list[i]? = some pin →
    if label.text.val = firstToken line then
      ∃ hook, lineHook mem = .ok hook ∧ gp_list'[i]? = some (pin.addHook hook)
    else gp_list'[i]? = some pin

/-- Every pin that the copied token may be taken for, or should, has at its place in the list or
before it a pin for which it is both. -/
def LabelClear (labels : List Label) (line : Str) : Prop :=
  ∀ (i : ℕ) (label : Label), labels[i]? = some label →
    keep (firstToken line) <+: label.read ∨ label.text.val = firstToken line →
      ∃ j ≤ i, ∃ label' : Label, labels[j]? = some label' ∧
        keep (firstToken line) <+: label'.read ∧ label'.text.val = firstToken line

variable {labels : List Label} {gp_list gp_list' : List GpioPin} {line : Str} {stale : Mem}

lemma index_of_text (hd : Distinct labels) {i j : ℕ} {p q : Label} (hi : labels[i]? = some p)
    (hj : labels[j]? = some q) (h : p.text.val = q.text.val) : i = j := by
  have hi' : (labels.map fun l => l.text.val)[i]? = some p.text.val := by simp [hi]
  have hj' : (labels.map fun l => l.text.val)[j]? = some p.text.val := by simp [hj, h]
  have hlt : i < (labels.map fun l => l.text.val).length := (List.getElem?_eq_some_iff.mp hi').1
  exact (List.getElem?_inj hlt hd).mp (by rw [hi', hj'])

lemma routes_iff_none (hl : Labelled labels gp_list)
    (hf : findPinByLabel gp_list (keep (firstToken line)) = none) (mem : Mem) :
    Routes labels gp_list line mem gp_list ↔ LabelClear labels line := by
  have hnone := findPinByLabel_none hf
  constructor
  · intro hr i label hi hor
    obtain ⟨pin, hpin, hread⟩ := pin_of_label hl hi
    rcases hor with hpre | htext
    · exact absurd (hread ▸ hpre) (hnone pin (List.mem_of_getElem? hpin))
    · have hadd := hr i label pin hi hpin
      rw [if_pos htext] at hadd
      obtain ⟨hook, -, hsame⟩ := hadd
      exact absurd (Option.some.inj (hpin.symm.trans hsame)).symm (addHook_ne pin hook)
  · intro hc i label pin hi hpin
    have hne : label.text.val ≠ firstToken line := fun htext => by
      obtain ⟨j, -, label', hj, hpre, -⟩ := hc i label hi (Or.inr htext)
      obtain ⟨pin', hpin', hread⟩ := pin_of_label hl hj
      exact hnone pin' (List.mem_of_getElem? hpin') (hread ▸ hpre)
    rw [if_neg hne]
    exact hpin

lemma routes_iff_some (hl : Labelled labels gp_list) (hd : Distinct labels) {k : ℕ}
    (hf : findPinByLabel gp_list (keep (firstToken line)) = some k) {mem : Mem} {hook : GpiodHook}
    (hhook : lineHook mem = .ok hook) :
    Routes labels gp_list line mem (gp_list.modify k (·.addHook hook)) ↔
      LabelClear labels line := by
  obtain ⟨pink, hkget, hkpre, hkmin⟩ := findPinByLabel_some hf
  obtain ⟨labelk, hklabel, hkread⟩ := label_of_pin hl hkget
  constructor
  · -- the pin taken got the hook, so its label is the token
    intro hr i label hi hor
    have hk' := hr k labelk pink hklabel hkget
    rw [List.getElem?_modify, hkget] at hk'
    split at hk'
    · next heq =>
      refine ⟨k, ?_, labelk, hklabel, hkread ▸ hkpre, heq⟩
      rcases hor with hpre | htext
      · obtain ⟨pin, hpin, hread⟩ := pin_of_label hl hi
        exact hkmin i pin hpin (hread ▸ hpre)
      · exact (index_of_text hd hklabel hi (heq.trans htext.symm)).le
    · exact absurd (by simpa using hk') (addHook_ne pink hook)
  · intro hc
    obtain ⟨j, hj, label', hlabel', hpre, htext⟩ := hc k labelk hklabel (Or.inl (hkread ▸ hkpre))
    obtain ⟨pin', hpin', hread'⟩ := pin_of_label hl hlabel'
    have hjk : j = k := le_antisymm hj (hkmin j pin' hpin' (hread' ▸ hpre))
    subst hjk
    intro i label pin hi hpin
    rw [List.getElem?_modify, hpin]
    split
    · next heq =>
      have hji : j = i := index_of_text hd hlabel' hi (htext.trans heq.symm)
      exact ⟨hook, hhook, by simp [hji]⟩
    · next hne =>
      have hji : j ≠ i := by
        rintro rfl
        rw [hlabel'] at hi
        exact hne (Option.some.inj hi ▸ htext)
      simp [hji]

/-- **Routing of a line** that is loaded. -/
theorem routes_iff (hl : Labelled labels gp_list) (hd : Distinct labels)
    (h : TabBuffer.loadLine gp_list (line ++ 0 :: stale) = .ok gp_list') :
    Routes labels gp_list line (line ++ 0 :: stale) gp_list' ↔ LabelClear labels line := by
  obtain ⟨-, hload⟩ := TabBuffer.loadLine_ok_iff.mp h
  cases hf : findPinByLabel gp_list (keep (firstToken line)) with
  | none =>
    rw [loadLine_none hf hload]
    exact routes_iff_none hl hf _
  | some k =>
    obtain ⟨hook, hhook, rfl⟩ := loadLine_some hf hload
    exact routes_iff_some hl hd hf hhook

/-! ### A file -/

/-- Every line of the file is loaded, and went to the pins it names, one line after the other. -/
def RoutesAll (labels : List Label) : List GpioPin → Mem → List (Str × Mem) → Prop
  | _, _, [] => True
  | gp_list, buf, (line, fresh) :: lines =>
    ∃ gp_list', TabBuffer.loadLine gp_list (getline buf line fresh) = .ok gp_list' ∧
      Routes labels gp_list line (getline buf line fresh) gp_list' ∧
      RoutesAll labels gp_list' (getline buf line fresh) lines

lemma routesAll_iff (hd : Distinct labels) {buf : Mem} {lines : List (Str × Mem)}
    (hl : Labelled labels gp_list) :
    RoutesAll labels gp_list buf lines ↔
      ∀ l ∈ buffers buf lines, LineLoads gp_list l.1 l.2 ∧ LabelClear labels l.1 := by
  induction lines generalizing gp_list buf with
  | nil => exact iff_of_true trivial (List.forall_mem_nil _)
  | cons l lines ih =>
    obtain ⟨line, fresh⟩ := l
    rw [buffers, List.forall_mem_cons, ← loadLine_iff]
    constructor
    · rintro ⟨gp₁, hline, hr, hall⟩
      have hlab := TabBuffer.loadLine_labels hline
      have hl₁ : Labelled labels gp₁ := hlab.trans hl
      refine ⟨⟨⟨gp₁, hline⟩, (routes_iff hl hd hline).mp hr⟩, fun l hmem => ?_⟩
      obtain ⟨hloads, hclear⟩ := (ih hl₁).mp hall l hmem
      exact ⟨(lineLoads_congr hlab _ _).mp hloads, hclear⟩
    · rintro ⟨⟨⟨gp₁, hline⟩, hclear⟩, hall⟩
      have hlab := TabBuffer.loadLine_labels hline
      have hl₁ : Labelled labels gp₁ := hlab.trans hl
      refine ⟨gp₁, hline, (routes_iff hl hd hline).mpr hclear, (ih hl₁).mpr fun l hmem => ?_⟩
      obtain ⟨hloads, hclear⟩ := hall l hmem
      exact ⟨(lineLoads_congr hlab _ _).mpr hloads, hclear⟩

/-- **Routing of a file**: the hooks of all its lines go to the pins the lines name exactly if
every line is loaded inside its buffers and at every line the pin with that label, or no pin, is
found first. -/
theorem loadTab_routes_iff (hl : Labelled labels gp_list) (hd : Distinct labels) (text : Str)
    (fresh : ℕ → Mem) :
    RoutesAll labels gp_list [] (fileLines text fresh) ↔
      ∀ l ∈ buffers [] (fileLines text fresh),
        LineLoads gp_list l.1 l.2 ∧ LabelClear labels l.1 :=
  routesAll_iff hd hl

lemma wd10_clear : (0 : UInt8) ∉ bytes "WD10" := by decide
lemma wd1_clear : (0 : UInt8) ∉ bytes "WD1" := by decide

/-- The labels of the two pins, the second of which begins the first. -/
def wd10wd1Labels : List Label :=
  [⟨⟨bytes "WD10", wd10_clear⟩, filled, []⟩, ⟨⟨bytes "WD1", wd1_clear⟩, filled, []⟩]

theorem wd10_line_routed :
    RoutesAll wd10wd1Labels wd10wd1 []
      (fileLines (bytes "WD10 EDGE_BOTH /bin/a\n") fun _ => []) := by
  refine (loadTab_routes_iff (by decide) (by decide) _ _).mpr fun l hl => ?_
  have hs : buffers [] (fileLines (bytes "WD10 EDGE_BOTH /bin/a\n") fun _ => []) =
      [(bytes "WD10 EDGE_BOTH /bin/a\n", [])] := by decide
  rw [hs, List.mem_singleton] at hl
  subst hl
  refine ⟨loadLine_iff.mp ⟨wd10wd1.modify 0 (·.addHook hookA), by decide⟩, fun i label hi hor => ?_⟩
  match i with
  | 0 => exact ⟨0, le_refl _, _, rfl, by decide, by decide⟩
  | 1 =>
    cases hi
    exact absurd hor (by decide)
  | n + 2 => simp [wd10wd1Labels] at hi

/-- A line of the second pin is loaded to the first. -/
theorem wd1_line_misrouted :
    TabBuffer.loadTab wd10wd1 (some (bytes "WD1 EDGE_BOTH /bin/a\n")) (fun _ => []) =
        .ok (0, wd10wd1.modify 0 (·.addHook hookA)) ∧
      ¬ RoutesAll wd10wd1Labels wd10wd1 []
        (fileLines (bytes "WD1 EDGE_BOTH /bin/a\n") fun _ => []) := by
  refine ⟨by decide, fun hall => ?_⟩
  have hclear := ((routesAll_iff (by decide) (by decide)).mp hall
    (bytes "WD1 EDGE_BOTH /bin/a\n", []) (by decide)).2
  obtain ⟨j, hj, label, hlabel, -, htext⟩ := hclear 0 _ rfl (by decide)
  obtain rfl : j = 0 := by omega
  cases hlabel
  exact absurd htext (by decide)

end Gpiod.Routing
