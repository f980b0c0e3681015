import Mathlib.Data.List.Nodup
import Gpiod.TabField

/-!
Which pin a tab line is loaded to.

`find_pin_by_label` takes the first pin whose label begins with the copied first token of the
line; the hook of the line is added behind the hooks of that pin, and nothing else changes.
-/

namespace Gpiod.TabRoute

open Gpiod.Pin Gpiod.TabScan Gpiod.TabField

def lineHook (line : Mem) : Except Fault GpiodHook := do
  let (_, tmp2) ← tabLabel line
  tabHook tmp2

lemma lineHook_unlaunched {mem : Mem} {hook : GpiodHook} (h : lineHook mem = .ok hook) :
    hook.fired = 0 ∧ hook.spawned = -1 := by
  obtain ⟨⟨label, tmp2⟩, -, h⟩ := bind_ok h
  obtain ⟨flags, -, -, -, args, -, -, -, -, rfl⟩ := tabHook_ok h
  exact ⟨rfl, rfl⟩

/-! ### One line -/

lemma findPinByLabel_eq (gp_list : List GpioPin) (label : Str) :
    findPinByLabel gp_list label = gp_list.findIdx? fun pin => label.isPrefixOf pin.label := by
  unfold findPinByLabel
  simp only [strncmpEq_length]

lemma findPinByLabel_none {gp_list : List GpioPin} {label : Str}
    (hf : findPinByLabel gp_list label = none) : ∀ pin ∈ gp_list, ¬ label <+: pin.label := by
  rw [findPinByLabel_eq, List.findIdx?_eq_none_iff] at hf
  intro pin hpin hpre
  have hno := hf pin hpin
  rw [List.isPrefixOf_iff_prefix.mpr hpre] at hno
  cases hno

lemma findPinByLabel_some {gp_list : List GpioPin} {label : Str} {k : ℕ}
    (hf : findPinByLabel gp_list label = some k) :
    ∃ pin, gp_list[k]? = some pin ∧ label <+: pin.label ∧
      ∀ (j : ℕ) (pin' : GpioPin), gp_list[j]? = some pin' → label <+: pin'.label → k ≤ j := by
  rw [findPinByLabel_eq, List.findIdx?_eq_some_iff_getElem] at hf
  obtain ⟨hk, hpre, hmin⟩ := hf
  refine ⟨gp_list[k], List.getElem?_eq_getElem hk, List.isPrefixOf_iff_prefix.mp hpre,
    fun j pin' hj hp => ?_⟩
  by_contra hlt
  obtain ⟨hj1, rfl⟩ := List.getElem?_eq_some_iff.mp hj
  have hno := hmin j (by omega)
  simp [List.isPrefixOf_iff_prefix.mpr hp] at hno

lemma loadLine_none {gp_list gp_list' : List GpioPin} {line : Str} {stale : Mem}
    (hf : findPinByLabel gp_list (keep (firstToken line)) = none)
    (h : loadLine gp_list (line ++ 0 :: stale) = .ok gp_list') : gp_list' = gp_list := by
  have ht := tabLabel_eq line stale
  simp only [loadLine, ht, bind, Except.bind, hf, pure, Except.pure, Except.ok.injEq] at h
  exact h.symm

lemma loadLine_some {gp_list gp_list' : List GpioPin} {line : Str} {stale : Mem} {k : ℕ}
    (hf : findPinByLabel gp_list (keep (firstToken line)) = some k)
    (h : loadLine gp_list (line ++ 0 :: stale) = .ok gp_list') :
    ∃ hook, lineHook (line ++ 0 :: stale) = .ok hook ∧
      gp_list' = gp_list.modify k (·.addHook hook) := by
  have ht := tabLabel_eq line stale
  simp only [loadLine, lineHook, ht, bind, Except.bind, hf] at h ⊢
  obtain ⟨hook, hh, h⟩ := bind_ok h
  exact ⟨hook, hh, (Except.ok.inj h).symm⟩

lemma loadLine_labels {gp_list gp_list' : List GpioPin} {line : Str} {stale : Mem}
    (h : loadLine gp_list (line ++ 0 :: stale) = .ok gp_list') :
    gp_list'.map (·.label) = gp_list.map (·.label) := by
  cases hf : findPinByLabel gp_list (keep (firstToken line)) with
  | none => rw [loadLine_none hf h]
  | some k =>
    obtain ⟨hook, -, rfl⟩ := loadLine_some hf h
    refine List.ext_getElem? fun i => ?_
    simp only [List.getElem?_map, List.getElem?_modify]
    cases gp_list[i]? with
    | none => rfl
    | some pin => by_cases hki : k = i <;> simp [hki]

lemma mem_fileLines {text : Str} {fresh : ℕ → Mem} {line : Str} :
    (∃ l ∈ fileLines text fresh, l.1 = line) ↔ line ∈ splitLines text := by
  have : (fileLines text fresh).map (·.1) = splitLines text := by
    simp [fileLines, Function.comp_def]
  rw [← this, List.mem_map]

lemma loadLine_hooks {gp_list gp_list' : List GpioPin} {line : Str} {stale : Mem}
    (h : loadLine gp_list (line ++ 0 :: stale) = .ok gp_list') {i : ℕ} {pin' : GpioPin}
    (hi : gp_list'[i]? = some pin') {hook : GpiodHook} (hk : hook ∈ pin'.hook_list) :
    (∃ pin, gp_list[i]? = some pin ∧ hook ∈ pin.hook_list) ∨
      lineHook (line ++ 0 :: stale) = .ok hook := by
  cases hf : findPinByLabel gp_list (keep (firstToken line)) with
  | none =>
    rw [loadLine_none hf h] at hi
    exact Or.inl ⟨pin', hi, hk⟩
  | some k =>
    obtain ⟨hook', hline, rfl⟩ := loadLine_some hf h
    rw [List.getElem?_modify] at hi
    obtain ⟨pin, hp, rfl⟩ := Option.map_eq_some_iff.mp hi
    split at hk
    · rw [addHook_hook_list, List.mem_append, List.mem_singleton] at hk
      rcases hk with hk | rfl
      · exact Or.inl ⟨pin, hp, hk⟩
      · exact Or.inr hline
    · exact Or.inl ⟨pin, hp, hk⟩

/-- **Where the hooks come from**: each was there before the file was loaded, or is made of one
of its lines. -/
theorem loadTab_hooks {gp_list gp_list' : List GpioPin} {text : Str} {fresh : ℕ → Mem} {ret : ℤ}
    (h : loadTab gp_list (some text) fresh = .ok (ret, gp_list')) {i : ℕ} {pin' : GpioPin}
    (hi : gp_list'[i]? = some pin') {hook : GpiodHook} (hk : hook ∈ pin'.hook_list) :
    (∃ pin, gp_list[i]? = some pin ∧ hook ∈ pin.hook_list) ∨
      ∃ line ∈ splitLines text, ∃ stale, lineHook (line ++ 0 :: stale) = .ok hook := by
  have hrun : ∀ (lines : List (Str × Mem)) (gp_list : List GpioPin) (buf : Mem),
      loadLines gp_list buf lines = .ok gp_list' →
        (∃ pin, gp_list[i]? = some pin ∧ hook ∈ pin.hook_list) ∨
          ∃ l ∈ lines, ∃ stale, lineHook (l.1 ++ 0 :: stale) = .ok hook := by
    intro lines
    induction lines with
    | nil =>
      rintro gp_list buf hl
      cases hl
      exact Or.inl ⟨pin', hi, hk⟩
    | cons l lines ih =>
      obtain ⟨line, grown⟩ := l
      intro gp_list buf hl
      obtain ⟨gp₁, hline, hrest⟩ := loadLines_ok hl
      rcases ih gp₁ _ hrest with ⟨pin, hp, hh⟩ | ⟨l, hl, hmade⟩
      · rcases loadLine_hooks hline hp hh with hold | hnew
        · exact Or.inl hold
        · exact Or.inr ⟨(line, grown), by simp, _, hnew⟩
      · exact Or.inr ⟨l, List.mem_cons_of_mem _ hl, hmade⟩
  rcases hrun _ gp_list [] (loadTab_ok h) with hold | ⟨l, hl, hmade⟩
  · exact Or.inl hold
  · exact Or.inr ⟨l.1, mem_fileLines.mp ⟨l, hl, rfl⟩, hmade⟩

def wd0 : List GpioPin := [⟨bytes "WD0", 0, .sysfs, .both, 0, []⟩]

/-- Two pins, the label of the second beginning that of the first. -/
def wd10wd1 : List GpioPin :=
  [⟨bytes "WD10", 10, .sysfs, .both, 0, []⟩, ⟨bytes "WD1", 1, .sysfs, .both, 0, []⟩]

def hookA : GpiodHook := ⟨bytes "/bin/a", 3, 0, -1, 1, [⟨.max, none⟩]⟩

end Gpiod.TabRoute
