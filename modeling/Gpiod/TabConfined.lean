import Gpiod.TabBuffer

/-!
Which bytes the loading of a line inspects.

A line is read from its own bytes alone if the token buffer has room for what is copied of it, and
its list of modifiers is not broken off by the NUL. Everything else reads, or writes, behind one of
the two buffers.
-/

namespace Gpiod.TabConfined

open Gpiod.Pin Gpiod.TabScan Gpiod.TabField Gpiod.TabArgs Gpiod.TabRoute Gpiod.TabBounds
open Gpiod.TabBuffer (LineLoads Short loadLine_eq loadLine_iff tabHook_of_short)

/-- Loading the line inspects no byte behind its NUL and none behind the token buffer, as it runs
through on the line and the NUL alone; so the pin found and the hook made are the same whatever
stands behind the NUL and whatever hooks earlier lines gave the pins. -/
def Confined (gp_list : List GpioPin) (line : Str) : Prop :=
  (∃ gp_list', TabBuffer.loadLine gp_list (line ++ [0]) = .ok gp_list') ∧
    ∃ made, ∀ (gp_list' : List GpioPin) (stale : Mem),
      gp_list'.map (·.label) = gp_list.map (·.label) →
        TabBuffer.loadLine gp_list' (line ++ 0 :: stale) = .ok (attach gp_list' made)

/-- The label fits in the token buffer and, where it is a pin's, so do the words and the tokens
that the line is taken apart into behind it. -/
structure Roomy (gp_list : List GpioPin) (line : Str) : Prop where
  label : (firstToken line).length % 256 < gpiodTabMaxArgumentLength
  hook : LabelFound gp_list line →
    ∀ ws ts, Reads (afterToken line ++ [0]) ws ts → Short ws ts

lemma Roomy.made {gp_list : List GpioPin} {line : Str} (h : Roomy gp_list line)
    (hu : LabelFound gp_list line → ¬ Unfinished (afterToken line)) :
    ∃ made, ∀ (l : List GpioPin) (stale : Mem), l.map (·.label) = gp_list.map (·.label) →
      TabBuffer.loadLine l (line ++ 0 :: stale) = .ok (attach l made) := by
  cases hf : findPinByLabel gp_list (keep (firstToken line)) with
  | none =>
    refine ⟨none, fun l stale hl => loadLine_eq.mpr ⟨h.label, ?_⟩⟩
    rw [findPinByLabel_congr hl, hf]
    rfl
  | some k =>
    have hfound : LabelFound gp_list line := (labelFound_iff gp_list line).mpr (by rw [hf]; nofun)
    obtain ⟨ws, ts, hreads⟩ := (reads_finished (afterToken line)).resolve_left (hu hfound)
    have hs := h.hook hfound ws ts (hreads [])
    refine ⟨some (k, hookOf (Mask.join wordFlags 0 ws) ts), fun l stale hl =>
      loadLine_eq.mpr ⟨h.label, ?_⟩⟩
    rw [findPinByLabel_congr hl, hf]
    exact ⟨_, tabHook_of_short (hreads stale) hs, rfl⟩

lemma not_reads_of_unfinished {x : Str} (hx : Unfinished x) {ws ts : List Str} :
    ¬ Reads (x ++ [0]) ws ts := by
  intro h
  cases (tabHook_unfinished hx).symm.trans h.tabHook

lemma roomy_of_load {gp_list gp_list' : List GpioPin} {line : Str}
    (h : TabBuffer.loadLine gp_list (line ++ [0]) = .ok gp_list') :
    Roomy gp_list line ∧ ¬ (LabelFound gp_list line ∧ Unfinished (afterToken line)) := by
  obtain ⟨hlabel, hhook⟩ := loadLine_iff.mp ⟨gp_list', h⟩
  refine ⟨⟨hlabel, fun hf ws ts hreads => ?_⟩, fun ⟨hf, hu⟩ => ?_⟩
  · obtain ⟨ws', ts', hreads', hs⟩ := hhook hf
    exact (TabBuffer.Reads.inside hreads).mp ((TabBuffer.Reads.inside hreads').mpr hs)
  · obtain ⟨ws, ts, hreads, -⟩ := hhook hf
    exact not_reads_of_unfinished hu hreads

/-- **Which lines are read from their own bytes only**: those that the token buffer has room for,
except where they name a pin and break off behind a recognised word of their modifier list. -/
theorem confined_iff (gp_list : List GpioPin) (line : Str) :
    Confined gp_list line ↔
      Roomy gp_list line ∧ ¬ (LabelFound gp_list line ∧ Unfinished (afterToken line)) := by
  constructor
  · rintro ⟨⟨gp_list', hload⟩, -⟩
    exact roomy_of_load hload
  · rintro ⟨hroomy, hn⟩
    obtain ⟨made, hmade⟩ := hroomy.made fun hf hu => hn ⟨hf, hu⟩
    exact ⟨⟨_, hmade gp_list [] rfl⟩, made, hmade⟩

/-- An earlier line leaves its path behind the NUL of a last line that has none. -/
theorem path_of_earlier_line :
    TabBuffer.loadTab [⟨bytes "WD0", 0, .sysfs, .both, 0, []⟩]
        (some (bytes "WD1 EDGE_RISING /bin/b\nWD0 EDGE_RISING")) (fun _ => []) =
      .ok (0, [⟨bytes "WD0", 0, .sysfs, .both, 0,
        [⟨bytes "/bin/b", 1, 0, -1, 1, [⟨.max, none⟩]⟩]⟩]) ∧
    ¬ Confined [⟨bytes "WD0", 0, .sysfs, .both, 0, []⟩] (bytes "WD0 EDGE_RISING") := by
  refine ⟨by decide, ?_⟩
  rintro ⟨⟨gp_list', h⟩, -⟩
  have hfault : TabBuffer.loadLine [⟨bytes "WD0", 0, .sysfs, .both, 0, []⟩]
      (bytes "WD0 EDGE_RISING" ++ [0]) = .error .read := by decide
  rw [hfault] at h
  cases h

/-- A roomy line with its line feed is read from its own bytes only. -/
theorem confined_of_newline {gp_list : List GpioPin} {line : Str} (h : (0x0a : UInt8) ∈ line)
    (hroomy : Roomy gp_list line) : Confined gp_list line :=
  (confined_iff gp_list line).mpr ⟨hroomy, fun hf => hf.2.no_newline (afterToken_newline h)⟩

end Gpiod.TabConfined
