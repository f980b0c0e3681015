import Gpiod.Machine
import Gpiod.EdgeSelect
import Gpiod.Launches

/-!
How often a hook with ONESHOT on its line is launched.

No word of a tab line sets the bit that the dispatcher takes for ONESHOT, so nothing but a
running child holds such a hook back: it is launched again by the first event it is set for
that comes after its child was reported as finished.
-/

namespace Gpiod.Oneshot

open Gpiod.Pin Gpiod.TabScan Gpiod.TabRoute Gpiod.Mask Gpiod.TabMods Gpiod.Dispatch
open Gpiod.EdgeSelect Gpiod.Machine Gpiod.Launches

/-- What happens to the hooks: an event of a pin is passed to `dispatch_hooks`, the exit of a
child to `hook_clear_spawned`. -/
inductive Op
  | event (i : ℕ) (event : ℤ) (x : Returns)
  | childExit (pid : ℤ)

/-- The daemon after a step, and the pids `exec_start` returned with their hooks. -/
def step (d : Daemon) : Op → Daemon × List (ℤ × HookRef)
  | .event i event x => (dispatchHooks d i event x.exec, spawns d i event x.exec)
  | .childExit pid => ((hookClearSpawned d pid).2, [])

/-- The step with the arrays of the launches; `none` where one is overrun. -/
def tryStep (d : Daemon) : Op → Option (Daemon × List (ℤ × HookRef))
  | .event i event x =>
    (formedPin d i event x.exec).map fun r => (behindLoop d i r, started i x.exec r)
  | .childExit pid => some ((hookClearSpawned d pid).2, [])

/-- The arrays of the step have room for their vectors. -/
def Room (d : Daemon) : Op → Prop
  | .event i event _ => RoomAt d i event
  | .childExit _ => True

instance (d : Daemon) : (op : Op) → Decidable (Room d op)
  | .event i event _ => inferInstanceAs (Decidable (RoomAt d i event))
  | .childExit _ => isTrue trivial

lemma tryStep_eq {d : Daemon} {op : Op} (h : Room d op) : tryStep d op = some (step d op) := by
  cases op with
  | childExit pid => rfl
  | event i event x =>
    rw [tryStep, formedPin_eq event x h, Option.map_some, started_dispatchPin]
    rfl

lemma tryStep_none {d : Daemon} {op : Op} (h : ¬ Room d op) : tryStep d op = none := by
  cases op with
  | childExit pid => exact absurd trivial h
  | event i event x => rw [tryStep, formedPin_none event x h, Option.map_none]

lemma tryRun_iff {d : Daemon} {ops : List Op} {out : Daemon × List (ℤ × HookRef)} :
    tryRun tryStep d ops = some out ↔
      (∀ v ∈ visits (fun d op => (step d op).1) d ops, Room v.1 v.2) ∧
        out = (after step d ops, outputs step d ops) :=
  tryRun_eq_some_iff (fun _ _ => tryStep_eq) fun _ _ => tryStep_none

/-- How often `exec_start` returned a pid for the hook. -/
def launches (r : HookRef) (out : List (ℤ × HookRef)) : ℕ := out.countP fun e => e.2 = r

/-- A run comes to its end, and `exec_start` returns a pid for the hook at most once in it. -/
def LaunchedOnce (r : HookRef) (d : Daemon) (ops : List Op) : Prop :=
  ∃ d' out, tryRun tryStep d ops = some (d', out) ∧ launches r out ≤ 1

structure OneshotLine where
  line : TabLine
  named : .oneshot ∈ line.names

/-! ### What asks for a launch -/

/-- A word has the bit of the event. -/
def Asked (ws : List Str) (event : ℤ) : Prop :=
  event = GpiodEdge.rising.code ∧ (∃ w ∈ ws, tabParseMod w &&& hooktabModRise ≠ 0) ∨
    event = GpiodEdge.falling.code ∧ ∃ w ∈ ws, tabParseMod w &&& hooktabModFall ≠ 0

/-- A word has the NO_LOOP bit, as both NO_LOOP and ONESHOT have. -/
def Holding (ws : List Str) : Prop := ∃ w ∈ ws, tabParseMod w &&& hooktabModNoLoop ≠ 0

instance (ws : List Str) : Decidable (Holding ws) := inferInstanceAs (Decidable (∃ w ∈ ws, _))

/-- An event of the pin that a word has the bit of, where the launch of the hook, if it comes to
one, succeeds. -/
def Asks (ws : List Str) (r : HookRef) : Daemon × Op → Prop
  | (_, .event i event x) => i = r.pin ∧ Asked ws event ∧ x.exec r.hook ≠ -1
  | (_, .childExit _) => False

/-- The exit of a child that `pid_list` has for the hook. -/
def ChildExits (r : HookRef) : Daemon × Op → Prop
  | (_, .event ..) => False
  | (d, .childExit pid) => Table.find d.pid_list pid = some r

/-! ### One step -/

/-- The step launches the hook. -/
def hits (r : HookRef) (d : Daemon) (op : Op) : Bool := (step d op).2.any fun e => e.2 = r

def Fired (r : HookRef) (d : Daemon) : Prop := ∃ hook, d.hook? r = some hook ∧ 0 < hook.fired

lemma hits_event {r : HookRef} {d : Daemon} {i : ℕ} {event : ℤ} {x : Returns} :
    hits r d (.event i event x) = true ↔ ∃ hook, d.hook? r = some hook ∧ r.pin = i ∧
      runs hook event = true ∧ x.exec r.hook ≠ -1 := by
  unfold hits step
  simp only [List.any_eq_true, decide_eq_true_eq, mem_spawns]
  constructor
  · rintro ⟨e, ⟨hook, hd, hi, hr, hx, -⟩, rfl⟩
    exact ⟨hook, hd, hi, hr, hx⟩
  · rintro ⟨hook, hd, hi, hr, hx⟩
    exact ⟨(x.exec r.hook, r), ⟨hook, hd, hi, hr, hx, rfl⟩, rfl⟩

lemma countP_step (r : HookRef) (d : Daemon) (op : Op) :
    ((step d op).2.countP fun e => e.2 = r) = if hits r d op then 1 else 0 := by
  have hle : ((step d op).2.countP fun e => e.2 = r) ≤ 1 := by
    cases op with
    | event i event x => exact countP_spawns_le event x d i r
    | childExit pid => simp [step]
  split
  · next h =>
    have : 0 < ((step d op).2.countP fun e => e.2 = r) := by
      rw [List.countP_pos_iff]
      simpa [hits] using h
    omega
  · next h =>
    rw [List.countP_eq_zero]
    simpa only [hits, List.any_eq_true, not_exists, not_and] using h

/-- **What a step makes of the hook**: launched, cleared by the exit of its child, or as it was. -/
lemma step_cases (r : HookRef) (d : Daemon) (op : Op) :
    (hits r d op = true ∧ ∃ pid, pid ≠ -1 ∧
        (step d op).1.hook? r = (d.hook? r).map fun hook => launched hook pid) ∨
      (hits r d op = false ∧ ChildExits r (d, op) ∧
        (step d op).1.hook? r = (d.hook? r).map cleared) ∨
      hits r d op = false ∧ ¬ ChildExits r (d, op) ∧ (step d op).1.hook? r = d.hook? r := by
  cases op with
  | childExit pid =>
    have h := hook?_hookClearSpawned d pid r
    have hno : hits r d (.childExit pid) = false := rfl
    split at h
    · next hf => exact Or.inr (Or.inl ⟨hno, hf, h⟩)
    · next hf => exact Or.inr (Or.inr ⟨hno, hf, h⟩)
  | event i event x =>
    have h := hook?_dispatchHooks event x d i r
    cases hh : hits r d (.event i event x) with
    | true =>
      obtain ⟨hook, hd, hi, hr, hx⟩ := hits_event.mp hh
      refine Or.inl ⟨rfl, x.exec r.hook, hx, ?_⟩
      rw [if_pos hi, hd, Option.map_some, settle, if_pos ⟨hr, hx⟩] at h
      rw [hd]
      exact h
    | false =>
      refine Or.inr (Or.inr ⟨rfl, id, h.trans ?_⟩)
      split
      · next hi =>
        cases hd : d.hook? r with
        | none => rfl
        | some hook =>
          -- it is not launched, so it is settled as it was
          rcases settle_cases event (x.exec r.hook) hook with ⟨hr, hx, -⟩ | hs
          · rw [hits_event.mpr ⟨hook, hd, hi, hr, hx⟩] at hh
            cases hh
          · rw [Option.map_some, hs]
      · rfl

lemma flags_step {r : HookRef} {d : Daemon} {flags : ℕ}
    (h : ∃ hook, d.hook? r = some hook ∧ hook.flags = flags) (op : Op) :
    ∃ hook, (step d op).1.hook? r = some hook ∧ hook.flags = flags := by
  obtain ⟨hook, hd, rfl⟩ := h
  rcases step_cases r d op with ⟨-, pid, -, hs⟩ | ⟨-, -, hs⟩ | ⟨-, -, hs⟩ <;> rw [hd] at hs
  · exact ⟨_, hs, rfl⟩
  · exact ⟨_, hs, rfl⟩
  · exact ⟨hook, hs, rfl⟩

lemma fired_of_hits {r : HookRef} {d : Daemon} {op : Op} (h : hits r d op = true) :
    Fired r (step d op).1 := by
  rcases step_cases r d op with ⟨-, pid, -, hs⟩ | ⟨hno, -⟩ | ⟨hno, -⟩
  · cases op with
    | childExit pid => cases h
    | event i event x =>
      obtain ⟨hook, hd, -⟩ := hits_event.mp h
      rw [hd] at hs
      exact ⟨_, hs, by simp⟩
  · rw [h] at hno
    cases hno
  · rw [h] at hno
    cases hno

lemma fired_step {r : HookRef} {d : Daemon} (h : Fired r d) (op : Op) : Fired r (step d op).1 := by
  obtain ⟨hook, hd, hf⟩ := h
  rcases step_cases r d op with ⟨-, pid, -, hs⟩ | ⟨-, -, hs⟩ | ⟨-, -, hs⟩ <;> rw [hd] at hs
  · exact ⟨_, hs, by simp⟩
  · exact ⟨_, hs, hf⟩
  · exact ⟨hook, hs, hf⟩

lemma fired_or_hits {r : HookRef} {d : Daemon} {op : Op} (h : Fired r (step d op).1) :
    Fired r d ∨ hits r d op = true := by
  obtain ⟨hook', hd', hf⟩ := h
  rcases step_cases r d op with ⟨hhit, -⟩ | ⟨-, -, hs⟩ | ⟨-, -, hs⟩
  · exact Or.inr hhit
  · rw [hs] at hd'
    obtain ⟨hook, hd, rfl⟩ := Option.map_eq_some_iff.mp hd'
    exact Or.inl ⟨hook, hd, hf⟩
  · exact Or.inl ⟨hook', hs ▸ hd', hf⟩

/-! ### A run -/

/-- The hook has the flags of the words. -/
def Carries (ws : List Str) (r : HookRef) (d : Daemon) : Prop :=
  ∃ hook, d.hook? r = some hook ∧ hook.flags = join tabParseMod 0 ws

/-- A child of the hook is running and holds it back. -/
def Held (r : HookRef) (d : Daemon) : Prop :=
  ∃ hook, d.hook? r = some hook ∧ inProgress hook = true

lemma inProgress_iff {ws : List Str} {hook : GpiodHook}
    (hf : hook.flags = join tabParseMod 0 ws) :
    inProgress hook = true ↔ Holding ws ∧ hook.spawned ≠ -1 := by
  have hbit : Holding ws ↔ hook.flags &&& hooktabModNoLoop ≠ 0 := by
    rw [hf, join_zero_and_ne_zero_iff]
    rfl
  rw [hbit]
  simp [inProgress]

/-- A hook without the ONESHOT bit is launched by what asks for it, unless it is held. -/
lemma hits_iff {ws : List Str} (hone : join tabParseMod 0 ws &&& hooktabModOneshot = 0)
    {r : HookRef} {d : Daemon} (hd : Carries ws r d) (op : Op) :
    hits r d op = true ↔ Asks ws r (d, op) ∧ ¬ Held r d := by
  obtain ⟨hook, hd, hf⟩ := hd
  have hheld : Held r d ↔ inProgress hook = true := by
    simp [Held, hd]
  cases op with
  | childExit pid => simp [hits, step, Asks]
  | event i event x =>
    have hruns : runs hook event = true ↔ Asked ws event ∧ ¬ inProgress hook = true := by
      rw [runs_iff, Asked, ← join_zero_and_ne_zero_iff, ← join_zero_and_ne_zero_iff, ← hf]
      rw [← hf] at hone
      constructor
      · exact fun hs => ⟨hs.bit, by simpa [inProgress] using hs.noLoop⟩
      · exact fun hs => ⟨hs.1, by simpa [inProgress] using hs.2, fun ho => ho.1 hone⟩
    rw [hits_event, hheld]
    constructor
    · rintro ⟨hook', hd', hi, hr, hx⟩
      obtain rfl := Option.some.inj (hd.symm.trans hd')
      exact ⟨⟨hi.symm, (hruns.mp hr).1, hx⟩, (hruns.mp hr).2⟩
    · rintro ⟨⟨hi, ha, hx⟩, hfree⟩
      exact ⟨hook, hd, hi.symm, hruns.mpr ⟨ha, hfree⟩, hx⟩

/-- A hook of a line is a latch: a launch holds it where a word has the NO_LOOP bit, and the exit of
its child frees it. -/
lemma latch {ws : List Str} (hone : join tabParseMod 0 ws &&& hooktabModOneshot = 0)
    (r : HookRef) : Latch (fun d op => (step d op).1) (hits r) (Held r) (Holding ws) (Asks ws r)
      (ChildExits r) (Carries ws r) where
  inv d op hd := flags_step hd op
  hit_iff d op hd := hits_iff hone hd op
  held_iff d op hd := by
    obtain ⟨hook, hd, hf⟩ := hd
    have hheld : Held r d ↔ inProgress hook = true := by simp [Held, hd]
    rcases step_cases r d op with ⟨hhit, pid, hpid, hs⟩ | ⟨hno, hexit, hs⟩ | ⟨hno, hexit, hs⟩
    · have hafter : Held r (step d op).1 ↔ inProgress (launched hook pid) = true := by
        simp [Held, hs, hd]
      rw [hafter, inProgress_iff (by exact hf), hhit]
      simp [hpid]
    · have hafter : Held r (step d op).1 ↔ inProgress (cleared hook) = true := by
        simp [Held, hs, hd]
      rw [hafter, inProgress_iff (by exact hf), hno]
      simp [hexit]
    · have hafter : Held r (step d op).1 ↔ Held r d := by simp [Held, hs]
      rw [hafter, hno]
      simp [hexit]

/-- **When ONESHOT holds**: a run comes to its end with the hook launched at most once exactly if
every array has room and no event that a word has the bit of comes behind another one, where a word
has the NO_LOOP bit with the exit of a child of the hook between them. -/
theorem launches_le_one_iff (l : OneshotLine) {stale : Mem} {h : GpiodHook}
    (hh : lineHook (l.line.text ++ 0 :: stale) = .ok h) {d : Daemon} {r : HookRef}
    (hd : d.hook? r = some h) (ops : List Op) :
    LaunchedOnce r d ops ↔
      (∀ v ∈ visits (fun d op => (step d op).1) d ops, Room v.1 v.2) ∧
        ¬ InOrder (twoHits (Holding l.line.read) (Asks l.line.read r) (ChildExits r))
          (visits (fun d op => (step d op).1) d ops) := by
  have hflags := lineHook_flags l.line hh
  have hone := lineHook_oneshot_bit l.line hh
  rw [hflags] at hone
  have hfree : ¬ Held r d := by
    rintro ⟨hook, hd', hp⟩
    obtain rfl := Option.some.inj (hd.symm.trans hd')
    exact ((inProgress_iff hflags).mp hp).2 (lineHook_unlaunched hh).2
  rw [← (latch hone r).hits_le_one_iff ⟨h, hd, hflags⟩ hfree]
  have hcount : launches r (outputs step d ops) =
      (visits (fun d op => (step d op).1) d ops).countP fun v => hits r v.1 v.2 :=
    countP_outputs (countP_step r) d ops
  rw [← hcount]
  constructor
  · rintro ⟨d', out, hrun, hle⟩
    obtain ⟨hroom, hout⟩ := tryRun_iff.mp hrun
    cases hout
    exact ⟨hroom, hle⟩
  · rintro ⟨hroom, hle⟩
    exact ⟨_, _, tryRun_iff.mpr ⟨hroom, rfl⟩, hle⟩

/-- The daemon once the line "WD5 EDGE_BOTH,ONESHOT /bin/a" is loaded. -/
def wd5Once : Daemon := ⟨[wd5.addHook (wd5Hook 7)], []⟩

def wd5OnceLine : OneshotLine := ⟨wd5Line .edgeBoth [behindComma .oneshot], by decide⟩

lemma wd5_hook : lineHook (wd5OnceLine.line.text ++ 0 :: []) = .ok (wd5Hook 7) := by decide

/-- Two events with the child running. -/
theorem running_once : LaunchedOnce ⟨0, 0⟩ wd5Once
    [.event 0 0 (onePid 100 (by decide)), .event 0 1 (onePid 101 (by decide))] := by
  refine (launches_le_one_iff wd5OnceLine wd5_hook rfl _).mpr ⟨by decide, ?_⟩
  have hholds : Holding wd5OnceLine.line.read := by decide
  rw [twoHits, if_pos hholds]
  simp [inOrder_cons, ChildExits]

/-- Loaded from a tab file, the hook is launched by the event after its child has gone. -/
theorem oneshot_launched_twice :
    wd5OnceLine.line.text = bytes "WD5 EDGE_BOTH,ONESHOT /bin/a\n" ∧
      TabBuffer.loadTab [wd5] (some wd5OnceLine.line.text) (fun _ => []) =
        .ok (0, wd5Once.gp_list) ∧
      ∃ d' out, tryRun tryStep wd5Once [.event 0 0 (onePid 100 (by decide)), .childExit 100,
        .event 0 0 (onePid 101 (by decide))] = some (d', out) ∧ launches ⟨0, 0⟩ out = 2 := by
  refine ⟨by decide, by decide, ?_⟩
  have hroom : ∀ v ∈ visits (fun d op => (step d op).1) wd5Once
      [.event 0 0 (onePid 100 (by decide)), .childExit 100,
        .event 0 0 (onePid 101 (by decide))], Room v.1 v.2 := by decide
  exact ⟨_, _, tryRun_iff.mpr ⟨hroom, rfl⟩, by decide⟩

end Gpiod.Oneshot
