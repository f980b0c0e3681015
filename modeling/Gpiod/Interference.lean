import Gpiod.Loop

/-!
Whether the other pins of a batch show in what is sent and launched for a pin.

A batch reaches a pin through the variables of the iteration only. So the pin is shielded
from the others if its handling stores the event and the timestamp it passes on, and if it
passes on what others left there it is not.
-/

namespace Gpiod.Interference

open Gpiod.Pin Gpiod.Changed Gpiod.Dispatch Gpiod.Loop Gpiod.Machine

/-- The step handles the pin, or may take a child from its hooks. -/
def concerns (i : ℕ) : Step → Bool
  | .handle _ j _ _ => j = i
  | .sigchld _ _ => true
  | _ => false

/-- The message of a record, and the launches that follow it. -/
def Record.observed (r : Record) : Timespec × ℤ × ℤ × List Call := (r.ts, r.chan, r.value, r.calls)

/-- What is sent and launched for a pin in a batch. -/
def observed (sign : CharSign) (i : ℕ) (d : Daemon) (batch : List Ready) :
    List (Timespec × ℤ × ℤ × List Call) :=
  ((records sign d [batch]).filter fun r => r.pin = i).map Record.observed

/-- The batch brings the pin this read, and nothing else that concerns it. -/
def Brings (i : ℕ) (pin : GpioPin) (reads : Reads) (x : Returns) (d : Daemon)
    (batch : List Ready) : Prop :=
  d.gp_list[i]? = some pin ∧
    (batchSteps d.gp_list batch).filter (concerns i) = [.handle (sourceOf pin) i reads x]

/-- In any two batches that bring the pin the same read, the same is sent and launched for it,
whatever the other pins are and whatever the batches bring them. -/
def Shielded (sign : CharSign) (i : ℕ) (pin : GpioPin) (reads : Reads) (x : Returns) : Prop :=
  ∀ d d' batch batch', Brings i pin reads x d batch → Brings i pin reads x d' batch' →
    observed sign i d batch = observed sign i d' batch'

/-! ### The other steps -/

lemma step_other (sign : CharSign) {i : ℕ} {st : Step} (h : concerns i st = false)
    (s : LoopState) :
    (step sign s st).1.daemon.gp_list[i]? = s.daemon.gp_list[i]? ∧
      ∀ r ∈ (step sign s st).2, r.pin ≠ i := by
  cases st with
  | epollWait => simp [step]
  | other => simp [step]
  | sigchld ssi_pid pid => cases h
  | handle src j reads x =>
    have hj : j ≠ i := by simpa [concerns] using h
    refine ⟨?_, fun r hr => ?_⟩
    · simp only [step, handlePin]
      cases s.daemon.gp_list[j]? with
      | none => rfl
      | some pin =>
        simp only
        split
        · rw [getElem?_dispatchHooks_ne _ hj, getElem?_setValue, if_neg hj]
        · rw [getElem?_setValue, if_neg hj]
    · obtain ⟨-, -, -, hpin, -⟩ := mem_handlePin hr
      exact hpin ▸ hj

lemma step_unhandled (sign : CharSign) {i : ℕ} {st : Step} {s : LoopState} {pin : GpioPin}
    (hp : s.daemon.gp_list[i]? = some pin) (h : ∀ src reads x, st ≠ .handle src i reads x) :
    (∃ hooks, (step sign s st).1.daemon.gp_list[i]? = some { pin with hook_list := hooks }) ∧
      ∀ r ∈ (step sign s st).2, r.pin ≠ i := by
  by_cases hc : concerns i st = false
  · obtain ⟨hpin, hout⟩ := step_other sign hc s
    exact ⟨⟨pin.hook_list, by rw [hpin, hp]⟩, hout⟩
  · -- a child of one of its hooks may have gone
    cases st with
    | sigchld ssi_pid pid => exact ⟨getElem?_onSigchld s.daemon ssi_pid pid hp, by simp [step]⟩
    | epollWait => simp [concerns] at hc
    | other => simp [concerns] at hc
    | handle src j reads x =>
      obtain rfl : j = i := by simpa [concerns] using hc
      exact absurd rfl (h src reads x)

lemma filter_pin_append {i : ℕ} {rs : List Record} (h : ∀ r ∈ rs, r.pin ≠ i) (rs' : List Record) :
    (rs ++ rs').filter (fun r => r.pin = i) = rs'.filter fun r => r.pin = i := by
  rw [List.filter_append, List.filter_eq_nil_iff.mpr (by simpa using h), List.nil_append]

lemma outputs_other (sign : CharSign) {i : ℕ} {sts : List Step}
    (h : ∀ st ∈ sts, concerns i st = false) (s : LoopState) :
    (after (step sign) s sts).daemon.gp_list[i]? = s.daemon.gp_list[i]? ∧
      (outputs (step sign) s sts).filter (fun r => r.pin = i) = [] := by
  induction sts generalizing s with
  | nil => simp
  | cons st sts ih =>
    obtain ⟨hpin, hout⟩ := step_other sign (h st (by simp)) s
    obtain ⟨hafter, hrest⟩ := ih (fun st hst => h st (List.mem_cons_of_mem _ hst))
      (step sign s st).1
    rw [after_cons, outputs_cons, filter_pin_append hout, hafter, hpin]
    exact ⟨rfl, hrest⟩

/-! ### The step of the pin -/

/-- What is sent and launched with these variables. -/
def sent (sign : CharSign) (pin : GpioPin) (reads : Reads) (x : Returns) (event : ℤ)
    (ts : Timespec) : Timespec × ℤ × ℤ × List Call :=
  (ts, pin.local_, (changed sign pin reads).value_,
    (dispatchLoop pin.label event x.exec 0 pin.hook_list).calls)

lemma handlePin_observed {sign : CharSign} {s : LoopState} {src : Source} {i : ℕ} {pin : GpioPin}
    (hp : s.daemon.gp_list[i]? = some pin) (reads : Reads) (x : Returns) :
    ((handlePin sign s src i reads x).2.filter fun r => r.pin = i).map Record.observed =
      if dispatches src pin (changed sign pin reads).ret then
        [sent sign pin reads x (((changed sign pin reads).stored.map Prod.fst).getD s.event)
          (((changed sign pin reads).stored.map Prod.snd).getD s.ts)]
      else [] := by
  simp only [handlePin, hp]
  split
  · simp [Record.observed, sent, dispatchPin, getElem?_setValue, hp]
  · rfl

/-- **What a batch shows of the pin**: what its step puts out with the variables as the steps in
front of it left them. -/
lemma observed_eq {sign : CharSign} {i : ℕ} {pin : GpioPin} {reads : Reads} {x : Returns}
    {d : Daemon} {batch : List Ready} {pre post : List Step} (hp : d.gp_list[i]? = some pin)
    (hsplit : batchSteps d.gp_list batch = pre ++ .handle (sourceOf pin) i reads x :: post)
    (hpre : ∀ st ∈ pre, concerns i st = false) (hpost : ∀ st ∈ post, concerns i st = false) :
    observed sign i d batch =
      if dispatches (sourceOf pin) pin (changed sign pin reads).ret then
        [sent sign pin reads x
          (((changed sign pin reads).stored.map Prod.fst).getD
            (after (step sign) (start d) pre).event)
          (((changed sign pin reads).stored.map Prod.snd).getD
            (after (step sign) (start d) pre).ts)]
      else [] := by
  obtain ⟨hafter, hnone⟩ := outputs_other sign hpre (start d)
  obtain ⟨-, hnone'⟩ := outputs_other sign hpost
    (step sign (after (step sign) (start d) pre) (.handle (sourceOf pin) i reads x)).1
  rw [← handlePin_observed (hafter.trans hp)]
  unfold observed records runSteps
  rw [List.flatMap_singleton, hsplit, outputs_append, outputs_cons, List.filter_append,
    List.filter_append, hnone, hnone', List.nil_append, List.append_nil]
  rfl

lemma handlePin_ts {sign : CharSign} {s : LoopState} {src : Source} {i : ℕ} {pin : GpioPin}
    (hp : s.daemon.gp_list[i]? = some pin) (reads : Reads) (x : Returns) :
    (handlePin sign s src i reads x).1.ts =
      ((changed sign pin reads).stored.map Prod.snd).getD s.ts := by
  simp only [handlePin, hp]
  split <;> rfl

/-! ### A batch that shows -/

/-- A pin of the line event facility, and a read of it that stores the timestamp 1. -/
def tickPin : GpioPin := ⟨[], 0, .uapi, .rising, 0, []⟩

def tick : Reads := ⟨.readFails, .fails, .whole gpioeventEventRisingEdge 1000000000, ⟨0, 0⟩⟩

lemma onIList_tickPin : onIList tickPin = true := rfl

/-- The pin at its position, with pins that tick in front of it and behind it. -/
def among (i : ℕ) (pin : GpioPin) : Daemon := ⟨List.replicate i tickPin ++ [pin, tickPin], []⟩

/-- The ready descriptor that brings the pin its read. -/
def ready (i : ℕ) (pin : GpioPin) (reads : Reads) (x : Returns) : Ready :=
  if onIList pin then .pin i reads x else .timerFd (fun _ => reads) fun _ => x

lemma among_pin (i : ℕ) (pin : GpioPin) : (among i pin).gp_list[i]? = some pin := by
  simp [among]

lemma among_next (i : ℕ) (pin : GpioPin) : (among i pin).gp_list[i + 1]? = some tickPin := by
  simp [among]

lemma pList_among {i : ℕ} {pin : GpioPin} (h : onIList pin = false) :
    pList (among i pin).gp_list = [i] := by
  have hlen : (among i pin).gp_list.length = i + 2 := by simp [among]
  have hfront : (List.range i).filter
      (fun j => ((among i pin).gp_list[j]?.map onIList) = some false) = [] := by
    rw [List.filter_eq_nil_iff]
    intro j hj
    have hj := List.mem_range.mp hj
    have : (among i pin).gp_list[j]? = some tickPin := by
      simp only [among]
      rw [List.getElem?_append_left (by simpa using hj)]
      simp [hj]
    simp [this, onIList_tickPin]
  unfold pList
  rw [hlen, List.range_succ, List.range_succ, List.filter_append, List.filter_append, hfront]
  simp [among_pin, among_next, h, onIList_tickPin]

lemma readySteps_ready (i : ℕ) (pin : GpioPin) (reads : Reads) (x : Returns) :
    readySteps (among i pin).gp_list (ready i pin reads x) =
      [.handle (sourceOf pin) i reads x] := by
  unfold ready sourceOf
  cases h : onIList pin with
  | true => simp [readySteps, among_pin, h]
  | false => simp [readySteps, pList_among h]

lemma readySteps_tick (i : ℕ) (pin : GpioPin) (x : Returns) :
    readySteps (among i pin).gp_list (.pin (i + 1) tick x) =
      [.handle .interrupt (i + 1) tick x] := by
  simp [readySteps, among_next, onIList_tickPin]

/-- **Which pins are shielded**: those whose read settles the handling. -/
theorem shielded_iff (sign : CharSign) (i : ℕ) (pin : GpioPin) (reads : Reads) (x : Returns) :
    Shielded sign i pin reads x ↔ Settled sign (sourceOf pin) pin reads := by
  rw [settled_iff]
  constructor
  · intro h hd
    -- the pin alone, and behind one that ticks
    have halone : batchSteps (among i pin).gp_list [ready i pin reads x] =
        [.epollWait] ++ .handle (sourceOf pin) i reads x :: [] := by
      simp [batchSteps, readySteps_ready]
    have hbehind : batchSteps (among i pin).gp_list
        [.pin (i + 1) tick noExec, ready i pin reads x] =
          [.epollWait, .handle .interrupt (i + 1) tick noExec] ++
            .handle (sourceOf pin) i reads x :: [] := by
      simp [batchSteps, readySteps_ready, readySteps_tick]
    have heq := h _ _ _ _ ⟨among_pin i pin, by rw [halone]; simp [concerns]⟩
      ⟨among_pin i pin, by rw [hbehind]; simp [concerns]⟩
    rw [observed_eq (among_pin i pin) halone (by simp [concerns]) (by simp),
      observed_eq (among_pin i pin) hbehind (by simp [concerns]) (by simp), if_pos hd,
      if_pos hd] at heq
    by_contra hst
    rw [Option.not_isSome_iff_eq_none] at hst
    -- the two messages carry the timestamp of their variables
    have hts := congrArg Prod.fst (List.cons.inj heq).1
    simp only [sent, hst, Option.map_none, Option.getD_none] at hts
    have htick : (after (step sign) (start (among i pin))
        [.epollWait, .handle .interrupt (i + 1) tick noExec]).ts = ⟨1, 0⟩ := by
      have hp : (start (among i pin)).daemon.gp_list[i + 1]? = some tickPin := among_next i pin
      exact handlePin_ts hp tick noExec
    rw [htick] at hts
    cases hts
  · intro h d d' batch batch' hb hb'
    obtain ⟨pre, post, hsplit, hpre, -, hpost⟩ := List.filter_eq_cons_iff.mp hb.2
    obtain ⟨pre', post', hsplit', hpre', -, hpost'⟩ := List.filter_eq_cons_iff.mp hb'.2
    rw [observed_eq hb.1 hsplit (by simpa using hpre)
        (by simpa [List.filter_eq_nil_iff] using hpost),
      observed_eq hb'.1 hsplit' (by simpa using hpre')
        (by simpa [List.filter_eq_nil_iff] using hpost')]
    split
    · next hd =>
      obtain ⟨e, he⟩ := Option.isSome_iff_exists.mp (h hd)
      simp [he]
    · rfl

/-- A pin with one edge whose interrupt reads its last value, and a hook for that edge. -/
def risenPin : GpioPin := ⟨bytes "WD0", 0, .sysfs, .rising, 1, [⟨bytes "/bin/a", 1, 0, -1, 0, []⟩]⟩

def readsOne : Reads := ⟨.byte 0x31, .fails, .fails, ⟨7, 0⟩⟩

/-- Behind a pin that ticks its message carries the timestamp of that pin, and its hook is
launched; alone it does neither. -/
theorem neighbour_shows :
    observed .signed 0 (among 0 risenPin) [ready 0 risenPin readsOne noExec] =
        [(⟨0, 0⟩, 0, 1, [])] ∧
      observed .signed 0 (among 0 risenPin)
          [.pin 1 tick noExec, ready 0 risenPin readsOne noExec] =
        [(⟨1, 0⟩, 0, 1, [⟨0, bytes "/bin/a", [some (bytes "/bin/a")]⟩])] ∧
      ¬ Shielded .signed 0 risenPin readsOne noExec := by
  have halone : observed .signed 0 (among 0 risenPin) [ready 0 risenPin readsOne noExec] =
      [(⟨0, 0⟩, 0, 1, [])] := by decide
  have hbehind : observed .signed 0 (among 0 risenPin)
      [.pin 1 tick noExec, ready 0 risenPin readsOne noExec] =
        [(⟨1, 0⟩, 0, 1, [⟨0, bytes "/bin/a", [some (bytes "/bin/a")]⟩])] := by decide
  refine ⟨halone, hbehind, fun h => ?_⟩
  have heq := h (among 0 risenPin) (among 0 risenPin) [ready 0 risenPin readsOne noExec]
    [.pin 1 tick noExec, ready 0 risenPin readsOne noExec] ⟨rfl, rfl⟩ ⟨rfl, rfl⟩
  rw [halone, hbehind] at heq
  cases heq

end Gpiod.Interference
