import Mathlib.Data.List.Destutter
import Gpiod.Interference

/-!
What is reported of a pin that is read as a level.

Such a pin is polled by the timer, or interrupted on both edges through its `value` file. The
poll list tests the result of `changed`, the interrupt branch drops a result of 0 of a pin with
both edges: either way a reading is reported exactly if it differs from the one before.
-/

namespace Gpiod.Sampling

open Gpiod.Pin Gpiod.Changed Gpiod.Dispatch Gpiod.Loop Gpiod.Interference Gpiod.Machine

def IsLevel (value : ℤ) : Prop := value = 0 ∨ value = 1

/-- A pin that is read as a level, as `init` leaves it. -/
structure SampledPin where
  pin : GpioPin
  kind : pin.edge = .polled ∨ pin.facility = .sysfs ∧ pin.edge = .both
  level : IsLevel pin.value_

/-- What a step reads of the pin. -/
def sampled (i : ℕ) (pin : GpioPin) : Step → Option ℤ
  | .handle _ j reads _ => if j = i then some (valueRead pin reads) else none
  | _ => none

def samples (i : ℕ) (pin : GpioPin) (sts : List Step) : List ℤ := sts.filterMap (sampled i pin)

/-- The readings behind an initial one, with consecutive repetitions removed. -/
def changes (init : ℤ) (l : List ℤ) : List ℤ := ((init :: l).destutter (· ≠ ·)).tail

def edgeOf (value : ℤ) : ℤ :=
  if value = 1 then GpiodEdge.rising.code else GpiodEdge.falling.code

/-- The values passed to `dispatch` for the pin, each with the event passed to `dispatch_hooks`
behind it. -/
def reported (i : ℕ) (rs : List Record) : List (ℤ × ℤ) :=
  (rs.filter fun r => r.pin = i).map fun r => (r.value, r.event)

/-- The values reported are the changes of the level, each with its edge, and the edges
alternate. -/
structure ReportsChanges (i : ℕ) (pin : GpioPin) (sts : List Step) (rs : List Record) : Prop where
  values : (reported i rs).map Prod.fst = changes pin.value_ (samples i pin sts)
  edges : ∀ e ∈ reported i rs, IsLevel e.1 ∧ e.2 = edgeOf e.1
  alternate : ((reported i rs).map Prod.snd).IsChain (· ≠ ·)

/-! ### Changes -/

lemma changes_nil (init : ℤ) : changes init [] = [] := rfl

lemma destutter'_eq (v : ℤ) (l : List ℤ) :
    l.destutter' (· ≠ ·) v = v :: changes v l := by
  unfold changes
  rw [List.destutter_cons']
  induction l generalizing v with
  | nil => rfl
  | cons w l ih =>
    by_cases h : v = w
    · subst h
      rw [List.destutter'_cons_neg (h := not_not.mpr rfl)]
      exact ih v
    · rw [List.destutter'_cons_pos (h := h)]
      rfl

lemma changes_same (v : ℤ) (l : List ℤ) : changes v (v :: l) = changes v l := by
  rw [changes, List.destutter_cons', List.destutter'_cons_neg (h := not_not.mpr rfl),
    destutter'_eq, List.tail_cons]

lemma changes_new {v w : ℤ} (h : v ≠ w) (l : List ℤ) : changes v (w :: l) = w :: changes w l := by
  rw [changes, List.destutter_cons', List.destutter'_cons_pos _ h, destutter'_eq, List.tail_cons]

lemma mem_changes {v w : ℤ} {l : List ℤ} (h : w ∈ changes v l) : w ∈ l := by
  induction l generalizing v with
  | nil => cases h
  | cons u l ih =>
    by_cases hu : v = u
    · subst hu
      rw [changes_same] at h
      exact List.mem_cons_of_mem _ (ih h)
    · rw [changes_new hu] at h
      rcases List.mem_cons.mp h with rfl | h
      · exact List.mem_cons_self
      · exact List.mem_cons_of_mem _ (ih h)

lemma changes_chain (v : ℤ) (l : List ℤ) : (changes v l).IsChain (· ≠ ·) :=
  (List.isChain_destutter (· ≠ ·) (v :: l)).tail

/-! ### One reading -/

/-- The pin is at its position, with the last value given and hooks in any state. -/
def PinAt (i : ℕ) (pin : GpioPin) (value : ℤ) (s : LoopState) : Prop :=
  ∃ hooks, s.daemon.gp_list[i]? = some { pin with value_ := value, hook_list := hooks }

lemma IsLevel.int8_eq {v : ℤ} (h : IsLevel v) : int8 v = v := by
  rcases h with rfl | rfl <;> decide

lemma IsLevel.char_eq {v : ℤ} (h : IsLevel v) (sign : CharSign) : sign.char v = v := by
  rcases h with rfl | rfl <;> cases sign <;> decide

lemma IsLevel.nonneg {v : ℤ} (h : IsLevel v) : 0 ≤ v := by
  rcases h with rfl | rfl <;> omega

lemma edgeOf_ne {v w : ℤ} (hv : IsLevel v) (hw : IsLevel w) (h : v ≠ w) :
    edgeOf v ≠ edgeOf w := by
  rcases hv with rfl | rfl <;> rcases hw with rfl | rfl
  · exact absurd rfl h
  · decide
  · decide
  · exact absurd rfl h

lemma SampledPin.reads_value (p : SampledPin) : ¬ ReadsEvent p.pin := by
  rintro ⟨hf, he⟩
  rcases p.kind with hk | ⟨hk, -⟩
  · exact he hk
  · rw [hk] at hf
    cases hf

variable {sign : CharSign} {i : ℕ} {reads : Reads} {x : Returns} {v : ℤ} {s : LoopState}

lemma SampledPin.drops (p : SampledPin) {pin : GpioPin} (h : pin.edge = p.pin.edge) :
    dispatches (sourceOf p.pin) pin 0 = false := by
  rcases p.kind with hk | ⟨-, hk⟩ <;> simp [sourceOf, onIList, dispatches, h, hk]

/-- **One reading** is reported if it differs from the last value, which it becomes. -/
lemma handlePin_sampled (p : SampledPin) (hs : PinAt i p.pin v s) (hv : IsLevel v)
    (hr : IsLevel (valueRead p.pin reads)) :
    PinAt i p.pin (valueRead p.pin reads) (handlePin sign s (sourceOf p.pin) i reads x).1 ∧
      reported i (handlePin sign s (sourceOf p.pin) i reads x).2 =
        (changes v [valueRead p.pin reads]).map fun w => (w, edgeOf w) := by
  obtain ⟨hooks, hp⟩ := hs
  obtain ⟨hooks', hafter⟩ := handlePin_pin sign (sourceOf p.pin) hp reads x
  have hread : ¬ ReadsEvent { p.pin with value_ := v, hook_list := hooks } := p.reads_value
  have hvalue : changed sign { p.pin with value_ := v, hook_list := hooks } reads =
      changedFrom sign (valueRead p.pin reads)
        { p.pin with value_ := v, hook_list := hooks } reads.now :=
    changed_value hread sign reads
  generalize valueRead p.pin reads = w at *
  by_cases hw : w = v
  · have hc := hvalue.trans (changedFrom_same (by rw [hr.char_eq]; exact hr.nonneg)
      (by rw [hr.char_eq, hv.int8_eq, hw]))
    rw [hc] at hafter
    have hdrop : dispatches (sourceOf p.pin)
        { p.pin with value_ := v, hook_list := hooks } 0 = false := p.drops rfl
    refine ⟨⟨hooks', by rw [hafter, hw]⟩, ?_⟩
    rw [hw, changes_same]
    simp only [handlePin, hp, hc, hdrop]
    rfl
  · have hc := hvalue.trans (changedFrom_new (by rw [hr.char_eq]; exact hr.nonneg)
      (by rw [hr.char_eq, hv.int8_eq]; exact hw))
    rw [hr.char_eq, hr.int8_eq] at hc
    rw [hc] at hafter
    refine ⟨⟨hooks', hafter⟩, ?_⟩
    rw [changes_new (Ne.symm hw)]
    simp only [handlePin, hp, hc, dispatches_one]
    simp [reported, edgeOf, changes_nil]

/-! ### Runs -/

/-- The steps that handle the pin do so in the branch of its list, and read a level. -/
def ReadsLevels (i : ℕ) (pin : GpioPin) (sts : List Step) : Prop :=
  ∀ src reads x, .handle src i reads x ∈ sts → src = sourceOf pin ∧ IsLevel (valueRead pin reads)

lemma reported_append (rs rs' : List Record) :
    reported i (rs ++ rs') = reported i rs ++ reported i rs' := by
  simp [reported]

lemma reported_behind {rs : List Record} (h : ∀ r ∈ rs, r.pin ≠ i) (rs' : List Record) :
    reported i (rs ++ rs') = reported i rs' := by
  rw [reported, filter_pin_append h, reported]

/-- The changes behind a reading: its own, if it is one, and those behind it. -/
lemma changes_cons (v w : ℤ) (l : List ℤ) : changes v (w :: l) = changes v [w] ++ changes w l := by
  by_cases h : v = w
  · rw [h, changes_same, changes_same]
    rfl
  · rw [changes_new h, changes_new h]
    rfl

/-- **What a run reports**: the changes of the level, each with its edge. -/
lemma outputs_reported (p : SampledPin) (hs : PinAt i p.pin v s) (hv : IsLevel v)
    {sts : List Step} (hr : ReadsLevels i p.pin sts) :
    reported i (outputs (step sign) s sts) =
      (changes v (samples i p.pin sts)).map fun w => (w, edgeOf w) := by
  induction sts generalizing s v with
  | nil => rfl
  | cons st sts ih =>
    have hrest : ReadsLevels i p.pin sts := fun src reads x hst =>
      hr src reads x (List.mem_cons_of_mem _ hst)
    rw [outputs_cons]
    by_cases hst : ∃ src reads x, st = .handle src i reads x
    · obtain ⟨src, reads, x, rfl⟩ := hst
      obtain ⟨rfl, hw⟩ := hr src reads x List.mem_cons_self
      have hone : sampled i p.pin (.handle (sourceOf p.pin) i reads x) =
          some (valueRead p.pin reads) := if_pos rfl
      obtain ⟨hnext, hout⟩ := handlePin_sampled p hs hv hw
      rw [samples, List.filterMap_cons_some hone, changes_cons, List.map_append, ← hout,
        reported_append]
      exact congrArg _ (ih hnext hw hrest)
    · -- the step handles another pin, or none
      have hne : ∀ src reads x, st ≠ .handle src i reads x := fun src reads x h =>
        hst ⟨src, reads, x, h⟩
      have hnone : sampled i p.pin st = none := by
        cases st with
        | handle src j reads x =>
          refine if_neg fun hj => hne src reads x (by rw [hj])
        | _ => rfl
      obtain ⟨hooks, hp⟩ := hs
      obtain ⟨⟨hooks', hafter⟩, hout⟩ := step_unhandled sign hp hne
      rw [samples, List.filterMap_cons_none hnone, reported_behind hout]
      exact ih ⟨hooks', hafter⟩ hv hrest

/-- What is read of the pin for a descriptor that is ready: an interrupt of its own, if it is
watched, and else a tick of the timer. -/
def reading (i : ℕ) (pin : GpioPin) : Ready → Option ℤ
  | .pin j reads _ => if onIList pin = true ∧ j = i then some (valueRead pin reads) else none
  | .timerFd reads _ => if onIList pin = true then none else some (valueRead pin (reads i))
  | _ => none

lemma samples_tick {gp_list : List GpioPin} {pin : GpioPin} (hp : gp_list[i]? = some pin)
    (reads : ℕ → Reads) (x : ℕ → Returns) :
    samples i pin (readySteps gp_list (.timerFd reads x)) =
      (reading i pin (.timerFd reads x)).toList := by
  have hone : ∀ j, sampled i pin (.handle .timer j (reads j) (x j)) =
      if j = i then some (valueRead pin (reads j)) else none := fun _ => rfl
  have hnodup : (pList gp_list).Nodup := List.nodup_range.filter _
  have hat : samples i pin (readySteps gp_list (.timerFd reads x)) =
      ((pList gp_list).filter (· = i)).map fun j => valueRead pin (reads j) := by
    rw [samples, readySteps, List.filterMap_map, ← List.filterMap_eq_map, List.filterMap_filter]
    refine List.filterMap_congr fun j _ => ?_
    rw [Function.comp_apply, hone]
    simp only [decide_eq_true_eq, Function.comp_apply]
  have hmem : i ∈ pList gp_list ↔ ¬ onIList pin = true := by
    obtain ⟨hlt, hget⟩ := List.getElem?_eq_some_iff.mp hp
    simp [pList, hlt, hget]
  rw [hat, reading]
  by_cases hin : onIList pin = true
  · have hout : (pList gp_list).filter (· = i) = [] := List.filter_eq_nil_iff.mpr fun j hj he =>
      hmem.mp (of_decide_eq_true he ▸ hj) hin
    rw [hout, if_pos hin]
    rfl
  · have hthe : (pList gp_list).filter (· = i) = [i] := by
      rw [List.filter_eq, List.count_eq_one_of_mem hnodup (hmem.mpr hin)]
      rfl
    rw [hthe, if_neg hin]
    rfl

lemma samples_ready {gp_list : List GpioPin} {pin : GpioPin} (hp : gp_list[i]? = some pin)
    (r : Ready) : samples i pin (readySteps gp_list r) = (reading i pin r).toList := by
  cases r with
  | timerFd reads x => exact samples_tick hp reads x
  | pin j reads x =>
    by_cases hj : j = i
    · subst hj
      cases hin : onIList pin <;> simp [samples, readySteps, reading, sampled, hp, hin]
    · by_cases hin : gp_list[j]?.map onIList = some true
      · simp [samples, readySteps, reading, sampled, hj, hin]
      · simp [samples, readySteps, reading, hj, hin]
  | _ => rfl

/-- **The readings of a run** are those of its interrupts or of its ticks, one for each. -/
lemma samples_run {gp_list : List GpioPin} {pin : GpioPin} (hp : gp_list[i]? = some pin)
    (batches : List (List Ready)) :
    samples i pin (runSteps gp_list batches) = batches.flatten.filterMap (reading i pin) := by
  have hbatch : ∀ batch : List Ready,
      samples i pin (batchSteps gp_list batch) = batch.filterMap (reading i pin) := fun batch => by
    rw [samples, batchSteps, List.filterMap_cons_none rfl, List.filterMap_flatMap,
      List.filterMap_eq_flatMap_toList]
    exact congrArg (batch.flatMap ·) (funext (samples_ready hp))
  rw [samples, runSteps, List.filterMap_flatMap, List.filterMap_flatten]
  exact congrArg (batches.flatMap ·) (funext hbatch)

lemma readsLevels_of_run {d : Daemon} {pin : GpioPin} (hp : d.gp_list[i]? = some pin)
    {batches : List (List Ready)}
    (hl : ∀ w ∈ samples i pin (runSteps d.gp_list batches), IsLevel w) :
    ReadsLevels i pin (runSteps d.gp_list batches) := by
  intro src reads x hst
  refine ⟨?_, hl _ (List.mem_filterMap.mpr ⟨_, hst, if_pos rfl⟩)⟩
  obtain ⟨batch, -, hst⟩ := List.mem_flatMap.mp hst
  obtain ⟨⟨pin', hp', hsrc⟩, -⟩ := handle_source hst
  rw [hp] at hp'
  cases hp'
  exact hsrc

lemma reported_records (sign : CharSign) (p : SampledPin) {d : Daemon}
    (hp : d.gp_list[i]? = some p.pin) {batches : List (List Ready)}
    (hl : ∀ w ∈ samples i p.pin (runSteps d.gp_list batches), IsLevel w) :
    reported i (records sign d batches) =
      (changes p.pin.value_ (samples i p.pin (runSteps d.gp_list batches))).map
        fun w => (w, edgeOf w) :=
  outputs_reported p ⟨p.pin.hook_list, hp⟩ p.level (readsLevels_of_run hp hl)

/-- **Exactly the changes are reported** of a sampled pin, in every run at which its readings are
levels; and in two runs with the same readings of it the same, whatever the other pins are and
do. -/
theorem reports_changes (sign : CharSign) (p : SampledPin) {d : Daemon} {i : ℕ}
    (hp : d.gp_list[i]? = some p.pin) {batches : List (List Ready)}
    (hl : ∀ w ∈ samples i p.pin (runSteps d.gp_list batches), IsLevel w) :
    ReportsChanges i p.pin (runSteps d.gp_list batches) (records sign d batches) ∧
      ∀ d' batches', d'.gp_list[i]? = some p.pin →
        samples i p.pin (runSteps d'.gp_list batches') =
          samples i p.pin (runSteps d.gp_list batches) →
        reported i (records sign d' batches') = reported i (records sign d batches) := by
  have hrep := reported_records sign p hp hl
  refine ⟨⟨?_, ?_, ?_⟩, fun d' batches' hp' hsame => ?_⟩
  · rw [hrep, List.map_map]
    exact List.map_id _
  · intro e he
    rw [hrep] at he
    obtain ⟨w, hw, rfl⟩ := List.mem_map.mp he
    exact ⟨hl w (mem_changes hw), rfl⟩
  · rw [hrep, List.map_map, List.isChain_map]
    exact (changes_chain _ _).imp_of_mem_imp fun v w hv hw hne =>
      edgeOf_ne (hl v (mem_changes hv)) (hl w (mem_changes hw)) hne
  · rw [reported_records sign p hp' (by rwa [hsame]), hsame, hrep]

/-- A polled pin that read 0 at the start, and three ticks of the timer that read 1, 1 and 0. -/
def polledPin : SampledPin := ⟨⟨bytes "WD0", 0, .uapi, .polled, 0, []⟩, Or.inl rfl, Or.inl rfl⟩

def tickTo (level : UInt8) : Ready :=
  .timerFd (fun _ => ⟨.readFails, .value level, .fails, ⟨7, 0⟩⟩) fun _ => noExec

/-- The rise and the fall are reported. -/
theorem ticks_reported :
    ReportsChanges 0 polledPin.pin
      (runSteps [polledPin.pin] [[tickTo 1], [tickTo 1], [tickTo 0]])
      (records .signed ⟨[polledPin.pin], []⟩ [[tickTo 1], [tickTo 1], [tickTo 0]]) ∧
    reported 0 (records .signed ⟨[polledPin.pin], []⟩ [[tickTo 1], [tickTo 1], [tickTo 0]]) =
      [(1, GpiodEdge.rising.code), (0, GpiodEdge.falling.code)] := by
  have hs : samples 0 polledPin.pin
      (runSteps [polledPin.pin] [[tickTo 1], [tickTo 1], [tickTo 0]]) = [1, 1, 0] :=
    (samples_run rfl _).trans (by decide)
  refine ⟨(reports_changes .signed polledPin (d := ⟨[polledPin.pin], []⟩) rfl fun w hw => ?_).1,
    by decide⟩
  rw [hs] at hw
  simp only [List.mem_cons, List.not_mem_nil, or_false] at hw
  rcases hw with rfl | rfl | rfl
  · exact Or.inr rfl
  · exact Or.inr rfl
  · exact Or.inl rfl

end Gpiod.Sampling
