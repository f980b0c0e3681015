import Gpiod.Interference

/-!
What the interrupts of a pin with one edge report.

Such a pin is interrupted by one transition only, so each of its interrupts reads the same
value, and from the second on it equals the last one: the change detector stores nothing, and
the loop dispatches all the same.
-/

namespace Gpiod.SingleEdge

open Gpiod.Pin Gpiod.Changed Gpiod.Dispatch Gpiod.Loop Gpiod.Interference Gpiod.Machine

/-- A pin read through its `value` file, with one edge. -/
structure SinglePin where
  pin : GpioPin
  sysfs : pin.facility = .sysfs
  single : pin.edge = .rising ∨ pin.edge = .falling

/-- What the `value` file reads behind the edge. -/
def levelByte : GpiodEdge → UInt8
  | .rising => 0x31
  | _ => 0x30

def level : GpiodEdge → ℤ
  | .rising => 1
  | _ => 0

def handles (i : ℕ) : Step → Bool
  | .handle _ j _ _ => j = i
  | _ => false

/-- The record reports the edge: `dispatch_hooks` gets it, the timestamp was stored with it in
the same handling, and every hook that passes the filters for it is launched. -/
structure Reported (sign : CharSign) (edge : GpiodEdge) (r : Record) : Prop where
  event : r.event = edge.code
  stored : (changed sign r.before r.reads).stored = some (edge.code, r.ts)
  launched : ∀ k hook, r.before.hook_list[k]? = some hook → runs hook edge.code = true →
    ∃ call ∈ r.calls, call.hook = k

/-- Every interrupt of the pin makes a record, and every record of it reports the edge. -/
structure ReportsAll (sign : CharSign) (i : ℕ) (edge : GpiodEdge) (sts : List Step)
    (rs : List Record) : Prop where
  each : (rs.filter fun r => r.pin = i).length = sts.countP (handles i)
  reported : ∀ r ∈ rs, r.pin = i → Reported sign edge r

/-- The steps handle the pin for interrupts at which its `value` file reads the edge's level. -/
def ReadsLevel (i : ℕ) (edge : GpiodEdge) (sts : List Step) : Prop :=
  ∀ src reads x, .handle src i reads x ∈ sts →
    src = .interrupt ∧ reads.sysfs = .byte (levelByte edge)

/-! ### One interrupt -/

/-- The state has the pin at its position, with hooks in any state and the last value given. -/
def EdgeAt (i : ℕ) (edge : GpiodEdge) (value : ℤ) (s : LoopState) : Prop :=
  ∃ pin, s.daemon.gp_list[i]? = some pin ∧ pin.facility = .sysfs ∧ pin.edge = edge ∧
    int8 pin.value_ = value

variable {sign : CharSign} {i : ℕ} {edge : GpiodEdge} {reads : Reads} {x : Returns}

lemma char_level (sign : CharSign) (hread : reads.sysfs = .byte (levelByte edge)) :
    sign.char (sysfsReadValue reads.sysfs) = level edge := by
  rw [hread]
  cases sign <;> cases edge <;> decide

lemma level_bounds (edge : GpiodEdge) : 0 ≤ level edge ∧ int8 (level edge) = level edge := by
  cases edge <;> decide

/-- The level at which the last value was read: nothing is stored. -/
lemma changed_again (sign : CharSign) {pin : GpioPin} (hf : pin.facility = .sysfs)
    (hread : reads.sysfs = .byte (levelByte edge)) (hv : int8 pin.value_ = level edge) :
    changed sign pin reads = ⟨0, pin.value_, none⟩ := by
  have hc := char_level sign hread
  rw [changed, hf]
  exact changedFrom_same (by rw [hc]; exact (level_bounds edge).1) (by rw [hc, hv])

/-- The first time the level is read: the edge is stored. -/
lemma changed_first (sign : CharSign) {pin : GpioPin} (hf : pin.facility = .sysfs)
    (he : edge = .rising ∨ edge = .falling)
    (hread : reads.sysfs = .byte (levelByte edge)) (hv : int8 pin.value_ ≠ level edge) :
    changed sign pin reads = ⟨1, level edge, some (edge.code, reads.now)⟩ := by
  have hc := char_level sign hread
  have h0 : 0 ≤ sign.char (sysfsReadValue reads.sysfs) := by rw [hc]; exact (level_bounds edge).1
  rw [changed, hf]
  refine (changedFrom_new h0 (by rw [hc]; exact Ne.symm hv)).trans ?_
  rw [hc, (level_bounds edge).2]
  rcases he with rfl | rfl <;> rfl

/-- **One interrupt** makes one record, which reports the edge exactly if the last value was
another; either way the last value is the edge's level from then on. -/
lemma handlePin_single (sign : CharSign) (x : Returns) {value : ℤ} {s : LoopState}
    (h : EdgeAt i edge value s) (he : edge = .rising ∨ edge = .falling)
    (hread : reads.sysfs = .byte (levelByte edge)) :
    ∃ r, (handlePin sign s .interrupt i reads x).2 = [r] ∧ r.pin = i ∧
      (Reported sign edge r ↔ value ≠ level edge) ∧
      EdgeAt i edge (level edge) (handlePin sign s .interrupt i reads x).1 := by
  obtain ⟨pin, hp, hf, hedge, rfl⟩ := h
  have hboth : (pin.edge == .both) = false := by
    rw [hedge]; rcases he with rfl | rfl <;> rfl
  obtain ⟨hooks, hafter⟩ := handlePin_pin sign .interrupt hp reads x
  by_cases hv : int8 pin.value_ = level edge
  · have hc := changed_again sign hf hread hv
    rw [hc] at hafter
    refine ⟨_, by simp only [handlePin, hp, hc, dispatches, hboth]; rfl, rfl,
      ⟨fun hr => ?_, fun hn => absurd hv hn⟩, _, hafter, hf, hedge, hv⟩
    have hst := hr.stored
    rw [hc] at hst
    cases hst
  · have hc := changed_first sign hf he hread hv
    rw [hc] at hafter
    refine ⟨_, by simp only [handlePin, hp, hc, dispatches, hboth]; rfl, rfl,
      ⟨fun _ => hv, fun _ => ⟨rfl, by rw [hc]; rfl, fun k hook hk hr => ?_⟩⟩,
      _, hafter, hf, hedge, (level_bounds edge).2⟩
    simp only [dispatchPin, getElem?_setValue, hp, ↓reduceIte, Option.map_some,
      Option.getD_some, mem_dispatchLoop_calls]
    exact ⟨_, ⟨k, hook, hk, hr, rfl⟩, Nat.zero_add k⟩

lemma step_elsewhere (sign : CharSign) {value : ℤ} {s : LoopState} {st : Step}
    (h : EdgeAt i edge value s) (hst : handles i st = false) :
    EdgeAt i edge value (step sign s st).1 ∧ ∀ r ∈ (step sign s st).2, r.pin ≠ i := by
  obtain ⟨pin, hp, hf, hedge, hv⟩ := h
  have hne : ∀ src reads x, st ≠ .handle src i reads x := by
    rintro src reads x rfl
    simp [handles] at hst
  obtain ⟨⟨hooks, hafter⟩, hout⟩ := step_unhandled sign hp hne
  exact ⟨⟨_, hafter, hf, hedge, hv⟩, hout⟩

/-! ### A run -/

lemma reportsAll_elsewhere {st : Step} {sts : List Step} {rs rs' : List Record}
    (hst : handles i st = false) (hrs : ∀ r ∈ rs, r.pin ≠ i) :
    ReportsAll sign i edge (st :: sts) (rs ++ rs') ↔ ReportsAll sign i edge sts rs' := by
  have hfilter := filter_pin_append hrs rs'
  have hcount : (st :: sts).countP (handles i) = sts.countP (handles i) := by simp [hst]
  constructor
  · intro h
    exact ⟨by rw [← hfilter, ← hcount]; exact h.each,
      fun r hr hpin => h.reported r (List.mem_append_right _ hr) hpin⟩
  · intro h
    refine ⟨by rw [hfilter, hcount]; exact h.each, fun r hr hpin => ?_⟩
    rcases List.mem_append.mp hr with hr | hr
    · exact absurd hpin (hrs r hr)
    · exact h.reported r hr hpin

lemma reportsAll_cons {st : Step} {sts : List Step} {r : Record} {rs : List Record}
    (hst : handles i st = true) (hr : r.pin = i) :
    ReportsAll sign i edge (st :: sts) (r :: rs) ↔
      Reported sign edge r ∧ ReportsAll sign i edge sts rs := by
  have hlen : ((r :: rs).filter fun r => r.pin = i).length =
      (rs.filter fun r => r.pin = i).length + 1 := by simp [hr]
  have hcount : (st :: sts).countP (handles i) = sts.countP (handles i) + 1 := by simp [hst]
  constructor
  · intro h
    have heach := h.each
    rw [hlen, hcount] at heach
    exact ⟨h.reported r (by simp) hr, by omega,
      fun r' hr' hpin => h.reported r' (List.mem_cons_of_mem _ hr') hpin⟩
  · rintro ⟨hrep, h⟩
    refine ⟨by rw [hlen, hcount, h.each], fun r' hr' hpin => ?_⟩
    rcases List.mem_cons.mp hr' with rfl | hr'
    · exact hrep
    · exact h.reported r' hr' hpin

/-- **Interrupts in a run**: their records all report the edge exactly if there is none, or one
that finds another last value. -/
lemma outputs_reported_iff (he : edge = .rising ∨ edge = .falling) {value : ℤ} {s : LoopState}
    (h : EdgeAt i edge value s) {sts : List Step} (hread : ReadsLevel i edge sts) :
    ReportsAll sign i edge sts (outputs (step sign) s sts) ↔
      sts.countP (handles i) = 0 ∨ sts.countP (handles i) = 1 ∧ value ≠ level edge := by
  induction sts generalizing s value with
  | nil => exact ⟨fun _ => Or.inl rfl, fun _ => ⟨rfl, by simp⟩⟩
  | cons st sts ih =>
    have hrest : ReadsLevel i edge sts := fun src reads x hst =>
      hread src reads x (List.mem_cons_of_mem _ hst)
    rw [outputs_cons]
    rcases hst : handles i st with _ | _
    · obtain ⟨hnext, hout⟩ := step_elsewhere sign h hst
      rw [reportsAll_elsewhere hst hout, ih hnext hrest, List.countP_cons_of_neg (by simp [hst])]
    · -- an interrupt of the pin; behind it the last value is the level
      obtain ⟨src, reads, x, rfl⟩ : ∃ src reads x, st = .handle src i reads x := by
        cases st <;> simp [handles] at hst
        case handle src j reads x => exact ⟨src, reads, x, by rw [hst]⟩
      obtain ⟨rfl, hlevel⟩ := hread src reads x (by simp)
      obtain ⟨r, hout, hpin, hrep, hnext⟩ := handlePin_single sign x h he hlevel
      have hstep : (step sign s (.handle .interrupt i reads x)).2 = [r] := hout
      have hrun : ReportsAll sign i edge sts (outputs (step sign)
          (step sign s (.handle .interrupt i reads x)).1 sts) ↔ _ := ih hnext hrest
      rw [hstep, List.singleton_append, reportsAll_cons hst hpin, hrep, hrun,
        List.countP_cons_of_pos hst]
      constructor
      · rintro ⟨hv, h0 | ⟨-, hn⟩⟩
        · exact Or.inr ⟨by omega, hv⟩
        · exact absurd rfl hn
      · rintro (h0 | ⟨h1, hv⟩)
        · omega
        · exact ⟨hv, Or.inl (by omega)⟩

/-- **Which runs report every edge**: with interrupts that read the level of the pin's edge,
those with no interrupt of it, or with one that finds another last value. -/
theorem reportsAll_iff (sign : CharSign) (p : SinglePin) {d : Daemon} {i : ℕ}
    (hp : d.gp_list[i]? = some p.pin) (batches : List (List Ready))
    (hread : ∀ batch ∈ batches, ∀ reads x, .pin i reads x ∈ batch →
      reads.sysfs = .byte (levelByte p.pin.edge)) :
    ReportsAll sign i p.pin.edge (runSteps d.gp_list batches) (records sign d batches) ↔
      (runSteps d.gp_list batches).countP (handles i) = 0 ∨
        (runSteps d.gp_list batches).countP (handles i) = 1 ∧
          int8 p.pin.value_ ≠ level p.pin.edge := by
  refine outputs_reported_iff p.single ⟨p.pin, hp, p.sysfs, rfl, rfl⟩ fun src reads x hst => ?_
  obtain ⟨batch, hbatch, hst⟩ := List.mem_flatMap.mp hst
  obtain ⟨⟨pin, hpin, hsrc⟩, hready⟩ := handle_source hst
  rw [hp] at hpin
  cases hpin
  have hi : src = .interrupt := by
    rw [hsrc]
    unfold sourceOf onIList
    rcases p.single with he | he <;> rw [he] <;> rfl
  exact ⟨hi, hread batch hbatch reads x (hready hi)⟩

/-- A rising pin that last read 0, and a batch with an interrupt of it that reads 1. -/
def risingPin : SinglePin := ⟨⟨bytes "WD0", 0, .sysfs, .rising, 0, []⟩, rfl, Or.inl rfl⟩

def riseBatch : List Ready := [.pin 0 readsOne noExec]

def risingDaemon : Daemon := ⟨[risingPin.pin], []⟩

theorem first_rise_reported :
    ReportsAll .signed 0 .rising (runSteps risingDaemon.gp_list [riseBatch])
      (records .signed risingDaemon [riseBatch]) := by
  refine (reportsAll_iff .signed risingPin (d := risingDaemon) (i := 0) rfl [riseBatch]
    ?_).mpr (Or.inr (by decide))
  intro batch hbatch reads x hr
  rw [List.mem_singleton.mp hbatch] at hr
  cases List.mem_singleton.mp hr
  rfl

/-- The second rising edge passes on no event, and the timestamp 0. -/
theorem second_rise_unreported :
    (records .signed risingDaemon [riseBatch, riseBatch]).map
        (fun r => (r.pin, r.ts, r.event)) = [(0, ⟨7, 0⟩, 0), (0, ⟨0, 0⟩, 4)] ∧
      ¬ ReportsAll .signed 0 .rising (runSteps risingDaemon.gp_list [riseBatch, riseBatch])
        (records .signed risingDaemon [riseBatch, riseBatch]) := by
  refine ⟨by decide, fun h => ?_⟩
  have hr := h.reported _ (List.mem_cons_of_mem _ (List.mem_singleton_self _)) rfl
  exact absurd hr.event (by decide)

end Gpiod.SingleEdge
