import Gpiod.Loop

/-!
Calls of `dispatch` and `dispatch_hooks` that no read stands behind.

The branches for interrupts and for the timer go on to dispatch with a result of `changed`
that says nothing was stored: -1 in both, and 0 for an interrupt of a pin with one edge. What
is passed on then is what the variables of the iteration hold.
-/

namespace Gpiod.Phantom

open Gpiod.Pin Gpiod.Changed Gpiod.Dispatch Gpiod.Loop Gpiod.Machine

/-- The pin was read in the handling that dispatches, and the event and the timestamp passed
on were stored there. -/
def Grounded (sign : CharSign) (r : Record) : Prop :=
  ReadOk r.before r.reads ∧ (changed sign r.before r.reads).stored = some (r.event, r.ts)

/-- The read of a pin that is handled succeeds and settles the handling. -/
def Clean (sign : CharSign) (s : LoopState) : Step → Prop
  | .handle src i reads _ => ∀ pin, s.daemon.gp_list[i]? = some pin →
      ReadOk pin reads ∧ Settled sign src pin reads
  | _ => True

/-- **One step**: what it dispatches is grounded exactly if the read is clean. -/
lemma step_grounded_iff (sign : CharSign) (s : LoopState) (st : Step) :
    (∀ r ∈ (step sign s st).2, Grounded sign r) ↔ Clean sign s st := by
  cases st with
  | epollWait => simp [step, Clean]
  | sigchld ssi_pid pid => simp [step, Clean]
  | other => simp [step, Clean]
  | handle src i reads x =>
    constructor
    · intro h pin hp
      rw [settled_iff]
      by_cases hd : dispatches src pin (changed sign pin reads).ret = true
      · obtain ⟨r, hr⟩ := handlePin_dispatches (x := x) hp hd
        obtain ⟨pin', hp', -, -, hb, hreads, -⟩ := mem_handlePin hr
        obtain ⟨hok, hst⟩ := h r hr
        rw [hp] at hp'
        cases hp'
        rw [hb, hreads] at hok hst
        exact ⟨hok, fun _ => by rw [hst]; rfl⟩
      · -- only the result 0 is not passed on
        have h0 : (changed sign pin reads).ret = 0 := by
          rcases changed_ret sign pin reads with ⟨h1, -⟩ | ⟨h0, -⟩ | ⟨h1, -⟩
          · cases src <;> simp [dispatches, h1] at hd
          · exact h0
          · cases src <;> simp [dispatches, h1] at hd
        exact ⟨readOk_of_ret_zero h0, fun hd' => absurd hd' hd⟩
    · intro h r hr
      obtain ⟨pin, hp, hd, -, hb, hreads, hev⟩ := mem_handlePin hr
      obtain ⟨hok, hs⟩ := h pin hp
      obtain ⟨e, he⟩ := Option.isSome_iff_exists.mp ((settled_iff _ _ _ _).mp hs hd)
      rw [he, Option.getD_some] at hev
      refine ⟨by rw [hb, hreads]; exact hok, ?_⟩
      rw [hb, hreads, he, hev]

/-- **No phantom event**: every call of `dispatch` and `dispatch_hooks` in a run is grounded
exactly if every pin handled in it is read cleanly. -/
theorem grounded_iff (sign : CharSign) (d : Daemon) (batches : List (List Ready)) :
    (∀ r ∈ records sign d batches, Grounded sign r) ↔
      ∀ v ∈ visits (fun s st => (step sign s st).1) (start d) (runSteps d.gp_list batches),
        Clean sign v.1 v.2 := by
  unfold records
  simp only [mem_outputs]
  constructor
  · intro h v hv
    exact (step_grounded_iff sign v.1 v.2).mp fun r hr => h r ⟨v, hv, hr⟩
  · rintro h r ⟨v, hv, hr⟩
    exact (step_grounded_iff sign v.1 v.2).mpr (h v hv) r hr

/-- A polled pin whose `value` file cannot be read. -/
def unreadable : Daemon := ⟨[⟨bytes "WD0", 0, .sysfs, .polled, 0, []⟩], []⟩

def noRead : Reads := ⟨.readFails, .fails, .fails, ⟨7, 0⟩⟩

/-- The tick of the timer sends a message for it, with the timestamp 0. -/
theorem failed_read_dispatched :
    (records .signed unreadable [[.timerFd (fun _ => noRead) fun _ => noExec]]).map
        (fun r => (r.pin, r.ts, r.event)) = [(0, ⟨0, 0⟩, 4)] ∧
      ¬ ∀ r ∈ records .signed unreadable [[.timerFd (fun _ => noRead) fun _ => noExec]],
        Grounded .signed r := by
  refine ⟨by decide, fun h => ?_⟩
  obtain ⟨-, hst⟩ := h _ (List.mem_cons_self ..)
  revert hst
  decide

end Gpiod.Phantom
