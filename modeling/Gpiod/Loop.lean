import Gpiod.Machine
import Gpiod.Changed
import Gpiod.Dispatch

/-!
The event loop of `gpiod-event-loop.c`.

The event and the timestamp are variables of one iteration of the loop: set up at each
`epoll_wait` and shared by all the pins of its batch. A ready timer is taken apart into the
pins of the poll list, which it handles one after the other.
-/

namespace Gpiod.Loop

open Gpiod.Pin Gpiod.Changed Gpiod.Dispatch Gpiod.Machine

/-! ### The lists -/

/-- The pin is put on `i_list`, and its descriptor is watched. -/
def onIList (pin : GpioPin) : Bool :=
  match pin.edge with
  | .both | .falling | .rising => true
  | .polled | .max => false

/-- The positions of the pins on `p_list`, which the timer reads. -/
def pList (gp_list : List GpioPin) : List ℕ :=
  (List.range gp_list.length).filter fun i => (gp_list[i]?.map onIList) = some false

/-! ### Batches -/

/-- A ready descriptor, with what its handling gets from outside: the reads and the results of
`exec_start` for a pin, and what `waitpid` returns for a child named by SIGCHLD. -/
inductive Ready
  | listenPort
  | clientPort
  | pin (i : ℕ) (reads : Reads) (x : Returns)
  | timerFd (reads : ℕ → Reads) (x : ℕ → Returns)
  | sigchld (ssi_pid pid : ℤ)
  | otherSignal

/-- The branch of the loop that handles a pin. -/
inductive Source
  | interrupt | timer
  deriving DecidableEq, Repr

/-- What the loop does at a time. -/
inductive Step
  /-- `epoll_wait` returns: the variables of the iteration are set up -/
  | epollWait
  | handle (src : Source) (i : ℕ) (reads : Reads) (x : Returns)
  | sigchld (ssi_pid pid : ℤ)
  /-- descriptors whose handling leaves the pins and the hooks alone -/
  | other

def readySteps (gp_list : List GpioPin) : Ready → List Step
  | .pin i reads x =>
    if gp_list[i]?.map onIList = some true then [.handle .interrupt i reads x] else []
  | .timerFd reads x => (pList gp_list).map fun i => .handle .timer i (reads i) (x i)
  | .sigchld ssi_pid pid => [.sigchld ssi_pid pid]
  | .listenPort | .clientPort | .otherSignal => [.other]

def batchSteps (gp_list : List GpioPin) (batch : List Ready) : List Step :=
  .epollWait :: batch.flatMap (readySteps gp_list)

/-- The branch that handles the pin. -/
def sourceOf (pin : GpioPin) : Source := if onIList pin then .interrupt else .timer

lemma handle_source {gp_list : List GpioPin} {batch : List Ready} {src : Source} {i : ℕ}
    {reads : Reads} {x : Returns} (h : .handle src i reads x ∈ batchSteps gp_list batch) :
    (∃ pin, gp_list[i]? = some pin ∧ src = sourceOf pin) ∧
      (src = .interrupt → .pin i reads x ∈ batch) := by
  simp only [batchSteps, List.mem_cons, reduceCtorEq, false_or, List.mem_flatMap] at h
  obtain ⟨r, hmem, hr⟩ := h
  unfold sourceOf
  cases r with
  | pin j reads' x' =>
    simp only [readySteps] at hr
    split at hr
    · next hi =>
      cases List.mem_singleton.mp hr
      obtain ⟨pin, hp, hl⟩ := Option.map_eq_some_iff.mp hi
      exact ⟨⟨pin, hp, by rw [hl]; rfl⟩, fun _ => hmem⟩
    · cases hr
  | timerFd reads' x' =>
    simp only [readySteps, List.mem_map, pList, List.mem_filter, decide_eq_true_eq] at hr
    obtain ⟨j, ⟨-, hi⟩, he⟩ := hr
    cases he
    obtain ⟨pin, hp, hl⟩ := Option.map_eq_some_iff.mp hi
    exact ⟨⟨pin, hp, by rw [hl]; rfl⟩, fun hs => by cases hs⟩
  | listenPort => simp [readySteps] at hr
  | clientPort => simp [readySteps] at hr
  | sigchld ssi_pid pid => simp [readySteps] at hr
  | otherSignal => simp [readySteps] at hr

/-! ### Handling -/

structure LoopState where
  daemon : Daemon
  event : ℤ
  ts : Timespec

/-- A call of `dispatch` and the call of `dispatch_hooks` that follows it, with the pin as it
was read and what was read. -/
structure Record where
  pin : ℕ
  ts : Timespec
  chan : ℤ
  value : ℤ
  event : ℤ
  calls : List Call
  before : GpioPin
  reads : Reads

/-- The test that the branch makes of the result of `changed`. -/
def dispatches : Source → GpioPin → ℤ → Bool
  | .interrupt, pin, ret => !(ret == 0 && pin.edge == .both)
  | .timer, _, ret => ret != 0

lemma dispatches_one (src : Source) (pin : GpioPin) : dispatches src pin 1 = true := by
  cases src <;> rfl

/-- `value_` of the pin at a position is set. -/
def setValue (d : Daemon) (i : ℕ) (value : ℤ) : Daemon :=
  { d with gp_list := d.gp_list.modify i fun pin => { pin with value_ := value } }

lemma getElem?_setValue (d : Daemon) (i : ℕ) (value : ℤ) (j : ℕ) :
    (setValue d i value).gp_list[j]? =
      if i = j then d.gp_list[j]?.map fun pin => { pin with value_ := value }
      else d.gp_list[j]? := by
  unfold setValue
  rw [List.getElem?_modify]
  split <;> simp

lemma getElem?_dispatchHooks_ne (d : Daemon) {i j : ℕ} (h : i ≠ j) (event : ℤ) (exec : ℕ → ℤ) :
    (dispatchHooks d i event exec).gp_list[j]? = d.gp_list[j]? := by
  simp [dispatchHooks, h]

lemma getElem?_dispatchHooks_self (d : Daemon) (i : ℕ) (event : ℤ) (exec : ℕ → ℤ) :
    (dispatchHooks d i event exec).gp_list[i]? = d.gp_list[i]?.map fun pin =>
      { pin with hook_list := (dispatchPin d i event exec).hook_list } := by
  simp [dispatchHooks]

/-- The exit of a child changes hooks only. -/
lemma getElem?_onSigchld (d : Daemon) (ssi_pid pid : ℤ) {i : ℕ} {pin : GpioPin}
    (h : d.gp_list[i]? = some pin) : ∃ hooks,
      (onSigchld d ssi_pid pid).gp_list[i]? = some { pin with hook_list := hooks } := by
  unfold onSigchld hookClearSpawned
  split
  · cases Table.find d.pid_list ssi_pid with
    | none => exact ⟨pin.hook_list, h⟩
    | some r =>
      by_cases hi : r.pin = i
      · exact ⟨pin.hook_list.modify r.hook cleared, by simp [hi, h]⟩
      · exact ⟨pin.hook_list, by simp [hi, h]⟩
  · exact ⟨pin.hook_list, h⟩

def handlePin (sign : CharSign) (s : LoopState) (src : Source) (i : ℕ) (reads : Reads)
    (x : Returns) : LoopState × List Record :=
  match s.daemon.gp_list[i]? with
  | none => (s, [])
  | some pin =>
    let c := changed sign pin reads
    let event := (c.stored.map Prod.fst).getD s.event
    let ts := (c.stored.map Prod.snd).getD s.ts
    let d := setValue s.daemon i c.value_
    if dispatches src pin c.ret then
      (⟨dispatchHooks d i event x.exec, event, ts⟩,
        [⟨i, ts, pin.local_, c.value_, event, (dispatchPin d i event x.exec).calls, pin, reads⟩])
    else (⟨d, event, ts⟩, [])

def step (sign : CharSign) (s : LoopState) : Step → LoopState × List Record
  | .epollWait => (⟨s.daemon, GpiodEdge.max.code, ⟨0, 0⟩⟩, [])
  | .handle src i reads x => handlePin sign s src i reads x
  | .sigchld ssi_pid pid => (⟨onSigchld s.daemon ssi_pid pid, s.event, s.ts⟩, [])
  | .other => (s, [])

/-- The steps of a run of the loop; the lists the pins are on do not change. -/
def runSteps (gp_list : List GpioPin) (batches : List (List Ready)) : List Step :=
  batches.flatMap (batchSteps gp_list)

def start (d : Daemon) : LoopState := ⟨d, GpiodEdge.max.code, ⟨0, 0⟩⟩

/-- The calls of `dispatch` and `dispatch_hooks` in a run of the loop. -/
def records (sign : CharSign) (d : Daemon) (batches : List (List Ready)) : List Record :=
  outputs (step sign) (start d) (runSteps d.gp_list batches)

/-! ### What a handling needs of its read -/

/-- What was read settles the handling: an event with an id that is known, or a value that is
no negative character and differs from the last one where the branch does not test for
that. -/
def Settled (sign : CharSign) (src : Source) (pin : GpioPin) (reads : Reads) : Prop :=
  if ReadsEvent pin then
    ∃ id timestamp, reads.event.seen = some (id, timestamp) ∧
      (id = gpioeventEventRisingEdge ∨ id = gpioeventEventFallingEdge)
  else 0 ≤ sign.char (valueRead pin reads) ∧
    (sign.char (valueRead pin reads) = int8 pin.value_ → src = .timer ∨ pin.edge = .both)

/-- **What settled means**: nothing is dispatched that `changed` did not store. -/
lemma settled_iff (sign : CharSign) (src : Source) (pin : GpioPin) (reads : Reads) :
    Settled sign src pin reads ↔ (dispatches src pin (changed sign pin reads).ret = true →
      (changed sign pin reads).stored.isSome) := by
  unfold Settled
  by_cases he : ReadsEvent pin
  · rw [if_pos he, changed_event he]
    cases hs : reads.event.seen with
    | none => cases src <;> simp [dispatches]
    | some e =>
      obtain ⟨id, timestamp⟩ := e
      simp only [changedBy]
      split_ifs with h1 h2
      · simpa using Or.inl h1
      · simpa using Or.inr h2
      · cases src <;> simp [dispatches, h1, h2]
  · rw [if_neg he, changed_value he]
    rcases Int.lt_or_le (sign.char (valueRead pin reads)) 0 with h0 | h0
    · rw [changedFrom_neg h0]
      have : ¬ 0 ≤ sign.char (valueRead pin reads) := by omega
      cases src <;> simp [dispatches, this]
    · by_cases hv : sign.char (valueRead pin reads) = int8 pin.value_
      · rw [changedFrom_same h0 hv]
        cases src <;> simp [dispatches, hv, hv ▸ h0]
      · rw [changedFrom_new h0 hv]
        simp [h0, hv]

lemma mem_handlePin {sign : CharSign} {s : LoopState} {src : Source} {i : ℕ} {reads : Reads}
    {x : Returns} {r : Record} (h : r ∈ (handlePin sign s src i reads x).2) :
    ∃ pin, s.daemon.gp_list[i]? = some pin ∧
      dispatches src pin (changed sign pin reads).ret = true ∧
      r.pin = i ∧ r.before = pin ∧ r.reads = reads ∧
      (r.event, r.ts) = ((changed sign pin reads).stored).getD (s.event, s.ts) := by
  unfold handlePin at h
  cases hp : s.daemon.gp_list[i]? with
  | none => simp [hp] at h
  | some pin =>
    simp only [hp] at h
    split at h
    · next hd =>
      rw [List.mem_singleton.mp h]
      refine ⟨pin, rfl, hd, rfl, rfl, rfl, ?_⟩
      cases (changed sign pin reads).stored <;> rfl
    · cases h

/-- The pin once it is handled: its last value is what `changed` left, its hooks may be others. -/
lemma handlePin_pin (sign : CharSign) {s : LoopState} (src : Source) {i : ℕ} {pin : GpioPin}
    (hp : s.daemon.gp_list[i]? = some pin) (reads : Reads) (x : Returns) : ∃ hooks,
      (handlePin sign s src i reads x).1.daemon.gp_list[i]? =
        some { pin with value_ := (changed sign pin reads).value_, hook_list := hooks } := by
  simp only [handlePin, hp]
  split
  · rw [getElem?_dispatchHooks_self, getElem?_setValue, if_pos rfl, hp]
    exact ⟨_, rfl⟩
  · rw [getElem?_setValue, if_pos rfl, hp]
    exact ⟨pin.hook_list, rfl⟩

lemma handlePin_dispatches {sign : CharSign} {s : LoopState} {src : Source} {i : ℕ}
    {reads : Reads} {x : Returns} {pin : GpioPin} (hp : s.daemon.gp_list[i]? = some pin)
    (hd : dispatches src pin (changed sign pin reads).ret = true) :
    ∃ r, r ∈ (handlePin sign s src i reads x).2 := by
  simp [handlePin, hp, hd]

end Gpiod.Loop
