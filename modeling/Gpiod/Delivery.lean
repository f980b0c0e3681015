import Gpiod.SingleEdge

/-!
The line events of the interrupt pins of the `uapi` facility, from the kernel's queues to the
messages of the loop.

The kernel queues the edges of a line behind its descriptor, and `epoll_wait` reports the
descriptor while the queue is not empty. A handling of the pin reads the first event queued;
where there is none the read would fail. What the other descriptors of a batch bring is left
open.
-/

namespace Gpiod.Delivery

open Gpiod.Pin Gpiod.Changed Gpiod.Dispatch Gpiod.Loop Gpiod.Interference Gpiod.Machine
open Gpiod.SingleEdge (handles)

/-! ### Line events -/

inductive LineEdge
  | rising | falling
  deriving DecidableEq, Repr

def LineEdge.id : LineEdge → ℕ
  | .rising => gpioeventEventRisingEdge
  | .falling => gpioeventEventFallingEdge

def LineEdge.level : LineEdge → ℤ
  | .rising => 1
  | .falling => 0

def LineEdge.event : LineEdge → ℤ
  | .rising => GpiodEdge.rising.code
  | .falling => GpiodEdge.falling.code

structure LineEvent where
  edge : LineEdge
  timestamp : ℕ
  deriving DecidableEq, Repr

/-- What is to be sent and dispatched for an event: the timestamp, the channel and the value of
the message, and the edge passed to `dispatch_hooks`. -/
def LineEvent.message (chan : ℤ) (e : LineEvent) : Timespec × ℤ × ℤ × ℤ :=
  (⟨(e.timestamp / 1000000000 : ℕ), (e.timestamp % 1000000000 : ℕ)⟩, chan, e.edge.level,
    e.edge.event)

def lastLevel (value : ℤ) (es : List LineEvent) : ℤ :=
  es.foldl (fun _ e => e.edge.level) value

/-! ### The system -/

/-- An interrupt pin of the `uapi` facility. -/
def IsLine (pin : GpioPin) : Prop := pin.facility = .uapi ∧ onIList pin = true

instance (pin : GpioPin) : Decidable (IsLine pin) := inferInstanceAs (Decidable (_ ∧ _))

/-- The position is that of an interrupt pin of the `uapi` facility. -/
def lineAt (gp_list : List GpioPin) (i : ℕ) : Bool := (gp_list[i]?).any fun pin => IsLine pin

structure Sys where
  loop : LoopState
  /-- the events queued for each pin, the oldest first -/
  queue : ℕ → List LineEvent
  /-- the events that were ever queued for each pin -/
  queued : ℕ → List LineEvent
  /-- the steps of the batch that are still to be taken -/
  todo : List Step
  /-- the records made so far -/
  sent : List Record

def init (d : Daemon) : Sys := ⟨start d, fun _ => [], fun _ => [], [], []⟩

def readEvent : List LineEvent → EventRead
  | [] => .fails
  | e :: _ => .whole e.edge.id e.timestamp

/-- The step with what the queue of its pin delivers, where it handles a line. -/
def Sys.resolve (s : Sys) : Step → Step
  | .handle src i reads x =>
    if lineAt s.loop.daemon.gp_list i then
      .handle src i { reads with event := readEvent (s.queue i) } x
    else .handle src i reads x
  | st => st

/-- The queues after the step. -/
def Sys.dequeue (s : Sys) : Step → ℕ → List LineEvent
  | .handle _ i _ _, j =>
    if lineAt s.loop.daemon.gp_list i ∧ i = j then (s.queue j).tail else s.queue j
  | _, j => s.queue j

/-- The kernel queues an event. -/
def Sys.push (s : Sys) (i : ℕ) (e : LineEvent) : Sys :=
  { s with
    queue := fun j => if i = j then s.queue j ++ [e] else s.queue j
    queued := fun j => if i = j then s.queued j ++ [e] else s.queued j }

/-- `epoll_wait` returns a batch. -/
def Sys.woken (s : Sys) (batch : List Ready) : Sys :=
  { s with todo := batchSteps s.loop.daemon.gp_list batch }

/-- The next step of the batch is taken. -/
def Sys.next (sign : CharSign) (s : Sys) (st : Step) (sts : List Step) : Sys :=
  { s with
    loop := (step sign s.loop (s.resolve st)).1
    queue := s.dequeue st
    todo := sts
    sent := s.sent ++ (step sign s.loop (s.resolve st)).2 }

section Next

variable (sign : CharSign) (s : Sys) (st : Step) (sts : List Step)

@[simp] lemma next_loop :
    (s.next sign st sts).loop = (step sign s.loop (s.resolve st)).1 := rfl
@[simp] lemma next_queue : (s.next sign st sts).queue = s.dequeue st := rfl
@[simp] lemma next_queued : (s.next sign st sts).queued = s.queued := rfl
@[simp] lemma next_todo : (s.next sign st sts).todo = sts := rfl
@[simp] lemma next_sent :
    (s.next sign st sts).sent = s.sent ++ (step sign s.loop (s.resolve st)).2 := rfl

end Next

lemma resolve_handle (s : Sys) (src : Source) (i : ℕ) (reads : Reads) (x : Returns) :
    ∃ reads', s.resolve (.handle src i reads x) = .handle src i reads' x := by
  by_cases h : lineAt s.loop.daemon.gp_list i = true
  · exact ⟨_, if_pos h⟩
  · exact ⟨_, if_neg h⟩

/-- The ready descriptor is that of the pin. -/
def readyAt (i : ℕ) : Ready → Bool
  | .pin j _ _ => j = i
  | _ => false

/-- Every line is reported at most once in the batch, and only while an event is queued. -/
def LevelTriggered (s : Sys) (batch : List Ready) : Prop :=
  ∀ i, lineAt s.loop.daemon.gp_list i = true →
    batch.countP (readyAt i) ≤ 1 ∧ (0 < batch.countP (readyAt i) → s.queue i ≠ [])

inductive Act
  | edge (i : ℕ) (e : LineEvent)
  | wake (batch : List Ready)
  | handle

inductive Moves (sign : CharSign) : Sys → Act → Sys → Prop
  | edge (s : Sys) (i : ℕ) (e : LineEvent) : Moves sign s (.edge i e) (s.push i e)
  | wake {s : Sys} {batch : List Ready} (ht : s.todo = []) (hb : LevelTriggered s batch) :
      Moves sign s (.wake batch) (s.woken batch)
  | handle {s : Sys} {st : Step} {sts : List Step} (ht : s.todo = st :: sts) :
      Moves sign s .handle (s.next sign st sts)

/-- What was sent for the pin, and the edges dispatched with it. -/
def messages (i : ℕ) (rs : List Record) : List (Timespec × ℤ × ℤ × ℤ) :=
  (rs.filter fun r => r.pin = i).map fun r => (r.ts, r.chan, r.value, r.event)

/-- The events delivered for the pin are the first ones queued for it: one message for each, in
order. The rest is queued, and the last value is the level of the last event delivered. -/
def Delivered (pin : GpioPin) (i : ℕ) (s : Sys) : Prop :=
  ∃ es, s.queued i = es ++ s.queue i ∧ messages i s.sent = es.map (LineEvent.message pin.local_) ∧
    ∃ hooks, s.loop.daemon.gp_list[i]? =
      some { pin with value_ := lastLevel pin.value_ es, hook_list := hooks }

/-! ### One handling -/

lemma lineAt_eq {gp_list : List GpioPin} {i : ℕ} {pin : GpioPin} (h : gp_list[i]? = some pin) :
    lineAt gp_list i = decide (IsLine pin) := by
  simp [lineAt, h]

lemma IsLine.readsEvent {pin : GpioPin} (h : IsLine pin) : ReadsEvent pin := by
  refine ⟨h.1, fun he => ?_⟩
  have hl := h.2
  simp [onIList, he] at hl

lemma changedBy_line (e : LineEvent) (pin : GpioPin) :
    changedBy e.edge.id e.timestamp pin = ⟨1, e.edge.level, some (e.edge.event,
      ⟨(e.timestamp / 1000000000 : ℕ), (e.timestamp % 1000000000 : ℕ)⟩)⟩ := by
  cases h : e.edge <;> simp [changedBy, LineEdge.id, LineEdge.level, LineEdge.event,
    gpioeventEventRisingEdge, gpioeventEventFallingEdge]

/-- **One event read** is one message, and the edge that goes with it. -/
lemma handlePin_line {sign : CharSign} {s : LoopState} {i : ℕ} {pin : GpioPin}
    (hp : s.daemon.gp_list[i]? = some pin) (hl : IsLine pin) (src : Source) (reads : Reads)
    (e : LineEvent) (es : List LineEvent) (x : Returns) :
    messages i (handlePin sign s src i { reads with event := readEvent (e :: es) } x).2 =
        [e.message pin.local_] ∧
      ∃ hooks, (handlePin sign s src i
        { reads with event := readEvent (e :: es) } x).1.daemon.gp_list[i]? =
          some { pin with value_ := e.edge.level, hook_list := hooks } := by
  have hc : changed sign pin { reads with event := readEvent (e :: es) } = _ :=
    (changed_event hl.readsEvent sign _).trans (changedBy_line e pin)
  have hafter := handlePin_pin sign src hp { reads with event := readEvent (e :: es) } x
  rw [hc] at hafter
  refine ⟨?_, hafter⟩
  simp only [handlePin, hp, hc, dispatches_one]
  simp [messages, LineEvent.message]

/-! ### Batches -/

lemma countP_readySteps {gp_list : List GpioPin} {i : ℕ} (hl : lineAt gp_list i = true)
    (r : Ready) : (readySteps gp_list r).countP (handles i) ≤ if readyAt i r then 1 else 0 := by
  cases r with
  | pin j reads x =>
    simp only [readySteps, readyAt]
    split
    · by_cases hj : j = i <;> simp [handles, hj]
    · simp
  | timerFd reads x =>
    -- the timer does not read the pin: it is not on the poll list
    simp only [readySteps, readyAt, List.countP_map]
    rw [List.countP_eq_zero.mpr]
    · exact Nat.zero_le _
    · intro j hj hji
      obtain rfl : j = i := by simpa [handles] using hji
      simp only [pList, List.mem_filter, decide_eq_true_eq] at hj
      obtain ⟨pin, hp, hoff⟩ := Option.map_eq_some_iff.mp hj.2
      rw [lineAt_eq hp, decide_eq_true_eq] at hl
      rw [hl.2] at hoff
      cases hoff
  | _ => simp [readySteps, handles]

lemma countP_batchSteps {gp_list : List GpioPin} {i : ℕ} (hl : lineAt gp_list i = true)
    (batch : List Ready) :
    (batchSteps gp_list batch).countP (handles i) ≤ batch.countP (readyAt i) := by
  have hrun : ∀ batch : List Ready,
      (batch.flatMap (readySteps gp_list)).countP (handles i) ≤ batch.countP (readyAt i) := by
    intro batch
    induction batch with
    | nil => simp
    | cons r batch ih =>
      have hr := countP_readySteps hl r
      rw [List.flatMap_cons, List.countP_append, List.countP_cons]
      omega
  have hwait : handles i .epollWait = false := rfl
  rw [batchSteps, List.countP_cons_of_neg (by simp [hwait])]
  exact hrun batch

/-! ### Runs -/

/-- The lines in the batch have an event queued for each step that handles them. -/
structure Inv (pin : GpioPin) (i : ℕ) (s : Sys) : Prop where
  delivered : Delivered pin i s
  ready : s.todo.countP (handles i) ≤ (s.queue i).length

lemma Delivered.lineAt {pin : GpioPin} {i : ℕ} {s : Sys} (h : Delivered pin i s)
    (hl : IsLine pin) : Delivery.lineAt s.loop.daemon.gp_list i = true := by
  obtain ⟨es, -, -, hooks, hp⟩ := h
  rw [lineAt_eq hp, decide_eq_true_eq]
  exact hl

lemma messages_append (i : ℕ) (rs rs' : List Record) :
    messages i (rs ++ rs') = messages i rs ++ messages i rs' := by
  simp [messages]

lemma messages_none {i : ℕ} {rs : List Record} (h : ∀ r ∈ rs, r.pin ≠ i) : messages i rs = [] := by
  rw [messages, List.filter_eq_nil_iff.mpr (by simpa using h), List.map_nil]

lemma inv_push {pin : GpioPin} {i : ℕ} {s : Sys} (h : Inv pin i s) (j : ℕ) (e : LineEvent) :
    Inv pin i (s.push j e) := by
  obtain ⟨es, hsplit, hsent, hp⟩ := h.delivered
  have hready := h.ready
  by_cases hj : j = i
  · refine ⟨⟨es, ?_, hsent, hp⟩, ?_⟩
    · simp only [Sys.push, if_pos hj, hsplit, List.append_assoc]
    · simp only [Sys.push, if_pos hj, List.length_append]
      omega
  · refine ⟨⟨es, ?_, hsent, hp⟩, ?_⟩
    · simp only [Sys.push, if_neg hj, hsplit]
    · simpa only [Sys.push, if_neg hj] using hready

lemma inv_woken {pin : GpioPin} (hl : IsLine pin) {i : ℕ} {s : Sys} (h : Inv pin i s)
    {batch : List Ready} (hb : LevelTriggered s batch) : Inv pin i (s.woken batch) := by
  refine ⟨h.delivered, ?_⟩
  have hline := h.delivered.lineAt hl
  obtain ⟨hone, hqueue⟩ := hb i hline
  have hle : (s.woken batch).todo.countP (handles i) ≤ batch.countP (readyAt i) :=
    countP_batchSteps hline batch
  rcases Nat.eq_zero_or_pos (batch.countP (readyAt i)) with h0 | hpos
  · omega
  · have hlen := List.length_pos_iff.mpr (hqueue hpos)
    have hsame : (s.woken batch).queue i = s.queue i := rfl
    rw [hsame]
    omega

lemma inv_next_line {sign : CharSign} {pin : GpioPin} (hl : IsLine pin) {i : ℕ} {s : Sys}
    (h : Inv pin i s) {src : Source} {reads : Reads} {x : Returns} {sts : List Step}
    (ht : s.todo = .handle src i reads x :: sts) :
    Inv pin i (s.next sign (.handle src i reads x) sts) := by
  have hline := h.delivered.lineAt hl
  obtain ⟨es, hsplit, hsent, hooks, hp⟩ := h.delivered
  have hready := h.ready
  rw [ht, List.countP_cons_of_pos (by simp [handles])] at hready
  obtain ⟨e, q, hq⟩ : ∃ e q, s.queue i = e :: q :=
    List.exists_cons_of_length_pos (by omega)
  have hresolve : s.resolve (.handle src i reads x) =
      .handle src i { reads with event := readEvent (e :: q) } x := by
    rw [← hq]
    exact if_pos hline
  have hdequeue : s.dequeue (.handle src i reads x) i = q := by
    simp [Sys.dequeue, hline, hq]
  obtain ⟨hmsg, hooks', hafter⟩ := handlePin_line (s := s.loop) hp hl src reads e q x
  refine ⟨⟨es ++ [e], ?_, ?_, hooks', ?_⟩, ?_⟩
  · rw [next_queued, next_queue, hdequeue, hsplit, hq]
    simp
  · rw [next_sent, messages_append, hsent, hresolve, List.map_append]
    exact congrArg _ hmsg
  · rw [next_loop, hresolve]
    refine hafter.trans ?_
    simp [lastLevel]
  · rw [hq, List.length_cons] at hready
    rw [next_todo, next_queue, hdequeue]
    omega

lemma inv_next_other {sign : CharSign} {pin : GpioPin} {i : ℕ} {s : Sys} (h : Inv pin i s)
    {st : Step} {sts : List Step} (ht : s.todo = st :: sts)
    (hst : ∀ src reads x, st ≠ .handle src i reads x) : Inv pin i (s.next sign st sts) := by
  obtain ⟨es, hsplit, hsent, hooks, hp⟩ := h.delivered
  have hready := h.ready
  rw [ht, List.countP_cons] at hready
  have hresolve : ∀ src reads x, s.resolve st ≠ .handle src i reads x := by
    intro src reads x he
    cases st with
    | handle src' j reads' x' =>
      obtain ⟨reads'', hr⟩ := resolve_handle s src' j reads' x'
      rw [hr] at he
      cases he
      exact hst src reads' x rfl
    | _ => cases he
  have hdequeue : s.dequeue st i = s.queue i := by
    cases st with
    | handle src' j reads' x' =>
      have hj : j ≠ i := fun hj => hst src' reads' x' (by rw [hj])
      simp [Sys.dequeue, hj]
    | _ => rfl
  obtain ⟨⟨hooks', hafter⟩, hout⟩ := step_unhandled sign hp hresolve
  refine ⟨⟨es, ?_, ?_, hooks', hafter⟩, ?_⟩
  · rw [next_queued, next_queue, hdequeue, hsplit]
  · rw [next_sent, messages_append, messages_none hout, hsent, List.append_nil]
  · rw [next_todo, next_queue, hdequeue]
    omega

lemma Inv.step {sign : CharSign} {pin : GpioPin} (hl : IsLine pin) {i : ℕ} {s t : Sys} {a : Act}
    (h : Inv pin i s) (hst : Moves sign s a t) : Inv pin i t := by
  cases hst with
  | edge j e => exact inv_push h j e
  | wake ht hb => exact inv_woken hl h hb
  | @handle st sts ht =>
    by_cases hh : ∃ src reads x, st = .handle src i reads x
    · obtain ⟨src, reads, x, rfl⟩ := hh
      exact inv_next_line hl h ht
    · exact inv_next_other h ht fun src reads x he => hh ⟨src, reads, x, he⟩

/-- **Exactly once, in order**: of every interrupt pin of the `uapi` facility the messages
dispatched are, in every state that can be reached, those of the events first queued for it. -/
theorem delivered_of_run {sign : CharSign} {d : Daemon} {s : Sys}
    (h : Relation.ReflTransGen (Guarded (Moves sign) fun _ _ => True) (init d) s) :
    ∀ i pin, d.gp_list[i]? = some pin → IsLine pin → Delivered pin i s := by
  intro i pin hp hl
  have hinit : Inv pin i (init d) :=
    ⟨⟨[], rfl, rfl, pin.hook_list, hp⟩, Nat.le_refl _⟩
  exact (guarded_inv (fun s a t hi _ hst => hi.step hl hst) hinit h).delivered

/-- A line that rises while the loop waits, and the batch that reports it. -/
def linePin : GpioPin := ⟨bytes "WD0", 3, .uapi, .both, 0, []⟩

def rise : LineEvent := ⟨.rising, 1500000000⟩

def lineReady : Ready := .pin 0 readsOne noExec

def lineStep : Step := .handle .interrupt 0 readsOne noExec

def riseWoken : Sys := ((init ⟨[linePin], []⟩).push 0 rise).woken [lineReady]

def riseHandled : Sys :=
  (riseWoken.next .signed .epollWait [lineStep]).next .signed lineStep []

theorem rise_delivered : Delivered linePin 0 riseHandled := by
  have hedge : Moves .signed (init ⟨[linePin], []⟩) (.edge 0 rise)
      ((init ⟨[linePin], []⟩).push 0 rise) := .edge _ 0 rise
  have hwake : Moves .signed ((init ⟨[linePin], []⟩).push 0 rise) (.wake [lineReady])
      riseWoken := by
    refine .wake rfl fun i hi => ?_
    match i with
    | 0 => exact ⟨by decide, fun _ => by decide⟩
    | i + 1 => cases hi
  have hwait : Moves .signed riseWoken .handle (riseWoken.next .signed .epollWait [lineStep]) :=
    .handle rfl
  have hread : Moves .signed (riseWoken.next .signed .epollWait [lineStep]) .handle
      riseHandled := .handle rfl
  exact delivered_of_run (.tail (.tail (.tail (.single ⟨.edge 0 rise, trivial, hedge⟩)
    ⟨.wake [lineReady], trivial, hwake⟩) ⟨.handle, trivial, hwait⟩) ⟨.handle, trivial, hread⟩)
    0 linePin rfl ⟨rfl, rfl⟩

example : messages 0 riseHandled.sent = [(⟨1, 500000000⟩, 3, 1, 0)] := by decide

end Gpiod.Delivery
