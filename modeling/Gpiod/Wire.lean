import Gpiod.Delivery
import Gpiod.Sessions

/-!
From the edges of a line to what a client reads of them.

The loop calls `dispatch` once for each event of a line, and `dispatch` writes the packet to the
clients that are connected at that time. What a client reads of the channel of the line are events
that the kernel queued for it, each once at most and in order: those whose packets came to the
client as a whole. The other pins, the other clients and what comes and goes meanwhile are left
open.
-/

namespace Gpiod.Wire

open Gpiod.Pin Gpiod.Changed Gpiod.Dispatch Gpiod.Loop Gpiod.Machine Gpiod.Broadcast
open Gpiod.Sessions (Reaches received noClients)
open Gpiod.Delivery (LineEvent IsLine)

/-! ### The system -/

/-- A call of `dispatch` for a pin, with the clients connected at that time. -/
structure Call where
  pin : ℕ
  clients : TcpClients
  event : Event

def Call.made (c : Call) : TcpClients × Event := (c.clients, c.event)

structure Sys where
  pins : Delivery.Sys
  clients : TcpClients
  /-- the calls made so far -/
  calls : List Call

def init (d : Daemon) : Sys := ⟨Delivery.init d, noClients, []⟩

/-- The writes made so far. -/
def Sys.log (s : Sys) : List Write := Sessions.writes (s.calls.map Call.made)

def recordCall (clients : TcpClients) (out : ℕ → WriteOutcome) (r : Record) : Call :=
  ⟨r.pin, clients, ⟨r.ts, r.chan, r.value, out⟩⟩

/-- The records a step of the loop adds: one at most. -/
def added (s t : Delivery.Sys) : List Record := t.sent.drop s.sent.length

/-- The loop takes a step. -/
def Sys.moved (s : Sys) (t : Delivery.Sys) (out : ℕ → WriteOutcome) : Sys :=
  ⟨t, s.clients, s.calls ++ (added s.pins t).map (recordCall s.clients out)⟩

inductive Act
  | pins (a : Delivery.Act) (out : ℕ → WriteOutcome)
  | connect (fd : ℕ)
  | disconnect (fd : ℕ)

inductive Moves (sign : CharSign) : Sys → Act → Sys → Prop
  | pins {s : Sys} {a : Delivery.Act} {t : Delivery.Sys} (h : Delivery.Moves sign s.pins a t)
      (out : ℕ → WriteOutcome) : Moves sign s (.pins a out) (s.moved t out)
  | connect (s : Sys) (fd : ℕ) :
      Moves sign s (.connect fd) { s with clients := Sessions.connect s.clients fd }
  | disconnect (s : Sys) (fd : ℕ) :
      Moves sign s (.disconnect fd) { s with clients := Sessions.disconnect s.clients fd }

def lineFields (chan : ℤ) (e : LineEvent) : ℕ × ℕ × ℕ × ℕ :=
  (e.timestamp / 1000000000 % 4294967296, e.timestamp % 1000000000, u8 chan,
    if e.edge = .rising then 1 else 0)

/-- Each event delivered for the line has a call of its own, in order, and of its channel the
client reads the events whose calls reached it. -/
structure Heard (pin : GpioPin) (i fd : ℕ) (s : Sys) (es : List (LineEvent × Call)) : Prop where
  queued : s.pins.queued i = es.map Prod.fst ++ s.pins.queue i
  called : s.calls.filter (fun c => c.pin = i) = es.map Prod.snd
  read : (received (bytesTo fd s.log)).filter (fun f => f.2.2.1 = u8 pin.local_) =
    (es.filter fun e => Reaches e.2.clients e.2.event fd).map fun e => lineFields pin.local_ e.1

/-! ### Channels -/

def channels (d : Daemon) : List ℤ := d.gp_list.map GpioPin.local_

lemma channels_modify (f : GpioPin → GpioPin) (hf : ∀ pin, (f pin).local_ = pin.local_)
    (gp_list : List GpioPin) (i : ℕ) :
    (gp_list.modify i f).map GpioPin.local_ = gp_list.map GpioPin.local_ := by
  refine List.ext_getElem? fun j => ?_
  rw [List.getElem?_map, List.getElem?_map, List.getElem?_modify]
  cases gp_list[j]? with
  | none => rfl
  | some pin => by_cases hij : i = j <;> simp [hij, hf]

lemma channels_setValue (d : Daemon) (i : ℕ) (value : ℤ) :
    channels (setValue d i value) = channels d :=
  channels_modify (fun pin => { pin with value_ := value }) (fun _ => rfl) d.gp_list i

lemma channels_dispatchHooks (d : Daemon) (i : ℕ) (event : ℤ) (exec : ℕ → ℤ) :
    channels (dispatchHooks d i event exec) = channels d :=
  channels_modify (fun pin => { pin with hook_list := (dispatchPin d i event exec).hook_list })
    (fun _ => rfl) d.gp_list i

lemma channels_onSigchld (d : Daemon) (ssi_pid pid : ℤ) :
    channels (onSigchld d ssi_pid pid) = channels d := by
  unfold onSigchld hookClearSpawned
  split
  · cases Table.find d.pid_list ssi_pid with
    | none => rfl
    | some r =>
      exact channels_modify
        (fun pin => { pin with hook_list := pin.hook_list.modify r.hook cleared })
        (fun _ => rfl) d.gp_list r.pin
  · rfl

lemma channels_step (sign : CharSign) (s : LoopState) (st : Step) :
    channels (step sign s st).1.daemon = channels s.daemon ∧
      ∀ r ∈ (step sign s st).2, (channels s.daemon)[r.pin]? = some r.chan := by
  cases st with
  | epollWait => exact ⟨rfl, by simp [step]⟩
  | sigchld ssi_pid pid => exact ⟨channels_onSigchld s.daemon ssi_pid pid, by simp [step]⟩
  | other => exact ⟨rfl, by simp [step]⟩
  | handle src i reads x =>
    simp only [step, handlePin]
    cases hp : s.daemon.gp_list[i]? with
    | none => exact ⟨rfl, by simp⟩
    | some pin =>
      simp only
      split
      · refine ⟨?_, fun r hr => ?_⟩
        · rw [channels_dispatchHooks, channels_setValue]
        · rw [List.mem_singleton.mp hr, channels, List.getElem?_map, hp]
          rfl
      · exact ⟨channels_setValue _ _ _, by simp⟩

/-! ### Runs -/

def Call.message (c : Call) : ℕ × Timespec × ℤ × ℤ :=
  (c.pin, c.event.ts, c.event.chan, c.event.value)

def recordMessage (r : Record) : ℕ × Timespec × ℤ × ℤ := (r.pin, r.ts, r.chan, r.value)

/-- The calls are those of the records, on the channels of their pins. -/
structure Dispatched (d : Daemon) (s : Sys) : Prop where
  calls : s.calls.map Call.message = s.pins.sent.map recordMessage
  channels : channels s.pins.loop.daemon = channels d
  sent : ∀ r ∈ s.pins.sent, (Wire.channels d)[r.pin]? = some r.chan

lemma pins_step {sign : CharSign} {s t : Delivery.Sys} {a : Delivery.Act}
    (h : Delivery.Moves sign s a t) : t.sent = s.sent ++ added s t ∧
      channels t.loop.daemon = channels s.loop.daemon ∧
      ∀ r ∈ added s t, (channels s.loop.daemon)[r.pin]? = some r.chan := by
  have hsame : s.sent.drop s.sent.length = [] := List.drop_length
  cases h with
  | edge i e =>
    have hadded : added s (s.push i e) = [] := hsame
    rw [hadded]
    exact ⟨(List.append_nil _).symm, rfl, by simp⟩
  | @wake batch ht hb =>
    have hadded : added s (s.woken batch) = [] := hsame
    rw [hadded]
    exact ⟨(List.append_nil _).symm, rfl, by simp⟩
  | @handle st sts ht =>
    have hadded : added s (s.next sign st sts) = (step sign s.loop (s.resolve st)).2 :=
      List.drop_left
    rw [hadded]
    exact ⟨rfl, channels_step sign s.loop (s.resolve st)⟩

lemma Dispatched.step {sign : CharSign} {d : Daemon} {s t : Sys} {a : Act} (h : Dispatched d s)
    (hst : Moves sign s a t) : Dispatched d t := by
  cases hst with
  | connect fd => exact ⟨h.calls, h.channels, h.sent⟩
  | disconnect fd => exact ⟨h.calls, h.channels, h.sent⟩
  | @pins a t hp out =>
    obtain ⟨hsent, hchan, hadded⟩ := pins_step hp
    refine ⟨?_, hchan.trans h.channels, fun r hr => ?_⟩
    · have hnew : ((added s.pins t).map (recordCall s.clients out)).map Call.message =
          (added s.pins t).map recordMessage := by
        rw [List.map_map]
        rfl
      simp only [Sys.moved, hsent, List.map_append, h.calls, hnew]
    · have hr : r ∈ s.pins.sent ++ added s.pins t := hsent ▸ hr
      rcases List.mem_append.mp hr with hr | hr
      · exact h.sent r hr
      · rw [← h.channels]
        exact hadded r hr

lemma inv_step {sign : CharSign} {pin : GpioPin} (hl : IsLine pin) {i : ℕ} {s t : Sys} {a : Act}
    (h : Delivery.Inv pin i s.pins) (hst : Moves sign s a t) : Delivery.Inv pin i t.pins := by
  cases hst with
  | connect fd => exact h
  | disconnect fd => exact h
  | pins hp out => exact h.step hl hp

/-! ### What is read -/

lemma fields_message {chan : ℤ} {e : LineEvent} {ev : Event}
    (h : ((e.message chan).1, (e.message chan).2.1, (e.message chan).2.2.1) =
      (ev.ts, ev.chan, ev.value)) : Sessions.fields ev = lineFields chan e := by
  simp only [Prod.mk.injEq] at h
  obtain ⟨hts, hchan, hvalue⟩ := h
  have hsec : u32 (e.timestamp / 1000000000 : ℕ) = e.timestamp / 1000000000 % 4294967296 := by
    unfold u32
    omega
  have hnsec : u32 (e.timestamp % 1000000000 : ℕ) = e.timestamp % 1000000000 := by
    unfold u32
    omega
  have hlevel : u8 e.edge.level = if e.edge = .rising then 1 else 0 := by
    cases e.edge <;> rfl
  rw [Sessions.fields, ← hts, ← hchan, ← hvalue]
  simp only [LineEvent.message, hsec, hnsec, hlevel, lineFields]

lemma Dispatched.channel_iff {d : Daemon} {s : Sys} (h : Dispatched d s) {pin : GpioPin} {i : ℕ}
    (hp : d.gp_list[i]? = some pin)
    (hown : ∀ j pin', d.gp_list[j]? = some pin' → u8 pin'.local_ = u8 pin.local_ → j = i)
    {c : Call} (hc : c ∈ s.calls) : u8 c.event.chan = u8 pin.local_ ↔ c.pin = i := by
  have hmem : c.message ∈ s.pins.sent.map recordMessage :=
    h.calls ▸ List.mem_map_of_mem hc
  obtain ⟨r, hr, hrc⟩ := List.mem_map.mp hmem
  simp only [recordMessage, Call.message, Prod.mk.injEq] at hrc
  obtain ⟨hpin, -, hchan, -⟩ := hrc
  have hsent := h.sent r hr
  rw [Wire.channels, List.getElem?_map, hpin, hchan] at hsent
  obtain ⟨pin', hp', hlocal⟩ := Option.map_eq_some_iff.mp hsent
  rw [← hlocal]
  constructor
  · exact hown c.pin pin' hp'
  · intro hi
    rw [hi, hp] at hp'
    rw [Option.some.inj hp']

lemma Dispatched.pin_calls {d : Daemon} {s : Sys} (h : Dispatched d s) (i : ℕ) :
    (s.calls.filter fun c => c.pin = i).map (fun c => (c.event.ts, c.event.chan, c.event.value)) =
      (Delivery.messages i s.pins.sent).map fun m => (m.1, m.2.1, m.2.2.1) := by
  have hleft := List.filter_map (f := Call.message) (p := fun m => decide (m.1 = i)) (l := s.calls)
  have hright := List.filter_map (f := recordMessage) (p := fun m => decide (m.1 = i))
    (l := s.pins.sent)
  rw [h.calls, hright] at hleft
  have hmap := congrArg (List.map Prod.snd) hleft
  rw [List.map_map, List.map_map] at hmap
  rw [Delivery.messages, List.map_map]
  exact hmap.symm

lemma Dispatched.read_channel {d : Daemon} {s : Sys} (h : Dispatched d s) {pin : GpioPin} {i : ℕ}
    (hp : d.gp_list[i]? = some pin)
    (hown : ∀ j pin', d.gp_list[j]? = some pin' → u8 pin'.local_ = u8 pin.local_ → j = i)
    (fd : ℕ) : (received (bytesTo fd s.log)).filter (fun f => f.2.2.1 = u8 pin.local_) =
      ((s.calls.filter fun c => c.pin = i).filter fun c => Reaches c.clients c.event fd).map
        fun c => Sessions.fields c.event := by
  have hchannel : (s.calls.filter fun c => Reaches c.clients c.event fd).filter
      (fun c => u8 c.event.chan = u8 pin.local_) =
        (s.calls.filter fun c => c.pin = i).filter fun c => Reaches c.clients c.event fd := by
    rw [List.filter_filter, List.filter_filter]
    refine List.filter_congr fun c hc => ?_
    rw [Bool.and_comm, decide_eq_decide.mpr (h.channel_iff hp hown hc)]
  rw [← hchannel, Sys.log, Sessions.received_writes, Sessions.heard, List.filter_map,
    List.filter_map, List.filter_map, List.map_map]
  rfl

/-- **What a client reads of a line.** In every state that can be reached, whatever is connected,
queued and handled in between, the events delivered for a line whose channel no other pin has are
the first ones queued for it, each has one call of `dispatch`, and of the channel the client reads
the fields of the events whose calls reached it, in order, and nothing else. -/
theorem heard_of_run {sign : CharSign} {d : Daemon} {s : Sys}
    (h : Relation.ReflTransGen (Guarded (Moves sign) fun _ _ => True) (init d) s) {i : ℕ}
    {pin : GpioPin} (hp : d.gp_list[i]? = some pin) (hl : IsLine pin)
    (hown : ∀ j pin', d.gp_list[j]? = some pin' → u8 pin'.local_ = u8 pin.local_ → j = i)
    (fd : ℕ) : ∃ es, Heard pin i fd s es := by
  have hinit : Dispatched d (init d) := ⟨rfl, rfl, by simp [init, Delivery.init]⟩
  have hinv : Delivery.Inv pin i (init d).pins :=
    ⟨⟨[], rfl, rfl, pin.hook_list, hp⟩, Nat.le_refl _⟩
  have hdispatched := guarded_inv (I := Dispatched d)
    (fun s a t hs _ hst => Dispatched.step hs hst) hinit h
  have hdelivered := (guarded_inv (I := fun s => Delivery.Inv pin i s.pins)
    (fun s a t hs _ hst => inv_step hl hs hst) hinv h).delivered
  obtain ⟨es, hqueued, hmessages, -⟩ := hdelivered
  -- the calls of the pin pair up with the events
  have hcalls := hdispatched.pin_calls i
  rw [hmessages, List.map_map] at hcalls
  obtain ⟨ps, hfst, hsnd, hps⟩ := exists_pairs hcalls.symm
  refine ⟨ps, hfst ▸ hqueued, hsnd.symm, ?_⟩
  rw [hdispatched.read_channel hp hown, ← hsnd, List.filter_map, List.map_map]
  exact List.map_congr_left fun p hmem => fields_message (hps p (List.mem_filter.mp hmem).1)

/-- A line rises with one client connected, and its packet is written as a whole. -/
def takesAll : ℕ → WriteOutcome := fun _ => .accepted 256

def riseConnected : Sys :=
  ⟨Delivery.init ⟨[Delivery.linePin], []⟩, Sessions.connect noClients 5, []⟩

def riseQueued : Sys :=
  riseConnected.moved (riseConnected.pins.push 0 Delivery.rise) takesAll

def riseWoken : Sys := riseQueued.moved Delivery.riseWoken takesAll

def riseWaited : Sys :=
  riseWoken.moved (Delivery.riseWoken.next .signed .epollWait [Delivery.lineStep]) takesAll

def riseHeard : Sys := riseWaited.moved Delivery.riseHandled takesAll

theorem rise_heard : ∃ es, Heard Delivery.linePin 0 5 riseHeard es := by
  have hconnect : Moves .signed (init ⟨[Delivery.linePin], []⟩) (.connect 5) riseConnected :=
    .connect _ 5
  have hedge : Moves .signed riseConnected (.pins (.edge 0 Delivery.rise) takesAll) riseQueued :=
    .pins (.edge _ 0 Delivery.rise) takesAll
  have hwake : Moves .signed riseQueued (.pins (.wake [Delivery.lineReady]) takesAll)
      riseWoken := by
    refine .pins (.wake rfl fun i hi => ?_) takesAll
    match i with
    | 0 => exact ⟨by decide, fun _ => by decide⟩
    | i + 1 => cases hi
  have hwait : Moves .signed riseWoken (.pins .handle takesAll) riseWaited :=
    .pins (.handle rfl) takesAll
  have hread : Moves .signed riseWaited (.pins .handle takesAll) riseHeard :=
    .pins (.handle rfl) takesAll
  refine heard_of_run (.tail (.tail (.tail (.tail (.single ⟨_, trivial, hconnect⟩)
    ⟨_, trivial, hedge⟩) ⟨_, trivial, hwake⟩) ⟨_, trivial, hwait⟩) ⟨_, trivial, hread⟩)
    rfl ⟨rfl, rfl⟩ (fun j pin' hj _ => ?_) 5
  match j with
  | 0 => rfl
  | j + 1 => cases hj

example : bytesTo 5 riseHeard.log = 0x02 :: bytes "DI;1.500000000;03;1" ++ [0x0d, 0x0a] := by
  decide

end Gpiod.Wire
