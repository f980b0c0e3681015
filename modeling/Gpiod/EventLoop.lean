import Gpiod.Clients
import Gpiod.LoopOps
import Gpiod.Signals
import Gpiod.Wire

/-!
The loop of `gpiod-event-loop.c` as one machine: the pins and their lines, the clients, the
signals and the children.

A batch of `epoll_wait` reports descriptors of every kind, and the loop handles them one after the
other; lines, peers, signals and children move at any time. Each of the partial systems is a view
of this one: it sees a part of the state, and every run of the whole is a run of it.
-/

namespace Gpiod.EventLoop

open Gpiod.Pin Gpiod.Changed Gpiod.Dispatch Gpiod.Machine
open Gpiod.Loop (LoopState Source Record onIList pList)
open Gpiod.Delivery (LineEvent)
open Gpiod.Broadcast (TcpClients WriteOutcome)
open Gpiod.Clients (Conn Accept acceptedConn)
open Gpiod.Children (Child ChildState born setState waitpid)
open Gpiod.Signals (Signal)
open Gpiod.LoopOps (launchStep)

/-! ### Batches -/

/-- A ready descriptor, with what its handling gets from outside: the reads, the results of
`exec_start` and what a write to each client comes to for a pin; the results of the system calls
for a client; and for `sigfd` the signal read, with the child that a SIGCHLD names and what
`waitpid` returns for it. -/
inductive Ready
  | listenPort (o : Accept)
  | clientPort (id : ℕ) (rdhup : Bool) (k : ℕ)
  | pin (i : ℕ) (reads : Reads) (x : Returns) (out : ℕ → WriteOutcome)
  | timerFd (reads : ℕ → Reads) (x : ℕ → Returns) (out : ℕ → ℕ → WriteOutcome)
  | signalFd (sig : Signal) (ssi_pid pid : ℤ)

/-- What is to be done for the descriptors of a batch; a ready timer is taken apart into the pins
of the poll list. -/
inductive Item
  | listen (o : Accept)
  | client (id : ℕ) (rdhup : Bool) (k : ℕ)
  | handle (src : Source) (i : ℕ) (reads : Reads) (x : Returns) (out : ℕ → WriteOutcome)
  | signal (sig : Signal) (ssi_pid pid : ℤ)

def readyItems (gp_list : List GpioPin) : Ready → List Item
  | .listenPort o => [.listen o]
  | .clientPort id rdhup k => [.client id rdhup k]
  | .pin i reads x out =>
    if gp_list[i]?.map onIList = some true then [.handle .interrupt i reads x out] else []
  | .timerFd reads x out =>
    (pList gp_list).map fun i => .handle .timer i (reads i) (x i) (out i)
  | .signalFd sig ssi_pid pid => [.signal sig ssi_pid pid]

def batchItems (gp_list : List GpioPin) (batch : List Ready) : List Item :=
  batch.flatMap (readyItems gp_list)

def Ready.isSignal : Ready → Bool
  | .signalFd _ _ _ => true
  | _ => false

def Item.isSignal : Item → Bool
  | .signal _ _ _ => true
  | _ => false

def Ready.pins : Ready → Loop.Ready
  | .listenPort _ => .listenPort
  | .clientPort _ _ _ => .clientPort
  | .pin i reads x _ => .pin i reads x
  | .timerFd reads x _ => .timerFd reads x
  | .signalFd .sigchld ssi_pid pid => .sigchld ssi_pid pid
  | .signalFd _ _ _ => .otherSignal

def Item.step : Item → Loop.Step
  | .handle src i reads x _ => .handle src i reads x
  | .signal .sigchld ssi_pid pid => .sigchld ssi_pid pid
  | .listen _ | .client _ _ _ | .signal _ _ _ => .other

def Item.conns : Item → Clients.Item
  | .listen _ => .listenPort
  | .client id rdhup _ => .clientPort id rdhup
  | .handle _ _ _ _ _ | .signal _ _ _ => .other

lemma readyItems_step (gp_list : List GpioPin) (r : Ready) :
    (readyItems gp_list r).map Item.step = Loop.readySteps gp_list r.pins := by
  cases r with
  | pin i reads x out =>
    simp only [readyItems, Ready.pins, Loop.readySteps]
    split <;> rfl
  | timerFd reads x out =>
    simp only [readyItems, Ready.pins, Loop.readySteps, List.map_map]
    rfl
  | signalFd sig ssi_pid pid => cases sig <;> rfl
  | _ => rfl

lemma batchItems_step (gp_list : List GpioPin) (batch : List Ready) :
    .epollWait :: (batchItems gp_list batch).map Item.step =
      Loop.batchSteps gp_list (batch.map Ready.pins) := by
  rw [batchItems, Loop.batchSteps, List.map_flatMap, List.flatMap_map]
  exact congrArg _ (List.flatMap_congr fun r _ => readyItems_step gp_list r)

lemma readyItems_signal (gp_list : List GpioPin) (r : Ready) :
    (readyItems gp_list r).countP Item.isSignal = if r.isSignal then 1 else 0 := by
  cases r with
  | pin i reads x out =>
    simp only [readyItems]
    split <;> rfl
  | timerFd reads x out =>
    simp only [readyItems, List.countP_map]
    exact List.countP_eq_zero.mpr fun i _ h => by cases h
  | _ => rfl

lemma batchItems_signal (gp_list : List GpioPin) (batch : List Ready) :
    (batchItems gp_list batch).countP Item.isSignal = batch.countP Ready.isSignal := by
  induction batch with
  | nil => rfl
  | cons r batch ih =>
    rw [batchItems, List.flatMap_cons, List.countP_append, readyItems_signal, List.countP_cons,
      Nat.add_comm]
    exact congrArg (· + _) ih

/-! ### The state -/

/-- Where the loop is; `chld` once it has read a SIGCHLD and is about to wait for the child. -/
inductive Pc
  | wait
  | batch
  | chld (ssi_pid pid : ℤ)
  | exited
  | nullWrite
  | freedRead
  deriving DecidableEq

structure Sys where
  loop : LoopState
  /-- the events queued for each line, and those that ever were -/
  queue : ℕ → List LineEvent
  queued : ℕ → List LineEvent
  sent : List Record
  /-- the calls of `dispatch` made so far -/
  calls : List Wire.Call
  /-- the children that have not been waited for -/
  children : List Child
  pending : List Signal
  /-- the child that the pending SIGCHLD names -/
  ssi_pid : ℤ
  /-- a readiness notification for `sigfd` is outstanding -/
  notified : Bool
  shutdown_flag : Bool
  hup_flag : Bool
  /-- the signals that have arrived so far -/
  arrived : List Signal
  conn : ℕ → Option Conn
  tcp_clients : TcpClients
  /-- the connections that each child which has not reached its `execve` has a descriptor of -/
  copies : List (ℕ → Bool)
  todo : List Item
  pc : Pc

def init (d : Daemon) : Sys where
  loop := Loop.start d
  queue _ := []
  queued _ := []
  sent := []
  calls := []
  children := []
  pending := []
  ssi_pid := 0
  notified := false
  shutdown_flag := false
  hup_flag := false
  arrived := []
  conn _ := none
  tcp_clients := Sessions.noClients
  copies := []
  todo := []
  pc := .wait

/-! ### Views -/

def Pc.steps : Pc → List Loop.Step
  | .chld ssi_pid pid => [.sigchld ssi_pid pid]
  | _ => []

def Pc.conns : Pc → Clients.Pc
  | .wait | .exited => .wait
  | .batch | .chld _ _ => .batch
  | .nullWrite => .nullWrite
  | .freedRead => .freedRead

def Pc.signals (sigfd : Bool) : Pc → Signals.Pc
  | .wait => .wait
  | .exited => .exited
  | .batch | .chld _ _ | .nullWrite | .freedRead => .batch sigfd

def Pc.hooks : Pc → Children.Pc
  | .wait | .exited => .wait
  | .chld ssi_pid _ => .chld ssi_pid
  | .batch | .nullWrite | .freedRead => .batch

def Sys.pins (s : Sys) : Delivery.Sys :=
  ⟨s.loop, s.queue, s.queued, s.pc.steps ++ s.todo.map Item.step, s.sent⟩

/-- The lines, and what is written to the clients. -/
def Sys.wire (s : Sys) : Wire.Sys := ⟨s.pins, s.tcp_clients, s.calls⟩

def Sys.conns (s : Sys) : Clients.Sys :=
  ⟨s.conn, s.tcp_clients.fds, s.copies, s.todo.map Item.conns, s.pc.conns⟩

def Sys.signals (s : Sys) : Signals.Sys :=
  ⟨s.pending, s.notified, s.pc.signals (s.todo.any Item.isSignal), s.shutdown_flag, s.hup_flag,
    s.arrived⟩

/-- The child that the pending SIGCHLD names, where there is one. -/
def Sys.sigchld (s : Sys) : Option ℤ := if .sigchld ∈ s.pending then some s.ssi_pid else none

/-- The children, beside a daemon. -/
def Sys.hooks (s : Sys) (d : Daemon) : Children.Sys := ⟨d, s.children, s.sigchld, s.pc.hooks⟩

/-! ### The kernel -/

def Sys.raised (s : Sys) (sig : Signal) : Sys :=
  if sig ∈ s.pending then { s with arrived := sig :: s.arrived }
  else { s with pending := s.pending ++ [sig], notified := true, arrived := sig :: s.arrived }

/-- A child changes its state, and a SIGCHLD arrives. -/
def Sys.childMoved (s : Sys) (pid : ℤ) (st : ChildState) : Sys :=
  { s.raised .sigchld with
    children := setState s.children pid st
    ssi_pid := if .sigchld ∈ s.pending then s.ssi_pid else pid }

def Sys.pushed (s : Sys) (i : ℕ) (e : LineEvent) : Sys :=
  { s with queue := (s.pins.push i e).queue, queued := (s.pins.push i e).queued }

def Sys.setConn (s : Sys) (id : ℕ) (c : Conn) : Sys :=
  { s with conn := Function.update s.conn id (some c) }

/-- A batch reports the lines that have an event queued, the connections that are notified, and
`sigfd` where it is. -/
structure Reported (s : Sys) (batch : List Ready) : Prop where
  lines : Delivery.LevelTriggered s.pins (batch.map Ready.pins)
  clients : Clients.Reported s.conns
    ((batchItems s.loop.daemon.gp_list batch).map Item.conns)
  once : batch.countP Ready.isSignal ≤ 1
  sigfd : 0 < batch.countP Ready.isSignal → s.notified = true

/-- `epoll_wait` returns: the notifications reported are gone, and the variables of the iteration
are set up. -/
def Sys.woken (s : Sys) (batch : List Ready) : Sys :=
  { s with
    loop := Loop.start s.loop.daemon
    conn := (s.conns.woken ((batchItems s.loop.daemon.gp_list batch).map Item.conns)).conn
    notified := s.notified && !(batchItems s.loop.daemon.gp_list batch).any Item.isSignal
    todo := batchItems s.loop.daemon.gp_list batch
    pc := .batch }

/-! ### The branches of the loop -/

/-- The children launched by the step, with their hooks. -/
def Sys.spawned (sign : CharSign) (s : Sys) (st : Loop.Step) : List (ℤ × HookRef) :=
  (launchStep sign s.loop (s.pins.resolve st)).2

/-- The pids of the children launched are not in use, and no two are the same. -/
structure Fresh (s : Sys) (spawned : List (ℤ × HookRef)) : Prop where
  unused : ∀ e ∈ spawned, ∀ c ∈ s.children, c.pid ≠ e.1
  distinct : (spawned.map Prod.fst).Nodup

/-- A pin is handled: `changed`, `dispatch` and `dispatch_hooks`. Every child launched has copies of
the open descriptors. -/
def Sys.handled (sign : CharSign) (s : Sys) (st : Loop.Step) (out : ℕ → WriteOutcome)
    (rest : List Item) : Sys :=
  { s with
    loop := (Loop.step sign s.loop (s.pins.resolve st)).1
    queue := s.pins.dequeue st
    sent := s.sent ++ (Loop.step sign s.loop (s.pins.resolve st)).2
    calls := s.calls ++
      (Loop.step sign s.loop (s.pins.resolve st)).2.map (Wire.recordCall s.tcp_clients out)
    children := s.children ++ born (s.spawned sign st)
    copies := List.replicate (s.spawned sign st).length (fun id => (s.conn id).any fun c => c.fd) ++
      s.copies
    todo := rest }

/-- A signal is read from `sigfd`, and the switch over `ssi_signo` is entered. -/
def Sys.sigRead (s : Sys) (sig : Signal) (ssi_pid pid : ℤ) (rest : List Item) : Sys :=
  { s with
    pending := s.pending.erase sig
    shutdown_flag := (s.signals.switch sig).shutdown_flag
    hup_flag := (s.signals.switch sig).hup_flag
    todo := rest
    pc := if sig = .sigchld then .chld ssi_pid pid else .batch }

/-- The child that the SIGCHLD names is waited for. -/
def Sys.waited (sign : CharSign) (s : Sys) (ssi_pid pid : ℤ) : Sys :=
  { s with
    loop := (Loop.step sign s.loop (.sigchld ssi_pid pid)).1
    children := (waitpid s.children ssi_pid).2
    pc := .batch }

/-- The LISTEN_PORT branch. -/
def Sys.onListen (s : Sys) (rest : List Item) : Accept → Sys
  | .acceptFails | .setsockoptFails => { s with pc := .nullWrite }
  | .connected id unread closed epollCtl =>
    { s.setConn id (acceptedConn unread closed epollCtl) with
      tcp_clients := Sessions.connect s.tcp_clients id
      todo := rest }

/-- The CLIENT_PORT branch. -/
def Sys.onClient (s : Sys) (id : ℕ) (rdhup : Bool) (rest : List Item) (c : Conn) (k : ℕ) : Sys :=
  if c.allocated = false then { s with pc := .freedRead }
  else if c.unread = 0 ∧ rdhup = true then
    { s.setConn id { c.notify with shut := true, fd := false, allocated := false } with
      tcp_clients := Sessions.disconnect s.tcp_clients id
      todo := rest }
  else { s.setConn id { c with unread := c.unread - k } with todo := rest }

/-! ### Steps -/

inductive Act
  | edge (i : ℕ) (e : LineEvent)
  | signal (sig : Signal)
  | child (pid : ℤ) (st : ChildState)
  | data (id n : ℕ)
  | close (id : ℕ)
  | lapse (id : ℕ)
  | exec
  | wake (batch : List Ready)
  | handle
  | readSig (sig : Signal)
  | waitpid
  | listen
  | client
  | done

inductive Moves (sign : CharSign) : Sys → Act → Sys → Prop
  /-- the kernel queues an event of a line -/
  | edge (s : Sys) (i : ℕ) (e : LineEvent) : Moves sign s (.edge i e) (s.pushed i e)
  /-- a signal arrives that is not the one of a child -/
  | signal (s : Sys) {sig : Signal} (hsig : sig ≠ .sigchld) :
      Moves sign s (.signal sig) (s.raised sig)
  /-- a child stops, goes on or ends -/
  | child {s : Sys} {c : Child} {st : ChildState} (hc : c ∈ s.children)
      (hm : Children.Moves c.state st) : Moves sign s (.child c.pid st) (s.childMoved c.pid st)
  | data {s : Sys} {id n : ℕ} {c : Conn} (hc : s.conn id = some c) (hopen : c.closed = false)
      (hshut : c.shut = false) :
      Moves sign s (.data id n) (s.setConn id { c with unread := c.unread + n }.notify)
  | close {s : Sys} {id : ℕ} {c : Conn} (hc : s.conn id = some c) (hopen : c.closed = false) :
      Moves sign s (.close id) (s.setConn id { c with closed := true }.notify)
  /-- `epoll_wait` drops the notification of a connection that is not ready any more -/
  | lapse {s : Sys} {id : ℕ} {c : Conn} (hpc : s.pc = .wait) (hc : s.conn id = some c)
      (hr : c.ready = false) : Moves sign s (.lapse id) (s.setConn id { c with notified := false })
  /-- a child reaches its `execve`, which closes its descriptors -/
  | exec {s : Sys} {pre post : List (ℕ → Bool)} {child : ℕ → Bool}
      (hs : s.copies = pre ++ child :: post) :
      Moves sign s .exec { s with copies := pre ++ post }
  | wake {s : Sys} {batch : List Ready} (hpc : s.pc = .wait) (hb : Reported s batch) :
      Moves sign s (.wake batch) (s.woken batch)
  /-- the SYSFS_PIN and UAPI_PIN branch, and one turn of the loop of the TIMER_FD branch -/
  | handle {s : Sys} {src : Source} {i : ℕ} {reads : Reads} {x : Returns}
      {out : ℕ → WriteOutcome} {rest : List Item} (hpc : s.pc = .batch)
      (ht : s.todo = .handle src i reads x out :: rest)
      (hx : Fresh s (s.spawned sign (.handle src i reads x))) :
      Moves sign s .handle (s.handled sign (.handle src i reads x) out rest)
  /-- the SIGNAL_FD branch; which pending signal is read is the kernel's choice -/
  | readSig {s : Sys} {sig : Signal} {ssi_pid pid : ℤ} {rest : List Item} (hpc : s.pc = .batch)
      (ht : s.todo = .signal sig ssi_pid pid :: rest) (hp : sig ∈ s.pending)
      (hchld : sig = .sigchld → ssi_pid = s.ssi_pid) :
      Moves sign s (.readSig sig) (s.sigRead sig ssi_pid pid rest)
  | waitpid {s : Sys} {ssi_pid pid : ℤ} (hpc : s.pc = .chld ssi_pid pid)
      (hpid : pid = (Children.waitpid s.children ssi_pid).1) :
      Moves sign s .waitpid (s.waited sign ssi_pid pid)
  | listen {s : Sys} {o : Accept} {rest : List Item} (hpc : s.pc = .batch)
      (ht : s.todo = .listen o :: rest) (ho : o.New s.conns) :
      Moves sign s .listen (s.onListen rest o)
  | client {s : Sys} {id : ℕ} {rdhup : Bool} {k : ℕ} {rest : List Item} {c : Conn}
      (hpc : s.pc = .batch) (ht : s.todo = .client id rdhup k :: rest)
      (hc : s.conn id = some c) (hk : k ≤ c.unread) :
      Moves sign s .client (s.onClient id rdhup rest c k)
  /-- the batch is handled, and the loop tests `shutdown_flag` -/
  | done {s : Sys} (hpc : s.pc = .batch) (ht : s.todo = []) :
      Moves sign s .done { s with pc := if s.shutdown_flag then .exited else .wait }

/-- Signals arrive one at a time, no child ends while the SIGCHLD of another is pending, and no byte
is unread where the close of a client is handled. -/
def Orderly (s : Sys) : Act → Prop
  | .signal sig => sig ∈ s.pending ∨ s.notified = false
  | .child pid st => (.sigchld ∈ s.pending ∨ s.notified = false) ∧ (st = .zombie →
      .sigchld ∈ s.pending → s.ssi_pid = pid ∨ ∃ ret, s.pc = .chld pid ret)
  | .client => ∀ id k rest c, s.todo = .client id true k :: rest → s.conn id = some c →
      c.allocated = true → c.unread = 0
  | _ => True

end Gpiod.EventLoop
