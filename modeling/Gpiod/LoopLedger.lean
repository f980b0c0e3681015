import Gpiod.Broadcast
import Gpiod.Descriptors
import Gpiod.LoopSetup

/-!
The descriptors of `loop`, from `epoll_create1` to its exit: what it opens, writes to and closes.

The one of `epoll_create1` is closed nowhere, nor is a socket that cannot be bound, and where the
timer cannot be added to `epollfd` the label that is gone to lies behind the `close` of it. What a
client sends is spliced to `devnullfd`, which nothing assigns. Calls on descriptors that neither
open, write, splice nor close are left out.
-/

namespace Gpiod.LoopLedger

open Gpiod.Pin (Str bytes)
open Gpiod.CLong Gpiod.Descriptors Gpiod.LoopSetup
open Gpiod.Broadcast (WriteOutcome writeLoop)

/-! ### The set-up -/

/-- What the calls of the set-up return. -/
structure Returns where
  epollCreate1 : ℤ
  epollCtlSig : ℤ
  socket : ℤ
  bind : ℤ
  listen : ℤ
  epollCtlListen : ℤ
  timerfdCreate : ℤ
  timerfdSettime : Itimerspec → ℤ
  epollCtlTimer : ℤ

/-- `init_socket`: the result of `socket` is not looked at, and `bind` fails without one. -/
def initSocket (socket bind : ℤ) : ℤ := if bind < 0 then -1 else socket

def Returns.listenfd (x : Returns) : ℤ := initSocket x.socket x.bind

def Returns.setupCalls (x : Returns) : SetupCalls where
  epollCtlSig := x.epollCtlSig
  initSocket := x.listenfd
  listen := x.listen
  epollCtlListen := x.epollCtlListen
  timerfdCreate := x.timerfdCreate
  timerfdSettime := x.timerfdSettime
  epollCtlTimer := x.epollCtlTimer

/-- A call that gives a descriptor, kept as an open without a path: `epoll_create1`, `socket`,
`timerfd_create` or `accept4`. -/
def gives (ret : ℤ) : Call := .openat (-1) [] ret

/-- The set-up comes to `timerfd_create`. -/
def Returns.ListensAt (x : Returns) : Prop :=
  x.epollCtlSig ≠ -1 ∧ 0 ≤ x.listenfd ∧ x.listen ≠ -1 ∧ x.epollCtlListen ≠ -1

instance (x : Returns) : Decidable x.ListensAt := inferInstanceAs (Decidable (_ ∧ _))

/-- The descriptors given in the set-up, as far as it comes. -/
def opens (x : Returns) : List Call :=
  [gives x.epollCreate1] ++ (if x.epollCtlSig = -1 then [] else [gives x.socket]) ++
    if x.ListensAt then [gives x.timerfdCreate] else []

def closes (x : Returns) : Label → List Call
  | .closeTimerfd => [.close x.timerfdCreate, .close x.listenfd]
  | .closeSocket => [.close x.listenfd]
  | .spliceLists => []

/-! ### The loop over the events -/

/-- A global that is never assigned. -/
def devnullfd : ℤ := 0

/-- What is done with the descriptors of the clients. -/
inductive Act
  /-- `accept4` and `setsockopt` return -/
  | connect (ret setsockopt : ℤ)
  | disconnect (fd : ℕ)
  /-- a client has sent `len` bytes, and `splice` returns -/
  | data (fd : ℕ) (len ret : ℤ)
  | dispatch (package : Str) (out : ℕ → WriteOutcome)

/-- The clients afterwards, and the calls. There are none where the null pointer of a failed accept
is written through, or the client is not on the list and its wrapper has been freed. -/
def step (tcp_clients : List ℕ) : Act → Option (List ℕ) × List Call
  | .connect ret setsockopt =>
    if ret < 0 then (none, [gives ret])
    else if setsockopt < 0 then (none, [gives ret, .close ret])
    else (some (tcp_clients ++ [ret.toNat]), [gives ret])
  | .disconnect fd =>
    if fd ∈ tcp_clients then (some (tcp_clients.erase fd), [.close fd]) else (none, [])
  | .data fd len ret =>
    if fd ∈ tcp_clients then (some tcp_clients, [.splice fd devnullfd len ret]) else (none, [])
  | .dispatch package out => (some tcp_clients, (writeLoop package out tcp_clients).2.map fun w =>
      .write w.fd w.package (w.outcome.ret w.package.length))

def handle : List ℕ → List Act → Option (List ℕ) × List Call
  | tcp_clients, [] => (some tcp_clients, [])
  | tcp_clients, a :: acts =>
    match step tcp_clients a with
    | (none, calls) => (none, calls)
    | (some tcp_clients, calls) =>
      let r := handle tcp_clients acts
      (r.1, calls ++ r.2)

/-- Whether `loop` comes to its exit, and its calls. -/
def loop (w : LongWidth) (poll_period : ℤ) (x : Returns) (acts : List Act) : Bool × List Call :=
  match setup w poll_period x.setupCalls with
  | some label => (true, opens x ++ closes x label)
  | none =>
    match handle [] acts with
    | (none, calls) => (false, opens x ++ calls)
    | (some tcp_clients, calls) =>
      (true, opens x ++ calls ++ (handle tcp_clients (tcp_clients.map .disconnect)).2 ++
        closes x .closeTimerfd)

/-- What `loop` leaves open at its exit. -/
inductive LeftOpen (w : LongWidth) (poll_period : ℤ) (x : Returns) : ℤ → Prop
  | epollfd (h : x.epollCreate1 ≠ -1) : LeftOpen w poll_period x x.epollCreate1
  | unbound (hs : x.epollCtlSig ≠ -1) (h : x.socket ≠ -1) (hb : x.bind < 0) :
      LeftOpen w poll_period x x.socket
  | unwatched (hl : x.ListensAt) (h : x.timerfdCreate ≠ -1)
      (hs : x.timerfdSettime (timerSpec w poll_period) ≠ -1) (ht : x.epollCtlTimer = -1) :
      LeftOpen w poll_period x x.timerfdCreate

variable {ι : Type*} {t t' : Table ι} {i : ι} {fds base : List ℤ} {tcp_clients : List ℕ}
  {w : LongWidth} {poll_period : ℤ} {x : Returns}

lemma opened_gives {ret : ℤ} (h : ret ≠ -1) : (gives ret).opened = some ret := if_neg h

lemma onOwn_gives {out ret : ℤ} {cs : List Call} (h : OnOwn out (own fds (gives ret)) cs) :
    OnOwn out fds (gives ret :: cs) :=
  ⟨(fun _ he => by cases he), (fun _ he => by cases he), (fun _ he => by cases he), h⟩

/-! ### The clients -/

/-- In the middle of the loop: of its descriptors those in `base` are open, and those of the
clients, each once. -/
structure Has (t : Table ι) (i : ι) (base : List ℤ) (tcp_clients : List ℕ) (fds : List ℤ)
    (t' : Table ι) : Prop where
  owns : Owns t i fds t'
  nodup : tcp_clients.Nodup
  mem : ∀ fd, fd ∈ fds ↔ fd ∈ base ∨ fd ∈ tcp_clients.map fun c : ℕ => (c : ℤ)
  apart : ∀ c ∈ tcp_clients, (c : ℤ) ∉ base

lemma Has.client (h : Has t i base tcp_clients fds t') {c : ℕ} (hc : c ∈ tcp_clients) :
    (c : ℤ) ∈ fds := (h.mem c).mpr (Or.inr (List.mem_map_of_mem hc))

lemma Has.connect (h : Has t i base tcp_clients fds t') {c : ℕ}
    (hfresh : FreshOpens t' (callsOf i [gives c])) :
    Has t i base (tcp_clients ++ [c]) (own fds (gives c)) (t'.call i (gives c)) := by
  have hopened : (gives c).opened = some (c : ℤ) := opened_gives (by omega)
  have hout : (c : ℤ) ∉ fds := fun hin =>
    (hfresh.1 c hopened).2 (List.mem_map.mpr ⟨(c, i), (h.owns.mem _).mpr (Or.inr ⟨rfl, hin⟩), rfl⟩)
  refine ⟨h.owns.call (fun _ he => by cases he) hfresh.1, ?_, fun fd => ?_, fun d hd => ?_⟩
  · refine List.nodup_append.mpr ⟨h.nodup, List.nodup_singleton c, fun d hd e he hde => ?_⟩
    obtain rfl := List.mem_singleton.mp he
    exact hout (hde ▸ h.client hd)
  · have hn : (gives c).closed = none := rfl
    rw [mem_own, hopened, hn, h.mem]
    simp only [List.map_append, List.map_cons, List.map_nil, List.mem_append, List.mem_singleton,
      Option.some.injEq, ne_eq, reduceCtorEq, not_false_eq_true, and_true]
    rw [eq_comm (a := fd)]
    tauto
  · rcases List.mem_append.mp hd with hd | hd
    · exact h.apart d hd
    · obtain rfl := List.mem_singleton.mp hd
      exact fun hb => hout ((h.mem _).mpr (Or.inl hb))

lemma Has.disconnect (h : Has t i base tcp_clients fds t') {c : ℕ} (hc : c ∈ tcp_clients) :
    Has t i base (tcp_clients.erase c) (own fds (.close c)) (t'.call i (.close c)) := by
  have hclosed : ∀ fd ∈ (Call.close c).closed, fd ∈ fds := fun fd hfd => by
    obtain rfl := Option.some.inj hfd
    exact h.client hc
  refine ⟨h.owns.call hclosed (fun _ he => by cases he), h.nodup.erase c, fun fd => ?_,
    fun d hd => h.apart d (List.mem_of_mem_erase hd)⟩
  have hn : (Call.close (c : ℤ)).opened = none := rfl
  have hs : (Call.close (c : ℤ)).closed = some (c : ℤ) := rfl
  rw [mem_own, hn, hs, h.mem]
  simp only [reduceCtorEq, false_or, ne_eq, Option.some.injEq, List.mem_map,
    h.nodup.mem_erase_iff]
  constructor
  · rintro ⟨hb | ⟨d, hd, rfl⟩, hne⟩
    · exact Or.inl hb
    · exact Or.inr ⟨d, ⟨fun he => hne (he ▸ rfl), hd⟩, rfl⟩
  · rintro (hb | ⟨d, ⟨hne, hd⟩, rfl⟩)
    · exact ⟨Or.inl hb, fun he => h.apart c hc (he ▸ hb)⟩
    · exact ⟨Or.inr ⟨d, hd, rfl⟩, fun he => hne (Int.ofNat.inj he).symm⟩

/-- The writes of a broadcast go to clients, and leave the descriptors as they are. -/
lemma dispatch_calls (package : Str) (out : ℕ → WriteOutcome) (tcp_clients : List ℕ) :
    ∀ c ∈ (step tcp_clients (.dispatch package out)).2, c.opened = none ∧ c.closed = none ∧
      (∀ fd ∈ c.written, fd ∈ tcp_clients.map fun c : ℕ => (c : ℤ)) ∧ c.spliced = none := by
  intro c hc
  obtain ⟨w, hw, rfl⟩ := List.mem_map.mp hc
  refine ⟨rfl, rfl, fun fd hfd => ?_, rfl⟩
  obtain rfl := Option.some.inj hfd
  exact List.mem_map_of_mem ((Broadcast.writeLoop_fds tcp_clients).subset (List.mem_map_of_mem hw))

/-- Calls that leave the descriptors as they are. -/
lemma Has.quiet (h : Has t i base tcp_clients fds t') {cs : List Call}
    (hq : ownAfter fds cs = fds ∧ t'.after (callsOf i cs) = t') {clients' : List ℕ}
    (he : some tcp_clients = some clients') :
    Has t i base clients' (ownAfter fds cs) (t'.after (callsOf i cs)) := by
  obtain rfl := Option.some.inj he
  rw [hq.1, hq.2]
  exact h

/-- **A step of the loop** is on its own descriptors, and keeps book of the clients. -/
lemma Has.step (h : Has t i base tcp_clients fds t') (a : Act)
    (hf : FreshOpens t' (callsOf i (step tcp_clients a).2)) :
    OnOwn devnullfd fds (step tcp_clients a).2 ∧
      ∀ clients', (step tcp_clients a).1 = some clients' →
        Has t i base clients' (ownAfter fds (step tcp_clients a).2)
          (t'.after (callsOf i (step tcp_clients a).2)) := by
  cases a with
  | connect ret setsockopt =>
    rw [LoopLedger.step] at hf ⊢
    by_cases hret : ret < 0
    · rw [if_pos hret]
      exact ⟨onOwn_gives trivial, fun _ he => by cases he⟩
    rw [if_neg hret] at hf ⊢
    by_cases hset : setsockopt < 0
    · rw [if_pos hset]
      refine ⟨onOwn_gives (onOwn_close (mem_own.mpr (Or.inl (opened_gives ?_))) trivial),
        fun _ he => by cases he⟩
      omega
    · rw [if_neg hset] at hf ⊢
      refine ⟨onOwn_gives trivial, fun clients' he => ?_⟩
      obtain rfl := Option.some.inj he
      have hcast : (ret.toNat : ℤ) = ret := Int.toNat_of_nonneg (by omega)
      have hnew := h.connect (c := ret.toNat) (by rw [hcast]; exact hf)
      rwa [hcast] at hnew
  | disconnect fd =>
    rw [LoopLedger.step]
    by_cases hfd : fd ∈ tcp_clients
    · rw [if_pos hfd]
      refine ⟨onOwn_close (h.client hfd) trivial, fun clients' he => ?_⟩
      obtain rfl := Option.some.inj he
      exact h.disconnect hfd
    · rw [if_neg hfd]
      exact ⟨trivial, fun _ he => by cases he⟩
  | data fd len ret =>
    rw [LoopLedger.step]
    by_cases hfd : fd ∈ tcp_clients
    · rw [if_pos hfd]
      have hquiet : OnOwn devnullfd fds [.splice fd devnullfd len ret] ∧
          ownAfter fds [.splice fd devnullfd len ret] = fds ∧
          t'.after (callsOf i [.splice fd devnullfd len ret]) = t' := by
        refine quiet_calls (List.forall_mem_singleton.mpr ⟨rfl, rfl, (fun _ he => by cases he), ?_⟩)
        intro e he
        obtain rfl := Option.some.inj he
        exact ⟨h.client hfd, rfl⟩
      exact ⟨hquiet.1, fun clients' he => h.quiet hquiet.2 he⟩
    · rw [if_neg hfd]
      exact ⟨trivial, fun _ he => by cases he⟩
  | dispatch package out =>
    have hcalls := dispatch_calls package out tcp_clients
    set cs := (LoopLedger.step tcp_clients (.dispatch package out)).2
    have hquiet : OnOwn devnullfd fds cs ∧ ownAfter fds cs = fds ∧
        t'.after (callsOf i cs) = t' := by
      refine quiet_calls fun c hc => ?_
      obtain ⟨ho, hcl, hw, hs⟩ := hcalls c hc
      exact ⟨ho, hcl, fun fd hfd => (h.mem fd).mpr (Or.inr (hw fd hfd)), by simp [hs]⟩
    exact ⟨hquiet.1, fun clients' he => h.quiet hquiet.2 he⟩

lemma handle_cons (tcp_clients : List ℕ) (a : Act) (acts : List Act) :
    handle tcp_clients (a :: acts) = match (step tcp_clients a).1 with
      | none => (none, (step tcp_clients a).2)
      | some clients' => ((handle clients' acts).1, (step tcp_clients a).2 ++
          (handle clients' acts).2) := by
  rw [handle]
  rcases LoopLedger.step tcp_clients a with ⟨_ | clients', calls⟩ <;> rfl

/-- **A run of the loop.** -/
lemma Has.run (h : Has t i base tcp_clients fds t') (acts : List Act)
    (hf : FreshOpens t' (callsOf i (handle tcp_clients acts).2)) :
    OnOwn devnullfd fds (handle tcp_clients acts).2 ∧
      ∀ clients', (handle tcp_clients acts).1 = some clients' →
        Has t i base clients' (ownAfter fds (handle tcp_clients acts).2)
          (t'.after (callsOf i (handle tcp_clients acts).2)) := by
  induction acts generalizing tcp_clients fds t' with
  | nil =>
    refine ⟨trivial, fun clients' he => ?_⟩
    obtain rfl := Option.some.inj he
    exact h
  | cons a acts ih =>
    have hstep := h.step a
    rw [handle_cons] at hf ⊢
    cases hs : (LoopLedger.step tcp_clients a).1 with
    | none =>
      rw [hs] at hf
      exact ⟨(hstep hf).1, fun _ he => by cases he⟩
    | some clients₁ =>
      rw [hs, callsOf_append, freshOpens_append] at hf
      obtain ⟨hown, hnext⟩ := hstep hf.1
      obtain ⟨hrest, hend⟩ := ih (hnext _ hs) hf.2
      refine ⟨onOwn_append.mpr ⟨hown, hrest⟩, fun clients' he => ?_⟩
      rw [ownAfter_append, callsOf_append, after_append]
      exact hend clients' he

lemma handle_disconnect (tcp_clients : List ℕ) :
    (handle tcp_clients (tcp_clients.map .disconnect)).1 = some [] := by
  induction tcp_clients with
  | nil => rfl
  | cons c tcp_clients ih =>
    have hstep : LoopLedger.step (c :: tcp_clients) (.disconnect c) =
        (some tcp_clients, [.close c]) := by
      rw [LoopLedger.step, if_pos List.mem_cons_self, List.erase_cons_head]
    rw [List.map_cons, handle_cons, hstep]
    exact ih

/-! ### The set-up and the labels -/

lemma opens_calls (x : Returns) :
    closed (opens x) = [] ∧ ∀ c ∈ opens x, c.written = none ∧ c.spliced = none := by
  unfold opens
  by_cases hs : x.epollCtlSig = -1 <;> by_cases hl : x.ListensAt <;>
    simp [hs, hl, gives, closed, Call.closed, Call.written, Call.spliced]

lemma mem_opened_opens {fd : ℤ} : fd ∈ opened (opens x) ↔ fd ≠ -1 ∧
    (fd = x.epollCreate1 ∨ x.epollCtlSig ≠ -1 ∧ fd = x.socket ∨
      x.ListensAt ∧ fd = x.timerfdCreate) := by
  have hgives : ∀ ret : ℤ, fd ∈ opened [gives ret] ↔ fd ≠ -1 ∧ fd = ret := by
    intro ret
    by_cases h : ret = -1
    · simp [opened, gives, Call.opened, h]
    · have hne : fd = ret → fd ≠ -1 := fun he => he ▸ h
      simp only [opened, gives, Call.opened, List.filterMap_cons, if_neg h, List.filterMap_nil,
        List.mem_singleton]
      tauto
  have hnil : fd ∉ opened [] := List.not_mem_nil
  unfold opens
  rw [opened_append, opened_append, List.mem_append, List.mem_append, hgives]
  by_cases hs : x.epollCtlSig = -1 <;> by_cases hl : x.ListensAt <;>
    simp only [hs, hl, if_true, if_false, hgives, hnil] <;> tauto

lemma setup_cases (w : LongWidth) (poll_period : ℤ) (x : Returns) :
    (setup w poll_period x.setupCalls = some .spliceLists ∧
      (x.epollCtlSig = -1 ∨ x.listenfd < 0)) ∨
    (setup w poll_period x.setupCalls = some .closeSocket ∧ x.epollCtlSig ≠ -1 ∧ 0 ≤ x.listenfd ∧
      (¬ x.ListensAt ∨ x.timerfdCreate = -1 ∨
        x.timerfdSettime (timerSpec w poll_period) ≠ -1 ∧ x.epollCtlTimer = -1)) ∨
    (setup w poll_period x.setupCalls = some .closeTimerfd ∨
      setup w poll_period x.setupCalls = none) ∧ x.ListensAt ∧ x.timerfdCreate ≠ -1 ∧
        ¬ (x.timerfdSettime (timerSpec w poll_period) ≠ -1 ∧ x.epollCtlTimer = -1) := by
  unfold setup Returns.ListensAt
  by_cases h₁ : x.setupCalls.epollCtlSig = -1
  · exact Or.inl ⟨if_pos h₁, Or.inl h₁⟩
  rw [if_neg h₁]
  by_cases h₂ : x.setupCalls.initSocket < 0
  · exact Or.inl ⟨if_pos h₂, Or.inr h₂⟩
  rw [if_neg h₂]
  have hsock : 0 ≤ x.listenfd := Int.not_lt.mp h₂
  refine Or.inr ?_
  by_cases h₃ : x.setupCalls.listen = -1
  · exact Or.inl ⟨if_pos h₃, h₁, hsock, Or.inl fun h => h.2.2.1 h₃⟩
  rw [if_neg h₃]
  by_cases h₄ : x.setupCalls.epollCtlListen = -1
  · exact Or.inl ⟨if_pos h₄, h₁, hsock, Or.inl fun h => h.2.2.2 h₄⟩
  rw [if_neg h₄]
  by_cases h₅ : x.setupCalls.timerfdCreate = -1
  · exact Or.inl ⟨if_pos h₅, h₁, hsock, Or.inr (Or.inl h₅)⟩
  rw [if_neg h₅]
  have hlistens : x.epollCtlSig ≠ -1 ∧ 0 ≤ x.listenfd ∧ x.listen ≠ -1 ∧ x.epollCtlListen ≠ -1 :=
    ⟨h₁, hsock, h₃, h₄⟩
  by_cases h₆ : x.setupCalls.timerfdSettime (timerSpec w poll_period) = -1
  · exact Or.inr ⟨Or.inl (if_pos h₆), hlistens, h₅, fun h => h.1 h₆⟩
  rw [if_neg h₆]
  by_cases h₇ : x.setupCalls.epollCtlTimer = -1
  · exact Or.inl ⟨if_pos h₇, h₁, hsock, Or.inr (Or.inr ⟨h₆, h₇⟩)⟩
  · exact Or.inr ⟨Or.inr (if_neg h₇), hlistens, h₅, fun h => h₇ h.2⟩

lemma listenfd_nonneg (h : 0 ≤ x.listenfd) : x.listenfd = x.socket ∧ 0 ≤ x.bind := by
  unfold Returns.listenfd initSocket at h ⊢
  split at h
  · omega
  · next hb => exact ⟨if_neg hb, Int.not_lt.mp hb⟩

lemma opens_distinct (hf : FreshOpens t (callsOf i (opens x))) (hs : x.epollCtlSig ≠ -1)
    (hsock : x.socket ≠ -1) :
    x.epollCreate1 ≠ x.socket ∧
      (x.ListensAt → x.timerfdCreate ≠ x.socket ∧
        (x.timerfdCreate ≠ -1 → x.epollCreate1 ≠ x.timerfdCreate)) := by
  have hnd := (hf.opened (opens_calls x).1).1
  by_cases hl : x.ListensAt <;> by_cases he : x.epollCreate1 = -1 <;>
    by_cases ht : x.timerfdCreate = -1 <;>
    simp [opens, hs, hl, gives, opened, Call.opened, he, ht, hsock] at hnd ⊢ <;> omega

lemma leftOpen_iff {fd : ℤ} : LeftOpen w poll_period x fd ↔ fd ≠ -1 ∧ (fd = x.epollCreate1 ∨
    (x.epollCtlSig ≠ -1 ∧ x.bind < 0) ∧ fd = x.socket ∨
    (x.ListensAt ∧ x.timerfdSettime (timerSpec w poll_period) ≠ -1 ∧ x.epollCtlTimer = -1) ∧
      fd = x.timerfdCreate) := by
  constructor
  · rintro (h | ⟨hs, h, hb⟩ | ⟨hl, h, hs, ht⟩)
    · exact ⟨h, Or.inl rfl⟩
    · exact ⟨h, Or.inr (Or.inl ⟨⟨hs, hb⟩, rfl⟩)⟩
    · exact ⟨h, Or.inr (Or.inr ⟨⟨hl, hs, ht⟩, rfl⟩)⟩
  · rintro ⟨h, rfl | ⟨⟨hs, hb⟩, rfl⟩ | ⟨⟨hl, hs, ht⟩, rfl⟩⟩
    · exact .epollfd h
    · exact .unbound hs h hb
    · exact .unwatched hl h hs ht

lemma Has.mem_given (h : Has t i (ownAfter [] (opens x)) [] fds t') {fd : ℤ} :
    fd ∈ fds ↔ fd ≠ -1 ∧ (fd = x.epollCreate1 ∨ x.epollCtlSig ≠ -1 ∧ fd = x.socket ∨
      x.ListensAt ∧ fd = x.timerfdCreate) := by
  rw [h.mem, mem_ownAfter_of_opens (opens_calls x).1, mem_opened_opens]
  simp

/-- What the calls behind a label come to: they are on descriptors of the loop, and leave those
that stay open. -/
def Closes (w : LongWidth) (poll_period : ℤ) (x : Returns) (fds : List ℤ) (label : Label) : Prop :=
  OnOwn devnullfd fds (closes x label) ∧
    ∀ fd, fd ∈ ownAfter fds (closes x label) ↔ LeftOpen w poll_period x fd

/-- Nothing is closed; a socket that was given cannot be bound. -/
lemma Has.spliceLists (h : Has t i (ownAfter [] (opens x)) [] fds t')
    (hf : FreshOpens t (callsOf i (opens x))) (hno : x.epollCtlSig = -1 ∨ x.listenfd < 0) :
    Closes w poll_period x fds .spliceLists := by
  have hnot : ¬ x.ListensAt := fun hl => hno.elim hl.1 (Int.not_lt.mpr hl.2.1)
  have hbind : x.epollCtlSig ≠ -1 → x.socket ≠ -1 → x.bind < 0 := fun hs hsock => by
    by_contra hb
    have hlisten : x.listenfd = x.socket := if_neg hb
    have hneg := hno.resolve_left hs
    have hgiven := ((hf.opened (opens_calls x).1).2 _
      (mem_opened_opens.mpr ⟨hsock, Or.inr (Or.inl ⟨hs, rfl⟩)⟩)).1
    omega
  refine ⟨trivial, fun fd => ?_⟩
  change fd ∈ fds ↔ _
  rw [h.mem_given, leftOpen_iff]
  constructor
  · rintro ⟨hne, he | ⟨hs, rfl⟩ | ⟨hl, -⟩⟩
    · exact ⟨hne, Or.inl he⟩
    · exact ⟨hne, Or.inr (Or.inl ⟨⟨hs, hbind hs hne⟩, rfl⟩)⟩
    · exact absurd hl hnot
  · rintro ⟨hne, he | ⟨⟨hs, -⟩, he⟩ | ⟨⟨hl, -⟩, -⟩⟩
    · exact ⟨hne, Or.inl he⟩
    · exact ⟨hne, Or.inr (Or.inl ⟨hs, he⟩)⟩
    · exact absurd hl hnot

/-- The socket is closed; a timer there may be has been set, and is not watched. -/
lemma Has.closeSocket (h : Has t i (ownAfter [] (opens x)) [] fds t')
    (hf : FreshOpens t (callsOf i (opens x))) (hs : x.epollCtlSig ≠ -1) (hsock : 0 ≤ x.listenfd)
    (hno : ¬ x.ListensAt ∨ x.timerfdCreate = -1 ∨
      x.timerfdSettime (timerSpec w poll_period) ≠ -1 ∧ x.epollCtlTimer = -1) :
    Closes w poll_period x fds .closeSocket := by
  obtain ⟨hlisten, hbind⟩ := listenfd_nonneg hsock
  obtain ⟨hes, htimer⟩ := opens_distinct hf hs (by omega)
  have hin : x.listenfd ∈ fds :=
    h.mem_given.mpr ⟨by omega, Or.inr (Or.inl ⟨hs, hlisten⟩)⟩
  refine ⟨onOwn_close hin trivial, fun fd => ?_⟩
  have hone : fd ∉ closed (closes x .closeSocket) ↔ fd ≠ x.socket := by
    simp [closes, closed, Call.closed, hlisten]
  rw [mem_ownAfter_of_closes rfl, h.mem_given, leftOpen_iff, hone]
  constructor
  · rintro ⟨⟨hne, he | ⟨-, he⟩ | ⟨hl, rfl⟩⟩, hns⟩
    · exact ⟨hne, Or.inl he⟩
    · exact absurd he hns
    · have hun := (hno.resolve_left (not_not.mpr hl)).resolve_left hne
      exact ⟨hne, Or.inr (Or.inr ⟨⟨hl, hun⟩, rfl⟩)⟩
  · rintro ⟨hne, rfl | ⟨⟨-, hb⟩, -⟩ | ⟨⟨hl, -⟩, rfl⟩⟩
    · exact ⟨⟨hne, Or.inl rfl⟩, hes⟩
    · omega
    · exact ⟨⟨hne, Or.inr (Or.inr ⟨hl, rfl⟩)⟩, (htimer hl).1⟩

lemma Has.closeTimerfd (h : Has t i (ownAfter [] (opens x)) [] fds t')
    (hf : FreshOpens t (callsOf i (opens x))) (hl : x.ListensAt) (ht : x.timerfdCreate ≠ -1)
    (hno : ¬ (x.timerfdSettime (timerSpec w poll_period) ≠ -1 ∧ x.epollCtlTimer = -1)) :
    Closes w poll_period x fds .closeTimerfd := by
  have hnonneg := hl.2.1
  obtain ⟨hlisten, hbind⟩ := listenfd_nonneg hnonneg
  obtain ⟨hes, htimer⟩ := opens_distinct hf hl.1 (by omega)
  have hin : x.listenfd ∈ fds :=
    h.mem_given.mpr ⟨by omega, Or.inr (Or.inl ⟨hl.1, hlisten⟩)⟩
  have htin : x.timerfdCreate ∈ fds := h.mem_given.mpr ⟨ht, Or.inr (Or.inr ⟨hl, rfl⟩)⟩
  have hstill : x.listenfd ∈ own fds (.close x.timerfdCreate) :=
    mem_own.mpr (Or.inr ⟨hin, fun he => (htimer hl).1 ((Option.some.inj he).trans hlisten)⟩)
  refine ⟨onOwn_close htin (onOwn_close hstill trivial), fun fd => ?_⟩
  have htwo : fd ∉ closed (closes x .closeTimerfd) ↔
      fd ≠ x.timerfdCreate ∧ fd ≠ x.socket := by
    simp [closes, closed, Call.closed, hlisten]
  rw [mem_ownAfter_of_closes rfl, h.mem_given, leftOpen_iff, htwo]
  constructor
  · rintro ⟨⟨hne, he | ⟨-, he⟩ | ⟨-, he⟩⟩, hnt, hns⟩
    · exact ⟨hne, Or.inl he⟩
    · exact absurd he hns
    · exact absurd he hnt
  · rintro ⟨hne, rfl | ⟨⟨-, hb⟩, -⟩ | ⟨⟨-, hun⟩, -⟩⟩
    · exact ⟨⟨hne, Or.inl rfl⟩, (htimer hl).2 ht, hes⟩
    · omega
    · exact absurd hun hno

/-! ### The whole of it -/

/-- The calls of `loop` are on its own descriptors, and at its exit the descriptors it leaves open
are those it never closes. -/
lemma loop_spec (acts : List Act)
    (hf : FreshOpens t (callsOf i (loop w poll_period x acts).2)) :
    OnOwn devnullfd [] (loop w poll_period x acts).2 ∧ ((loop w poll_period x acts).1 = true →
      ∀ fd, fd ∈ ownAfter [] (loop w poll_period x acts).2 ↔ LeftOpen w poll_period x fd) := by
  have hopens : OnOwn devnullfd [] (opens x) := .of_opens (opens_calls x).1 (opens_calls x).2
  have hhas : FreshOpens t (callsOf i (opens x)) → Has t i (ownAfter [] (opens x)) []
      (ownAfter [] (opens x)) (t.after (callsOf i (opens x))) := fun hf =>
    ⟨hopens.owns (owns_nil t i) hf, List.nodup_nil, fun fd => by simp, fun c hc => by cases hc⟩
  have hlabel : ∀ label, setup w poll_period x.setupCalls = some label →
      FreshOpens t (callsOf i (opens x)) →
      Closes w poll_period x (ownAfter [] (opens x)) label := fun label hl hf => by
    rcases setup_cases w poll_period x with ⟨hset, hno⟩ | ⟨hset, hs, hsock, hno⟩ |
      ⟨hset | hset, hli, ht, hno⟩ <;> rw [hset] at hl <;> cases hl
    · exact (hhas hf).spliceLists hf hno
    · exact (hhas hf).closeSocket hf hs hsock hno
    · exact (hhas hf).closeTimerfd hf hli ht hno
  unfold loop at hf ⊢
  cases hset : setup w poll_period x.setupCalls with
  | some label =>
    rw [hset, callsOf_append, freshOpens_append] at hf
    obtain ⟨hown, hleft⟩ := hlabel label hset hf.1
    refine ⟨onOwn_append.mpr ⟨hopens, hown⟩, fun _ fd => ?_⟩
    rw [ownAfter_append]
    exact hleft fd
  | none =>
    have hcl : x.ListensAt ∧ x.timerfdCreate ≠ -1 ∧
        ¬ (x.timerfdSettime (timerSpec w poll_period) ≠ -1 ∧ x.epollCtlTimer = -1) := by
      rcases setup_cases w poll_period x with ⟨h, -⟩ | ⟨h, -⟩ | ⟨-, hrest⟩
      · cases hset.symm.trans h
      · cases hset.symm.trans h
      · exact hrest
    have hrun := fun hf₁ => (hhas hf₁).run acts
    rw [hset] at hf
    rcases hh : handle [] acts with ⟨_ | clients, calls⟩ <;> rw [hh] at hf hrun <;>
      simp only at hf hrun ⊢
    · rw [callsOf_append, freshOpens_append] at hf
      exact ⟨onOwn_append.mpr ⟨hopens, (hrun hf.1 hf.2).1⟩, fun he => by cases he⟩
    · rw [callsOf_append, callsOf_append, callsOf_append, freshOpens_append, freshOpens_append,
        freshOpens_append, after_append] at hf
      obtain ⟨⟨⟨hf₁, hf₂⟩, hf₃⟩, -⟩ := hf
      obtain ⟨hown₂, hnext⟩ := hrun hf₁ hf₂
      -- behind the loop every client is deleted, and the labels follow
      obtain ⟨hown₃, hend⟩ := (hnext clients rfl).run (clients.map .disconnect) hf₃
      have hcloses : Closes w poll_period x _ .closeTimerfd :=
        (hend [] (handle_disconnect clients)).closeTimerfd hf₁ hcl.1 hcl.2.1 hcl.2.2
      obtain ⟨hown₄, hleft⟩ := hcloses
      refine ⟨?_, fun _ fd => ?_⟩
      · simp only [onOwn_append, ownAfter_append]
        exact ⟨⟨⟨hopens, hown₂⟩, hown₃⟩, hown₄⟩
      · rw [ownAfter_append, ownAfter_append, ownAfter_append]
        exact hleft fd

/-- The socket is bound, and the timer is set and watched. -/
def listening : Returns where
  epollCreate1 := 12
  epollCtlSig := 0
  socket := 13
  bind := 0
  listen := 0
  epollCtlListen := 0
  timerfdCreate := 14
  timerfdSettime := fun _ => 0
  epollCtlTimer := 0

/-- A client connects and leaves; another one gets its descriptor, sends three bytes and is there
to the end. -/
def twoClients : List Act :=
  [.connect 15 0, .dispatch (bytes "DI") fun _ => .accepted 2, .disconnect 15, .connect 15 0,
    .data 15 3 (-1)]

lemma twoClients_exits : (loop .w64 50 listening twoClients).1 = true := by decide

lemma loop_opens (w : LongWidth) (poll_period : ℤ) (x : Returns) (acts : List Act) :
    ∃ cs, (loop w poll_period x acts).2 = opens x ++ cs := by
  unfold loop
  cases setup w poll_period x.setupCalls with
  | some label => exact ⟨_, rfl⟩
  | none =>
    rcases handle [] acts with ⟨_ | clients, calls⟩
    · exact ⟨_, rfl⟩
    · exact ⟨_, by simp only [List.append_assoc]; rfl⟩

lemma LeftOpen.nonneg {acts : List Act} {fd : ℤ} (h : LeftOpen w poll_period x fd)
    (hf : FreshOpens t (callsOf i (loop w poll_period x acts).2)) : 0 ≤ fd := by
  obtain ⟨cs, hcs⟩ := loop_opens w poll_period x acts
  rw [hcs, callsOf_append, freshOpens_append] at hf
  have hgiven : fd ∈ opened (opens x) := by
    obtain ⟨hne, he | ⟨⟨hs, -⟩, he⟩ | ⟨⟨hl, -⟩, he⟩⟩ := leftOpen_iff.mp h
    · exact mem_opened_opens.mpr ⟨hne, Or.inl he⟩
    · exact mem_opened_opens.mpr ⟨hne, Or.inr (Or.inl ⟨hs, he⟩)⟩
    · exact mem_opened_opens.mpr ⟨hne, Or.inr (Or.inr ⟨hl, he⟩)⟩
  exact ((hf.1.opened (opens_calls x).1).2 fd hgiven).1

lemma loop_owns {acts : List Act} (hf : FreshOpens t (callsOf i (loop w poll_period x acts).2))
    (hexit : (loop w poll_period x acts).1 = true) :
    Owns t i (ownAfter [] (loop w poll_period x acts).2)
      (t.after (callsOf i (loop w poll_period x acts).2)) ∧
    ∀ fd, fd ∈ ownAfter [] (loop w poll_period x acts).2 ↔ LeftOpen w poll_period x fd :=
  ⟨(loop_spec acts hf).1.owns (owns_nil t i) hf, (loop_spec acts hf).2 hexit⟩

end Gpiod.LoopLedger
