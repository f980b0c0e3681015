import Mathlib.Data.List.Nodup
import Gpiod.Numeral
import Gpiod.Pin

/-!
The broadcast of an event to the connected clients, as `dispatch` of `gpiod-dispatch.c` does
it.

A client is known by its file descriptor. The loop over the clients is left at the first
write that does not take the whole packet, so the clients behind it are not written to; what
each write comes to is the kernel's.
-/

namespace Gpiod.Broadcast

open Gpiod.Pin
open Gpiod.Numeral (numeral)

/-! ### The packet -/

/-- The value of an argument of type `unsigned int`. -/
def u32 (x : ℤ) : ℕ := (x % 0x100000000).toNat
/-- The value of a parameter of type `uint8_t`. -/
def u8 (x : ℤ) : ℕ := (x % 0x100).toNat

def startSymbol : UInt8 := 0x02

def startSymbols : Str := [startSymbol]
def stopSymbols : Str := [0x0d, 0x0a]

/-- `"%sDI;%u.%06u;%02u;%u%s"` between the start and the stop symbols. -/
def dispatchRawPack (ts : Timespec) (chan value : ℤ) : Str :=
  startSymbols ++ bytes "DI;" ++ numeral (u32 ts.tv_sec) ++ bytes "." ++
    (numeral (u32 ts.tv_nsec)).leftpad 6 0x30 ++ bytes ";" ++
    (numeral (u8 chan)).leftpad 2 0x30 ++ bytes ";" ++ numeral (u8 value) ++ stopSymbols

/-! ### The writes -/

/-- What a `write` to a client comes to: a number of bytes taken, or an `errno`. -/
inductive WriteOutcome
  | accepted (n : ℕ)
  | error (errno : ℕ)
  deriving DecidableEq, Repr

namespace WriteOutcome

/-- What `write` returns for a packet of this length. -/
def ret (len : ℕ) : WriteOutcome → ℤ
  | accepted n => min n len
  | error _ => -1

/-- The bytes the client gets. -/
def written (package : Str) : WriteOutcome → Str
  | accepted n => package.take n
  | error _ => []

end WriteOutcome

/-- A `write` of a packet to a client, and what it came to. -/
structure Write where
  fd : ℕ
  package : Str
  outcome : WriteOutcome
  deriving DecidableEq, Repr

/-- The loop over the clients: what `dispatch` returns, and the writes made. -/
def writeLoop (package : Str) (out : ℕ → WriteOutcome) : List ℕ → ℤ × List Write
  | [] => (0, [])
  | fd :: fds =>
    if (out fd).ret package.length ≠ package.length then (-1, [⟨fd, package, out fd⟩])
    else
      let r := writeLoop package out fds
      (r.1, ⟨fd, package, out fd⟩ :: r.2)

/-- The connected clients, in the order of the list; each has a descriptor of its own. -/
structure TcpClients where
  fds : List ℕ
  nodup : fds.Nodup

/-- A call of `dispatch`, with what a write to each client would come to. -/
structure Event where
  ts : Timespec
  chan : ℤ
  value : ℤ
  out : ℕ → WriteOutcome

def Event.package (e : Event) : Str := dispatchRawPack e.ts e.chan e.value

def dispatch (tcp_clients : TcpClients) (e : Event) : ℤ × List Write :=
  writeLoop e.package e.out tcp_clients.fds

/-- The writes of a sequence of events. -/
def broadcast (tcp_clients : TcpClients) (es : List Event) : List Write :=
  es.flatMap fun e => (dispatch tcp_clients e).2

/-! ### Isolation -/

def writesTo (fd : ℕ) (log : List Write) : List Write := log.filter fun w => w.fd = fd

def bytesTo (fd : ℕ) (log : List Write) : Str :=
  (writesTo fd log).flatMap fun w => w.outcome.written w.package

/-- The write of the whole packet of an event to a client. -/
def Event.offer (fd : ℕ) (e : Event) : Write := ⟨fd, e.package, e.out fd⟩

/-- Each client is sent the whole packet of every event, and gets what its own writes take of
the packets. -/
structure Isolated (tcp_clients : TcpClients) (es : List Event) : Prop where
  sent : ∀ fd ∈ tcp_clients.fds,
    writesTo fd (broadcast tcp_clients es) = es.map (Event.offer fd)
  own : ∀ fd ∈ tcp_clients.fds,
    bytesTo fd (broadcast tcp_clients es) = es.flatMap fun e => (e.out fd).written e.package

/-- The write of the event to the client takes the whole packet. -/
def Complete (e : Event) (fd : ℕ) : Prop := (e.out fd).ret e.package.length = e.package.length

instance (e : Event) (fd : ℕ) : Decidable (Complete e fd) := inferInstanceAs (Decidable (_ = _))

variable {package : Str} {out : ℕ → WriteOutcome}

lemma writeLoop_cut {fd : ℕ} {fds : List ℕ} (h : (out fd).ret package.length ≠ package.length) :
    writeLoop package out (fd :: fds) = (-1, [⟨fd, package, out fd⟩]) := by
  rw [writeLoop, if_pos h]

lemma writeLoop_whole {fd : ℕ} {fds : List ℕ}
    (h : (out fd).ret package.length = package.length) :
    writeLoop package out (fd :: fds) = ((writeLoop package out fds).1,
      ⟨fd, package, out fd⟩ :: (writeLoop package out fds).2) := by
  rw [writeLoop, if_neg (not_not.mpr h)]

lemma writeLoop_fds (fds : List ℕ) :
    (writeLoop package out fds).2.map (·.fd) <+: fds := by
  induction fds with
  | nil => exact List.prefix_refl _
  | cons fd fds ih =>
    by_cases h : (out fd).ret package.length = package.length
    · rw [writeLoop_whole h]
      exact (List.prefix_cons_inj fd).mpr ih
    · rw [writeLoop_cut h]
      exact List.prefix_append [fd] fds

lemma writeLoop_write {fds : List ℕ} {w : Write} (h : w ∈ (writeLoop package out fds).2) :
    w = ⟨w.fd, package, out w.fd⟩ := by
  induction fds with
  | nil => cases h
  | cons fd fds ih =>
    by_cases hr : (out fd).ret package.length = package.length
    · rw [writeLoop_whole hr] at h
      rcases List.mem_cons.mp h with rfl | h
      · rfl
      · exact ih h
    · rw [writeLoop_cut hr] at h
      rw [List.mem_singleton.mp h]

/-- **Who is written to**: everyone, exactly if every write but the last takes the whole
packet. -/
lemma writeLoop_all_iff (fds : List ℕ) :
    (writeLoop package out fds).2.map (·.fd) = fds ↔
      ∀ fd ∈ fds.dropLast, (out fd).ret package.length = package.length := by
  induction fds with
  | nil => simp [writeLoop]
  | cons fd fds ih =>
    cases fds with
    | nil =>
      -- the last client is written to whatever comes of it
      by_cases h : (out fd).ret package.length = package.length
      · rw [writeLoop_whole h]
        simp [writeLoop]
      · simp [writeLoop_cut h]
    | cons fd' fds =>
      rw [List.dropLast_cons_cons, List.forall_mem_cons, ← ih]
      by_cases h : (out fd).ret package.length = package.length
      · simp [writeLoop_whole h, h]
      · simp [writeLoop_cut h, h]

/-- What a call of `dispatch` writes to a client: its offer, or nothing. -/
lemma writesTo_dispatch (tcp_clients : TcpClients) (e : Event) (fd : ℕ) :
    writesTo fd (dispatch tcp_clients e).2 =
      if fd ∈ (dispatch tcp_clients e).2.map (·.fd) then [e.offer fd] else [] := by
  have hnodup : ((dispatch tcp_clients e).2.map (·.fd)).Nodup :=
    tcp_clients.nodup.sublist (writeLoop_fds _).sublist
  have hwrite : ∀ w ∈ (dispatch tcp_clients e).2, w = e.offer w.fd := fun w hw =>
    writeLoop_write hw
  generalize (dispatch tcp_clients e).2 = log at hnodup hwrite
  induction log with
  | nil => rfl
  | cons w log ih =>
    rw [List.map_cons, List.nodup_cons] at hnodup
    have ih := ih hnodup.2 fun w hw => hwrite w (List.mem_cons_of_mem _ hw)
    unfold writesTo at ih ⊢
    by_cases h : w.fd = fd
    · have hw := hwrite w (by simp)
      rw [h] at hnodup hw
      rw [if_neg hnodup.1] at ih
      rw [List.filter_cons_of_pos (by simpa using h), ih, if_pos (by simp [h]), hw]
    · rw [List.filter_cons_of_neg (by simpa using h), ih]
      simp [Ne.symm h]

lemma flatMap_eq_map_iff {α β : Type*} {g : α → List β} {f : α → β}
    (h : ∀ a, g a = [] ∨ g a = [f a]) (l : List α) :
    l.flatMap g = l.map f ↔ ∀ a ∈ l, g a = [f a] := by
  have hle : ∀ l : List α, (l.flatMap g).length ≤ l.length := by
    intro l
    induction l with
    | nil => simp
    | cons a l ih =>
      have : (g a).length ≤ 1 := by rcases h a with h | h <;> simp [h]
      simp only [List.flatMap_cons, List.length_append, List.length_cons]
      omega
  induction l with
  | nil => simp
  | cons a l ih =>
    rw [List.flatMap_cons, List.map_cons, List.forall_mem_cons]
    rcases h a with ha | ha
    · -- an empty piece leaves too few
      constructor
      · intro he
        have := congrArg List.length he
        have := hle l
        simp only [ha, List.nil_append, List.length_cons, List.length_map] at *
        omega
      · rintro ⟨he, -⟩
        rw [ha] at he
        cases he
    · simpa [ha] using ih

lemma writesTo_broadcast (tcp_clients : TcpClients) (es : List Event) (fd : ℕ) :
    writesTo fd (broadcast tcp_clients es) =
      es.flatMap fun e => writesTo fd (dispatch tcp_clients e).2 := by
  unfold writesTo broadcast
  rw [List.filter_flatMap]

/-- **When clients are isolated**: exactly if at every event each write but that to the last
client of the list takes the whole packet. -/
theorem isolated_iff (tcp_clients : TcpClients) (es : List Event) :
    Isolated tcp_clients es ↔ ∀ e ∈ es, ∀ fd ∈ tcp_clients.fds.dropLast, Complete e fd := by
  have hsent : (∀ fd ∈ tcp_clients.fds,
      writesTo fd (broadcast tcp_clients es) = es.map (Event.offer fd)) ↔
        ∀ e ∈ es, ∀ fd ∈ tcp_clients.fds, fd ∈ (dispatch tcp_clients e).2.map (·.fd) := by
    have hone : ∀ fd e, writesTo fd (dispatch tcp_clients e).2 = [] ∨
        writesTo fd (dispatch tcp_clients e).2 = [e.offer fd] := by
      intro fd e
      rw [writesTo_dispatch]
      split
      · exact Or.inr rfl
      · exact Or.inl rfl
    simp only [writesTo_broadcast, flatMap_eq_map_iff (hone _)]
    constructor
    · intro h e he fd hfd
      have := h fd hfd e he
      rw [writesTo_dispatch] at this
      by_contra hc
      rw [if_neg hc] at this
      cases this
    · intro h fd hfd e he
      rw [writesTo_dispatch, if_pos (h e he fd hfd)]
  have hall : ∀ e, (∀ fd ∈ tcp_clients.fds, fd ∈ (dispatch tcp_clients e).2.map (·.fd)) ↔
      ∀ fd ∈ tcp_clients.fds.dropLast, Complete e fd := by
    intro e
    refine Iff.trans ⟨fun h => ?_, fun h => ?_⟩ (writeLoop_all_iff tcp_clients.fds)
    · refine (writeLoop_fds tcp_clients.fds).eq_of_length_le ?_
      exact List.Nodup.length_le_of_subset tcp_clients.nodup h
    · intro fd hfd
      rw [dispatch, h]
      exact hfd
  rw [← forall₂_congr fun e _ => hall e, ← hsent]
  constructor
  · intro h
    exact h.sent
  · intro h
    refine ⟨h, fun fd hfd => ?_⟩
    rw [bytesTo, h fd hfd, List.flatMap_map]
    rfl

/-- A client that has gone away keeps the one behind it from being written to. -/
theorem gone_client_cuts_off :
    ¬ Isolated ⟨[4, 5], by decide⟩ [⟨⟨1, 0⟩, 0, 1, fun fd =>
      if fd = 4 then .error 32 else .accepted 256⟩] := by
  intro h
  have := h.sent 5 (by decide)
  revert this
  decide

end Gpiod.Broadcast
