import Gpiod.Machine
import Gpiod.Resync
import Gpiod.Stream

/-!
What clients that come and go read of the packets they are sent, whatever their writes come to.

A packet that a write did not take as a whole stays cut off in the stream of its client. A client
that begins anew at every start symbol reads the packets that it got as a whole, and no others.
-/

namespace Gpiod.Sessions

open Gpiod.Pin Gpiod.Broadcast Gpiod.Stream Gpiod.Frames Gpiod.Resync Gpiod.Machine

/-! ### Clients -/

/-- A client is accepted, a client is deleted, or `dispatch` is called. -/
inductive Act
  | connect (fd : ℕ)
  | disconnect (fd : ℕ)
  | event (e : Event)

/-- `list_add_tail` in the LISTEN_PORT branch; the descriptor is a new one. -/
def connect (c : TcpClients) (fd : ℕ) : TcpClients :=
  if h : fd ∈ c.fds then c
  else ⟨c.fds ++ [fd], List.nodup_append.mpr ⟨c.nodup, List.nodup_singleton fd, by
    rintro a ha b hb rfl
    exact h (List.mem_singleton.mp hb ▸ ha)⟩⟩

/-- `list_del` in `delete_tcp_client`. -/
def disconnect (c : TcpClients) (fd : ℕ) : TcpClients := ⟨c.fds.erase fd, c.nodup.erase fd⟩

/-- The clients after an action, and the writes made. -/
def step (c : TcpClients) : Act → TcpClients × List Write
  | .connect fd => (connect c fd, [])
  | .disconnect fd => (disconnect c fd, [])
  | .event e => (c, (dispatch c e).2)

def noClients : TcpClients := ⟨[], List.nodup_nil⟩

def log (acts : List Act) : List Write := outputs step noClients acts

/-! ### Reading -/

/-- The fields of the packets that a client reads. -/
def received (s : Str) : List (ℕ × ℕ × ℕ × ℕ) :=
  (resync startSymbol stopSymbols s).filterMap decodeBody

/-- The numbers that are printed for an event. -/
def fields (e : Event) : ℕ × ℕ × ℕ × ℕ :=
  (u32 e.ts.tv_sec, u32 e.ts.tv_nsec, u8 e.chan, u8 e.value)

def body (e : Event) : Str :=
  packetBody (u32 e.ts.tv_sec) (u32 e.ts.tv_nsec) (u8 e.chan) (u8 e.value)

/-- The packet comes to the client as a whole: its write takes it, and so does that of every
client in front of it. -/
def Reaches (c : TcpClients) (e : Event) (fd : ℕ) : Prop :=
  fd ∈ c.fds ∧ (∀ fd' ∈ c.fds.takeWhile (· ≠ fd), Complete e fd') ∧ Complete e fd

instance (c : TcpClients) (e : Event) (fd : ℕ) : Decidable (Reaches c e fd) :=
  inferInstanceAs (Decidable (_ ∧ _ ∧ _))

/-- The calls of `dispatch` in a run, with the clients connected at each. -/
def call? (v : TcpClients × Act) : Option (TcpClients × Event) :=
  match v.2 with
  | .event e => some (v.1, e)
  | _ => none

def calls (c : TcpClients) (acts : List Act) : List (TcpClients × Event) :=
  (visits (fun c a => (step c a).1) c acts).filterMap call?

/-- The fields of the events whose packets come to the client as a whole, in order. -/
def heard (fd : ℕ) (cs : List (TcpClients × Event)) : List (ℕ × ℕ × ℕ × ℕ) :=
  (cs.filter fun v => Reaches v.1 v.2 fd).map fun v => fields v.2

/-! ### One event -/

lemma package_eq (e : Event) : e.package = frame [startSymbol] stopSymbols (body e) :=
  dispatchRawPack_eq e.ts e.chan e.value

lemma start_not_mem (sec nsec chan value : ℕ) : startSymbol ∉ packetBody sec nsec chan value := by
  have hdigits : ∀ {l : Str}, (∀ c ∈ l, Numeral.isDigit c = true) → startSymbol ∉ l :=
    fun h hc => absurd (h _ hc) (by decide)
  have htag : startSymbol ∉ bytes "DI" := by decide
  simp only [packetBody, List.mem_append, List.mem_singleton, not_or]
  exact ⟨htag, by decide, hdigits (Numeral.numeral_digits sec), by decide,
    hdigits (Numeral.leftpad_digits nsec 6), by decide, hdigits (Numeral.leftpad_digits chan 2),
    by decide, hdigits (Numeral.numeral_digits value)⟩

lemma body_marked (e : Event) : Marked startSymbol 0x0d [0x0a] (body e) :=
  ⟨start_not_mem _ _ _ _, by decide, packetBody_clear _ _ _ _⟩

lemma mem_writeLoop {package : Str} {out : ℕ → WriteOutcome} {fd : ℕ} (fds : List ℕ) :
    fd ∈ (writeLoop package out fds).2.map (·.fd) ↔ fd ∈ fds ∧
      ∀ fd' ∈ fds.takeWhile (· ≠ fd), (out fd').ret package.length = package.length := by
  induction fds with
  | nil => simp [writeLoop]
  | cons fd₁ fds ih =>
    by_cases heq : fd₁ = fd
    · -- the first client is written to
      have hfirst : fd ∈ (writeLoop package out (fd₁ :: fds)).2.map (·.fd) := by
        rw [writeLoop]
        split <;> simp [heq]
      exact iff_of_true hfirst ⟨by simp [heq], by simp [heq]⟩
    · have hne : fd ≠ fd₁ := Ne.symm heq
      rw [List.takeWhile_cons_of_pos (by simpa using heq), List.forall_mem_cons, List.mem_cons]
      by_cases hw : (out fd₁).ret package.length = package.length
      · rw [writeLoop_whole hw, List.map_cons, List.mem_cons, ih]
        simp only [hne, false_or, hw, true_and]
      · rw [writeLoop_cut hw]
        simp [hne, hw]

lemma written_eq_iff (e : Event) (fd : ℕ) :
    (e.out fd).written e.package = e.package ↔ Complete e fd := by
  refine ⟨fun h => ?_, written_of_complete⟩
  unfold Complete
  cases ho : e.out fd with
  | accepted n =>
    rw [ho, WriteOutcome.written] at h
    have hlen := congrArg List.length h
    rw [List.length_take] at hlen
    rw [WriteOutcome.ret]
    omega
  | error errno =>
    rw [ho, WriteOutcome.written, package_eq] at h
    cases h

/-- **What a client gets of an event** is a beginning of the packet; the whole of it where the
packet reaches the client. -/
lemma bytesTo_dispatch (c : TcpClients) (e : Event) (fd : ℕ) :
    bytesTo fd (dispatch c e).2 <+: e.package ∧
      (bytesTo fd (dispatch c e).2 = e.package ↔ Reaches c e fd) := by
  have hmem : fd ∈ (dispatch c e).2.map (·.fd) ↔ fd ∈ c.fds ∧
      ∀ fd' ∈ c.fds.takeWhile (· ≠ fd), Complete e fd' := mem_writeLoop c.fds
  rw [bytesTo, writesTo_dispatch]
  split
  · next hin =>
    have hoffer : [e.offer fd].flatMap (fun w => w.outcome.written w.package) =
        (e.out fd).written e.package := List.flatMap_singleton _ _
    rw [hoffer, written_eq_iff, Reaches, ← and_assoc, ← hmem]
    refine ⟨?_, (and_iff_right hin).symm⟩
    cases e.out fd with
    | accepted n => exact List.take_prefix n _
    | error errno => exact List.nil_prefix
  · next hout =>
    refine ⟨List.nil_prefix, ?_, fun h => absurd (hmem.mpr ⟨h.1, h.2.1⟩) hout⟩
    intro h
    rw [package_eq] at h
    cases h

/-! ### Calls -/

/-- The writes of calls of `dispatch`. -/
def writes (cs : List (TcpClients × Event)) : List Write :=
  cs.flatMap fun v => (dispatch v.1 v.2).2

/-- What a client gets of a call, as a piece of a frame. -/
def piece (fd : ℕ) (v : TcpClients × Event) : Piece UInt8 :=
  ⟨body v.2, bytesTo fd (dispatch v.1 v.2).2⟩

lemma bytesTo_append (fd : ℕ) (l l' : List Write) :
    bytesTo fd (l ++ l') = bytesTo fd l ++ bytesTo fd l' := by
  simp only [bytesTo, writesTo, List.filter_append, List.flatMap_append]

lemma bytesTo_writes (fd : ℕ) (cs : List (TcpClients × Event)) :
    bytesTo fd (writes cs) = (cs.map (piece fd)).flatMap Piece.text := by
  induction cs with
  | nil => rfl
  | cons v cs ih =>
    have hsplit : writes (v :: cs) = (dispatch v.1 v.2).2 ++ writes cs := List.flatMap_cons
    rw [hsplit, bytesTo_append, ih, List.map_cons, List.flatMap_cons]
    rfl

lemma piece_whole (fd : ℕ) (v : TcpClients × Event) :
    (piece fd v).whole startSymbol stopSymbols = decide (Reaches v.1 v.2 fd) := by
  rw [Piece.whole, Bool.eq_iff_iff, beq_iff_eq, decide_eq_true_iff,
    ← (bytesTo_dispatch v.1 v.2 fd).2, package_eq]
  rfl

/-- **What a client reads of calls**: the events whose packets came to it as a whole. -/
lemma received_writes (fd : ℕ) (cs : List (TcpClients × Event)) :
    received (bytesTo fd (writes cs)) = heard fd cs := by
  have hmarked : ∀ p ∈ cs.map (piece fd), Marked startSymbol 0x0d [0x0a] p.body := by
    intro p hp
    obtain ⟨v, -, rfl⟩ := List.mem_map.mp hp
    exact body_marked v.2
  have hprefix : ∀ p ∈ cs.map (piece fd), p.text <+: frame [startSymbol] [0x0d, 0x0a] p.body := by
    intro p hp
    obtain ⟨v, -, rfl⟩ := List.mem_map.mp hp
    exact package_eq v.2 ▸ (bytesTo_dispatch v.1 v.2 fd).1
  have hdecode : ∀ v : TcpClients × Event, decodeBody (body v.2) = some (fields v.2) :=
    fun v => decodeBody_packetBody _ _ _ _
  rw [received, bytesTo_writes, stopSymbols, resync_pieces hmarked hprefix, List.filter_map,
    List.map_map, List.filterMap_map, heard]
  have hkept : (Piece.whole startSymbol [0x0d, 0x0a] ∘ piece fd) =
      fun v => decide (Reaches v.1 v.2 fd) := funext (piece_whole fd)
  have hread : (decodeBody ∘ Piece.body ∘ piece fd) = fun v => some (fields v.2) :=
    funext hdecode
  rw [hkept, hread, List.filterMap_eq_map']

/-! ### Runs -/

lemma outputs_eq (c : TcpClients) (acts : List Act) :
    outputs step c acts = writes (calls c acts) := by
  induction acts generalizing c with
  | nil => rfl
  | cons a acts ih =>
    rw [outputs_cons, ih]
    cases a with
    | event e =>
      have hcall : calls c (.event e :: acts) = (c, e) :: calls c acts := rfl
      have hwrites : writes ((c, e) :: calls c acts) = (dispatch c e).2 ++ writes (calls c acts) :=
        List.flatMap_cons
      rw [hcall, hwrites]
      rfl
    | _ => rfl

/-- **What a client reads.** In every run of connects, disconnects and events, whatever the writes
come to, a client that begins anew at every start symbol reads the fields of exactly the events
whose packets its own write and those of all clients in front of it took as a whole, in order. -/
theorem received_eq (acts : List Act) (fd : ℕ) :
    received (bytesTo fd (log acts)) = heard fd (calls noClients acts) := by
  rw [log, outputs_eq]
  exact received_writes fd _

end Gpiod.Sessions
