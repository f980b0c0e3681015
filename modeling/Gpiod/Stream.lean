import Gpiod.Broadcast
import Gpiod.Frames
import Gpiod.Numeral

/-!
The stream of packets a client is sent, and its decoding.

The fields of a packet are numerals, so no digit of theirs is a separator or begins the stop
symbols. The stream splits at the start and stop symbols into its packets, each packet at its
separators into its fields, and a field reads back as the number it was written for.
-/

namespace Gpiod.Stream

open Gpiod.Pin Gpiod.Broadcast Gpiod.Numeral Gpiod.Frames

/-- `snprintf` of a text into a buffer: what it returns, and the bytes it stores in front of the
NUL. -/
def snprintf (size : ℕ) (text : Str) : ℕ × Str := (text.length, text.take (size - 1))

/-- The buffer of `dispatch_raw_pack`. -/
def bufferSize : ℕ := 256

/-- What is packed for an event. -/
structure Reading where
  tv_sec : ℕ
  tv_nsec : ℕ
  chan : ℕ
  value : ℕ
  sec_lt : tv_sec < 4294967296
  nsec_lt : tv_nsec < 1000000000
  chan_lt : chan < 256
  value_lt : value < 256

namespace Reading

/-- What `dispatch_raw_pack` returns for the event, and the packet it leaves in the buffer. -/
def pack (e : Reading) : ℕ × Str :=
  snprintf bufferSize (dispatchRawPack ⟨e.tv_sec, e.tv_nsec⟩ e.chan e.value)

def packet (e : Reading) : Str := e.pack.2

def fields (e : Reading) : ℕ × ℕ × ℕ × ℕ := (e.tv_sec, e.tv_nsec, e.chan, e.value)

/-- The text of a packet between the start and the stop symbols. -/
def body (e : Reading) : Str :=
  bytes "DI" ++ ([0x3b] ++ (numeral e.tv_sec ++ ([0x2e] ++ ((numeral e.tv_nsec).leftpad 6 0x30 ++
    ([0x3b] ++ ((numeral e.chan).leftpad 2 0x30 ++ ([0x3b] ++ numeral e.value)))))))

lemma fields_injective : Function.Injective fields := by
  rintro ⟨s, n, c, v, _, _, _, _⟩ ⟨s', n', c', v', _, _, _, _⟩ h
  cases h
  rfl

end Reading

/-- The packets of a sequence of events, one after the other. -/
def stream (es : List Reading) : Str := es.flatMap Reading.packet

/-! ### Decoding -/

/-- The fields of the text between the start and the stop symbols, read as decimal integers. -/
def decodeBody (s : Str) : Option (ℕ × ℕ × ℕ × ℕ) := do
  let (tag, s) ← cut [0x3b] s
  let (sec, s) ← cut [0x2e] s
  let (nsec, s) ← cut [0x3b] s
  let (chan, value) ← cut [0x3b] s
  if tag = bytes "DI" then
    return (← readNumeral sec, ← readNumeral nsec, ← readNumeral chan, ← readNumeral value)
  else none

def decode (s : Str) : Option (List (ℕ × ℕ × ℕ × ℕ)) :=
  (unframe startSymbols stopSymbols s.length s).bind fun bodies => bodies.mapM decodeBody

/-- Each packet fits the buffer, and the stream splits into the packets and decodes to the
fields of the events. -/
structure Decodes (es : List Reading) : Prop where
  fits : ∀ e ∈ es, e.pack.1 = e.packet.length ∧ e.packet.length < bufferSize
  split : split startSymbols stopSymbols (stream es) = some (es.map Reading.packet)
  decode : decode (stream es) = some (es.map Reading.fields)

/-! ### One packet -/

lemma u32_natCast {n : ℕ} (h : n < 4294967296) : u32 n = n := by
  unfold u32; omega

lemma u8_natCast {n : ℕ} (h : n < 256) : u8 n = n := by
  unfold u8; omega

lemma u32_lt (x : ℤ) : u32 x < 4294967296 := by
  unfold u32; omega

lemma u8_lt (x : ℤ) : u8 x < 256 := by
  unfold u8; omega

/-- The text between the start and the stop symbols, of the numbers that are printed. -/
def packetBody (sec nsec chan value : ℕ) : Str :=
  bytes "DI" ++ ([0x3b] ++ (numeral sec ++ ([0x2e] ++ ((numeral nsec).leftpad 6 0x30 ++
    ([0x3b] ++ ((numeral chan).leftpad 2 0x30 ++ ([0x3b] ++ numeral value)))))))

/-- What `dispatch_raw_pack` leaves in the buffer. -/
def rawPacket (ts : Timespec) (chan value : ℤ) : Str :=
  (snprintf bufferSize (dispatchRawPack ts chan value)).2

/-- **The text of a packet**, between the start and the stop symbols. -/
lemma dispatchRawPack_eq (ts : Timespec) (chan value : ℤ) :
    dispatchRawPack ts chan value = frame startSymbols stopSymbols
      (packetBody (u32 ts.tv_sec) (u32 ts.tv_nsec) (u8 chan) (u8 value)) := by
  simp only [dispatchRawPack, frame, packetBody, startSymbols, stopSymbols, List.append_assoc]
  rfl

lemma not_mem_of_digits {l : Str} (h : ∀ c ∈ l, isDigit c = true) :
    (0x3b : UInt8) ∉ l ∧ (0x2e : UInt8) ∉ l ∧ (0x0d : UInt8) ∉ l :=
  ⟨fun hc => absurd (h _ hc) (by decide), fun hc => absurd (h _ hc) (by decide),
    fun hc => absurd (h _ hc) (by decide)⟩

lemma packetBody_clear (sec nsec chan value : ℕ) :
    (0x0d : UInt8) ∉ packetBody sec nsec chan value := by
  have hsec := (not_mem_of_digits (numeral_digits sec)).2.2
  have hnsec := (not_mem_of_digits (leftpad_digits nsec 6)).2.2
  have hchan := (not_mem_of_digits (leftpad_digits chan 2)).2.2
  have hvalue := (not_mem_of_digits (numeral_digits value)).2.2
  have htag : (0x0d : UInt8) ∉ bytes "DI" := by decide
  simp only [packetBody, List.mem_append, List.mem_singleton, not_or]
  exact ⟨htag, by decide, hsec, by decide, hnsec, by decide, hchan, by decide, hvalue⟩

lemma packetBody_length {sec nsec chan value : ℕ} (hsec : sec < 4294967296)
    (hnsec : nsec < 4294967296) (hchan : chan < 256) (hvalue : value < 256) :
    (packetBody sec nsec chan value).length ≤ 32 := by
  have hsec := length_numeral_le (n := sec) (k := 10) (by omega) (by omega)
  have hnsec := length_numeral_le (n := nsec) (k := 10) (by omega) (by omega)
  have hchan := length_numeral_le (n := chan) (k := 3) (by omega) (by omega)
  have hvalue := length_numeral_le (n := value) (k := 3) (by omega) (by omega)
  have htag : (bytes "DI").length = 2 := by decide
  simp only [packetBody, List.length_append, List.length_singleton, List.length_leftpad, htag]
  omega

/-- **Each packet fits.** -/
lemma dispatchRawPack_length (ts : Timespec) (chan value : ℤ) :
    (dispatchRawPack ts chan value).length < bufferSize := by
  have hlen := packetBody_length (u32_lt ts.tv_sec) (u32_lt ts.tv_nsec) (u8_lt chan) (u8_lt value)
  rw [dispatchRawPack_eq]
  simp only [frame, List.length_append, startSymbols, stopSymbols, bufferSize, List.length_cons,
    List.length_nil]
  omega

lemma rawPacket_eq (ts : Timespec) (chan value : ℤ) :
    rawPacket ts chan value = dispatchRawPack ts chan value :=
  List.take_of_length_le (Nat.le_sub_one_of_lt (dispatchRawPack_length ts chan value))

/-- **The fields of a packet** are read back. -/
lemma decodeBody_packetBody (sec nsec chan value : ℕ) :
    decodeBody (packetBody sec nsec chan value) = some (sec, nsec, chan, value) := by
  have hsec := (not_mem_of_digits (numeral_digits sec)).2.1
  have hnsec := (not_mem_of_digits (leftpad_digits nsec 6)).1
  have hchan := (not_mem_of_digits (leftpad_digits chan 2)).1
  have htag : (0x3b : UInt8) ∉ bytes "DI" := by decide
  unfold decodeBody packetBody
  rw [cut_append htag]
  simp only [bind, Option.bind, cut_append hsec, cut_append hnsec, cut_append hchan,
    readNumeral_numeral, readNumeral_leftpad, ↓reduceIte]
  rfl

lemma packet_eq (e : Reading) : e.packet = frame startSymbols stopSymbols e.body := by
  have hsec := u32_natCast e.sec_lt
  have hnsec := u32_natCast (n := e.tv_nsec) (by have := e.nsec_lt; omega)
  have hraw : e.packet = rawPacket ⟨e.tv_sec, e.tv_nsec⟩ e.chan e.value := rfl
  rw [hraw, rawPacket_eq, dispatchRawPack_eq]
  simp only [hsec, hnsec, u8_natCast e.chan_lt, u8_natCast e.value_lt]
  rfl

lemma packet_fits (e : Reading) :
    e.pack.1 = e.packet.length ∧ e.packet.length < bufferSize := by
  have hlen := dispatchRawPack_length ⟨e.tv_sec, e.tv_nsec⟩ e.chan e.value
  have hraw : e.packet = dispatchRawPack ⟨e.tv_sec, e.tv_nsec⟩ e.chan e.value :=
    rawPacket_eq _ _ _
  rw [hraw]
  exact ⟨rfl, hlen⟩

lemma decode_rawPacket (ts : Timespec) (chan value : ℤ) : decode (rawPacket ts chan value) =
    some [(u32 ts.tv_sec, u32 ts.tv_nsec, u8 chan, u8 value)] := by
  set body := packetBody (u32 ts.tv_sec) (u32 ts.tv_nsec) (u8 chan) (u8 value) with hbody
  have hclear : Clear (0x0d : UInt8) [body] :=
    List.forall_mem_singleton.mpr (packetBody_clear _ _ _ _)
  have hpacket : rawPacket ts chan value = frames startSymbols stopSymbols [body] := by
    rw [rawPacket_eq, dispatchRawPack_eq, frames_cons, frames_nil, List.append_nil]
  unfold Stream.decode
  rw [hpacket, stopSymbols, unframe_frames (by decide) hclear (Nat.le_refl _), Option.bind_some,
    List.mapM_cons, hbody, decodeBody_packetBody]
  rfl

/-! ### The stream -/

lemma stream_eq (es : List Reading) :
    stream es = frames startSymbols stopSymbols (es.map Reading.body) := by
  unfold stream frames
  rw [List.flatMap_map]
  exact List.flatMap_congr fun e _ => packet_eq e

lemma bodies_clear (es : List Reading) : Clear (0x0d : UInt8) (es.map Reading.body) := by
  intro b hb
  obtain ⟨e, -, rfl⟩ := List.mem_map.mp hb
  exact packetBody_clear e.tv_sec e.tv_nsec e.chan e.value

lemma mapM_decodeBody (es : List Reading) :
    (es.map Reading.body).mapM decodeBody = some (es.map Reading.fields) := by
  induction es with
  | nil => rfl
  | cons e es ih =>
    have he : decodeBody e.body = some e.fields :=
      decodeBody_packetBody e.tv_sec e.tv_nsec e.chan e.value
    simp [he, ih]

lemma stream_decodes (es : List Reading) : Decodes es where
  fits e _ := packet_fits e
  split := by
    rw [stream_eq, stopSymbols, split_frames (by decide) (bodies_clear es), List.map_map]
    exact congrArg some (List.map_congr_left fun e _ => (packet_eq e).symm)
  decode := by
    unfold Stream.decode
    rw [stream_eq, stopSymbols, unframe_frames (by decide) (bodies_clear es) (Nat.le_refl _)]
    exact mapM_decodeBody es

/-- **The client stream decodes**: every packet fits, the stream splits and decodes to the
fields of the events, and different sequences of events give different streams. -/
theorem stream_unique : (∀ es : List Reading, Decodes es) ∧ Function.Injective stream := by
  refine ⟨stream_decodes, fun es es' h => ?_⟩
  have hfields : some (es.map Reading.fields) = some (es'.map Reading.fields) := by
    rw [← (stream_decodes es).decode, ← (stream_decodes es').decode, h]
  exact List.map_injective_iff.mpr Reading.fields_injective (Option.some.inj hfields)

example : stream [⟨5, 42, 3, 1, by omega, by omega, by omega, by omega⟩] =
    0x02 :: bytes "DI;5.000042;03;1" ++ [0x0d, 0x0a] := by decide

/-! ### What a client gets -/

/-- The call of `dispatch` for an event, with what its writes come to. -/
def Reading.call (e : Reading) (out : ℕ → WriteOutcome) : Event :=
  ⟨⟨e.tv_sec, e.tv_nsec⟩, e.chan, e.value, out⟩

lemma package_call (e : Reading) (out : ℕ → WriteOutcome) : (e.call out).package = e.packet := by
  exact (rawPacket_eq _ _ _).symm

lemma written_of_complete {e : Event} {fd : ℕ} (h : Complete e fd) :
    (e.out fd).written e.package = e.package := by
  unfold Complete at h
  cases ho : e.out fd with
  | accepted n =>
    rw [ho, WriteOutcome.ret] at h
    exact List.take_of_length_le (by omega)
  | error errno =>
    rw [ho, WriteOutcome.ret] at h
    omega

/-- A client gets the stream where every write takes the whole packet. -/
theorem bytesTo_broadcast (tcp_clients : TcpClients) {fd : ℕ} (hfd : fd ∈ tcp_clients.fds)
    {es : List (Reading × (ℕ → WriteOutcome))}
    (h : ∀ e ∈ es, ∀ fd ∈ tcp_clients.fds, Complete (e.1.call e.2) fd) :
    bytesTo fd (broadcast tcp_clients (es.map fun e => e.1.call e.2)) =
      stream (es.map Prod.fst) := by
  unfold bytesTo stream
  rw [writesTo_broadcast, List.flatMap_assoc, List.flatMap_map, List.flatMap_map]
  refine List.flatMap_congr fun e he => ?_
  have hall : (dispatch tcp_clients (e.1.call e.2)).2.map (·.fd) = tcp_clients.fds :=
    (writeLoop_all_iff _).mpr fun fd hfd => h e he fd (List.dropLast_subset _ hfd)
  rw [writesTo_dispatch, hall, if_pos hfd, List.flatMap_singleton]
  exact (written_of_complete (h e he fd hfd)).trans (package_call e.1 e.2)

end Gpiod.Stream
