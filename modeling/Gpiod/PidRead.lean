import Mathlib.Data.List.TakeWhile
import Gpiod.CLong
import Gpiod.PidFile

/-!
What `read_pid_file` makes of a file, with `long` of 32 or 64 bits.

The first fifteen bytes are read, `strtol` takes the number at their start and leaves the rest
alone, the result is narrowed to a `pid_t`, and `errno` is looked at without having been
cleared. So a file is read right if it holds one short decimal number, and if not, only where the
number at its start comes to no positive `pid_t`.
-/

namespace Gpiod.PidRead

open Gpiod.Pin Gpiod.Numeral Gpiod.CLong Gpiod.PidFile

def erange : ℤ := 34

/-- `strtol(buffer, NULL, 10)` and `errno` behind it, which a conversion in range leaves as it
was. -/
def strtolErrno (w : LongWidth) (errno : ℤ) (buffer : Str) : ℤ × ℤ :=
  if (w.half : ℤ) ≤ strtol buffer then (w.half - 1, erange)
  else if strtol buffer < -(w.half : ℤ) then (-(w.half : ℤ), erange)
  else (strtol buffer, errno)

/-- Conversion to `pid_t`. -/
def toPid (x : ℤ) : ℤ := x.bmod (2 ^ 32)

/-- `read_pid_file` on the contents of the file; `errno` is the value on entry, which the calls
that succeed leave alone. -/
def readPidFile (w : LongWidth) (errno : ℤ) (text : Str) : ℤ :=
  let buffer := text.take bufferLength
  if buffer = [] then -1
  else
    let (v, errno) := strtolErrno w errno buffer
    if toPid v = 0 ∨ errno = erange then -1 else toPid v

inductive Signal
  | zero | term | hup
  deriving DecidableEq, Repr

/-- The signals `main` sends; `exists_` is what `kill(pid, 0)` tells. -/
def mainSignals (pid : ℤ) (exists_ kill_flag hup_flag : Bool) : List (ℤ × Signal) :=
  if pid > 0 then
    (pid, .zero) ::
      if !exists_ then []
      else if kill_flag then [(pid, .term)]
      else if hup_flag then [(pid, .hup)]
      else []
  else []

/-- A pid that a process can have. -/
abbrev Pid := { pid : ℕ // 0 < pid ∧ pid < 2 ^ 31 }

/-- The text is a decimal number, with or without a newline behind it. -/
def PlainNumber (text : Str) (n : ℕ) : Prop :=
  ∃ ds, readNumeral ds = some n ∧ (text = ds ∨ text = ds ++ [0x0a])

/-- The file is read as the number it contains or rejected, and a written pid is read back. -/
structure ReadRight (w : LongWidth) (errno : ℤ) (text : Str) : Prop where
  named : 0 < readPidFile w errno text → PlainNumber text (readPidFile w errno text).toNat
  signals : ∀ exists_ kill_flag hup_flag,
    ∀ s ∈ mainSignals (readPidFile w errno text) exists_ kill_flag hup_flag,
      ∃ n : ℕ, PlainNumber text n ∧ s.1 = n
  written : ∀ pid : Pid, readPidFile w errno (pidText pid) = (pid : ℕ)

/-- The number at the start of the text, as far as it stands in the buffer; 0 where none is. -/
def leading (text : Str) : ℤ := strtol (text.take bufferLength)

/-- A number that comes to a positive `pid_t`: with 64 bits some that do not fit into it do. -/
def Positive : LongWidth → ℤ → Prop
  | .w32, n => 0 < n ∧ n < 2 ^ 31
  | .w64, n => 0 < n % 2 ^ 32 ∧ n % 2 ^ 32 < 2 ^ 31

/-- A plain number that a `pid_t` holds, with its digits in the buffer. -/
def ShortNumber (text : Str) : Prop :=
  ∃ n : ℕ, PlainNumber text n ∧ n < 2 ^ 31 ∧ (text.takeWhile isDigit).length ≤ bufferLength

/-! ### The number at the start -/

lemma value_takeWhile_lt (l : Str) : value 0 (l.takeWhile isDigit) < 10 ^ l.length := by
  have hlt := value_lt (l := l.takeWhile isDigit) (fun c hc => List.mem_takeWhile_imp hc) 0
  have hle := (List.takeWhile_prefix isDigit (l := l)).length_le
  rw [Nat.zero_add, Nat.one_mul] at hlt
  exact hlt.trans_le (Nat.pow_le_pow_right (by decide) hle)

lemma strtol_bound {buffer : Str} (h : buffer.length ≤ bufferLength) :
    -(10 ^ 15 : ℤ) < strtol buffer ∧ strtol buffer < 10 ^ 15 := by
  have hpow : ∀ l : Str, l.length ≤ 15 → value 0 (l.takeWhile isDigit) < 10 ^ 15 := fun l hl =>
    (value_takeWhile_lt l).trans_le (Nat.pow_le_pow_right (by decide) hl)
  have hdrop := (List.dropWhile_suffix isWhite (l := buffer)).length_le
  unfold strtol
  cases hs : buffer.dropWhile isWhite with
  | nil => norm_num
  | cons c s =>
    rw [hs, List.length_cons] at hdrop
    have hlen : s.length + 1 ≤ 15 := hdrop.trans h
    have h1 := hpow s (by omega)
    have h2 := hpow (c :: s) hlen
    dsimp only
    split_ifs <;> constructor <;> omega

/-! ### The result -/

lemma toPid_cases (x : ℤ) :
    x % 2 ^ 32 < 2 ^ 31 ∧ toPid x = x % 2 ^ 32 ∨ 2 ^ 31 ≤ x % 2 ^ 32 ∧ toPid x < 0 := by
  have hlt := Int.emod_lt_of_pos x (b := 2 ^ 32) (by decide)
  have hdef : toPid x = if x % 2 ^ 32 < 2 ^ 31 then x % 2 ^ 32 else x % 2 ^ 32 - 2 ^ 32 := rfl
  rw [hdef]
  split
  · next h => exact Or.inl ⟨h, rfl⟩
  · next h => exact Or.inr ⟨by omega, by omega⟩

lemma leading_of_nil {text : Str} (h : text.take bufferLength = []) : leading text = 0 := by
  rw [leading, h]
  rfl

lemma readPidFile_eq {w : LongWidth} {errno : ℤ} {text : Str} (h : text.take bufferLength ≠ []) :
    readPidFile w errno text =
      if toPid (strtolErrno w errno (text.take bufferLength)).1 = 0 ∨
          (strtolErrno w errno (text.take bufferLength)).2 = erange then -1
      else toPid (strtolErrno w errno (text.take bufferLength)).1 := by
  rw [readPidFile, if_neg h]

/-- The conversion is in range, or `errno` says so. -/
lemma strtolErrno_cases (w : LongWidth) (errno : ℤ) (text : Str) :
    strtolErrno w errno (text.take bufferLength) = (leading text, errno) ∧ IsLong w (leading text) ∨
      (strtolErrno w errno (text.take bufferLength)).2 = erange ∧
        ¬ IsLong w (leading text) := by
  unfold strtolErrno leading
  split_ifs with hhigh hlow
  · exact Or.inr ⟨rfl, fun h => absurd h.high (by omega)⟩
  · exact Or.inr ⟨rfl, fun h => absurd h.low (by omega)⟩
  · exact Or.inl ⟨rfl, by omega, by omega⟩

lemma isLong_of_positive {w : LongWidth} {text : Str} (h : Positive w (leading text)) :
    IsLong w (leading text) := by
  have hlen : (text.take bufferLength).length ≤ bufferLength := List.length_take_le _ _
  have hbound := strtol_bound hlen
  unfold leading at h ⊢
  cases w with
  | w32 =>
    obtain ⟨hpos, hlt⟩ := h
    exact ⟨by simp only [LongWidth.half]; omega, hlt⟩
  | w64 => exact ⟨by simp only [LongWidth.half]; omega, by simp only [LongWidth.half]; omega⟩

lemma positive_iff {w : LongWidth} {n : ℤ} (h : IsLong w n) :
    Positive w n ↔ 0 < n % 2 ^ 32 ∧ n % 2 ^ 32 < 2 ^ 31 := by
  cases w with
  | w32 =>
    obtain ⟨hlow, hhigh⟩ := h
    simp only [LongWidth.half] at hlow hhigh
    unfold Positive
    omega
  | w64 => exact Iff.rfl

lemma readPidFile_positive {w : LongWidth} {errno : ℤ} {text : Str} (he : errno ≠ erange)
    (h : Positive w (leading text)) : readPidFile w errno text = leading text % 2 ^ 32 := by
  have hlong := isLong_of_positive h
  have hbuf : text.take bufferLength ≠ [] := by
    intro hnil
    rw [leading_of_nil hnil] at h
    cases w <;> exact absurd h.1 (by decide)
  obtain ⟨hpos, hlt⟩ := (positive_iff hlong).mp h
  obtain ⟨hconv, -⟩ := (strtolErrno_cases w errno text).resolve_right fun hr => hr.2 hlong
  have hpid : toPid (leading text) = leading text % 2 ^ 32 := by
    rcases toPid_cases (leading text) with ⟨-, heq⟩ | ⟨hge, -⟩
    · exact heq
    · omega
  have hne : ¬ (toPid (leading text) = 0 ∨ errno = erange) := by
    rintro (h0 | h0)
    · omega
    · exact he h0
  rw [readPidFile_eq hbuf, hconv, if_neg hne, hpid]

lemma readPidFile_negative (w : LongWidth) (errno : ℤ) (text : Str)
    (h : errno = erange ∨ ¬ Positive w (leading text)) : readPidFile w errno text < 0 := by
  by_cases hbuf : text.take bufferLength = []
  · rw [readPidFile, if_pos hbuf]
    decide
  rw [readPidFile_eq hbuf]
  rcases strtolErrno_cases w errno text with ⟨hconv, hlong⟩ | ⟨herange, -⟩
  · rw [hconv]
    split_ifs with hzero
    · decide
    · rw [not_or] at hzero
      have hneg := h.resolve_left hzero.2
      rw [positive_iff hlong] at hneg
      rcases toPid_cases (leading text) with ⟨hlt, heq⟩ | ⟨-, hlt⟩
      · have hne := hzero.1
        have hnonneg := Int.emod_nonneg (leading text) (b := 2 ^ 32) (by decide)
        dsimp only at hne
        omega
      · exact hlt
  · rw [if_pos (Or.inr herange)]
    decide

lemma readPidFile_pos_iff (w : LongWidth) (errno : ℤ) (text : Str) :
    0 < readPidFile w errno text ↔ errno ≠ erange ∧ Positive w (leading text) := by
  constructor
  · intro h
    by_contra hn
    have hneg := readPidFile_negative w errno text (by tauto)
    omega
  · rintro ⟨he, hp⟩
    rw [readPidFile_positive he hp]
    exact ((positive_iff (isLong_of_positive hp)).mp hp).1

/-- With 64 bits, and `errno` clear on entry, it is the pid that an instance finds. -/
theorem filePid_eq {errno : ℤ} (he : errno ≠ erange) (text : Str) :
    filePid text =
      if 0 < readPidFile .w64 errno text then some (readPidFile .w64 errno text).toNat
      else none := by
  have hread : filePid text =
      if 0 < toPid (leading text) then some (toPid (leading text)).toNat else none := rfl
  have hcases := toPid_cases (leading text)
  by_cases hp : Positive .w64 (leading text)
  · have hpos := (readPidFile_pos_iff .w64 errno text).mpr ⟨he, hp⟩
    have hres := readPidFile_positive he hp
    obtain ⟨h0, hlt⟩ := hp
    have hpid : toPid (leading text) = leading text % 2 ^ 32 := by omega
    rw [hread, hres, hpid]
  · have hneg := readPidFile_negative .w64 errno text (Or.inr hp)
    have hnot : ¬ 0 < toPid (leading text) := by
      unfold Positive at hp
      omega
    rw [hread, if_neg hnot, if_neg (by omega)]

/-! ### Plain numbers -/

lemma readNumeral_eq_some {ds : Str} {n : ℕ} (h : readNumeral ds = some n) :
    ds ≠ [] ∧ (∀ c ∈ ds, isDigit c = true) ∧ value 0 ds = n := by
  unfold readNumeral at h
  split at h
  · next hd => exact ⟨hd.1, List.all_eq_true.mp hd.2, Option.some.inj h⟩
  · cases h

lemma PlainNumber.digits {text : Str} {n : ℕ} (h : PlainNumber text n) :
    readNumeral (text.takeWhile isDigit) = some n ∧
      ∃ t : Str, text = text.takeWhile isDigit ++ t ∧ ∀ c ∈ t.head?, isDigit c = false := by
  obtain ⟨ds, hds, rfl | rfl⟩ := h
  · have hself : text.takeWhile isDigit = text :=
      List.takeWhile_eq_self_iff.mpr (readNumeral_eq_some hds).2.1
    rw [hself]
    exact ⟨hds, [], (List.append_nil _).symm, by simp⟩
  · have hself : (ds ++ [0x0a]).takeWhile isDigit = ds := by
      rw [List.takeWhile_append_of_pos (readNumeral_eq_some hds).2.1]
      simp [isDigit]
    rw [hself]
    exact ⟨hds, [0x0a], rfl, by simp [isDigit]⟩

/-- The number at the start of a plain number: all of it, where its digits fit into the buffer,
and less than it, where they do not. -/
lemma leading_plain {text : Str} {n : ℕ} (h : PlainNumber text n) :
    ((text.takeWhile isDigit).length ≤ bufferLength ∧ leading text = n) ∨
      bufferLength < (text.takeWhile isDigit).length ∧ 0 ≤ leading text ∧
        10 * leading text ≤ n := by
  obtain ⟨hnum, t, htext, ht⟩ := h.digits
  obtain ⟨hne, hdigits, hvalue⟩ := readNumeral_eq_some hnum
  set ds := text.takeWhile isDigit with hds
  rcases Nat.lt_or_ge bufferLength ds.length with hlen | hlen
  · have htake : text.take bufferLength = ds.take bufferLength := by
      rw [htext, List.take_append_of_le_length hlen.le]
    have hlead : leading text = value 0 (ds.take bufferLength) := by
      have hcut : ds.take bufferLength ≠ [] := by
        rw [Ne, List.take_eq_nil_iff, not_or]
        exact ⟨by decide, hne⟩
      have hstr := strtol_digits (t := []) hcut
        (fun c hc => hdigits c (List.mem_of_mem_take hc)) (by simp)
      rw [List.append_nil] at hstr
      rw [leading, htake]
      exact hstr
    have hle := value_take hlen
    rw [hvalue] at hle
    exact Or.inr ⟨hlen, by omega, by omega⟩
  · have hhead : ∀ c ∈ (t.take (bufferLength - ds.length)).head?, isDigit c = false := by
      intro c hc
      rw [List.head?_take] at hc
      split at hc
      · cases hc
      · exact ht c hc
    refine Or.inl ⟨hlen, ?_⟩
    rw [leading, htext, List.take_append, List.take_of_length_le hlen,
      strtol_digits hne hdigits hhead, hvalue]

/-! ### Reading right -/

variable {w : LongWidth} {errno : ℤ} {text : Str}

lemma plain_of_short (hs : ShortNumber text) (h : 0 < readPidFile w errno text) :
    PlainNumber text (readPidFile w errno text).toNat := by
  obtain ⟨n, hn, hlt, hlen⟩ := hs
  obtain ⟨he, hp⟩ := (readPidFile_pos_iff w errno text).mp h
  have hlead : leading text = n := by
    rcases leading_plain hn with ⟨-, heq⟩ | ⟨hgt, -⟩
    · exact heq
    · omega
  have hres : (readPidFile w errno text).toNat = n := by
    rw [readPidFile_positive he hp, hlead]
    omega
  rwa [hres]

lemma short_of_plain (h : 0 < readPidFile w errno text)
    (hn : PlainNumber text (readPidFile w errno text).toNat) : ShortNumber text := by
  obtain ⟨he, hp⟩ := (readPidFile_pos_iff w errno text).mp h
  obtain ⟨hpos, hlt⟩ := (positive_iff (isLong_of_positive hp)).mp hp
  rw [readPidFile_positive he hp] at hn
  refine ⟨_, hn, by omega, ?_⟩
  rcases leading_plain hn with ⟨hlen, -⟩ | ⟨-, hnonneg, hle⟩
  · exact hlen
  · omega

lemma readPidFile_pidText (w : LongWidth) (he : errno ≠ erange) (pid : Pid) :
    readPidFile w errno (pidText pid) = (pid : ℕ) := by
  obtain ⟨pid, hpos, hlt⟩ := pid
  have hplain : PlainNumber (pidText pid) pid :=
    ⟨numeral pid, readNumeral_numeral pid, Or.inr rfl⟩
  have hdigits : (pidText pid).takeWhile isDigit = numeral pid := by
    rw [pidText, List.takeWhile_append_of_pos (numeral_digits pid)]
    simp [isDigit]
  have hlen : (numeral pid).length ≤ bufferLength :=
    (length_numeral_le (by decide) (show pid < 10 ^ 10 by omega)).trans (by decide)
  have hlead : leading (pidText pid) = pid := by
    rcases leading_plain hplain with ⟨-, heq⟩ | ⟨hgt, -⟩
    · exact heq
    · rw [hdigits] at hgt
      omega
  have hp : Positive w (leading (pidText pid)) := by
    rw [hlead]
    cases w <;> unfold Positive <;> omega
  rw [readPidFile_positive he hp, hlead]
  dsimp only
  omega

lemma mainSignals_pid {pid : ℤ} {exists_ kill_flag hup_flag : Bool} {s : ℤ × Signal}
    (h : s ∈ mainSignals pid exists_ kill_flag hup_flag) : 0 < pid ∧ s.1 = pid := by
  unfold mainSignals at h
  split_ifs at h with hpos <;> simp only [List.mem_cons, List.not_mem_nil, or_false] at h
  all_goals first
    | exact ⟨hpos, by rw [h]⟩
    | exact ⟨hpos, by rcases h with h | h <;> rw [h]⟩

/-- **Which files are read right**: where `errno` is clear on entry, those with one number of
fifteen digits at most that a `pid_t` holds, and those with no number at their start that comes to
a positive one. -/
theorem readRight_iff (w : LongWidth) (errno : ℤ) (text : Str) :
    ReadRight w errno text ↔
      errno ≠ erange ∧ (ShortNumber text ∨ ¬ Positive w (leading text)) := by
  constructor
  · intro h
    have he : errno ≠ erange := fun he => by
      have hwritten : readPidFile w errno (pidText 1) = 1 := h.written ⟨1, by decide⟩
      have hneg := readPidFile_negative w errno (pidText 1) (Or.inl he)
      omega
    refine ⟨he, ?_⟩
    by_contra hn
    rw [not_or, not_not] at hn
    have hpos := (readPidFile_pos_iff w errno text).mpr ⟨he, hn.2⟩
    exact hn.1 (short_of_plain hpos (h.named hpos))
  · rintro ⟨he, hread⟩
    have hnamed : 0 < readPidFile w errno text →
        PlainNumber text (readPidFile w errno text).toNat := by
      intro hpos
      refine plain_of_short (hread.resolve_right ?_) hpos
      exact not_not.mpr ((readPidFile_pos_iff w errno text).mp hpos).2
    refine ⟨hnamed, fun exists_ kill_flag hup_flag s hs => ?_, readPidFile_pidText w he⟩
    obtain ⟨hpos, hpid⟩ := mainSignals_pid hs
    exact ⟨_, hnamed hpos, by omega⟩

lemma not_readRight {n : ℕ} (hres : readPidFile w errno text = n) (hpos : 0 < n)
    (hn : ¬ PlainNumber text n) : ¬ ReadRight w errno text := by
  intro h
  have hnamed := h.named (by omega)
  rw [hres, Int.toNat_natCast] at hnamed
  exact hn hnamed

/-- A number that does not fit into a `pid_t`, a number with text behind it and one of sixteen
digits name other processes, to which -k sends SIGTERM; and an `errno` left by `-l` makes a
written pid unreadable. -/
theorem other_processes_named :
    (readPidFile .w64 0 (bytes "4294967297\n") = 1 ∧
        (1, .term) ∈ mainSignals (readPidFile .w64 0 (bytes "4294967297\n")) true true false ∧
        ¬ ReadRight .w64 0 (bytes "4294967297\n")) ∧
      (readPidFile .w32 0 (bytes "123abc") = 123 ∧ ¬ ReadRight .w32 0 (bytes "123abc")) ∧
      (readPidFile .w32 0 (bytes "0000000000000012") = 1 ∧
        ¬ ReadRight .w32 0 (bytes "0000000000000012")) ∧
      readPidFile .w64 erange (pidText 123) = -1 := by
  refine ⟨⟨by decide, by decide, not_readRight (n := 1) (by decide) (by decide) fun h => ?_⟩,
    ⟨by decide, not_readRight (n := 123) (by decide) (by decide) ?_⟩,
    ⟨by decide, not_readRight (n := 1) (by decide) (by decide) fun h => ?_⟩, by decide⟩
  · exact absurd h.digits.1 (by decide)
  · rintro ⟨ds, hds, h | h⟩
    · rw [← h] at hds
      exact absurd hds (by decide)
    · have hlast := congrArg List.getLast? h
      rw [List.getLast?_concat] at hlast
      exact absurd hlast (by decide)
  · exact absurd h.digits.1 (by decide)

end Gpiod.PidRead
