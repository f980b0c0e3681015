import Mathlib.Tactic.Linarith
import Gpiod.Decimal
import Gpiod.Stream

/-!
The time of an event, as a packet prints it.

`%06u` prints a number of nanoseconds behind the point: the fraction is right where the number
has nine digits, or is zero.
-/

namespace Gpiod.Instants

open Gpiod.Pin Gpiod.Broadcast Gpiod.Stream Gpiod.Numeral Gpiod.Frames Gpiod.Decimal

/-- The time of an event: what `clock_gettime` stores, or the two parts of the timestamp of a
line event. -/
structure Instant where
  sec : ℕ
  nsec : ℕ
  sec_lt : sec < 4294967296
  nsec_lt : nsec < 1000000000

namespace Instant

def timespec (t : Instant) : Timespec := ⟨t.sec, t.nsec⟩

def time (t : Instant) : ℚ := t.sec + t.nsec / 10 ^ 9

end Instant

def timeField (packet : Str) : Option Str := do
  let (_, rest) ← cut [0x3b] packet
  let (field, _) ← cut [0x3b] rest
  return field

/-- The number that the time field is read as. -/
def readTime (packet : Str) : Option ℚ := do readDecimal (← timeField packet)

/-- `q` is `t`, cut off or rounded to `d` digits behind the point. -/
def UpTo (d : ℕ) (t q : ℚ) : Prop := (q ≤ t ∧ t < q + 1 / 10 ^ d) ∨ |q - t| ≤ 1 / (2 * 10 ^ d)

/-- The number that a packet prints for a time is the time up to the printed digits. -/
def Exact (chan value : ℤ) (t : Instant) : Prop :=
  ∃ field d q, timeField (rawPacket t.timespec chan value) = some field ∧
    fractionDigits field = some d ∧ readDecimal field = some q ∧ UpTo d t.time q

/-- The numbers that packets print for two times compare as the times do. -/
def Ordered (chan value chan' value' : ℤ) (t t' : Instant) : Prop :=
  ∃ q q', readTime (rawPacket t.timespec chan value) = some q ∧
    readTime (rawPacket t'.timespec chan' value') = some q' ∧
    (q < q' ↔ t.time < t'.time) ∧ (q = q' ↔ t.time = t'.time)

/-- The printed times preserve the two times. -/
structure TimesKept (t t' : Instant) : Prop where
  ordered : ∀ chan value chan' value', Ordered chan value chan' value' t t'
  distinct : ∀ chan value chan' value', t ≠ t' →
    readTime (rawPacket t.timespec chan value) ≠ readTime (rawPacket t'.timespec chan' value')
  exact : ∀ chan value, Exact chan value t
  exact' : ∀ chan value, Exact chan value t'

/-- The nanoseconds have nine digits, or are zero. -/
def NineDigits (t : Instant) : Prop := t.nsec = 0 ∨ 100000000 ≤ t.nsec

/-! ### The time field -/

/-- The number of digits behind the point. -/
def digits (t : Instant) : ℕ := max 6 (numeral t.nsec).length

def printed (t : Instant) : ℚ := t.sec + t.nsec / 10 ^ digits t

lemma timeField_rawPacket (t : Instant) (chan value : ℤ) :
    timeField (rawPacket t.timespec chan value) = some (pointed t.sec t.nsec 6) := by
  have htag : (0x3b : UInt8) ∉ startSymbols ++ bytes "DI" := by decide
  have hsec := (not_mem_of_digits (numeral_digits t.sec)).1
  have hnsec := (not_mem_of_digits (leftpad_digits t.nsec 6)).1
  have hfield : (0x3b : UInt8) ∉ pointed t.sec t.nsec 6 := by
    simp only [pointed, List.mem_append, List.mem_singleton, not_or]
    exact ⟨hsec, by decide, hnsec⟩
  have hs : u32 t.timespec.tv_sec = t.sec := u32_natCast t.sec_lt
  have hn : u32 t.timespec.tv_nsec = t.nsec := u32_natCast (by have := t.nsec_lt; omega)
  have hpacket : rawPacket t.timespec chan value = startSymbols ++ bytes "DI" ++ ([0x3b] ++
      (pointed t.sec t.nsec 6 ++ ([0x3b] ++ ((numeral (u8 chan)).leftpad 2 0x30 ++ ([0x3b] ++
        (numeral (u8 value) ++ stopSymbols)))))) := by
    rw [rawPacket_eq, dispatchRawPack_eq, hs, hn]
    simp only [frame, packetBody, pointed, List.append_assoc]
  unfold timeField
  rw [hpacket, cut_append htag]
  simp only [bind, Option.bind, cut_append hfield]
  rfl

lemma readTime_rawPacket (t : Instant) (chan value : ℤ) :
    readTime (rawPacket t.timespec chan value) = some (printed t) := by
  unfold readTime
  rw [timeField_rawPacket]
  exact readDecimal_pointed t.sec t.nsec 6

lemma NineDigits.printed_eq {t : Instant} (h : NineDigits t) : printed t = t.time := by
  unfold printed Instant.time digits
  rcases h with h | h
  · rw [h]
    simp
  · have hlen : (numeral t.nsec).length = 9 :=
      length_numeral_eq h (by have := t.nsec_lt; omega)
    rw [hlen]
    rfl

/-- Elsewhere fewer digits than nine are printed, and the number is too large by more than
half a unit of the last one. -/
lemma not_upTo {t : Instant} (h : ¬ NineDigits t) : ¬ UpTo (digits t) t.time (printed t) := by
  have hn : t.nsec ≠ 0 ∧ t.nsec < 100000000 := by
    unfold NineDigits at h
    omega
  have hd : digits t ≤ 8 := by
    have hlen : (numeral t.nsec).length ≤ 8 := (length_numeral_le_iff (by decide)).mpr hn.2
    unfold digits
    omega
  have hn1 : (1 : ℚ) ≤ t.nsec := by
    have : 1 ≤ t.nsec := by omega
    exact_mod_cast this
  have hpos : (0 : ℚ) < 1 / 10 ^ digits t := by positivity
  have hunit : (1 : ℚ) / 10 ^ 9 ≤ 1 / 10 ^ digits t / 10 := by
    rw [div_div, ← pow_succ]
    exact one_div_le_one_div_of_le (by positivity)
      (pow_le_pow_right₀ (by norm_num) (by omega))
  have hdiff : printed t - t.time = t.nsec * (1 / 10 ^ digits t - 1 / 10 ^ 9) := by
    unfold printed Instant.time
    ring
  have hmore : 9 / 10 * (1 / 10 ^ digits t) ≤ printed t - t.time := by
    rw [hdiff]
    nlinarith
  have hhalf : (1 : ℚ) / (2 * 10 ^ digits t) = 1 / 2 * (1 / 10 ^ digits t) := by
    ring
  rintro (⟨hle, -⟩ | habs)
  · linarith
  · rw [hhalf] at habs
    have := le_abs_self (printed t - t.time)
    linarith

/-! ### The order of the times -/

lemma Instant.eq_of_time {t t' : Instant} (h : t.time = t'.time) : t = t' := by
  have hnat : t.sec * 1000000000 + t.nsec = t'.sec * 1000000000 + t'.nsec := by
    unfold Instant.time at h
    have hq : (t.sec : ℚ) * 1000000000 + t.nsec = t'.sec * 1000000000 + t'.nsec := by
      linarith
    exact_mod_cast hq
  have hn := t.nsec_lt
  have hn' := t'.nsec_lt
  have hsec : t.sec = t'.sec := by omega
  have hnsec : t.nsec = t'.nsec := by omega
  cases t
  cases t'
  cases hsec
  cases hnsec
  rfl

lemma exact_iff (t : Instant) (chan value : ℤ) : Exact chan value t ↔ NineDigits t := by
  have hd := fractionDigits_pointed t.sec t.nsec 6
  have hq := readDecimal_pointed t.sec t.nsec 6
  constructor
  · rintro ⟨field, d, q, hfield, hdigits, hread, hupto⟩
    by_contra hn
    cases (timeField_rawPacket t chan value).symm.trans hfield
    cases hd.symm.trans hdigits
    cases hq.symm.trans hread
    exact not_upTo hn hupto
  · intro h
    refine ⟨_, _, _, timeField_rawPacket t chan value, hd, hq, Or.inl ?_⟩
    have heq : (t.sec : ℚ) + t.nsec / 10 ^ max 6 (numeral t.nsec).length = t.time := h.printed_eq
    rw [heq]
    exact ⟨le_refl _, lt_add_of_pos_right _ (by positivity)⟩

lemma timesKept_of_nineDigits {t t' : Instant} (h : NineDigits t) (h' : NineDigits t') :
    TimesKept t t' where
  ordered chan value chan' value' := by
    refine ⟨_, _, readTime_rawPacket t chan value, readTime_rawPacket t' chan' value', ?_⟩
    rw [h.printed_eq, h'.printed_eq]
    exact ⟨Iff.rfl, Iff.rfl⟩
  distinct chan value chan' value' hne heq := by
    rw [readTime_rawPacket, readTime_rawPacket, h.printed_eq, h'.printed_eq] at heq
    exact hne (Instant.eq_of_time (Option.some.inj heq))
  exact chan value := (exact_iff t chan value).mpr h
  exact' chan value := (exact_iff t' chan value).mpr h'

/-- **The printed times preserve time**, for two times, exactly if the nanoseconds of both have
nine digits or are zero. -/
theorem timesKept_iff (t t' : Instant) : TimesKept t t' ↔ NineDigits t ∧ NineDigits t' :=
  ⟨fun h => ⟨(exact_iff t 0 0).mp (h.exact 0 0), (exact_iff t' 0 0).mp (h.exact' 0 0)⟩,
    fun h => timesKept_of_nineDigits h.1 h.2⟩

/-- 50 ms and 100 ms behind the full second. -/
def early : Instant := ⟨5, 50000000, by decide, by decide⟩
def late : Instant := ⟨5, 100000000, by decide, by decide⟩

/-- The earlier one is printed as the larger number. -/
theorem early_after_late : early.time < late.time ∧
    readTime (rawPacket early.timespec 3 1) = some (11 / 2) ∧
    readTime (rawPacket late.timespec 3 1) = some (51 / 10) ∧ ¬ TimesKept early late := by
  have hearly : readTime (rawPacket early.timespec 3 1) = some (11 / 2) := by
    rw [readTime_rawPacket, printed, digits, show (numeral early.nsec).length = 8 by decide]
    norm_num [early]
  have hlate : readTime (rawPacket late.timespec 3 1) = some (51 / 10) := by
    rw [readTime_rawPacket, printed, digits, show (numeral late.nsec).length = 9 by decide]
    norm_num [late]
  have hlt : early.time < late.time := by norm_num [Instant.time, early, late]
  refine ⟨hlt, hearly, hlate, fun h => ?_⟩
  obtain ⟨q, q', hq, hq', hiff, -⟩ := h.ordered 3 1 3 1
  cases hq.symm.trans hearly
  cases hq'.symm.trans hlate
  exact absurd (hiff.mpr hlt) (by norm_num)

end Gpiod.Instants
