import Mathlib.Logic.Function.Basic
import Mathlib.Tactic.Common
import Gpiod.Machine
import Gpiod.Numeral
import Gpiod.Pin

/-!
The pid file of `daemonize.h` and `main`, for instances started side by side.

An instance reads the file, sends signal 0 to the process it names, removes a stale file, creates
its own with O_EXCL, writes its pid to it and removes what is at the path when it terminates. A
file is known by the instance that has created it. No two live processes have the same pid; what
`kill` returns is left open, as processes that are no instances have pids, too, and it fails for
want of permission.
-/

namespace Gpiod.PidFile

open Gpiod.Pin Gpiod.Numeral Gpiod.Machine

/-! ### The text of the file -/

/-- The white space that `strtol` skips. -/
def isWhite (c : UInt8) : Bool := c == 0x20 || (0x09 ≤ c && c ≤ 0x0d)

/-- `strtol(buffer, NULL, 10)` of fewer digits than overflow a `long`. -/
def strtol (buffer : Str) : ℤ :=
  match buffer.dropWhile isWhite with
  | [] => 0
  | c :: s =>
    if c = 0x2d then -(value 0 (s.takeWhile isDigit) : ℤ)
    else if c = 0x2b then value 0 (s.takeWhile isDigit)
    else value 0 ((c :: s).takeWhile isDigit)

/-- The pid that `read_pid_file` takes from its buffer, in a `pid_t`; `main` looks at it if it is
greater than zero. -/
def readPid (buffer : Str) : Option ℕ :=
  let pid := (strtol buffer).bmod (2 ^ 32)
  if 0 < pid then some pid.toNat else none

/-- `sizeof(buffer) - 1`. -/
def bufferLength : ℕ := 15

/-- The pid that a read of the whole buffer finds in a file. -/
def filePid (text : Str) : Option ℕ := readPid (text.take bufferLength)

/-- `sprintf(buffer, "%d\n", pid)`. -/
def pidText (pid : ℕ) : Str := numeral pid ++ [0x0a]

/-! ### Instances -/

/-- A pid file: one that was there at the start, or the one an instance has created. -/
inductive File
  | old
  | of (i : ℕ)
  deriving DecidableEq, Repr

/-- The system call an instance is at. -/
inductive Phase
  | absent
  | open
  | read (f : File)
  | kill0 (pid : ℕ)
  | signal (pid : ℕ)
  | unlinkStale
  | daemonize
  | create
  | write
  | sigprocmask
  /-- `loadConfig` and what follows up to the loop -/
  | start
  /-- the loop -/
  | running
  | unlinkPid
  | exited
  deriving DecidableEq, Repr

def Phase.Live (p : Phase) : Prop := p ≠ .absent ∧ p ≠ .exited

/-- The process exists and has no signal blocked yet. -/
def Phase.Unmasked (p : Phase) : Prop := p.Live ∧ p ≠ .start ∧ p ≠ .running ∧ p ≠ .unlinkPid

instance (p : Phase) : Decidable p.Live := inferInstanceAs (Decidable (_ ∧ _))
instance (p : Phase) : Decidable p.Unmasked := inferInstanceAs (Decidable (_ ∧ _))

/-- The instances by serial number. -/
structure Sys where
  /-- the file at the path -/
  path : Option File
  text : File → Str
  phase : ℕ → Phase
  pid : ℕ → ℕ
  kill_flag : ℕ → Bool
  hup_flag : ℕ → Bool

/-- A pid that no live process has. -/
structure Fresh (s : Sys) (pid : ℕ) : Prop where
  pos : 0 < pid
  lt : pid < 2 ^ 31
  unused : ∀ j, (s.phase j).Live → s.pid j ≠ pid

def Sys.enter (s : Sys) (i : ℕ) (p : Phase) : Sys :=
  { s with phase := Function.update s.phase i p }

def Sys.setPid (s : Sys) (i pid : ℕ) : Sys := { s with pid := Function.update s.pid i pid }

def Sys.setText (s : Sys) (f : File) (text : Str) : Sys :=
  { s with text := Function.update s.text f text }

/-- SIGTERM and SIGHUP end a process that has not blocked them; a running instance reads them. -/
def Sys.deliver (s : Sys) (pid : ℕ) : Sys :=
  { s with phase := fun j =>
      if s.pid j = pid ∧ (s.phase j).Unmasked then .exited else s.phase j }

/-- -k or -H was given. -/
def Sys.signals (s : Sys) (i : ℕ) : Bool := s.kill_flag i || s.hup_flag i

/-- Where an instance goes on after `read_pid_file`. -/
def afterRead : Option ℕ → Phase
  | some pid => .kill0 pid
  | none => .daemonize

/-- Where it goes on after `kill(pid, 0)`. -/
def afterKill (pid : ℕ) : (ok signals : Bool) → Phase
  | false, true => .exited
  | false, false => .unlinkStale
  | true, true => .signal pid
  | true, false => .daemonize

/-- A step of an instance, with what its system call returns. -/
inductive Act
  | launch (i pid : ℕ) (kill_flag hup_flag : Bool)
  | open (i : ℕ) (ok : Bool)
  | read (i : ℕ) (buffer : Str)
  | kill0 (i : ℕ) (ok : Bool)
  | signal (i : ℕ)
  | unlinkStale (i : ℕ) (ok : Bool)
  | daemonize (i pid : ℕ)
  | create (i : ℕ) (ok : Bool)
  | write (i n : ℕ)
  | sigprocmask (i : ℕ) (ok : Bool)
  | start (i : ℕ) (ok : Bool)
  | terminate (i : ℕ)
  | unlinkPid (i : ℕ) (ok : Bool)

inductive Step : Sys → Act → Sys → Prop
  | launch {s : Sys} {i pid : ℕ} {kill_flag hup_flag : Bool} (hp : s.phase i = .absent)
      (hf : Fresh s pid) : Step s (.launch i pid kill_flag hup_flag)
        ({ s with
          kill_flag := Function.update s.kill_flag i kill_flag
          hup_flag := Function.update s.hup_flag i hup_flag }.setPid i pid |>.enter i .open)
  | open {s : Sys} {i : ℕ} {f : File} (hp : s.phase i = .open) (hf : s.path = some f) :
      Step s (.open i true) (s.enter i (.read f))
  /-- no file, no permission, or descriptor 0 -/
  | openFails {s : Sys} {i : ℕ} (hp : s.phase i = .open) :
      Step s (.open i false) (s.enter i .daemonize)
  /-- a read that fails leaves the buffer empty -/
  | read {s : Sys} {i : ℕ} {f : File} {buffer : Str} (hp : s.phase i = .read f)
      (hb : buffer <+: (s.text f).take bufferLength) :
      Step s (.read i buffer) (s.enter i (afterRead (readPid buffer)))
  | kill0 {s : Sys} {i pid : ℕ} {ok : Bool} (hp : s.phase i = .kill0 pid) :
      Step s (.kill0 i ok) (s.enter i (afterKill pid ok (s.signals i)))
  | signal {s : Sys} {i pid : ℕ} (hp : s.phase i = .signal pid) :
      Step s (.signal i) ((s.deliver pid).enter i .exited)
  | unlinkStale {s : Sys} {i : ℕ} {ok : Bool} (hp : s.phase i = .unlinkStale) :
      Step s (.unlinkStale i ok)
        ({ s with path := if ok then none else s.path }.enter i .daemonize)
  /-- `fork` gives the instance a new pid; with -n, and where it fails, it keeps its own -/
  | daemonize {s : Sys} {i pid : ℕ} (hp : s.phase i = .daemonize)
      (hf : pid = s.pid i ∨ Fresh s pid) :
      Step s (.daemonize i pid) ((s.setPid i pid).enter i .create)
  | create {s : Sys} {i : ℕ} (hp : s.phase i = .create) (hn : s.path = none) :
      Step s (.create i true)
        (({ s with path := some (.of i) }.setText (.of i) []).enter i .write)
  /-- the failure is logged -/
  | createFails {s : Sys} {i : ℕ} (hp : s.phase i = .create) :
      Step s (.create i false) (s.enter i .sigprocmask)
  /-- `n` bytes are taken, none where the write fails, which is logged -/
  | write {s : Sys} {i n : ℕ} (hp : s.phase i = .write) :
      Step s (.write i n)
        ((s.setText (.of i) ((pidText (s.pid i)).take n)).enter i .sigprocmask)
  | sigprocmask {s : Sys} {i : ℕ} {ok : Bool} (hp : s.phase i = .sigprocmask) :
      Step s (.sigprocmask i ok) (s.enter i (if ok then .start else .unlinkPid))
  | start {s : Sys} {i : ℕ} {ok : Bool} (hp : s.phase i = .start) :
      Step s (.start i ok) (s.enter i (if ok then .running else .unlinkPid))
  | terminate {s : Sys} {i : ℕ} (hp : s.phase i = .running) :
      Step s (.terminate i) (s.enter i .unlinkPid)
  | unlinkPid {s : Sys} {i : ℕ} {ok : Bool} (hp : s.phase i = .unlinkPid) :
      Step s (.unlinkPid i ok)
        ({ s with path := if ok then none else s.path }.enter i .exited)

/-- No instance has been started, and a file at the path is none of theirs. -/
structure Initial (s : Sys) : Prop where
  absent : ∀ i, s.phase i = .absent
  path : ∀ i, s.path ≠ some (.of i)

/-- A pid file for one running instance. -/
structure SingleInstance (s : Sys) : Prop where
  /-- the file is there, and the only process with the pid in it is a running instance -/
  reached : ∀ i, s.phase i = .running → ∃ f j, s.path = some f ∧ s.phase j = .running ∧
    filePid (s.text f) = some (s.pid j) ∧ ∀ k, (s.phase k).Live → s.pid k = s.pid j → k = j
  unique : ∀ i j, s.phase i = .running → s.phase j = .running → i = j
  /-- what an instance unlinks when it terminates is its own file -/
  own : ∀ i f, s.phase i = .unlinkPid → s.path = some f → f = .of i

/-- The exclusive open succeeds, the write takes the digits at least, and no stale file that is
unlinked is by then the file of a live instance. -/
def Meets (s : Sys) : Act → Prop
  | .create _ ok => ok = true
  | .write i n => (numeral (s.pid i)).length ≤ n
  | .unlinkStale _ ok => ok = true → ∀ j, s.path = some (.of j) → ¬ (s.phase j).Live
  | _ => True

/-! ### Reading a pid back -/

lemma digit_not_white {c : UInt8} (h : isDigit c = true) :
    isWhite c = false ∧ c ≠ 0x2d ∧ c ≠ 0x2b := by
  simp only [isDigit, Bool.and_eq_true, decide_eq_true_eq] at h
  have hne : ∀ d : UInt8, d.toNat < 0x30 → c ≠ d := by
    rintro d hd rfl
    omega
  refine ⟨?_, hne _ (by decide), hne _ (by decide)⟩
  have hsp : (c == 0x20) = false := beq_false_of_ne (hne _ (by decide))
  have hle : ¬ c ≤ 0x0d := by
    rw [UInt8.le_iff_toNat_le]
    have : (0x0d : UInt8).toNat = 13 := rfl
    omega
  simp [isWhite, hsp, hle]

lemma strtol_digits {ds t : Str} (hne : ds ≠ []) (hd : ∀ c ∈ ds, isDigit c = true)
    (ht : ∀ c ∈ t.head?, isDigit c = false) : strtol (ds ++ t) = value 0 ds := by
  have htake : (ds ++ t).takeWhile isDigit = ds := by
    rw [List.takeWhile_append_of_pos hd]
    cases t with
    | nil => simp
    | cons c t => simp [ht c rfl]
  cases ds with
  | nil => exact absurd rfl hne
  | cons c ds =>
    obtain ⟨hw, hminus, hplus⟩ := digit_not_white (hd c List.mem_cons_self)
    rw [strtol, List.cons_append, List.dropWhile_cons_of_neg (by simp [hw])]
    simp only [hminus, hplus, ↓reduceIte]
    rw [← List.cons_append, htake]

/-- **The pid reads back** as soon as its digits are written. -/
lemma filePid_pidText {pid n : ℕ} (hpos : 0 < pid) (hlt : pid < 2 ^ 31)
    (hn : (numeral pid).length ≤ n) : filePid ((pidText pid).take n) = some pid := by
  have hlen : (numeral pid).length ≤ bufferLength :=
    (length_numeral_le (by decide) (show pid < 10 ^ 10 by omega)).trans (by decide)
  have hhead : ∀ k : ℕ, ∀ c ∈ (([0x0a] : Str).take k).head?, isDigit c = false := by
    intro k c hc
    cases k with
    | zero => cases hc
    | succ k => exact Option.mem_some.mp hc ▸ rfl
  have hpid : ((pid : ℤ)).bmod (2 ^ 32) = pid := by
    have := Int.bmod_eq_of_le (n := pid) (m := 2 ^ 32)
    omega
  rw [filePid, pidText, List.take_append, List.take_of_length_le hn, List.take_append,
    List.take_of_length_le hlen, List.take_take, readPid,
    strtol_digits (numeral_ne_nil pid) (numeral_digits pid) (hhead _), value_numeral, hpid]
  simp [hpos]

/-! ### Pids -/

/-- Live processes have pids of their own. -/
structure Pids (s : Sys) : Prop where
  pos : ∀ i, (s.phase i).Live → 0 < s.pid i
  lt : ∀ i, (s.phase i).Live → s.pid i < 2 ^ 31
  distinct : ∀ i j, (s.phase i).Live → (s.phase j).Live → s.pid i = s.pid j → i = j

variable {s t : Sys} {i : ℕ}

@[simp] lemma enter_self (s : Sys) (i : ℕ) (p : Phase) : (s.enter i p).phase i = p := by
  simp [Sys.enter]

lemma enter_ne (s : Sys) {i j : ℕ} (p : Phase) (h : j ≠ i) :
    (s.enter i p).phase j = s.phase j := by
  simp [Sys.enter, h]

@[simp] lemma enter_pid (s : Sys) (i : ℕ) (p : Phase) : (s.enter i p).pid = s.pid := rfl
@[simp] lemma enter_text (s : Sys) (i : ℕ) (p : Phase) : (s.enter i p).text = s.text := rfl

lemma Pids.keep (h : Pids s) (hlive : ∀ j, (t.phase j).Live → (s.phase j).Live)
    (hpid : t.pid = s.pid) : Pids t where
  pos j hj := hpid ▸ h.pos j (hlive j hj)
  lt j hj := hpid ▸ h.lt j (hlive j hj)
  distinct j k hj hk he := h.distinct j k (hlive j hj) (hlive k hk) (by rwa [hpid] at he)

lemma Pids.enter (h : Pids s) {p : Phase} (hpid : t.pid = s.pid)
    (hphase : t.phase = (s.enter i p).phase) (hp : p.Live → (s.phase i).Live) : Pids t := by
  refine h.keep (fun j hj => ?_) hpid
  rw [hphase] at hj
  by_cases hji : j = i
  · subst hji
    exact hp (by simpa using hj)
  · rwa [enter_ne s p hji] at hj

lemma Pids.fresh (h : Pids s) {pid : ℕ} (hf : Fresh s pid) (hi : t.pid i = pid)
    (hpid : ∀ j ≠ i, t.pid j = s.pid j) (hphase : ∀ j ≠ i, t.phase j = s.phase j) : Pids t where
  pos j hj := by
    by_cases hji : j = i
    · rw [hji, hi]
      exact hf.pos
    · rw [hpid j hji]
      exact h.pos j (hphase j hji ▸ hj)
  lt j hj := by
    by_cases hji : j = i
    · rw [hji, hi]
      exact hf.lt
    · rw [hpid j hji]
      exact h.lt j (hphase j hji ▸ hj)
  distinct j k hj hk he := by
    by_cases hji : j = i <;> by_cases hki : k = i
    · rw [hji, hki]
    · rw [hji, hi, hpid k hki] at he
      exact absurd he.symm (hf.unused k (hphase k hki ▸ hk))
    · rw [hki, hi, hpid j hji] at he
      exact absurd he (hf.unused j (hphase j hji ▸ hj))
    · rw [hpid j hji, hpid k hki] at he
      exact h.distinct j k (hphase j hji ▸ hj) (hphase k hki ▸ hk) he

lemma deliver_phase (s : Sys) (pid j : ℕ) :
    (s.deliver pid).phase j = s.phase j ∨
      (s.phase j).Unmasked ∧ (s.deliver pid).phase j = .exited := by
  by_cases h : s.pid j = pid ∧ (s.phase j).Unmasked
  · exact Or.inr ⟨h.2, if_pos h⟩
  · exact Or.inl (if_neg h)

lemma live_of_deliver {pid j : ℕ} (h : ((s.deliver pid).phase j).Live) : (s.phase j).Live := by
  rcases deliver_phase s pid j with hj | ⟨hj, -⟩
  · rwa [hj] at h
  · exact hj.1

lemma Pids.deliver (h : Pids s) (pid : ℕ) : Pids (s.deliver pid) :=
  h.keep (fun _ hj => live_of_deliver hj) rfl

lemma live_of_eq {p : Phase} (h : s.phase i = p) (hp : p.Live) : (s.phase i).Live := h ▸ hp

lemma Pids.step {a : Act} (h : Pids s) (hs : Step s a t) : Pids t := by
  cases hs with
  | launch hp hf =>
    exact h.fresh hf (by simp [Sys.setPid]) (fun j hj => by simp [Sys.setPid, hj])
      fun j hj => enter_ne _ _ hj
  | daemonize hp hf =>
    rcases hf with rfl | hf
    · exact h.enter (Function.update_eq_self _ _) rfl fun _ => live_of_eq hp (by decide)
    · exact h.fresh hf (by simp [Sys.setPid]) (fun j hj => by simp [Sys.setPid, hj])
        fun j hj => enter_ne _ _ hj
  | signal hp => exact (h.deliver _).enter rfl rfl fun hl => absurd rfl hl.2
  | read hp _ => exact h.enter rfl rfl fun _ => live_of_eq hp ⟨by simp, by simp⟩
  | kill0 hp => exact h.enter rfl rfl fun _ => live_of_eq hp ⟨by simp, by simp⟩
  | _ hp => exact h.enter rfl rfl fun _ => live_of_eq hp (by decide)

/-! ### The owner of the file -/

/-- The instance has created a file and not come to the end of `main`. -/
def Phase.Holds (p : Phase) : Prop :=
  p = .write ∨ p = .sigprocmask ∨ p = .start ∨ p = .running ∨ p = .unlinkPid

/-- The instance has written its pid. -/
def Phase.Wrote (p : Phase) : Prop :=
  p = .sigprocmask ∨ p = .start ∨ p = .running ∨ p = .unlinkPid

instance (p : Phase) : Decidable p.Holds := inferInstanceAs (Decidable (_ ∨ _))
instance (p : Phase) : Decidable p.Wrote := inferInstanceAs (Decidable (_ ∨ _))

lemma Phase.Wrote.holds {p : Phase} (h : p.Wrote) : p.Holds := Or.inr h

lemma Phase.Holds.live {p : Phase} (h : p.Holds) : p.Live := by
  rcases h with rfl | rfl | rfl | rfl | rfl <;> decide

/-- The file at the path is that of the instance that has created one, with its pid. -/
structure Owned (s : Sys) : Prop where
  holds : ∀ i, (s.phase i).Holds → s.path = some (.of i)
  wrote : ∀ i, (s.phase i).Wrote → filePid (s.text (.of i)) = some (s.pid i)

lemma Owned.unique (h : Owned s) {i j : ℕ} (hi : (s.phase i).Holds) (hj : (s.phase j).Holds) :
    i = j := by
  have he := (h.holds i hi).symm.trans (h.holds j hj)
  exact File.of.inj (Option.some.inj he)

lemma Owned.frame (h : Owned s) {p : Phase} (hphase : t.phase = (s.enter i p).phase)
    (hpath : ∀ j ≠ i, (s.phase j).Holds → t.path = s.path)
    (htext : ∀ j ≠ i, t.text (.of j) = s.text (.of j)) (hpid : ∀ j ≠ i, t.pid j = s.pid j)
    (hholds : p.Holds → t.path = some (.of i))
    (hwrote : p.Wrote → filePid (t.text (.of i)) = some (t.pid i)) : Owned t where
  holds j hj := by
    rw [hphase] at hj
    by_cases hji : j = i
    · subst hji
      exact hholds (by simpa using hj)
    · rw [enter_ne s p hji] at hj
      exact (hpath j hji hj).trans (h.holds j hj)
  wrote j hj := by
    rw [hphase] at hj
    by_cases hji : j = i
    · subst hji
      exact hwrote (by simpa using hj)
    · rw [enter_ne s p hji] at hj
      rw [htext j hji, hpid j hji]
      exact h.wrote j hj

lemma Owned.release (h : Owned s) {p : Phase} (hp : ¬ p.Holds)
    (hphase : t.phase = (s.enter i p).phase) (hpath : ∀ j ≠ i, (s.phase j).Holds → t.path = s.path)
    (htext : t.text = s.text) (hpid : ∀ j ≠ i, t.pid j = s.pid j) : Owned t :=
  h.frame hphase hpath (fun j _ => congrFun htext (.of j)) hpid (fun hh => absurd hh hp)
    fun hw => absurd hw.holds hp

lemma Owned.enter_free (h : Owned s) {p : Phase} (hp : ¬ p.Holds) : Owned (s.enter i p) :=
  h.release hp rfl (fun _ _ _ => rfl) rfl fun _ _ => rfl

lemma Owned.enter (h : Owned s) {p : Phase} (hholds : p.Holds → (s.phase i).Holds)
    (hwrote : p.Wrote → (s.phase i).Wrote) : Owned (s.enter i p) :=
  h.frame rfl (fun _ _ _ => rfl) (fun _ _ => rfl) (fun _ _ => rfl)
    (fun hp => h.holds i (hholds hp)) fun hp => h.wrote i (hwrote hp)

lemma Owned.deliver (h : Owned s) (pid : ℕ) : Owned (s.deliver pid) where
  holds j hj := by
    rcases deliver_phase s pid j with he | ⟨-, he⟩
    · exact h.holds j (he ▸ hj)
    · rw [he] at hj
      exact absurd hj (by decide)
  wrote j hj := by
    rcases deliver_phase s pid j with he | ⟨-, he⟩
    · exact h.wrote j (he ▸ hj)
    · rw [he] at hj
      exact absurd hj (by decide)

/-- **One step** under the condition keeps the file with its owner. -/
lemma Owned.step {a : Act} (hpids : Pids s) (h : Owned s) (hc : Meets s a) (hs : Step s a t) :
    Owned t := by
  cases hs with
  | launch hp hf =>
    exact h.release (by decide) rfl (fun _ _ _ => rfl) rfl fun j hj => by simp [Sys.setPid, hj]
  | «open» hp hf => exact h.enter_free (by simp [Phase.Holds])
  | openFails hp => exact h.enter_free (by decide)
  | @read i f buffer hp hb =>
    refine h.enter_free ?_
    cases readPid buffer <;> simp [afterRead, Phase.Holds]
  | @kill0 i pid ok hp =>
    refine h.enter_free ?_
    cases ok <;> cases s.signals i <;> simp [afterKill, Phase.Holds]
  | signal hp => exact (h.deliver _).enter_free (by decide)
  | @unlinkStale i ok hp =>
    refine h.release (by decide) rfl (fun j _ hj => ?_) rfl fun _ _ => rfl
    cases ok with
    | false => rfl
    | true => exact absurd hj.live (hc rfl j (h.holds j hj))
  | daemonize hp hf =>
    exact h.release (by decide) rfl (fun _ _ _ => rfl) rfl fun j hj => by simp [Sys.setPid, hj]
  | create hp hn =>
    refine h.frame rfl (fun j _ hj => ?_) (fun j hj => by simp [Sys.setText, hj]) (fun _ _ => rfl)
      (fun _ => rfl) fun hp => absurd hp (by decide)
    -- no instance holds a file while there is none
    exact absurd ((h.holds j hj).symm.trans hn) (Option.some_ne_none _)
  | createFails hp => exact absurd hc Bool.false_ne_true
  | @write i n hp =>
    have hlive : (s.phase i).Live := live_of_eq hp (by decide)
    refine h.frame rfl (fun _ _ _ => rfl) (fun j hj => by simp [Sys.setText, hj]) (fun _ _ => rfl)
      (fun _ => h.holds i (hp ▸ by decide)) fun _ => ?_
    have hpid := filePid_pidText (hpids.pos i hlive) (hpids.lt i hlive) hc
    simpa [Sys.setText] using hpid
  | sigprocmask hp => exact h.enter (fun _ => hp ▸ by decide) fun _ => hp ▸ by decide
  | start hp => exact h.enter (fun _ => hp ▸ by decide) fun _ => hp ▸ by decide
  | terminate hp => exact h.enter (fun _ => hp ▸ by decide) fun _ => hp ▸ by decide
  | unlinkPid hp =>
    refine h.release (by decide) rfl (fun j hji hj => ?_) rfl fun _ _ => rfl
    exact absurd (h.unique hj (hp ▸ by decide)) hji

/-! ### Runs -/

lemma Initial.pids (h : Initial s) : Pids s where
  pos i hi := absurd (h.absent i) hi.1
  lt i hi := absurd (h.absent i) hi.1
  distinct i _ hi := absurd (h.absent i) hi.1

lemma Initial.owned (h : Initial s) : Owned s where
  holds i hi := absurd (h.absent i) hi.live.1
  wrote i hi := absurd (h.absent i) hi.holds.live.1

lemma Owned.singleInstance (hpids : Pids s) (h : Owned s) : SingleInstance s where
  reached i hi := by
    have hwrote : (s.phase i).Wrote := hi ▸ by decide
    exact ⟨.of i, i, h.holds i hwrote.holds, hi, h.wrote i hwrote, fun k hk he =>
      hpids.distinct k i hk hwrote.holds.live he⟩
  unique i j hi hj := h.unique (hi ▸ by decide) (hj ▸ by decide)
  own i f hi hf := by
    have hpath := h.holds i (hi ▸ by decide)
    exact Option.some.inj (hf.symm.trans hpath)

/-- **A single instance for the pid file**, wherever a run leads in which every exclusive open
succeeds and its write takes the digits, and no stale file is unlinked that is by then the file of
a live instance. -/
theorem single_instance {s₀ s : Sys} (h₀ : Initial s₀)
    (h : Relation.ReflTransGen (Guarded Step Meets) s₀ s) : SingleInstance s := by
  obtain ⟨hpids, howned⟩ := guarded_inv_and (R := Step) (C := Meets) (I := Pids) (J := Owned)
    (fun _ _ _ hI hs => hI.step hs) (fun _ _ _ hI hJ hc hs => hJ.step hI hc hs)
    h₀.pids h₀.owned h
  exact howned.singleInstance hpids

/-- Out of the condition: an instance that comes to the exclusive open while another runs may come
to run beside it. -/
theorem runs_beside {s : Sys} {i j : ℕ} (hij : i ≠ j) (hi : s.phase i = .running)
    (hj : s.phase j = .create) :
    ∃ t, Relation.ReflTransGen (Guarded Step fun _ _ => True) s t ∧
      t.phase i = .running ∧ t.phase j = .running := by
  refine ⟨_, .head ⟨.create j false, trivial, .createFails hj⟩ <|
    .head ⟨.sigprocmask j true, trivial, .sigprocmask (enter_self _ _ _)⟩ <|
    .head ⟨.start j true, trivial, .start (enter_self _ _ _)⟩ .refl, ?_, enter_self _ _ _⟩
  rw [enter_ne _ _ hij, enter_ne _ _ hij, enter_ne _ _ hij]
  exact hi

/-- No instance, and the file that one has left behind. -/
def leftBehind : Sys :=
  ⟨some .old, fun _ => pidText 70, fun _ => .absent, fun _ => 0, fun _ => false, fun _ => false⟩

lemma leftBehind_initial : Initial leftBehind := ⟨fun _ => rfl, fun _ h => by cases h⟩

lemma leftBehind_fresh : Fresh leftBehind 100 := ⟨by decide, by decide, fun _ hj => absurd rfl hj.1⟩

lemma length_hundred : (numeral 100).length ≤ 4 := by decide

theorem stale_file_replaced : ∃ s, Relation.ReflTransGen (Guarded Step Meets) leftBehind s ∧
    s.phase 0 = .running ∧ s.pid 0 = 100 ∧ SingleInstance s := by
  have hrun : ∃ s, Relation.ReflTransGen (Guarded Step Meets) leftBehind s ∧
      s.phase 0 = .running ∧ s.pid 0 = 100 :=
    ⟨_, .head ⟨.launch 0 100 false false, trivial, .launch rfl leftBehind_fresh⟩ <|
      .head ⟨.open 0 true, trivial, .open rfl rfl⟩ <|
      .head ⟨.read 0 (pidText 70), trivial, .read rfl (by decide)⟩ <|
      .head ⟨.kill0 0 false, trivial, .kill0 rfl⟩ <|
      .head ⟨.unlinkStale 0 true, fun _ _ hj => (by cases hj), .unlinkStale rfl⟩ <|
      .head ⟨.daemonize 0 100, trivial, .daemonize rfl (Or.inl rfl)⟩ <|
      .head ⟨.create 0 true, rfl, .create rfl rfl⟩ <|
      .head ⟨.write 0 4, length_hundred, .write rfl⟩ <|
      .head ⟨.sigprocmask 0 true, trivial, .sigprocmask rfl⟩ <|
      .head ⟨.start 0 true, trivial, .start rfl⟩ .refl, rfl, rfl⟩
  obtain ⟨s, hs, hphase, hpid⟩ := hrun
  exact ⟨s, hs, hphase, hpid, single_instance leftBehind_initial hs⟩

def noFile : Sys := { leftBehind with path := none }

lemma noFile_fresh : Fresh noFile 100 := ⟨by decide, by decide, fun _ hj => absurd rfl hj.1⟩

lemma fresh_beside {s : Sys}
    (h : s.pid = Function.update (Function.update (fun _ => 0) 0 100) 0 100) : Fresh s 101 := by
  refine ⟨by decide, by decide, fun j _ => ?_⟩
  rw [h, Function.update_idem]
  by_cases hj : j = 0 <;> simp [hj]

/-- Two instances started one after the other run side by side, and as the second terminates it
takes the file of the first away. -/
theorem second_start_runs : Initial noFile ∧
    ∃ s t, Relation.ReflTransGen (Guarded Step fun _ _ => True) noFile s ∧
      Relation.ReflTransGen (Guarded Step fun _ _ => True) s t ∧
      (s.phase 0 = .running ∧ s.phase 1 = .running ∧ ¬ SingleInstance s) ∧
      t.phase 0 = .running ∧ t.path = none ∧ ¬ SingleInstance t := by
  have hrun : ∃ s t, Relation.ReflTransGen (Guarded Step fun _ _ => True) noFile s ∧
      Relation.ReflTransGen (Guarded Step fun _ _ => True) s t ∧
      (s.phase 0 = .running ∧ s.phase 1 = .running) ∧ t.phase 0 = .running ∧ t.path = none :=
    ⟨_, _, .head ⟨.launch 0 100 false false, trivial, .launch rfl noFile_fresh⟩ <|
      .head ⟨.open 0 false, trivial, .openFails rfl⟩ <|
      .head ⟨.daemonize 0 100, trivial, .daemonize rfl (Or.inl rfl)⟩ <|
      .head ⟨.create 0 true, trivial, .create rfl rfl⟩ <|
      .head ⟨.write 0 4, trivial, .write rfl⟩ <|
      .head ⟨.sigprocmask 0 true, trivial, .sigprocmask rfl⟩ <|
      .head ⟨.start 0 true, trivial, .start rfl⟩ <|
      .head ⟨.launch 1 101 false false, trivial, .launch rfl (fresh_beside rfl)⟩ <|
      .head ⟨.open 1 true, trivial, .open rfl rfl⟩ <|
      .head ⟨.read 1 (pidText 100), trivial, .read rfl (by decide)⟩ <|
      -- the first instance is alive, and the second goes on
      .head ⟨.kill0 1 true, trivial, .kill0 rfl⟩ <|
      .head ⟨.daemonize 1 101, trivial, .daemonize rfl (Or.inl rfl)⟩ <|
      .head ⟨.create 1 false, trivial, .createFails rfl⟩ <|
      .head ⟨.sigprocmask 1 true, trivial, .sigprocmask rfl⟩ <|
      .head ⟨.start 1 true, trivial, .start rfl⟩ .refl,
      .head ⟨.terminate 1, trivial, .terminate rfl⟩ <|
      .head ⟨.unlinkPid 1 true, trivial, .unlinkPid rfl⟩ .refl, ⟨rfl, rfl⟩, rfl, rfl⟩
  obtain ⟨s, t, hs, ht, ⟨h₀, h₁⟩, h, hpath⟩ := hrun
  refine ⟨⟨fun _ => rfl, fun _ h => by cases h⟩, s, t, hs, ht, ⟨h₀, h₁, fun hsingle => ?_⟩, h,
    hpath, fun hsingle => ?_⟩
  · exact absurd (hsingle.unique 0 1 h₀ h₁) (by decide)
  · obtain ⟨f, -, hf, -⟩ := hsingle.reached 0 h
    exact absurd (hpath.symm.trans hf) (Option.some_ne_none _).symm

end Gpiod.PidFile
