import Gpiod.Argv
import Gpiod.LoopOps
import Gpiod.PinLabel
import Gpiod.TabMods

/-!
From a tab line to the vector its hook is launched with.

A line of a label, modifiers, a path and arguments is taken apart into just these, and the entries
made of the arguments are put together again where the hook is launched. A list of modifiers that
single commas separate is one stretch free of blanks, so the loop over it ends right behind it,
also where the eight-bit length keeps it from seeing all the names. What stands for the label of
the pin is the string at its array, and so the label that is configured only where that fits.
-/

namespace Gpiod.Fidelity

open Gpiod.Pin Gpiod.TabScan Gpiod.TabField Gpiod.TabMods Gpiod.TabArgs Gpiod.TabRoute Gpiod.Argv
open Gpiod.Changed Gpiod.Dispatch Gpiod.Loop Gpiod.LoopOps Gpiod.Machine
open Gpiod.Config (arraySize)
open Gpiod.PinLabel (Label Labelled)
open Gpiod.TabBuffer (Short loadLine_eq tabHook_of_cuts)
open Gpiod.TabWords (Tail scan scan_seen scan_cut stops_of_blanks cuts_of_scan)

/-! ### Lines -/

/-- A token, which the buffer has room for. -/
structure Token where
  text : Str
  solid : Solid text
  ne : text ≠ []
  short : text.length < gpiodTabMaxArgumentLength

/-- The spaces and tabs between two fields. -/
structure Sep where
  text : Str
  blanks : Blanks text
  ne : text ≠ []

/-- One of `$@`, `$%` and `$&`, or a token that does not begin with a dollar sign. -/
inductive Arg
  | label
  | eventText
  | eventNum
  | plain (t : Token) (h : t.text.head? ≠ some 0x24)

def Arg.text : Arg → Str
  | .label => bytes "$@"
  | .eventText => bytes "$%"
  | .eventNum => bytes "$&"
  | .plain t _ => t.text

/-- What the argument stands for at an event of the pin. -/
def Arg.value (label : Str) (rising : Bool) : Arg → Str
  | .label => label
  | .eventText => if rising then bytes "RISE" else bytes "FALL"
  | .eventNum => if rising then bytes "1" else bytes "0"
  | .plain t _ => t.text

def argsText : List (Sep × Arg) → Str
  | [] => []
  | (sep, a) :: args => sep.text ++ (a.text ++ argsText args)

/-- Blanks and line ends only. -/
def White (s : Str) : Prop := ∀ c ∈ s, isSpace c = true

instance (s : Str) : Decidable (White s) := List.decidableBAll _ s

/-- A tab line: blanks, the fields, and white space behind the last of them. -/
structure ArgLine where
  lead : Str
  label : Token
  sep : Sep
  first : ModName
  further : List ModName
  sep' : Sep
  path : Token
  args : List (Sep × Arg)
  trail : Str
  lead_blanks : Blanks lead
  path_ne_comma : path.text.head? ≠ some 0x2c
  args_le : args.length ≤ 254
  trail_white : White trail

namespace ArgLine

/-- The text behind the modifiers. -/
def tail (l : ArgLine) : Str := l.path.text ++ (argsText l.args ++ l.trail)

def text (l : ArgLine) : Str :=
  l.lead ++ (l.label.text ++ (l.sep.text ++ (fieldText l.first (l.further.map behindComma) ++
    (l.sep'.text ++ l.tail))))

/-- The vector that the hook of the line is to be launched with. -/
def argv (l : ArgLine) (label : Str) (rising : Bool) : List (Option Str) :=
  some l.path.text :: l.args.map (fun a => some (a.2.value label rising)) ++ [none]

end ArgLine

/-! ### The fields -/

lemma Token.keep_text (t : Token) : keep t.text = t.text :=
  keep_of_lt (Nat.lt_trans t.short (by decide))

/-- **The loop ends behind the modifiers**, whether it sees their commas or not. -/
lemma scan_ends (n : ModName) (ns : List ModName) :
    (scan n.word ((ns.map behindComma).map Further.toWord)).1.ends = true ∧
      (scan n.word ((ns.map behindComma).map Further.toWord)).2.ends = true := by
  induction ns generalizing n with
  | nil => exact ⟨rfl, rfl⟩
  | cons n' ns ih =>
    obtain ⟨ih1, ih2⟩ := ih n'
    have hbehind : (scan n.word (((n' :: ns).map behindComma).map Further.toWord)).2.ends =
        true := by
      simpa [scan, behindComma, Further.toWord] using ih2
    refine ⟨?_, hbehind⟩
    simp only [List.map_cons] at hbehind ⊢
    by_cases hc : TabWords.CommaSeen n.word (behindComma n').toWord
        ((ns.map behindComma).map Further.toWord)
    · rw [scan_seen hc (known_text n)]
      exact ih1
    · rw [scan_cut hc (known_take n _)]
      exact hbehind

lemma words_short (n : ModName) (fs : List Further) :
    ∀ w ∈ (words n fs).1, w.length < gpiodTabMaxArgumentLength := by
  intro w hw
  obtain ⟨m, -, hm⟩ := (words_begin_name n fs).1 w hw
  obtain ⟨k, hk, rfl⟩ := eq_take_of_begin hm
  rw [List.length_take]
  simp only [gpiodTabMaxArgumentLength]
  omega

lemma tokens_trail {trail : Str} (h : White trail) (stale : Mem) :
    Tokens (trail ++ 0 :: stale) [] := by
  have hsplit := List.takeWhile_append_dropWhile (p := isBlank) (l := trail)
  have hb := blanks_takeWhile trail
  rw [← hsplit, List.append_assoc]
  cases hd : trail.dropWhile isBlank with
  | nil => exact .done hb (Or.inl rfl) (by decide)
  | cons r x =>
    have hr : isBlank r = false := by
      have := List.head_dropWhile_not isBlank (l := trail) (by rw [hd]; simp)
      simpa only [hd, List.head_cons] using this
    have hmem : r ∈ trail := by
      rw [← hsplit, hd]
      simp
    exact .done hb (Or.inr (h r hmem)) hr

lemma Arg.solid (a : Arg) : Solid a.text := by
  cases a with
  | plain t h => exact t.solid
  | _ => decide

lemma Arg.text_ne (a : Arg) : a.text ≠ [] := by
  cases a with
  | plain t h => exact t.ne
  | _ => decide

lemma Arg.short (a : Arg) : a.text.length < gpiodTabMaxArgumentLength := by
  cases a with
  | plain t h => exact t.short
  | _ => decide

/-- Tokens with a separator in front of each. -/
def spacedText : List (Sep × Str) → Str
  | [] => []
  | (sep, p) :: ps => sep.text ++ (p ++ spacedText ps)

lemma tokens_spaced {trail : Str} (h : White trail) (stale : Mem) {ps : List (Sep × Str)}
    (hps : ∀ q ∈ ps, Solid q.2 ∧ q.2 ≠ []) :
    ∀ {b p : Str}, Blanks b → Solid p → p ≠ [] →
      Tokens (b ++ (p ++ (spacedText ps ++ (trail ++ 0 :: stale)))) (p :: ps.map Prod.snd) := by
  induction ps with
  | nil =>
    intro b p hb hp hne
    obtain ⟨r, m, hm, hr⟩ := stop_behind (fun r hr => Or.inr (h r (List.mem_of_mem_head? hr))) stale
    have hend := tokens_trail h stale
    rw [hm] at hend
    rw [spacedText, List.nil_append, hm]
    exact .token hb hp hne hr hend
  | cons q ps ih =>
    intro b p hb hp hne
    obtain ⟨sep, q⟩ := q
    obtain ⟨⟨hsolid, hq⟩, hrest⟩ := List.forall_mem_cons.mp hps
    obtain ⟨r, m, hm, hr⟩ := stops_of_blanks sep.blanks sep.ne
      (q ++ (spacedText ps ++ (trail ++ 0 :: stale)))
    have htokens := ih hrest sep.blanks hsolid hq
    rw [hm] at htokens
    simp only [spacedText, List.append_assoc]
    rw [hm]
    exact .token hb hp hne hr htokens

lemma tail_spaced {trail : Str} (h : White trail) (stale : Mem) (sep : Sep) {p : Str} (hp : Solid p)
    (hne : p ≠ []) (hcomma : p.head? ≠ some 0x2c) {ps : List (Sep × Str)}
    (hps : ∀ q ∈ ps, Solid q.2 ∧ q.2 ≠ []) :
    Tail (sep.text ++ (p ++ (spacedText ps ++ (trail ++ 0 :: stale)))) (p :: ps.map Prod.snd) := by
  obtain ⟨r, s, hsep⟩ := List.exists_cons_of_ne_nil sep.ne
  obtain ⟨c, x, rfl⟩ := List.exists_cons_of_ne_nil hne
  have hc : isBlank c = false := not_blank_of_not_space (hp c List.mem_cons_self).2
  have htokens := tokens_spaced h stale hps (b := []) (by simp [Blanks]) hp hne
  rw [hsep]
  exact .mk (hsep ▸ sep.blanks) hc (fun he => hcomma (he ▸ rfl)) htokens

lemma argsText_eq (args : List (Sep × Arg)) :
    argsText args = spacedText (args.map fun a => (a.1, a.2.text)) := by
  induction args with
  | nil => rfl
  | cons a args ih => rw [argsText, ih]; rfl

lemma ArgLine.tail_tokens (l : ArgLine) (stale : Mem) :
    Tail (l.sep'.text ++ (l.tail ++ 0 :: stale)) (l.path.text :: l.args.map fun a => a.2.text) := by
  have hsolid : ∀ q ∈ l.args.map fun a => (a.1, a.2.text), Solid q.2 ∧ q.2 ≠ [] := by
    intro q hq
    obtain ⟨a, -, rfl⟩ := List.mem_map.mp hq
    exact ⟨a.2.solid, a.2.text_ne⟩
  have htail := tail_spaced l.trail_white stale l.sep' l.path.solid l.path.ne l.path_ne_comma hsolid
  rw [ArgLine.tail, argsText_eq]
  simpa [Function.comp_def] using htail

/-! ### The hook of a line -/

/-- The hook with flags `g` that is made of the line. -/
def ArgLine.hook (l : ArgLine) (g : ℕ) : GpiodHook :=
  hookOf g (l.path.text :: l.args.map fun a => a.2.text)

lemma ArgLine.token_text (l : ArgLine) :
    firstToken l.text = l.label.text ∧ afterToken l.text = l.sep.text ++
      (fieldText l.first (l.further.map behindComma) ++ (l.sep'.text ++ l.tail)) := by
  obtain ⟨r, x, hrx, hr⟩ := stops_of_blanks l.sep.blanks l.sep.ne
    (fieldText l.first (l.further.map behindComma) ++ (l.sep'.text ++ l.tail))
  rw [ArgLine.text, hrx]
  exact firstToken_piece l.lead_blanks l.label.solid l.label.ne hr x

lemma ArgLine.short (l : ArgLine) : Short (words l.first (l.further.map behindComma)).1
    (l.path.text :: l.args.map fun a => a.2.text) := by
  refine ⟨words_short _ _, List.forall_mem_cons.mpr ⟨?_, fun t ht => ?_⟩⟩
  · exact (Nat.mod_le _ _).trans_lt l.path.short
  · obtain ⟨a, -, rfl⟩ := List.mem_map.mp ht
    exact (Nat.mod_le _ _).trans_lt a.2.short

/-- **A line is taken apart** into its words and its tokens, whatever stands behind its NUL. -/
lemma ArgLine.cuts_tokens (l : ArgLine) (stale : Mem) :
    ∃ y, Cuts (afterToken l.text ++ 0 :: stale) (words l.first (l.further.map behindComma)).1 y ∧
      Tokens y (l.path.text :: l.args.map fun a => a.2.text) := by
  obtain ⟨extra, y, hcuts, htok, hiff⟩ := cuts_of_scan l.sep.blanks l.first.word
    ((l.further.map behindComma).map Further.toWord) (l.tail_tokens stale)
  rw [hiff.mpr (scan_ends _ _).1, List.nil_append] at htok
  rw [(scan_read _ _).1] at hcuts
  have hmem : afterToken l.text ++ 0 :: stale = l.sep.text ++
      (TabWords.fieldText l.first.word ((l.further.map behindComma).map Further.toWord) ++
        (l.sep'.text ++ (l.tail ++ 0 :: stale))) := by
    rw [l.token_text.2]
    simp [fieldText]
  rw [hmem]
  exact ⟨y, hcuts, htok⟩

/-- **The hook of a line**: its path and its arguments, whatever stands behind its NUL. -/
lemma tabHook_line (l : ArgLine) (stale : Mem) :
    ∃ g, TabBuffer.tabHook (afterToken l.text ++ 0 :: stale) = .ok (l.hook g) := by
  obtain ⟨y, hcuts, htok⟩ := l.cuts_tokens stale
  exact ⟨_, tabHook_of_cuts hcuts htok l.short⟩

lemma loadLine_text (l : ArgLine) (gp_list : List GpioPin) (stale : Mem) :
    ∃ g, TabBuffer.loadLine gp_list (l.text ++ 0 :: stale) =
      .ok (match findPinByLabel gp_list l.label.text with
        | none => gp_list
        | some k => gp_list.modify k (·.addHook (l.hook g))) := by
  obtain ⟨g, hg⟩ := tabHook_line l stale
  refine ⟨g, loadLine_eq.mpr ?_⟩
  rw [l.token_text.1, l.label.keep_text]
  refine ⟨(Nat.mod_le _ _).trans_lt l.label.short, ?_⟩
  cases findPinByLabel gp_list l.label.text with
  | none => rfl
  | some k => exact ⟨_, hg, rfl⟩

lemma argvSlot_entry (a : Arg) (label : Str) (rising : Bool) :
    argvSlot label (if rising then GpiodEdge.rising.code else GpiodEdge.falling.code)
      (entry a.text) = some (a.value label rising) := by
  cases a with
  | label => rfl
  | eventText => cases rising <;> rfl
  | eventNum => cases rising <;> rfl
  | plain t h => simp [entry, t.keep_text, Arg.text, mkArg, t.ne, h, argvSlot, Arg.value]

/-- **The vector of the hook of a line.** -/
lemma hookArgv_hook (l : ArgLine) (g : ℕ) (label : Str) (rising : Bool) :
    hookArgv label (if rising then GpiodEdge.rising.code else GpiodEdge.falling.code) (l.hook g) =
      l.argv label rising := by
  have hlast : ∀ event, argvSlot label event terminator = none := fun _ => rfl
  simp [hookArgv, ArgLine.hook, hookOf, entries, ArgLine.argv, l.path.keep_text, hlast,
    argvSlot_entry, Function.comp_def]

lemma formArgv_hook (l : ArgLine) (g : ℕ) (label : Str) (event : ℤ) :
    formArgv label event (l.hook g) = some ((hookArgv label event (l.hook g)).map some) := by
  refine formArgv_full label event ?_
  have hle := l.args_le
  have hlen : (entries (l.args.map fun a => a.2.text)).length = l.args.length + 1 := by
    simp [entries]
  show (entries _).length % 256 = (entries _).length
  rw [hlen]
  omega

/-! ### Runs -/

/-- A pin of this label has the hook at a position, launched or not. -/
def Carries (r : HookRef) (label : Str) (hook : GpiodHook) (d : Daemon) : Prop :=
  ∃ hooks fired spawned, d.gp_list[r.pin]?.map view = some (label, hooks) ∧
    hooks[r.hook]? = some { hook with fired := fired, spawned := spawned }

variable {r : HookRef} {label : Str} {hook : GpiodHook}

lemma Carries.of_sameHooks {d d' : Daemon} (h : Carries r label hook d) (hs : SameHooks d' d) :
    Carries r label hook d' := by
  obtain ⟨hooks, fired, spawned, hv, hh⟩ := h
  exact ⟨hooks, fired, spawned, (hs.pins r.pin).trans hv, hh⟩

lemma Carries.dispatchHooks {d : Daemon} (h : Carries r label hook d) (i : ℕ) (event : ℤ)
    (x : Returns) : Carries r label hook (dispatchHooks d i event x.exec) := by
  obtain ⟨hooks, fired, spawned, hv, hh⟩ := h
  by_cases hi : i = r.pin
  · subst hi
    obtain ⟨pin, hp, hview⟩ := Option.map_eq_some_iff.mp hv
    cases hview
    have hafter := dispatchLoop_hook pin.label event x 0 pin.hook_list r.hook
    rw [hh, Option.map_some] at hafter
    rcases settle_cases event (x.exec (0 + r.hook))
      { hook with fired := fired, spawned := spawned } with ⟨-, -, hs⟩ | hs <;> rw [hs] at hafter
    · exact ⟨_, 1, _, by simp [Dispatch.dispatchHooks, hp, view, dispatchPin], hafter⟩
    · exact ⟨_, fired, spawned, by simp [Dispatch.dispatchHooks, hp, view, dispatchPin], hafter⟩
  · refine ⟨hooks, fired, spawned, ?_, hh⟩
    rw [getElem?_dispatchHooks_ne d hi]
    exact hv

lemma Carries.onSigchld {d : Daemon} (h : Carries r label hook d) (ssi_pid pid : ℤ) :
    Carries r label hook (onSigchld d ssi_pid pid) := by
  obtain ⟨hooks, fired, spawned, hv, hh⟩ := h
  unfold Dispatch.onSigchld hookClearSpawned
  split
  · cases Table.find d.pid_list ssi_pid with
    | none => exact ⟨hooks, fired, spawned, hv, hh⟩
    | some q =>
      obtain ⟨pin, hp, hview⟩ := Option.map_eq_some_iff.mp hv
      cases hview
      by_cases hpin : q.pin = r.pin
      · by_cases hhook : q.hook = r.hook
        · exact ⟨_, fired, -1, by simp [hpin, hp, view]; rfl, by simp [hhook, hh, cleared]⟩
        · exact ⟨_, fired, spawned, by simp [hpin, hp, view]; rfl, by simp [hhook, hh]⟩
      · exact ⟨_, fired, spawned, by simp [hpin, hp, view], hh⟩
  · exact ⟨hooks, fired, spawned, hv, hh⟩

lemma Carries.step {s : LoopState} (h : Carries r label hook s.daemon) (sign : CharSign)
    (st : Step) : Carries r label hook (step sign s st).1.daemon := by
  cases st with
  | epollWait => exact h
  | other => exact h
  | sigchld ssi_pid pid => exact h.onSigchld ssi_pid pid
  | handle src i reads x =>
    simp only [Loop.step, handlePin]
    cases s.daemon.gp_list[i]? with
    | none => exact h
    | some pin =>
      have hset := h.of_sameHooks
        (sameHooks_setValue s.daemon i (changed sign pin reads).value_)
      simp only
      split
      · exact hset.dispatchHooks i _ x
      · exact hset

lemma record_calls {sign : CharSign} {s : LoopState} {st : Step} {rec : Record}
    (h : rec ∈ (step sign s st).2) : ∃ (d : Daemon) (x : Returns), SameHooks d s.daemon ∧
      rec.calls = (dispatchPin d rec.pin rec.event x.exec).calls := by
  cases st with
  | handle src i reads x =>
    simp only [Loop.step, handlePin] at h
    cases hp : s.daemon.gp_list[i]? with
    | none =>
      rw [hp] at h
      cases h
    | some pin =>
      simp only [hp] at h
      split at h
      · obtain rfl := List.mem_singleton.mp h
        exact ⟨_, x, sameHooks_setValue s.daemon i (changed sign pin reads).value_, rfl⟩
      · cases h
  | _ => cases h

/-- A hook is launched at a rising or a falling event only. -/
lemma rising_or_falling {hook : GpiodHook} {event : ℤ} (h : runs hook event = true) :
    ∃ rising : Bool, event = if rising then GpiodEdge.rising.code else GpiodEdge.falling.code := by
  simp only [runs, Bool.and_eq_true] at h
  have happ := h.2
  unfold applicable at happ
  split at happ
  · next he => exact ⟨true, he⟩
  · split at happ
    · next he => exact ⟨false, he⟩
    · cases happ

/-- **A call for the hook of a line** has the path of the line and its vector. -/
lemma Carries.call {l : ArgLine} {g : ℕ} {d : Daemon} (h : Carries r label (l.hook g) d)
    {event : ℤ} {x : Returns} {call : Call}
    (hcall : call ∈ (dispatchPin d r.pin event x.exec).calls) (hr : call.hook = r.hook) :
    ∃ rising : Bool, (event = if rising then GpiodEdge.rising.code else GpiodEdge.falling.code) ∧
        call.path = l.path.text ∧ call.argv = l.argv label rising := by
  obtain ⟨hooks, fired, spawned, hv, hh⟩ := h
  rw [dispatchPin_view, hv, Option.map_some, Option.getD_some, mem_dispatchLoop_calls] at hcall
  obtain ⟨k, hook, hk, hruns, rfl⟩ := hcall
  rw [Nat.zero_add] at hr
  have hk' : k = r.hook := hr
  rw [hk', hh] at hk
  cases hk
  obtain ⟨rising, rfl⟩ := rising_or_falling hruns
  exact ⟨rising, rfl, l.path.keep_text, hookArgv_hook l g label rising⟩

/-- A hook attached to a pin is carried behind the hooks the pin had, whatever is attached after
it. -/
lemma carries_of_extends {gp_list : List GpioPin} {k : ℕ} {pin : GpioPin} {hook : GpiodHook}
    {d : Daemon} (hp : gp_list[k]? = some pin)
    (h : Extends (gp_list.modify k (·.addHook hook)) d.gp_list) :
    Carries ⟨k, pin.hook_list.length⟩ pin.label hook d := by
  obtain ⟨new, hnew⟩ := h.2 k (pin.addHook hook) (by simp [hp])
  refine ⟨pin.hook_list ++ [hook] ++ new, hook.fired, hook.spawned, ?_, by simp⟩
  rw [hnew]
  rfl

/-! ### From the line to `exec_start` -/

/-- The launch is the one the line asks for, at an event of a pin of this label. -/
structure AsWritten (l : ArgLine) (label : Str) (event : ℤ) (call : Call) : Prop where
  path : call.path = l.path.text
  argv : ∃ rising : Bool,
    (event = if rising then GpiodEdge.rising.code else GpiodEdge.falling.code) ∧
      call.argv = l.argv label rising

/-- In every run of the loop that starts with these hooks, and with those of any further lines,
the property holds of every call of `exec_start` for the hook at a position. -/
def EveryLaunch (gp_list : List GpioPin) (r : HookRef) (P : ℤ → Call → Prop) : Prop :=
  ∀ (sign : CharSign) (d : Daemon), Extends gp_list d.gp_list → ∀ (batches : List (List Ready)),
    ∀ rec ∈ records sign d batches, rec.pin = r.pin → ∀ call ∈ rec.calls, call.hook = r.hook →
      P rec.event call

/-- One of the arguments is `$@`. -/
def UsesLabel (l : ArgLine) : Prop := ∃ sep, (sep, Arg.label) ∈ l.args

lemma argv_eq_iff (l : ArgLine) (label label' : Str) (rising : Bool) :
    l.argv label rising = l.argv label' rising ↔ ¬ UsesLabel l ∨ label = label' := by
  have hmap : l.argv label rising = l.argv label' rising ↔
      ∀ a ∈ l.args, a.2.value label rising = a.2.value label' rising := by
    simp [ArgLine.argv, List.map_inj_left]
  rw [hmap]
  constructor
  · intro h
    rw [or_iff_not_imp_left, not_not]
    rintro ⟨sep, hmem⟩
    exact h _ hmem
  · rintro (hno | rfl) ⟨sep, a⟩ hmem
    · cases a with
      | label => exact absurd ⟨sep, hmem⟩ hno
      | _ => rfl
    · rfl

/-- Every call for the hook of a line has the vector of the line, with the label as it is read. -/
lemma everyLaunch_read (l : ArgLine) {gp_list : List GpioPin} {k : ℕ} {pin : GpioPin} {g : ℕ}
    (hk : gp_list[k]? = some pin) :
    EveryLaunch (gp_list.modify k (·.addHook (l.hook g))) ⟨k, pin.hook_list.length⟩
      fun event call => AsWritten l pin.label event call ∧
        formArgv pin.label event (l.hook g) = some (call.argv.map some) := by
  intro sign d hd batches rec hrec hpin call hcall hj
  obtain ⟨⟨s, st⟩, hs, hmem⟩ := mem_outputs.mp hrec
  have hcarries := visits_inv
    (I := fun s => Carries ⟨k, pin.hook_list.length⟩ pin.label (l.hook g) s.daemon)
    (fun s st h => h.step sign st) (carries_of_extends hk hd) _ _ hs
  obtain ⟨d', x, hsame, hcalls⟩ := record_calls hmem
  rw [hcalls, hpin] at hcall
  obtain ⟨rising, hevent, hpath, hargv⟩ := (hcarries.of_sameHooks hsame).call hcall hj
  refine ⟨⟨hpath, rising, hevent, hargv⟩, ?_⟩
  rw [hevent, formArgv_hook, hookArgv_hook, hargv]

lemma AsWritten.iff_label {l : ArgLine} {label : Str} {event : ℤ} {call : Call}
    (h : AsWritten l label event call) (label' : Str) :
    AsWritten l label' event call ↔ ¬ UsesLabel l ∨ label = label' := by
  obtain ⟨hpath, rising, hevent, hargv⟩ := h
  constructor
  · rintro ⟨-, rising', hevent', hargv'⟩
    have hrising : rising' = rising := by
      revert hevent hevent'
      cases rising <;> cases rising' <;> rintro rfl h <;> first | rfl | cases h
    exact (argv_eq_iff l label label' rising).mp (hargv.symm.trans (hrising ▸ hargv'))
  · intro hlabel
    exact ⟨hpath, rising, hevent, hargv.trans ((argv_eq_iff l label label' rising).mpr hlabel)⟩

/-- **From the line to `exec_start`**: the line is loaded, to a pin whose label begins with its own
if there is one. In every run of the loop that starts with its hook there, and with those of any
further lines, every call of `exec_start` for the hook is the one the line asks for exactly if the
line does not ask for the label of the pin, or the array of the pin holds it. -/
theorem argv_iff (l : ArgLine) {labels : List Label} {gp_list : List GpioPin}
    (hl : Labelled labels gp_list) (stale : Mem) :
    ∃ gp_list', TabBuffer.loadLine gp_list (l.text ++ 0 :: stale) = .ok gp_list' ∧
      (∀ label ∈ labels, l.label.text <+: label.read → gp_list' ≠ gp_list) ∧
      ∀ (k : ℕ) (pin : GpioPin) (label : Label) (hook : GpiodHook), gp_list[k]? = some pin →
        labels[k]? = some label → gp_list'[k]? = some (pin.addHook hook) →
          EveryLaunch gp_list' ⟨k, pin.hook_list.length⟩ fun event call =>
            formArgv pin.label event hook = some (call.argv.map some) ∧
              (AsWritten l label.text.val event call ↔ ¬ UsesLabel l ∨
                label.text.val.length < arraySize ∨
                  label.text.val.drop arraySize = label.behind.takeWhile (· != 0)) := by
  obtain ⟨g, hload⟩ := loadLine_text l gp_list stale
  refine ⟨_, hload, ?_, ?_⟩
  · intro label hmem hpre
    obtain ⟨i, hi⟩ := List.mem_iff_getElem?.mp hmem
    obtain ⟨pin, hpin, hread⟩ := PinLabel.pin_of_label hl hi
    obtain ⟨k, hk⟩ := Option.ne_none_iff_exists'.mp fun hnone =>
      findPinByLabel_none hnone pin (List.mem_of_getElem? hpin) (hread ▸ hpre)
    obtain ⟨pink, hkget, -⟩ := findPinByLabel_some hk
    rw [hk]
    intro hsame
    have hat := congrArg (·[k]?) hsame
    simp only [List.getElem?_modify, hkget] at hat
    exact addHook_ne pink _ (by simpa using hat)
  · intro k pin label hook hpin hlabel hadd
    obtain ⟨pin', hpin', hread⟩ := PinLabel.pin_of_label hl hlabel
    cases hpin.symm.trans hpin'
    cases hf : findPinByLabel gp_list l.label.text with
    | none =>
      rw [hf] at hadd
      exact absurd (Option.some.inj (hpin.symm.trans hadd)).symm (addHook_ne pin hook)
    | some k' =>
      rw [hf] at hadd
      dsimp only at hadd ⊢
      rw [List.getElem?_modify, hpin] at hadd
      split at hadd
      · next hk =>
        obtain rfl := hk
        obtain rfl : l.hook g = hook := by simpa [GpioPin.addHook] using hadd
        intro sign d hd batches rec hrec hat call hcall hj
        obtain ⟨hwritten, harray⟩ := everyLaunch_read l hpin sign d hd batches rec hrec hat call
          hcall hj
        refine ⟨harray, ?_⟩
        rw [hwritten.iff_label, hread, label.read_eq_text_iff]
      · exact absurd (by simpa using hadd) (addHook_ne pin hook).symm

lemma blanks_blank : Blanks (bytes " ") := by decide

lemma solid_label : Solid (bytes "WD0") ∧ (bytes "WD0").length < gpiodTabMaxArgumentLength := by
  decide

lemma solid_path :
    Solid (bytes "/bin/a") ∧ (bytes "/bin/a").length < gpiodTabMaxArgumentLength := by
  decide

lemma solid_word : Solid (bytes "x") ∧ (bytes "x").length < gpiodTabMaxArgumentLength := by decide

lemma white_newline : White (bytes "\n") := by decide

lemma head?_path : (bytes "/bin/a").head? ≠ some 0x2c := by decide

lemma head?_word : (bytes "x").head? ≠ some 0x24 := by decide

def blank : Sep := ⟨bytes " ", blanks_blank, List.cons_ne_nil _ _⟩

def placeholderLine : ArgLine where
  lead := []
  label := ⟨bytes "WD0", solid_label.1, List.cons_ne_nil _ _, solid_label.2⟩
  sep := blank
  first := .edgeBoth
  further := [.noLoop]
  sep' := blank
  path := ⟨bytes "/bin/a", solid_path.1, List.cons_ne_nil _ _, solid_path.2⟩
  args := [(blank, .label), (blank, .eventText), (blank, .plain
    ⟨bytes "x", solid_word.1, List.cons_ne_nil _ _, solid_word.2⟩ head?_word)]
  trail := bytes "\n"
  lead_blanks _ h := absurd h List.not_mem_nil
  path_ne_comma := head?_path
  args_le := Nat.le_of_ble_eq_true rfl
  trail_white := white_newline

def placeholderHook : GpiodHook :=
  ⟨bytes "/bin/a", 7, 0, -1, 4,
    [⟨.label, none⟩, ⟨.eventText, none⟩, ⟨.max, some (bytes "x")⟩, ⟨.max, none⟩]⟩

/-- The pin of the line with the hook of the line. -/
def wd0Loaded : Daemon := ⟨wd0.modify 0 (·.addHook placeholderHook), []⟩

/-- The value of the pin has risen. -/
def riseReady : Ready := .pin 0 ⟨.byte 0x31, .fails, .fails, ⟨7, 0⟩⟩ noExec

lemma wd0_text : 0 ∉ bytes "WD0" := by decide

def wd0Label : Label :=
  ⟨⟨bytes "WD0", wd0_text⟩, ⟨List.replicate arraySize 0, List.length_replicate⟩, []⟩

theorem argv_of_placeholderLine :
    ∃ rec ∈ records .signed wd0Loaded [[riseReady]], ∃ call ∈ rec.calls,
      AsWritten placeholderLine (bytes "WD0") rec.event call ∧
        call.argv = [bytes "/bin/a", bytes "WD0", bytes "RISE", bytes "x"].map some ++ [none] := by
  have hlabelled : Labelled [wd0Label] wd0 := by decide
  obtain ⟨gp_list', hload, -, hall⟩ := argv_iff placeholderLine hlabelled []
  obtain rfl : gp_list' = wd0Loaded.gp_list := by
    have hloaded : TabBuffer.loadLine wd0 (placeholderLine.text ++ 0 :: []) =
        .ok wd0Loaded.gp_list := by decide
    exact Except.ok.inj (hload.symm.trans hloaded)
  have hlaunch := hall 0 _ wd0Label placeholderHook rfl rfl rfl .signed wd0Loaded (.refl _)
    [[riseReady]]
  have hmap : (records .signed wd0Loaded [[riseReady]]).map (fun rec => (rec.pin, rec.event,
      rec.calls)) = [(0, GpiodEdge.rising.code, [⟨0, bytes "/bin/a",
        hookArgv (bytes "WD0") GpiodEdge.rising.code placeholderHook⟩])] := by decide
  obtain ⟨rec, hrec, hfields⟩ := List.mem_map.mp (hmap ▸ List.mem_singleton_self _)
  simp only [Prod.mk.injEq] at hfields
  obtain ⟨hpin, hevent, hcalls⟩ := hfields
  have hcall := hcalls ▸ List.mem_singleton_self (⟨0, bytes "/bin/a",
    hookArgv (bytes "WD0") GpiodEdge.rising.code placeholderHook⟩ : Call)
  obtain ⟨-, hiff⟩ := hlaunch rec hrec hpin _ hcall rfl
  exact ⟨rec, hrec, _, hcall, hiff.mpr (Or.inr (Or.inl (by decide))), rfl⟩

/-! A label that takes up its whole array. -/

lemma solid_long : Solid (List.replicate arraySize 0x41) ∧
    (List.replicate arraySize (0x41 : UInt8)).length < gpiodTabMaxArgumentLength := by decide

lemma long_text : 0 ∉ List.replicate arraySize (0x41 : UInt8) := by decide

/-- The bytes behind the array are those of a pointer. -/
def longLabel : Label := { wd0Label with
  text := ⟨List.replicate arraySize 0x41, long_text⟩
  behind := [0x60, 0x11, 0x40, 0, 0, 0, 0, 0] }

def longLine : ArgLine := { placeholderLine with
  label := ⟨List.replicate arraySize 0x41, solid_long.1, List.cons_ne_nil _ _, solid_long.2⟩
  args := [(blank, .label)]
  args_le := Nat.le_of_ble_eq_true rfl }

def longPin : GpioPin := ⟨longLabel.read, 0, .sysfs, .both, 0, []⟩

def longLoaded : Daemon :=
  ⟨[longPin.addHook ⟨bytes "/bin/a", 7, 0, -1, 2, [⟨.label, none⟩, ⟨.max, none⟩]⟩], []⟩

theorem longLine_argv : Labelled [longLabel] [longPin] ∧
    TabBuffer.loadLine [longPin] (longLine.text ++ 0 :: []) = .ok longLoaded.gp_list ∧
      ∃ rec ∈ records .signed longLoaded [[riseReady]], ∃ call ∈ rec.calls,
        ¬ AsWritten longLine longLabel.text.val rec.event call := by
  have hmap : (records .signed longLoaded [[riseReady]]).map (fun rec => (rec.event, rec.calls)) =
      [(GpiodEdge.rising.code, [⟨0, bytes "/bin/a",
        [some (bytes "/bin/a"), some longLabel.read, none]⟩])] := by decide
  obtain ⟨rec, hrec, hfields⟩ := List.mem_map.mp (hmap ▸ List.mem_singleton_self _)
  simp only [Prod.mk.injEq] at hfields
  obtain ⟨hevent, hcalls⟩ := hfields
  refine ⟨by decide, by decide, rec, hrec, _, hcalls ▸ List.mem_singleton_self _, ?_⟩
  rintro ⟨-, rising, -, hargv⟩
  revert hargv
  cases rising <;> decide

end Gpiod.Fidelity
