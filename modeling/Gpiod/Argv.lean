import Gpiod.Dispatch
import Gpiod.TabBuffer

/-!
The vector of arguments that a hook is launched with.

`dispatch_hooks` takes an array of `arg_list_size + 1` slots and sets one after the other to the
path and to the entries of the list. The size is counted in eight bits where the list is made, and
the NULL that ends the vector is the last entry of the list, so both come out right only for a line
that has a path, few enough arguments and none whose copy is empty, and that the token buffer has
room for.
-/

namespace Gpiod.Argv

open Gpiod.Pin Gpiod.TabScan Gpiod.TabField Gpiod.TabRoute Gpiod.TabBounds Gpiod.TabArgs
open Gpiod.Dispatch
open Gpiod.TabBuffer (Short buffers loadLine_eq tabHook_of_short)

/-! ### The array -/

/-- A slot of the array: not set yet, set to NULL, or to a string. -/
abbrev Slot := Option (Option Str)

/-- `argv[i++] = value`; a write behind the array is a fault. -/
def setSlot (argv : List Slot) (i : ℕ) (value : Option Str) : Option (List Slot) :=
  if i < argv.length then some (argv.set i (some value)) else none

def fillSlots (label : Str) (event : ℤ) : List Slot → ℕ → List GpiodHookArgs → Option (List Slot)
  | argv, _, [] => some argv
  | argv, i, arg :: args =>
    (setSlot argv i (argvSlot label event arg)).bind fun argv =>
      fillSlots label event argv (i + 1) args

/-- The array at the call of `exec_start`. -/
def formArgv (label : Str) (event : ℤ) (hook : GpiodHook) : Option (List Slot) :=
  (setSlot (List.replicate (hook.arg_list_size + 1) none) 0 (some hook.path)).bind fun argv =>
    fillSlots label event argv 1 hook.arg_list

/-- Every write is inside the array and every slot is set, to NULL the last one only. -/
def WellFilled (label : Str) (event : ℤ) (hook : GpiodHook) : Prop :=
  ∃ front : List Str,
    formArgv label event hook = some ((front.map fun s => some (some s)) ++ [some none])

/-- The size is that of the list, and its last entry, and only the last, is the terminating one. -/
structure WellFormed (hook : GpiodHook) : Prop where
  size : hook.arg_list_size = hook.arg_list.length
  ends : ∃ front, hook.arg_list = front ++ [terminator] ∧ terminator ∉ front

/-- The hook is well formed, and so is the array it is launched with. -/
def Launchable (label : Str) (hook : GpiodHook) : Prop :=
  WellFormed hook ∧ ∀ event, event = GpiodEdge.rising.code ∨ event = GpiodEdge.falling.code →
    WellFilled label event hook

/-! ### Filling the array -/

variable (label : Str) (event : ℤ)

lemma fillSlots_eq (args : List GpiodHookArgs) (set : List Slot) (k : ℕ)
    (hk : args.length ≤ k) :
    fillSlots label event (set ++ List.replicate k none) set.length args =
      some (set ++ args.map (fun arg => some (argvSlot label event arg)) ++
        List.replicate (k - args.length) none) := by
  induction args generalizing set k with
  | nil => simp [fillSlots]
  | cons arg args ih =>
    obtain ⟨k, rfl⟩ : ∃ j, k = j + 1 := ⟨k - 1, by simp at hk; omega⟩
    have hset : setSlot (set ++ List.replicate (k + 1) none) set.length
        (argvSlot label event arg) =
          some (set ++ [some (argvSlot label event arg)] ++ List.replicate k none) := by
      simp [setSlot, List.replicate_succ]
    have hrec := ih (set ++ [some (argvSlot label event arg)]) k (by simp at hk; omega)
    rw [List.length_append, List.length_singleton] at hrec
    rw [fillSlots, hset, Option.bind_some, hrec]
    simp

/-- The array has room for the path and the entries of the list. -/
def HasRoom (hook : GpiodHook) : Prop := hook.arg_list.length ≤ hook.arg_list_size

instance (hook : GpiodHook) : Decidable (HasRoom hook) := inferInstanceAs (Decidable (_ ≤ _))

lemma setSlot_path (hook : GpiodHook) :
    setSlot (List.replicate (hook.arg_list_size + 1) none) 0 (some hook.path) =
      some ([some (some hook.path)] ++ List.replicate hook.arg_list_size none) := by
  simp [setSlot, List.replicate_succ]

/-- **The array of a hook that has room for it** begins with the vector of arguments. -/
lemma formArgv_eq {hook : GpiodHook} (h : HasRoom hook) :
    formArgv label event hook = some ((hookArgv label event hook).map some ++
      List.replicate (hook.arg_list_size - hook.arg_list.length) none) := by
  have hfill := fillSlots_eq label event hook.arg_list [some (some hook.path)]
    hook.arg_list_size h
  unfold formArgv
  rw [setSlot_path, Option.bind_some]
  refine hfill.trans ?_
  simp [hookArgv, Function.comp_def]

lemma formArgv_full {hook : GpiodHook} (h : hook.arg_list_size = hook.arg_list.length) :
    formArgv label event hook = some ((hookArgv label event hook).map some) := by
  rw [formArgv_eq label event h.ge, h, Nat.sub_self, List.replicate_zero, List.append_nil]

lemma fillSlots_none {args : List GpiodHookArgs} {argv : List Slot} {i : ℕ}
    (hi : i ≤ argv.length) (h : argv.length < i + args.length) :
    fillSlots label event argv i args = none := by
  induction args generalizing argv i with
  | nil =>
    rw [List.length_nil] at h
    omega
  | cons arg args ih =>
    rw [List.length_cons] at h
    rw [fillSlots, setSlot]
    split
    · next hlt =>
      rw [Option.bind_some]
      exact ih (by rw [List.length_set]; omega) (by rw [List.length_set]; omega)
    · rfl

lemma formArgv_none {hook : GpiodHook} (h : ¬ HasRoom hook) : formArgv label event hook = none := by
  unfold formArgv
  rw [setSlot_path, Option.bind_some]
  refine fillSlots_none label event (by simp) ?_
  simp only [List.length_append, List.length_replicate, List.length_singleton]
  rw [HasRoom] at h
  omega

lemma argvSlot_string {arg : GpiodHookArgs} (h : arg ≠ terminator)
    (he : event = GpiodEdge.rising.code ∨ event = GpiodEdge.falling.code) :
    ∃ s, argvSlot label event arg = some s := by
  obtain ⟨kind, c_arg⟩ := arg
  cases kind with
  | label => exact ⟨label, rfl⟩
  | eventText => rcases he with rfl | rfl <;> exact ⟨_, rfl⟩
  | eventNum => rcases he with rfl | rfl <;> exact ⟨_, rfl⟩
  | max =>
    cases c_arg with
    | none => exact absurd rfl h
    | some s => exact ⟨s, rfl⟩

lemma exists_strings {l : List (Option Str)} (h : ∀ v ∈ l, ∃ s, v = some s) :
    ∃ front : List Str, l = front.map some := by
  induction l with
  | nil => exact ⟨[], rfl⟩
  | cons v l ih =>
    obtain ⟨s, rfl⟩ := h v (by simp)
    obtain ⟨front, rfl⟩ := ih fun w hw => h w (by simp [hw])
    exact ⟨s :: front, rfl⟩

/-- **The array of a well-formed hook is well filled.** -/
lemma WellFormed.wellFilled {hook : GpiodHook} (h : WellFormed hook)
    (he : event = GpiodEdge.rising.code ∨ event = GpiodEdge.falling.code) :
    WellFilled label event hook := by
  obtain ⟨front, hlist, hno⟩ := h.ends
  obtain ⟨strings, hstrings⟩ : ∃ strings : List Str,
      front.map (argvSlot label event) = strings.map some := by
    refine exists_strings fun v hv => ?_
    obtain ⟨arg, harg, rfl⟩ := List.mem_map.mp hv
    exact argvSlot_string label event (fun heq => hno (heq ▸ harg)) he
  refine ⟨hook.path :: strings, ?_⟩
  have hlast : argvSlot label event terminator = none := rfl
  rw [formArgv_full label event h.size, hookArgv, hlist, List.map_append, hstrings]
  simp [hlast, Function.comp_def]

lemma launchable_iff {hook : GpiodHook} : Launchable label hook ↔ WellFormed hook :=
  ⟨fun h => h.1, fun h => ⟨h, fun event he => h.wellFilled label event he⟩⟩

/-! ### A line -/

/-- Behind the modifiers the text has a path and at most 254 arguments, none of a length that the
eight-bit length takes for 0, and the token buffer has room for all its words and tokens. -/
def Fits (m : Mem) : Prop :=
  ∃ ws p args, Reads m ws (p :: args) ∧ Short ws (p :: args) ∧ args.length ≤ 254 ∧
    ∀ a ∈ args, a.length % 256 ≠ 0

lemma entry_eq_terminator {a : Str} (ha : a ≠ []) : entry a = terminator ↔ a.length % 256 = 0 := by
  have hkeep : keep a = [] ↔ a.length % 256 = 0 := by
    rw [keep, List.take_eq_nil_iff, or_iff_left ha]
  rw [← hkeep]
  unfold entry mkArg
  split
  · next h => exact ⟨fun _ => h, fun _ => rfl⟩
  · next h =>
    refine ⟨fun he => ?_, fun hk => absurd hk h⟩
    split at he
    · next hs =>
      exact absurd (congrArg GpiodHookArgs.arg he) hs.2
    · cases he

lemma tokens_ne {m : Mem} {ts : List Str} (h : Tokens m ts) : ∀ t ∈ ts, t ≠ [] := by
  induction h with
  | done => simp
  | token hb hp hne hr h ih => exact List.forall_mem_cons.mpr ⟨hne, ih⟩

/-- **When the hook of a line is well formed.** -/
lemma wellFormed_hookOf {g : ℕ} {y : Mem} {ts : List Str} (hts : Tokens y ts) :
    WellFormed (hookOf g ts) ↔
      ∃ p args, ts = p :: args ∧ args.length ≤ 254 ∧ ∀ a ∈ args, a.length % 256 ≠ 0 := by
  cases ts with
  | nil =>
    constructor
    · rintro ⟨-, front, hlist, -⟩
      have hlen := congrArg List.length hlist
      simp [hookOf] at hlen
    · rintro ⟨p, args, h, -⟩
      cases h
  | cons p args =>
    have hne := (List.forall_mem_cons.mp (tokens_ne hts)).2
    have hlen : (entries args).length = args.length + 1 := by simp [entries]
    constructor
    · rintro ⟨hsize, front, hlist, hno⟩
      refine ⟨p, args, rfl, ?_, fun a ha hzero => ?_⟩
      · simp only [hookOf, hlen] at hsize
        omega
      · obtain ⟨hfront, -⟩ := List.append_inj' (show args.map entry ++ [terminator] = _ from hlist)
          rfl
        refine hno ?_
        rw [← hfront, ← (entry_eq_terminator (hne a ha)).mpr hzero]
        exact List.mem_map_of_mem ha
    · rintro ⟨p', args', h, hle, hall⟩
      cases h
      refine ⟨?_, args.map entry, rfl, fun hmem => ?_⟩
      · simp only [hookOf, hlen]
        omega
      · obtain ⟨a, ha, heq⟩ := List.mem_map.mp hmem
        exact hall a ha ((entry_eq_terminator (hne a ha)).mp heq)

/-- The array of the hook of a line has room for less than 256 entries. -/
theorem hasRoom_of_tabHook {m : Mem} {hook : GpiodHook} (h : TabBuffer.tabHook m = .ok hook) :
    HasRoom hook ↔ hook.arg_list.length < 256 := by
  obtain ⟨ws, ts, hreads, hs⟩ := TabBuffer.short_of_tabHook h
  cases h.symm.trans (tabHook_of_short hreads hs)
  cases ts with
  | nil => exact iff_of_true le_rfl (Nat.zero_lt_succ _)
  | cons p args =>
    change (entries args).length ≤ (entries args).length % 256 ↔ (entries args).length < 256
    omega

lemma launchable_tabHook {m : Mem} :
    (∃ hook, TabBuffer.tabHook m = .ok hook ∧ Launchable label hook) ↔ Fits m := by
  simp only [launchable_iff]
  constructor
  · rintro ⟨hook, h, hw⟩
    obtain ⟨ws, ts, hreads, hs⟩ := TabBuffer.short_of_tabHook h
    cases h.symm.trans (tabHook_of_short hreads hs)
    obtain ⟨y, hends, hts⟩ := hreads
    obtain ⟨p, args, rfl, hle, hall⟩ := (wellFormed_hookOf hts).mp hw
    exact ⟨ws, p, args, ⟨y, hends, hts⟩, hs, hle, hall⟩
  · rintro ⟨ws, p, args, hreads, hs, hle, hall⟩
    refine ⟨_, tabHook_of_short hreads hs, ?_⟩
    obtain ⟨y, -, hts⟩ := hreads
    exact (wellFormed_hookOf hts).mpr ⟨p, args, rfl, hle, hall⟩

/-! ### A file -/

/-- Every pin has new hooks behind those it had, and these are launched well. -/
def AttachesWell (gp_list gp_list' : List GpioPin) : Prop :=
  ∀ (i : ℕ) (pin : GpioPin), gp_list[i]? = some pin → ∃ new,
    gp_list'[i]? = some { pin with hook_list := pin.hook_list ++ new } ∧
      ∀ hook ∈ new, Launchable pin.label hook

/-- The label of the line fits in the token buffer and, where it names a pin, what stands behind it
fits. -/
structure LineFits (gp_list : List GpioPin) (line : Str) (stale : Mem) : Prop where
  label : (firstToken line).length % 256 < gpiodTabMaxArgumentLength
  hook : LabelFound gp_list line → Fits (afterToken line ++ 0 :: stale)

/-- Hooks are added to the pins. -/
def Extends (gp_list gp_list' : List GpioPin) : Prop :=
  gp_list'.length = gp_list.length ∧ ∀ (i : ℕ) (pin : GpioPin), gp_list[i]? = some pin → ∃ new,
    gp_list'[i]? = some { pin with hook_list := pin.hook_list ++ new }

lemma Extends.refl (gp_list : List GpioPin) : Extends gp_list gp_list :=
  ⟨rfl, fun i pin hi => ⟨[], by simpa using hi⟩⟩

lemma Extends.trans {gp_list gp₁ gp_list' : List GpioPin} (h₁ : Extends gp_list gp₁)
    (h₂ : Extends gp₁ gp_list') : Extends gp_list gp_list' := by
  refine ⟨h₂.1.trans h₁.1, fun i pin hi => ?_⟩
  obtain ⟨n₁, hn₁⟩ := h₁.2 i pin hi
  obtain ⟨n₂, hn₂⟩ := h₂.2 i _ hn₁
  exact ⟨n₁ ++ n₂, by rw [hn₂, List.append_assoc]⟩

lemma modify_extends (gp_list : List GpioPin) (k : ℕ) (hook : GpiodHook) :
    Extends gp_list (gp_list.modify k (·.addHook hook)) := by
  refine ⟨List.length_modify _ _ _, fun i pin hi => ?_⟩
  by_cases hk : k = i
  · exact ⟨[hook], by simp [hi, hk, GpioPin.addHook]⟩
  · exact ⟨[], by simp [hi, hk]⟩

lemma loadLine_extends {gp_list gp_list' : List GpioPin} {line : Str} {stale : Mem}
    (h : TabBuffer.loadLine gp_list (line ++ 0 :: stale) = .ok gp_list') :
    Extends gp_list gp_list' := by
  obtain ⟨-, hbehind⟩ := loadLine_eq.mp h
  cases hf : findPinByLabel gp_list (keep (firstToken line)) with
  | none =>
    rw [hf] at hbehind
    exact hbehind ▸ .refl gp_list
  | some k =>
    rw [hf] at hbehind
    obtain ⟨hook, -, rfl⟩ := hbehind
    exact modify_extends gp_list k hook

lemma attachesWell_modify {gp_list : List GpioPin} {k : ℕ} {pin : GpioPin} (hook : GpiodHook)
    (hk : gp_list[k]? = some pin) :
    AttachesWell gp_list (gp_list.modify k (·.addHook hook)) ↔ Launchable pin.label hook := by
  constructor
  · intro hall
    obtain ⟨new, hnew, hok⟩ := hall k _ hk
    have hafter : (gp_list.modify k fun pin => pin.addHook hook)[k]? =
        some (pin.addHook hook) := by simp [hk]
    have hlists := congrArg GpioPin.hook_list (Option.some.inj (hafter.symm.trans hnew))
    have hone : [hook] = new := List.append_cancel_left hlists
    exact hok hook (hone ▸ List.mem_singleton_self hook)
  · intro hok i pin' hi
    by_cases hki : k = i
    · subst hki
      refine ⟨[hook], by simp [hi, GpioPin.addHook], fun h hh => ?_⟩
      rw [List.mem_singleton.mp hh]
      cases Option.some.inj (hk.symm.trans hi)
      exact hok
    · exact ⟨[], by simp [hi, hki], by simp⟩

lemma loadLine_attachesWell {gp_list : List GpioPin} {line : Str} {stale : Mem} :
    (∃ gp_list', TabBuffer.loadLine gp_list (line ++ 0 :: stale) = .ok gp_list' ∧
      AttachesWell gp_list gp_list') ↔ LineFits gp_list line stale := by
  cases hf : findPinByLabel gp_list (keep (firstToken line)) with
  | none =>
    have hno : ¬ LabelFound gp_list line := by rw [labelFound_iff, hf]; exact fun h => h rfl
    constructor
    · rintro ⟨gp_list', h, -⟩
      exact ⟨(loadLine_eq.mp h).1, fun h => absurd h hno⟩
    · rintro ⟨hlabel, -⟩
      exact ⟨gp_list, loadLine_eq.mpr ⟨hlabel, by rw [hf]⟩,
        fun i pin hi => ⟨[], by simpa using hi, by simp⟩⟩
  | some k =>
    have hfound : LabelFound gp_list line := by rw [labelFound_iff, hf]; nofun
    obtain ⟨pin, hk, -⟩ := findPinByLabel_some hf
    constructor
    · rintro ⟨gp_list', h, hall⟩
      obtain ⟨hlabel, hbehind⟩ := loadLine_eq.mp h
      rw [hf] at hbehind
      obtain ⟨hook, hhook, rfl⟩ := hbehind
      exact ⟨hlabel, fun _ => (launchable_tabHook pin.label).mp
        ⟨hook, hhook, (attachesWell_modify hook hk).mp hall⟩⟩
    · rintro ⟨hlabel, hfits⟩
      obtain ⟨hook, hhook, hok⟩ := (launchable_tabHook pin.label).mpr (hfits hfound)
      exact ⟨_, loadLine_eq.mpr ⟨hlabel, by rw [hf]; exact ⟨hook, hhook, rfl⟩⟩,
        (attachesWell_modify hook hk).mpr hok⟩

lemma attachesWell_trans {gp_list gp₁ gp_list' : List GpioPin} (h₁ : Extends gp_list gp₁)
    (h₂ : Extends gp₁ gp_list') :
    AttachesWell gp_list gp_list' ↔ AttachesWell gp_list gp₁ ∧ AttachesWell gp₁ gp_list' := by
  constructor
  · intro hall
    -- what the second part adds is the end of all that is added
    have hboth : ∀ (i : ℕ) (pin : GpioPin), gp_list[i]? = some pin → ∃ n₁ n₂,
        gp₁[i]? = some { pin with hook_list := pin.hook_list ++ n₁ } ∧
        gp_list'[i]? = some { pin with hook_list := pin.hook_list ++ n₁ ++ n₂ } ∧
        ∀ hook ∈ n₁ ++ n₂, Launchable pin.label hook := by
      intro i pin hi
      obtain ⟨n₁, hn₁⟩ := h₁.2 i pin hi
      obtain ⟨n₂, hn₂⟩ := h₂.2 i _ hn₁
      obtain ⟨new, hnew, hok⟩ := hall i pin hi
      have hlists := congrArg GpioPin.hook_list (Option.some.inj (hn₂.symm.trans hnew))
      have heq : n₁ ++ n₂ = new :=
        List.append_cancel_left ((List.append_assoc _ _ _).symm.trans hlists)
      exact ⟨n₁, n₂, hn₁, hn₂, heq ▸ hok⟩
    refine ⟨fun i pin hi => ?_, fun i pin₁ hi₁ => ?_⟩
    · obtain ⟨n₁, n₂, hn₁, -, hok⟩ := hboth i pin hi
      exact ⟨n₁, hn₁, fun hook hh => hok hook (List.mem_append_left _ hh)⟩
    · obtain ⟨hlt, -⟩ := List.getElem?_eq_some_iff.mp hi₁
      rw [h₁.1] at hlt
      obtain ⟨n₁, n₂, hn₁, hn₂, hok⟩ := hboth i _ (List.getElem?_eq_getElem hlt)
      cases Option.some.inj (hn₁.symm.trans hi₁)
      exact ⟨n₂, hn₂, fun hook hh => hok hook (List.mem_append_right _ hh)⟩
  · rintro ⟨hfirst, hrest⟩ i pin hi
    obtain ⟨n₁, hn₁, hok₁⟩ := hfirst i pin hi
    obtain ⟨n₂, hn₂, hok₂⟩ := hrest i _ hn₁
    refine ⟨n₁ ++ n₂, by rw [hn₂, List.append_assoc], fun hook hh => ?_⟩
    rcases List.mem_append.mp hh with hh | hh
    · exact hok₁ hook hh
    · exact hok₂ hook hh

lemma loadLines_extends {gp_list gp_list' : List GpioPin} {buf : Mem} {lines : List (Str × Mem)}
    (h : TabBuffer.loadLines gp_list buf lines = .ok gp_list') : Extends gp_list gp_list' := by
  induction lines generalizing gp_list buf with
  | nil =>
    cases h
    exact .refl _
  | cons l lines ih =>
    obtain ⟨line, fresh⟩ := l
    obtain ⟨gp₁, hl, hrest⟩ := loadLines_ok h
    exact (loadLine_extends hl).trans (ih hrest)

lemma lineFits_congr {gp_list gp_list' : List GpioPin}
    (h : gp_list'.map (·.label) = gp_list.map (·.label)) (line : Str) (stale : Mem) :
    LineFits gp_list' line stale ↔ LineFits gp_list line stale := by
  have hfound := TabBuffer.labelFound_congr h line
  exact ⟨fun hl => ⟨hl.label, fun hf => hl.hook (hfound.mpr hf)⟩,
    fun hl => ⟨hl.label, fun hf => hl.hook (hfound.mp hf)⟩⟩

lemma loadLines_attachesWell {gp_list : List GpioPin} {buf : Mem} {lines : List (Str × Mem)} :
    (∃ gp_list', TabBuffer.loadLines gp_list buf lines = .ok gp_list' ∧
      AttachesWell gp_list gp_list') ↔ ∀ l ∈ buffers buf lines, LineFits gp_list l.1 l.2 := by
  induction lines generalizing gp_list buf with
  | nil =>
    exact iff_of_true ⟨gp_list, rfl, fun i pin hi => ⟨[], by simpa using hi, by simp⟩⟩
      (List.forall_mem_nil _)
  | cons l lines ih =>
    obtain ⟨line, fresh⟩ := l
    rw [buffers, List.forall_mem_cons, ← loadLine_attachesWell]
    constructor
    · rintro ⟨gp_list', h, hall⟩
      obtain ⟨gp₁, hl, hrest⟩ := loadLines_ok h
      obtain ⟨hall₁, hall₂⟩ :=
        (attachesWell_trans (loadLine_extends hl) (loadLines_extends hrest)).mp hall
      exact ⟨⟨gp₁, hl, hall₁⟩, fun l hmem => (lineFits_congr (TabBuffer.loadLine_labels hl) _ _).mp
        (ih.mp ⟨gp_list', hrest, hall₂⟩ l hmem)⟩
    · rintro ⟨⟨gp₁, hl, hall₁⟩, hfits⟩
      obtain ⟨gp_list', hrest, hall₂⟩ := ih.mpr fun l hmem =>
        (lineFits_congr (TabBuffer.loadLine_labels hl) _ _).mpr (hfits l hmem)
      exact ⟨gp_list', (loadLinesBy_cons hl lines).trans hrest,
        (attachesWell_trans (loadLine_extends hl) (loadLines_extends hrest)).mpr ⟨hall₁, hall₂⟩⟩

/-- **Well-formed vectors**: a file is loaded inside its buffers, and the hooks it attaches are well
formed and launched with a well-filled vector, exactly if the buffer has room for the label of each
of its lines, and each line that names a pin has a path and at most 254 arguments, of lengths that
are no multiples of 256, and words and tokens that the buffer has room for. -/
theorem loadTab_attachesWell_iff (gp_list : List GpioPin) (text : Str) (fresh : ℕ → Mem) :
    (∃ gp_list', TabBuffer.loadTab gp_list (some text) fresh = .ok (0, gp_list') ∧
      AttachesWell gp_list gp_list') ↔
        ∀ l ∈ buffers [] (fileLines text fresh), LineFits gp_list l.1 l.2 := by
  rw [← loadLines_attachesWell]
  exact exists_congr fun gp_list' => and_congr_left' ⟨loadTab_ok, loadTabBy_text⟩

/-- A line without a path makes a hook without a terminating entry, and its vector has no NULL. -/
theorem pathless_line_attached :
    TabBuffer.loadTab wd0 (some (bytes "WD0 EDGE_RISING\n")) (fun _ => []) =
        .ok (0, wd0.modify 0 (·.addHook ⟨[], 1, 0, -1, 0, []⟩)) ∧
      formArgv (bytes "WD0") GpiodEdge.rising.code ⟨[], 1, 0, -1, 0, []⟩ = some [some (some [])] ∧
      ¬ AttachesWell wd0 (wd0.modify 0 (·.addHook ⟨[], 1, 0, -1, 0, []⟩)) := by
  refine ⟨by decide, by decide, fun h => ?_⟩
  obtain ⟨new, hnew, hok⟩ := h 0 _ rfl
  have hlists := congrArg GpioPin.hook_list (Option.some.inj hnew)
  have hone : [(⟨[], 1, 0, -1, 0, []⟩ : GpiodHook)] = new := hlists
  obtain ⟨front, hlist, -⟩ := (hok ⟨[], 1, 0, -1, 0, []⟩ (hone ▸ List.mem_singleton_self _)).1.ends
  simp at hlist

end Gpiod.Argv
