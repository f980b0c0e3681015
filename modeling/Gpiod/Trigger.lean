import Gpiod.Delivery
import Gpiod.Fidelity
import Gpiod.Sampling
import Gpiod.TabDir

/-!
From a line of a tab file and the edges of a gpio to the calls of `exec_start`.

The hook that the line makes is behind its pin when the directory is loaded, and stays there with
its flags, its path and its arguments. The loop passes each event of an interrupt pin, and each
change of a pin that is read as a level, to `dispatch_hooks` once. So the hook runs for those of
them whose edge its line names, in order and each with the vector of the line; with NO_LOOP, where
no launch of it is recorded.
-/

namespace Gpiod.Trigger

open Gpiod.Pin Gpiod.Changed Gpiod.Dispatch Gpiod.Loop Gpiod.Machine Gpiod.LoopOps
open Gpiod.TabScan Gpiod.TabField Gpiod.TabMods Gpiod.TabArgs Gpiod.TabRoute Gpiod.TabDir
open Gpiod.EdgeSelect (inState RisingNamed FallingNamed)
open Gpiod.Fidelity (ArgLine Carries Sep)
open Gpiod.PinLabel (Label Labelled)
open Gpiod.TabWords (stretch_of_pre)
open Gpiod.Delivery (LineEdge LineEvent IsLine)
open Gpiod.Interference (readsOne)

/-! ### The calls for a hook -/

/-- The calls of `exec_start` for a hook. -/
def callsFor (r : HookRef) (rs : List Record) : List Call :=
  (rs.filter fun rec => rec.pin = r.pin).flatMap fun rec =>
    rec.calls.filter fun c => c.hook = r.hook

/-- The call for a hook on a line event. -/
def callOn (r : HookRef) (label : Str) (event : ℤ) (hook : GpiodHook) : Call :=
  ⟨r.hook, hook.path, hookArgv label event hook⟩

/-- The record finds the hook in some state, and has its call exactly if it passes the filters. -/
def Met (r : HookRef) (label : Str) (hook : GpiodHook) (rec : Record) : Prop :=
  ∃ fired spawned, rec.before.hook_list[r.hook]? = some (inState hook fired spawned) ∧
    rec.calls.filter (fun c => c.hook = r.hook) =
      if runs (inState hook fired spawned) rec.event then [callOn r label rec.event hook] else []

variable {r : HookRef} {label : Str} {hook : GpiodHook} {sign : CharSign}

lemma calls_filter (label : Str) (event : ℤ) (x : Returns) (j : ℕ) (hooks : List GpiodHook) (k : ℕ)
    (hk : hooks[k]? = some hook) :
    (dispatchLoop label event x.exec j hooks).calls.filter (fun c => c.hook = j + k) =
      if runs hook event then [⟨j + k, hook.path, hookArgv label event hook⟩] else [] := by
  induction hooks generalizing j k with
  | nil => cases hk
  | cons first hooks ih =>
    have hcons : (dispatchLoop label event x.exec j (first :: hooks)).calls =
        (if runs first event then [⟨j, first.path, hookArgv label event first⟩] else []) ++
          (dispatchLoop label event x.exec (j + 1) hooks).calls := by
      rcases hr : runs first event with _ | _
      · rw [dispatchLoop_skip label event x hr]
        rfl
      · by_cases hx : x.exec j = -1
        · rw [dispatchLoop_fail label event x hr hx]
          rfl
        · rw [dispatchLoop_launch label event x hr hx]
          rfl
    rw [hcons, List.filter_append]
    cases k with
    | zero =>
      obtain rfl := Option.some.inj hk
      -- the hooks behind it have places of their own
      have hrest : (dispatchLoop label event x.exec (j + 1) hooks).calls.filter
          (fun c => c.hook = j + 0) = [] := by
        refine List.filter_eq_nil_iff.mpr fun c hc he => ?_
        have hplace : c.hook = j + 0 := of_decide_eq_true he
        obtain ⟨k, hook', -, -, hcall⟩ := (mem_dispatchLoop_calls label event x _ _ _).mp hc
        have hbehind : c.hook = j + 1 + k := congrArg Call.hook hcall
        omega
      rw [hrest, List.append_nil]
      split
      · simp
      · rfl
    | succ k =>
      have hfirst : (if runs first event then
          [(⟨j, first.path, hookArgv label event first⟩ : Call)] else []).filter
            (fun c => c.hook = j + (k + 1)) = [] := by
        split <;> simp
      rw [hfirst, List.nil_append, show j + (k + 1) = j + 1 + k by omega]
      exact ih (j + 1) k hk

/-- **One step**: a record of the pin finds the hook that the daemon carries. -/
lemma met_of_step {s : LoopState} {st : Step} {rec : Record} (h : rec ∈ (step sign s st).2)
    (hr : rec.pin = r.pin) (hc : Carries r label hook s.daemon) : Met r label hook rec := by
  obtain ⟨hooks, fired, spawned, hview, hhook⟩ := hc
  cases st with
  | handle src i reads x =>
    simp only [Loop.step, handlePin] at h
    cases hp : s.daemon.gp_list[i]? with
    | none =>
      rw [hp] at h
      cases h
    | some pin =>
      simp only [hp] at h
      split at h
      · obtain rfl := List.mem_singleton.mp h
        obtain rfl : i = r.pin := hr
        rw [hp, Option.map_some] at hview
        obtain ⟨rfl, rfl⟩ := Prod.mk.inj (Option.some.inj hview)
        refine ⟨fired, spawned, hhook, ?_⟩
        have hset := getElem?_setValue s.daemon r.pin (changed sign pin reads).value_ r.pin
        rw [if_pos rfl, hp, Option.map_some] at hset
        simp only [dispatchPin, hset]
        have hcalls := calls_filter pin.label
          (((changed sign pin reads).stored.map Prod.fst).getD s.event) x 0 pin.hook_list r.hook
          hhook
        rw [Nat.zero_add] at hcalls
        exact hcalls
      · cases h
  | _ => cases h

/-! ### The flags of a line -/

def names (l : ArgLine) : List ModName := l.first :: l.further

/-- The edge is one the modifiers name. -/
def Asks (ns : List ModName) : LineEdge → Prop
  | .rising => RisingNamed ns
  | .falling => FallingNamed ns

instance (ns : List ModName) (e : LineEdge) : Decidable (Asks ns e) := by
  cases e
  · exact inferInstanceAs (Decidable (RisingNamed ns))
  · exact inferInstanceAs (Decidable (FallingNamed ns))

def flagsOf (ns : List ModName) : ℕ := Mask.join tabParseMod 0 (ns.map ModName.text)

lemma flagsOf_iff {ns : List ModName} (h : .oneshot ∉ ns) {m : ℕ} {p : ModName → Prop}
    (hcode : ∀ n, n ≠ .oneshot → (tabParseMod n.text &&& m ≠ 0 ↔ p n)) :
    flagsOf ns &&& m ≠ 0 ↔ ∃ n ∈ ns, p n := by
  rw [flagsOf, Mask.join_zero_and_ne_zero_iff]
  constructor
  · rintro ⟨w, hw, hbit⟩
    obtain ⟨n, hn, rfl⟩ := List.mem_map.mp hw
    exact ⟨n, hn, (hcode n fun he => h (he ▸ hn)).mp hbit⟩
  · rintro ⟨n, hn, hp⟩
    exact ⟨n.text, List.mem_map_of_mem hn, (hcode n fun he => h (he ▸ hn)).mpr hp⟩

lemma flagsOf_rise {ns : List ModName} (h : .oneshot ∉ ns) :
    flagsOf ns &&& hooktabModRise ≠ 0 ↔ RisingNamed ns := by
  rw [flagsOf_iff h (p := fun n => n = .edgeRising ∨ n = .edgeBoth) (by
    intro n
    cases n <;> decide)]
  simp [RisingNamed, and_or_left, exists_or]

lemma flagsOf_fall {ns : List ModName} (h : .oneshot ∉ ns) :
    flagsOf ns &&& hooktabModFall ≠ 0 ↔ FallingNamed ns := by
  rw [flagsOf_iff h (p := fun n => n = .edgeFalling ∨ n = .edgeBoth) (by
    intro n
    cases n <;> decide)]
  simp [FallingNamed, and_or_left, exists_or]

lemma flagsOf_noLoop {ns : List ModName} (h : .oneshot ∉ ns) :
    flagsOf ns &&& hooktabModNoLoop ≠ 0 ↔ .noLoop ∈ ns := by
  rw [flagsOf_iff h (p := fun n => n = .noLoop) (by
    intro n
    cases n <;> decide)]
  simp

lemma flagsOf_oneshot {ns : List ModName} (h : .oneshot ∉ ns) :
    flagsOf ns &&& hooktabModOneshot = 0 := by
  have hno := flagsOf_iff h (m := hooktabModOneshot) (p := fun _ => False) (by
    intro n
    cases n <;> decide)
  by_contra hbit
  obtain ⟨-, -, hfalse⟩ := hno.mp hbit
  exact hfalse

/-- **When the hook of a line runs**: on the edges its names ask for; with NO_LOOP, where no launch
is recorded. -/
lemma runs_flagsOf {ns : List ModName} (h : .oneshot ∉ ns) {k : GpiodHook}
    (hk : k.flags = flagsOf ns) (e : LineEdge) :
    runs k e.event = true ↔ Asks ns e ∧ (.noLoop ∈ ns → k.spawned = -1) := by
  have hfired : alreadyFired k = false := by simp [alreadyFired, hk, flagsOf_oneshot h]
  have hprogress : inProgress k = false ↔ (.noLoop ∈ ns → k.spawned = -1) := by
    rw [← flagsOf_noLoop h, inProgress, hk, Bool.and_eq_false_imp]
    simp
  have hedge : applicable k e.event = true ↔ Asks ns e := by
    cases e with
    | rising => simpa [applicable, LineEdge.event, hk, Asks] using flagsOf_rise h
    | falling =>
      simpa [applicable, LineEdge.event, GpiodEdge.code, hk, Asks] using flagsOf_fall h
  rw [runs, hfired, Bool.and_eq_true, Bool.and_eq_true, hedge, ← hprogress]
  simp [and_comm]

/-! ### The hook of a line -/

def modsText (l : ArgLine) : Str := fieldText l.first (l.further.map behindComma)

lemma stretch_behindComma (n : ModName) (ns : List ModName) :
    stretch n (ns.map behindComma) = fieldText n (ns.map behindComma) := by
  induction ns generalizing n with
  | nil => rfl
  | cons n' ns ih =>
    have hrest := ih n'
    simp only [stretch, fieldText, List.map_cons] at hrest ⊢
    have hpost : (behindComma n').toWord.post = [] := rfl
    rw [stretch_of_pre rfl, TabWords.commaStretch, if_pos hpost]
    exact congrArg (fun s => n.text ++ 0x2c :: s) hrest

lemma short_behindComma {n : ModName} {ns : List ModName}
    (h : (fieldText n (ns.map behindComma)).length < 256) : Short n (ns.map behindComma) := by
  induction ns generalizing n with
  | nil => exact h
  | cons n' ns ih =>
    have hstretch : (stretch n ((n' :: ns).map behindComma)).length < 256 := by
      rw [stretch_behindComma]
      exact h
    refine ⟨hstretch, ih ?_⟩
    simp only [fieldText, TabWords.fieldText, List.map_cons, List.length_append, List.length_cons,
      behindComma, Further.toWord] at h ⊢
    omega

lemma lineHook_text (l : ArgLine) (h : (modsText l).length < 256) :
    lineHook (l.text ++ [0]) = .ok (l.hook (flagsOf (names l))) := by
  obtain ⟨y, hcuts, htok⟩ := l.cuts_tokens []
  have hread : (words l.first (l.further.map behindComma)).1 = (names l).map ModName.text := by
    rw [words_of_short (short_behindComma h)]
    simp [names, behindComma, Function.comp_def]
  have hhook := tabHook_of hcuts htok
  rw [hread, join_known fun w hw => by
    obtain ⟨n, -, rfl⟩ := List.mem_map.mp hw
    exact known_text n] at hhook
  rw [lineHook, tabLabel_eq]
  exact hhook

lemma lineAdd_text (l : ArgLine) (h : (modsText l).length < 256)
    {gp_list : List GpioPin} {k : ℕ} (hk : findPinByLabel gp_list l.label.text = some k) :
    lineAdd gp_list l.text = some (k, l.hook (flagsOf (names l))) := by
  rw [lineAdd, l.token_text.1, l.label.keep_text, hk, lineHook_text l h]
  rfl

lemma callOn_hook (l : ArgLine) (g : ℕ) (r : HookRef) (label : Str) (e : LineEdge) :
    callOn r label e.event (l.hook g) =
      ⟨r.hook, l.path.text, l.argv label (e = .rising)⟩ := by
  have hargv := Fidelity.hookArgv_hook l g label (decide (e = .rising))
  have hevent : (if decide (e = .rising) = true then GpiodEdge.rising.code
      else GpiodEdge.falling.code) = e.event := by
    cases e <;> rfl
  have hpath : (l.hook g).path = l.path.text := l.path.keep_text
  rw [hevent] at hargv
  rw [callOn, hargv, hpath]

/-! ### What is called -/

/-- Of the edges dispatched for the pin, each with the hook as it was found, the calls for the hook
are those for the edges that the line names; with NO_LOOP, where no launch of it is recorded. -/
structure Triggered {ε : Type*} (l : ArgLine) (label : Str) (r : HookRef) (edge : ε → LineEdge)
    (rs : List Record) (es : List (ε × GpiodHook)) : Prop where
  found : (rs.filter fun rec => rec.pin = r.pin).map (fun rec => rec.before.hook_list[r.hook]?) =
    es.map fun e => some e.2
  called : callsFor r rs = (es.filter fun e =>
    Asks (names l) (edge e.1) ∧ (.noLoop ∈ names l → e.2.spawned = -1)).map fun e =>
      ⟨r.hook, l.path.text, l.argv label (edge e.1 = .rising)⟩

/-- **The records of a pin**, whatever they come of: where each finds the hook of the line, and
their events are edges, the calls are those that the line asks for. -/
lemma triggered_of_met {ε : Type*} {l : ArgLine} (hshot : .oneshot ∉ names l) {edge : ε → LineEdge}
    {rs : List Record} {events : List ε}
    (hmet : ∀ rec ∈ rs, rec.pin = r.pin → Met r label (l.hook (flagsOf (names l))) rec)
    (hevents : (rs.filter fun rec => rec.pin = r.pin).map Record.event =
      events.map fun e => (edge e).event) :
    ∃ es, es.map Prod.fst = events ∧ Triggered l label r edge rs es := by
  obtain ⟨ps, hrecs, hsnd, hps⟩ := exists_pairs hevents
  have hmet : ∀ p ∈ ps, Met r label (l.hook (flagsOf (names l))) p.1 := fun p hp => by
    have hrec : p.1 ∈ rs.filter fun rec => rec.pin = r.pin := hrecs ▸ List.mem_map_of_mem hp
    obtain ⟨hmem, hpin⟩ := List.mem_filter.mp hrec
    exact hmet p.1 hmem (of_decide_eq_true hpin)
  -- the hook as the record of an event finds it
  let found : Record → GpiodHook := fun rec =>
    (rec.before.hook_list[r.hook]?).getD (l.hook (flagsOf (names l)))
  refine ⟨ps.map fun p => (p.2, found p.1), ?_, ⟨?_, ?_⟩⟩
  · rw [← hsnd, List.map_map]
    rfl
  · rw [← hrecs, List.map_map, List.map_map]
    refine List.map_congr_left fun p hp => ?_
    obtain ⟨fired, spawned, hfound, -⟩ := hmet p hp
    simp [found, hfound]
  · rw [callsFor, ← hrecs, List.flatMap_map, List.filter_map, List.map_map]
    refine flatMap_of_ite fun p hp => ?_
    obtain ⟨fired, spawned, hfound, hcalls⟩ := hmet p hp
    have hstate : found p.1 = inState (l.hook (flagsOf (names l))) fired spawned := by
      simp [found, hfound]
    have hruns : runs (found p.1) (edge p.2).event =
        decide (Asks (names l) (edge p.2) ∧ (.noLoop ∈ names l → (found p.1).spawned = -1)) := by
      have hflags : (found p.1).flags = flagsOf (names l) := by
        rw [hstate]
        rfl
      rw [Bool.eq_iff_iff, runs_flagsOf hshot hflags, decide_eq_true_eq]
    rw [hcalls, hps p hp, ← hstate, callOn_hook, hruns]
    rfl

/-! ### From the files to the calls -/

/-- The files are loaded, the line is one of theirs and names the pin at place `k`, which the loop
has at the place of `r`, with a value of its own; the hook of the line stands behind those that the
pin had and those of the lines before. The pin is configured with a label that its array holds. -/
structure Loaded (gp_list gp_list' : List GpioPin) (dir : Dir) (before : List Str) (l : ArgLine)
    (k : ℕ) (d : Daemon) (r : HookRef) (pin : GpioPin) (label : Label) : Prop where
  complete : ∀ e ∈ dir.entries, e.Complete gp_list
  loads : ∃ ret, loadTabs gp_list (some dir) = .ok (ret, gp_list')
  line : ∃ behind, dir.entries.flatMap Dirent.lines = before ++ l.text :: behind
  found : findPinByLabel gp_list l.label.text = some k
  configured : ∃ labels, Labelled labels gp_list ∧ labels[k]? = some label
  fits : label.text.val.length < Config.arraySize
  place : ∃ old, gp_list[k]? = some old ∧
    r.hook = old.hook_list.length + (hooksFor gp_list k before).length
  kept : ∃ value, gp_list'[k]? = some { pin with value_ := value }
  pin : d.gp_list[r.pin]? = some pin

/-- The modifiers are at most 255 bytes, with no ONESHOT among them, which sets the bits of other
names. -/
structure Plain (l : ArgLine) : Prop where
  short : (modsText l).length < 256
  no_oneshot : .oneshot ∉ names l

section Loaded

variable {gp_list gp_list' : List GpioPin} {dir : Dir} {before : List Str} {l : ArgLine} {k : ℕ}
  {d : Daemon} {pin : GpioPin} {conf : Label}

lemma Loaded.label_eq (h : Loaded gp_list gp_list' dir before l k d r pin conf) :
    pin.label = conf.text.val := by
  obtain ⟨labels, hlabels, hconf⟩ := h.configured
  obtain ⟨ret, hload⟩ := h.loads
  obtain ⟨value, hkept⟩ := h.kept
  obtain ⟨old, hold, hread⟩ := PinLabel.pin_of_label hlabels hconf
  obtain ⟨-, rfl⟩ := Prod.mk.inj (Except.ok.inj (hload.symm.trans (loadTabs_add h.complete)))
  rw [foldl_getElem?, hold, Option.map_some] at hkept
  have hsame := Option.some.inj hkept
  have hlabel : old.label = pin.label := by simpa using congrArg GpioPin.label hsame
  rw [← hlabel, hread, Label.read_of_short h.fits]

lemma Loaded.carries (h : Loaded gp_list gp_list' dir before l k d r pin conf) (hl : Plain l) :
    Carries r conf.text (l.hook (flagsOf (names l))) d := by
  obtain ⟨ret, hload⟩ := h.loads
  obtain ⟨behind, hlines⟩ := h.line
  obtain ⟨old, hold, hplace⟩ := h.place
  obtain ⟨value, hkept⟩ := h.kept
  have hloaded := hload.symm.trans (loadTabs_add h.complete)
  obtain ⟨-, rfl⟩ := Prod.mk.inj (Except.ok.inj hloaded)
  rw [foldl_getElem?, hold, Option.map_some] at hkept
  have hpin := Option.some.inj hkept
  have hhooks : hooksFor gp_list k (dir.entries.flatMap Dirent.lines) =
      hooksFor gp_list k before ++
        l.hook (flagsOf (names l)) :: hooksFor gp_list k behind := by
    simp [hlines, hooksFor, lineAdd_text l hl.short h.found]
  have hlist : pin.hook_list =
      old.hook_list ++ hooksFor gp_list k (dir.entries.flatMap Dirent.lines) :=
    (congrArg GpioPin.hook_list hpin).symm
  refine ⟨pin.hook_list, 0, -1, by rw [h.pin, ← h.label_eq]; rfl, ?_⟩
  rw [hlist, hhooks, hplace, List.getElem?_append_right (Nat.le_add_right _ _),
    Nat.add_sub_cancel_left, List.getElem?_append_right (Nat.le_refl _), Nat.sub_self]
  rfl

/-- The daemon carries the hook, and has found it in all records of the pin. -/
structure Followed (r : HookRef) (label : Str) (hook : GpiodHook) (s : Delivery.Sys) : Prop where
  carries : Carries r label hook s.loop.daemon
  met : ∀ rec ∈ s.sent, rec.pin = r.pin → Met r label hook rec

lemma Followed.step {s t : Delivery.Sys} {a : Delivery.Act} (h : Followed r label hook s)
    (hst : Delivery.Moves sign s a t) : Followed r label hook t := by
  cases hst with
  | edge i e => exact ⟨h.carries, h.met⟩
  | wake ht hb => exact ⟨h.carries, h.met⟩
  | @handle st sts ht =>
    refine ⟨h.carries.step sign _, fun rec hrec hpin => ?_⟩
    rw [Delivery.next_sent] at hrec
    rcases List.mem_append.mp hrec with hrec | hrec
    · exact h.met rec hrec hpin
    · exact met_of_step hrec hpin h.carries

/-- **From the line to `exec_start`, once for each edge of a line**: the events delivered for an
interrupt pin are the first ones queued for it, and the calls of `exec_start` for the hook of the
line are one for each of them whose edge the line names, in order, with the path of the line and
its arguments at that event; with NO_LOOP, for each of these at which no launch is recorded. -/
theorem triggered_by_edges (h : Loaded gp_list gp_list' dir before l k d r pin conf) (hl : Plain l)
    (hpin : IsLine pin) {s : Delivery.Sys}
    (hrun : Relation.ReflTransGen (Guarded (Delivery.Moves sign) fun _ _ => True)
      (Delivery.init d) s) :
    ∃ es, s.queued r.pin = es.map Prod.fst ++ s.queue r.pin ∧
      Triggered l conf.text r LineEvent.edge s.sent es := by
  have hfollowed := guarded_inv (I := Followed r conf.text (l.hook (flagsOf (names l))))
    (fun s a t hs _ hst => hs.step hst)
    ⟨h.carries hl, fun rec hrec => absurd hrec List.not_mem_nil⟩ hrun
  obtain ⟨events, hqueued, hmessages, -⟩ := Delivery.delivered_of_run hrun r.pin pin h.pin hpin
  have hevents := congrArg (List.map fun m : Timespec × ℤ × ℤ × ℤ => m.2.2.2) hmessages
  rw [Delivery.messages, List.map_map, List.map_map] at hevents
  obtain ⟨es, hes, htriggered⟩ := triggered_of_met hl.no_oneshot hfollowed.met hevents
  exact ⟨es, hes ▸ hqueued, htriggered⟩

def levelEdge (level : ℤ) : LineEdge := if level = 1 then .rising else .falling

lemma edgeOf_eq (level : ℤ) : Sampling.edgeOf level = (levelEdge level).event := by
  unfold Sampling.edgeOf levelEdge
  split <;> rfl

/-- **From the line to `exec_start`, once for each change of a level**: in every run of the loop
the calls of `exec_start` for the hook of a line are one for each change of the levels read of the
pin to which the line names the edge, in order, with the path of the line and its arguments at that
edge; with NO_LOOP, for each of these at which no launch is recorded. -/
theorem triggered_by_changes (sign : CharSign) (p : Sampling.SampledPin)
    (h : Loaded gp_list gp_list' dir before l k d r p.pin conf) (hl : Plain l)
    {batches : List (List Ready)}
    (hlevels : ∀ w ∈ Sampling.samples r.pin p.pin (runSteps d.gp_list batches),
      Sampling.IsLevel w) :
    ∃ es, es.map Prod.fst =
        Sampling.changes p.pin.value_ (Sampling.samples r.pin p.pin (runSteps d.gp_list batches)) ∧
      Triggered l conf.text r levelEdge (records sign d batches) es := by
  have hmet : ∀ rec ∈ records sign d batches, rec.pin = r.pin →
      Met r conf.text (l.hook (flagsOf (names l))) rec := fun rec hrec hpin => by
    obtain ⟨⟨s, st⟩, hs, hmem⟩ := mem_outputs.mp hrec
    have hcarries := visits_inv
      (I := fun s => Carries r conf.text (l.hook (flagsOf (names l))) s.daemon)
      (fun s st hc => hc.step sign st) (h.carries hl) _ _ hs
    exact met_of_step hmem hpin hcarries
  have hevents := congrArg (List.map Prod.snd)
    (Sampling.reported_records sign p h.pin hlevels)
  rw [Sampling.reported, List.map_map, List.map_map] at hevents
  refine triggered_of_met hl.no_oneshot hmet (hevents.trans ?_)
  exact List.map_congr_left fun w _ => edgeOf_eq w

end Loaded

/-! ### Runs -/

/-- A file with one line, for a pin that has no hook yet. -/
def oneFile : Dir := ⟨[⟨some Fidelity.placeholderLine.text, fun _ => []⟩], true⟩

def loadedPin (pin : GpioPin) : GpioPin := { pin with hook_list := [Fidelity.placeholderHook] }

lemma oneFile_complete {pin : GpioPin}
    (h : TabBuffer.loadLine [pin] (Fidelity.placeholderLine.text ++ [0]) = .ok [loadedPin pin]) :
    ∀ e ∈ oneFile.entries, e.Complete [pin] :=
  List.forall_mem_singleton.mpr (complete_of_line (by decide) (by decide) h _)

lemma oneFile_line : oneFile.entries.flatMap Dirent.lines =
    [] ++ Fidelity.placeholderLine.text :: [] := by decide

lemma placeholder_plain : Plain Fidelity.placeholderLine := ⟨by decide, by decide⟩

lemma pid_pos : (0 : ℤ) < 100 := by decide

/-- The line rises, and the hook is launched. -/
def riseLaunch : Ready := .pin 0 readsOne (onePid 100 pid_pos)

def riseStep : Step := .handle .interrupt 0 readsOne (onePid 100 pid_pos)

def riseQueued : Delivery.Sys :=
  (Delivery.init ⟨[loadedPin Delivery.linePin], []⟩).push 0 Delivery.rise

def riseWoken : Delivery.Sys := riseQueued.woken [riseLaunch]

def riseWaited : Delivery.Sys := riseWoken.next .signed .epollWait [riseStep]

def riseLaunched : Delivery.Sys := riseWaited.next .signed riseStep []

theorem rise_triggered :
    ∃ es, riseLaunched.queued 0 = es.map Prod.fst ++ riseLaunched.queue 0 ∧
      Triggered Fidelity.placeholderLine (bytes "WD0") ⟨0, 0⟩ LineEvent.edge riseLaunched.sent
        es := by
  have hload : Loaded [Delivery.linePin] [loadedPin Delivery.linePin] oneFile []
      Fidelity.placeholderLine 0 ⟨[loadedPin Delivery.linePin], []⟩ ⟨0, 0⟩
      (loadedPin Delivery.linePin) Fidelity.wd0Label :=
    ⟨oneFile_complete (by decide), ⟨0, by decide⟩, ⟨[], oneFile_line⟩, by decide,
      ⟨[Fidelity.wd0Label], by decide, rfl⟩, by decide, ⟨_, rfl, rfl⟩, ⟨0, rfl⟩, rfl⟩
  have hedge : Delivery.Moves .signed (Delivery.init ⟨[loadedPin Delivery.linePin], []⟩)
      (.edge 0 Delivery.rise) riseQueued := .edge _ 0 Delivery.rise
  have hwake : Delivery.Moves .signed riseQueued (.wake [riseLaunch]) riseWoken := by
    refine .wake rfl fun i hi => ?_
    match i with
    | 0 => exact ⟨by decide, fun _ => by decide⟩
    | i + 1 => cases hi
  have hwait : Delivery.Moves .signed riseWoken .handle riseWaited := .handle rfl
  have hread : Delivery.Moves .signed riseWaited .handle riseLaunched := .handle rfl
  exact triggered_by_edges hload placeholder_plain ⟨rfl, rfl⟩
    (.tail (.tail (.tail (.single ⟨_, trivial, hedge⟩) ⟨_, trivial, hwake⟩) ⟨_, trivial, hwait⟩)
      ⟨_, trivial, hread⟩)

example : callsFor ⟨0, 0⟩ riseLaunched.sent = [⟨0, bytes "/bin/a",
    [bytes "/bin/a", bytes "WD0", bytes "RISE", bytes "x"].map some ++ [none]⟩] := by decide

/-- A polled pin with the hook, and three ticks of the timer that read 1, 1 and 0. -/
def polledLoaded : Sampling.SampledPin :=
  ⟨loadedPin Sampling.polledPin.pin, Or.inl rfl, Or.inl rfl⟩

theorem ticks_triggered :
    ∃ es, es.map Prod.fst = [1, 0] ∧
      Triggered Fidelity.placeholderLine (bytes "WD0") ⟨0, 0⟩ levelEdge
        (records .signed ⟨[polledLoaded.pin], []⟩
          [[Sampling.tickTo 1], [Sampling.tickTo 1], [Sampling.tickTo 0]]) es := by
  have hload : Loaded [Sampling.polledPin.pin] [polledLoaded.pin] oneFile []
      Fidelity.placeholderLine 0 ⟨[polledLoaded.pin], []⟩ ⟨0, 0⟩ polledLoaded.pin
      Fidelity.wd0Label :=
    ⟨oneFile_complete (by decide), ⟨0, by decide⟩, ⟨[], oneFile_line⟩, by decide,
      ⟨[Fidelity.wd0Label], by decide, rfl⟩, by decide, ⟨_, rfl, rfl⟩, ⟨0, rfl⟩, rfl⟩
  have hsamples : Sampling.samples 0 polledLoaded.pin (runSteps [polledLoaded.pin]
      [[Sampling.tickTo 1], [Sampling.tickTo 1], [Sampling.tickTo 0]]) = [1, 1, 0] := by decide
  obtain ⟨es, hes, htriggered⟩ := triggered_by_changes .signed polledLoaded hload
    placeholder_plain (fun w hw => by
      rw [hsamples] at hw
      simp only [List.mem_cons, List.not_mem_nil, or_false] at hw
      rcases hw with rfl | rfl | rfl
      · exact Or.inr rfl
      · exact Or.inr rfl
      · exact Or.inl rfl)
  rw [hsamples] at hes
  exact ⟨es, hes.trans (by decide), htriggered⟩

end Gpiod.Trigger
