import Gpiod.HookHeap
import Gpiod.TabDir

/-!
How pins and hooks come into memory.

A pin of the configuration is one block. A hook of a tab file is a block for the structure, one for
its path, and for each argument one or two more. What is in memory then is what the loader is to
make of the lines.
-/

namespace Gpiod.HookHeap

open Gpiod.Pin Gpiod.CircularList Gpiod.ListHead Gpiod.TabScan Gpiod.TabRoute Gpiod.TabDir

variable {B : Type} [DecidableEq B]

/-! ### Allocation -/

section Model

variable (malloc : ℕ → Finset B → B)

/-- `malloc`: the block that a call gives may depend on which one it is, and on the blocks that
are allocated. -/
def Heap.alloc (h : Heap B) : B × Heap B :=
  (malloc h.calls h.live,
    { h with live := insert (malloc h.calls h.live) h.live, calls := h.calls + 1 })

def Heap.strdup (h : Heap B) (s : Str) : B × Heap B :=
  let (b, h) := h.alloc malloc
  (b, { h with text := Function.update h.text b s })

/-- An argument, from its allocation to the string it is given. -/
def newArg (h : Heap B) (a : GpiodHookArgs) : Option (B × Heap B) := do
  let (arg, h) := h.alloc malloc
  let h := { h with
    arg := Function.update h.arg arg a.arg
    c_arg := Function.update h.c_arg arg none }
  let h ← h.initListHead (.list arg)
  match a.c_arg with
  | none => some (arg, h)
  | some s =>
    let (c_arg, h) := h.strdup malloc s
    some (arg, { h with c_arg := Function.update h.c_arg arg (some c_arg) })

/-- One argument of a hook, in the loop of `loadTab`. -/
def loadArg (hook : B) (h : Heap B) (a : GpiodHookArgs) : Option (Heap B) := do
  let (arg, h) ← newArg malloc h a
  let h ← h.listAddTail (.list arg) (.argList hook)
  some { h with
    arg_list_size := Function.update h.arg_list_size hook ((h.arg_list_size hook + 1) % 256) }

/-- The hook of a line, from its allocation to its lists. -/
def newHook (h : Heap B) (hook : GpiodHook) : Option (B × Heap B) := do
  let (hk, h) := h.alloc malloc
  let (path, h) := h.strdup malloc hook.path
  let h := { h with
    path := Function.update h.path hk path
    flags := Function.update h.flags hk hook.flags
    fired := Function.update h.fired hk 0
    spawned := Function.update h.spawned hk (-1)
    arg_list_size := Function.update h.arg_list_size hk 0 }
  let h ← h.initListHead (.list hk)
  let h ← h.initListHead (.argList hk)
  some (hk, h)

/-- The hook of a line is made, and added to a pin. -/
def attachHook (pin : B) (hook : GpiodHook) (h : Heap B) : Option (Heap B) := do
  let (hk, h) ← newHook malloc h hook
  let h ← hook.arg_list.foldlM (loadArg malloc hk) h
  h.listAddTail (.list hk) (.hookList pin)

/-- `alloc_gpio_pin`, and what `loadConfig` makes of the pin. -/
def loadPin (h : Heap B) (label : Str) : Option (Heap B) := do
  let (pin, h) := h.alloc malloc
  let h ← h.initListHead (.list pin)
  let h ← h.initListHead (.hookList pin)
  let h := { h with label := Function.update h.label pin label }
  h.listAddTail (.list pin) .gpList

/-- The loop of `find_pin_by_label`, from a node on. -/
def findFrom (label : Str) (h : Heap B) : ℕ → Node B → Option (Option B)
  | 0, _ => none
  | n + 1, pos =>
    if pos = .gpList then some none
    else do
      let pin ← listEntry pos
      let text ← h.read pin (h.label pin)
      if strncmpEq label text label.length then some (some pin)
      else do
        let pos ← h.next pos
        findFrom label h n pos

def findPinByLabelAt (h : Heap B) (label : Str) : Option (Option B) := do
  let pos ← h.next .gpList
  findFrom label h (h.live.card + 1) pos

/-- One iteration of the loop over the lines; `none` is also a read outside the line, or a write
outside the token buffer. -/
def loadLineAt (h : Heap B) (line : Mem) : Option (Heap B) := do
  let (label, tmp2) ← (TabBuffer.tabLabel line).toOption
  let pin ← findPinByLabelAt h label
  match pin with
  | none => some h
  | some pin => do
    let hook ← (TabBuffer.tabHook tmp2).toOption
    attachHook malloc pin hook h

def loadLinesAt : Mem → List (Str × Mem) → Heap B → Option (Heap B)
  | _, [], h => some h
  | buf, (line, fresh) :: lines, h => do
    let h ← loadLineAt malloc h (getline buf line fresh)
    loadLinesAt (getline buf line fresh) lines h

def loadTabAt (h : Heap B) (e : Dirent) : Option (Heap B) :=
  match e.file with
  | none => some h
  | some text => loadLinesAt malloc [] (fileLines text e.fresh) h

def loadTabsAt (h : Heap B) : Option Dir → Option (Heap B)
  | none => some h
  | some dir => dir.entries.foldlM (loadTabAt malloc) h

end Model

/-! ### What is in memory -/

def ArgAt.value (h : Heap B) (a : ArgAt B) : GpiodHookArgs := ⟨h.arg a.arg, a.c_arg.map h.text⟩

/-- The hook as the loader is to make it. -/
def HookAt.value (h : Heap B) (k : HookAt B) : GpiodHook where
  path := h.text k.path
  flags := h.flags k.hook
  fired := h.fired k.hook
  spawned := h.spawned k.hook
  arg_list_size := h.arg_list_size k.hook
  arg_list := k.args.map (ArgAt.value h)

def HookAt.addArg (k : HookAt B) (a : ArgAt B) : HookAt B := { k with args := k.args ++ [a] }

def PinAt.addHook (p : PinAt B) (k : HookAt B) : PinAt B := { p with hooks := p.hooks ++ [k] }

def addArg (hook : GpiodHook) (a : GpiodHookArgs) : GpiodHook :=
  { hook with arg_list_size := (hook.arg_list_size + 1) % 256, arg_list := hook.arg_list ++ [a] }

/-- The pins in memory have the labels and the hooks of a list of pins. -/
def Shows (h : Heap B) (pins : List (PinAt B)) (gp_list : List GpioPin) : Prop :=
  pins.map (fun p => (h.label p.pin, p.hooks.map (HookAt.value h))) =
    gp_list.map fun pin => (pin.label, pin.hook_list)

/-- Besides the blocks `live₀`, these are allocated. -/
structure Owned (h : Heap B) (live₀ : Finset B) (bs : List B) : Prop where
  live : ∀ b, b ∈ h.live ↔ b ∈ live₀ ∨ b ∈ bs
  nodup : bs.Nodup
  apart : ∀ b ∈ bs, b ∉ live₀

/-- The pins in memory; the blocks `bs` are of no pin yet. -/
structure Rep (h : Heap B) (live₀ : Finset B) (bs : List B) (pins : List (PinAt B)) : Prop where
  owned : Owned h live₀ (bs ++ pins.flatMap PinAt.blocks)
  ring : Ring h.links .gpList (pins.map PinAt.node)
  pins : ∀ p ∈ pins, p.Is h

structure SameBlock (h h' : Heap B) (b : B) : Prop where
  label : h'.label b = h.label b
  path : h'.path b = h.path b
  flags : h'.flags b = h.flags b
  fired : h'.fired b = h.fired b
  spawned : h'.spawned b = h.spawned b
  arg_list_size : h'.arg_list_size b = h.arg_list_size b
  arg : h'.arg b = h.arg b
  c_arg : h'.c_arg b = h.c_arg b
  text : h'.text b = h.text b

/-- A step that changes nothing outside of the blocks. -/
structure Adds (h h' : Heap B) (bs : List B) : Prop where
  links : ∀ n : Node B, (∀ b ∈ bs, n.block ≠ some b) → SameAt h.links h'.links n
  members : ∀ b ∈ h.live, b ∉ bs → SameBlock h h' b

section Frame

variable {h h' h'' : Heap B} {live₀ : Finset B} {bs bs' : List B} {b : B} {n head : Node B}
  {xs : List (Node B)} {k : HookAt B} {p : PinAt B}

omit [DecidableEq B] in
lemma SameBlock.value (hs : ∀ b ∈ k.blocks, SameBlock h h' b) : k.value h' = k.value h := by
  have hook := hs k.hook List.mem_cons_self
  have hpath := hs k.path (List.mem_cons_of_mem _ List.mem_cons_self)
  have hargs : k.args.map (ArgAt.value h') = k.args.map (ArgAt.value h) := by
    refine List.map_congr_left fun a ha => ?_
    have hin : ∀ b ∈ a.blocks, SameBlock h h' b := fun b hb =>
      hs b (List.mem_cons_of_mem _ (List.mem_cons_of_mem _ (List.mem_flatMap.mpr ⟨a, ha, hb⟩)))
    rw [ArgAt.value, ArgAt.value, (hin a.arg List.mem_cons_self).arg]
    cases hc : a.c_arg with
    | none => rfl
    | some c =>
      rw [Option.map_some, Option.map_some, (hin c (by simp [ArgAt.blocks, hc])).text]
  rw [HookAt.value, HookAt.value, hook.flags, hook.fired, hook.spawned, hook.arg_list_size,
    hpath.text, hargs]

omit [DecidableEq B] in
lemma HookAt.Is.kept (hk : k.Is h) (hlinks : ∀ n ∈ k.below, SameAt h.links h'.links n)
    (hs : ∀ b ∈ k.blocks, SameBlock h h' b) : k.Is h' :=
  hk.congr hlinks (hs k.hook List.mem_cons_self).path fun a ha =>
    (hs a.arg (List.mem_cons_of_mem _ (List.mem_cons_of_mem _
      (List.mem_flatMap.mpr ⟨a, ha, List.mem_cons_self⟩)))).c_arg

omit [DecidableEq B] in
lemma PinAt.Is.kept (hp : p.Is h) (hlinks : ∀ n ∈ p.below, SameAt h.links h'.links n)
    (hs : ∀ b ∈ p.blocks, SameBlock h h' b) : p.Is h' := by
  refine ⟨hp.ring.congr fun n hn => hlinks n ?_, fun k hk => (hp.hooks k hk).kept
    (fun n hn => hlinks n ?_) fun b hb => hs b ?_⟩
  · rcases List.mem_cons.mp hn with rfl | hn
    · exact List.mem_cons_self
    · obtain ⟨k, hk, rfl⟩ := List.mem_map.mp hn
      exact List.mem_cons_of_mem _ (List.mem_flatMap.mpr ⟨k, hk, List.mem_cons_self⟩)
  · exact List.mem_cons_of_mem _ (List.mem_flatMap.mpr ⟨k, hk, List.mem_cons_of_mem _ hn⟩)
  · exact List.mem_cons_of_mem _ (List.mem_flatMap.mpr ⟨k, hk, hb⟩)

omit [DecidableEq B] in
lemma Owned.perm (ho : Owned h live₀ bs) (hp : bs.Perm bs') : Owned h live₀ bs' :=
  ⟨fun b => by rw [ho.live, hp.mem_iff], hp.nodup_iff.mp ho.nodup,
    fun b hb => ho.apart b (hp.mem_iff.mpr hb)⟩

lemma Owned.insert (ho : Owned h live₀ bs) (hb : b ∉ h.live) (hlive : h'.live = insert b h.live) :
    Owned h' live₀ (b :: bs) := by
  have hout : b ∉ live₀ ∧ b ∉ bs := not_or.mp fun hin => hb ((ho.live b).mpr hin)
  refine ⟨fun c => ?_, List.nodup_cons.mpr ⟨hout.2, ho.nodup⟩,
    List.forall_mem_cons.mpr ⟨hout.1, ho.apart⟩⟩
  rw [hlive, Finset.mem_insert, ho.live, List.mem_cons]
  tauto

omit [DecidableEq B] in
lemma Owned.congr (ho : Owned h live₀ bs) (hlive : h'.live = h.live) : Owned h' live₀ bs :=
  ⟨fun b => by rw [hlive, ho.live], ho.nodup, ho.apart⟩

omit [DecidableEq B] in
lemma SameBlock.refl (h : Heap B) (b : B) : SameBlock h h b :=
  ⟨rfl, rfl, rfl, rfl, rfl, rfl, rfl, rfl, rfl⟩

omit [DecidableEq B] in
lemma SameBlock.setLinks (hs : SameBlock h h' b) (l : Links (Node B)) :
    SameBlock h { h' with links := l } b :=
  ⟨hs.label, hs.path, hs.flags, hs.fired, hs.spawned, hs.arg_list_size, hs.arg, hs.c_arg, hs.text⟩

omit [DecidableEq B] in
lemma SameBlock.trans (hs : SameBlock h h' b) (hs' : SameBlock h' h'' b) : SameBlock h h'' b :=
  ⟨hs'.label.trans hs.label, hs'.path.trans hs.path, hs'.flags.trans hs.flags,
    hs'.fired.trans hs.fired, hs'.spawned.trans hs.spawned,
    hs'.arg_list_size.trans hs.arg_list_size, hs'.arg.trans hs.arg, hs'.c_arg.trans hs.c_arg,
    hs'.text.trans hs.text⟩

omit [DecidableEq B] in
lemma Adds.trans (ha : Adds h h' bs) (ha' : Adds h' h'' bs') (hsub : bs ⊆ bs')
    (hlive : ∀ b ∈ h.live, b ∈ h'.live) : Adds h h'' bs' := by
  refine ⟨fun n hn => ?_, fun b hb hout => ?_⟩
  · obtain ⟨hnext, hprev⟩ := ha.links n fun b hb => hn b (hsub hb)
    obtain ⟨hnext', hprev'⟩ := ha'.links n hn
    exact ⟨hnext'.trans hnext, hprev'.trans hprev⟩
  · exact (ha.members b hb fun hin => hout (hsub hin)).trans (ha'.members b (hlive b hb) hout)

/-! ### One operation -/

lemma initListHead_links (hv : h.Valid n) : ∃ l, h.initListHead n = some { h with links := l } ∧
    Ring l n [] ∧ ∀ m, m ≠ n → SameAt h.links l m := by
  refine ⟨_, if_pos hv, ⟨List.nodup_singleton n, List.isChain_pair.mpr ⟨?_, ?_⟩⟩, fun m hm =>
    sameAt_set h.links n n hm⟩
  · exact Function.update_self n n h.links.next
  · exact Function.update_self n n h.links.prev

lemma listAddTail_links (hr : Ring h.links head xs) (hn : n ∉ head :: xs)
    (hv : ∀ m ∈ n :: head :: xs, h.Valid m) :
    ∃ l, h.listAddTail n head = some { h with links := l } ∧ Ring l head (xs ++ [n]) ∧
      ∀ m ∉ n :: head :: xs, SameAt h.links l m := by
  have hprev : h.links.prev head ∈ head :: xs := hr.ends.1
  refine ⟨_, if_pos ⟨hv n List.mem_cons_self, hv head (by simp), hv _ (by simp [hprev])⟩,
    hr.push hn, fun m hm => ?_⟩
  rw [List.mem_cons, not_or] at hm
  have hm' : m ≠ head := fun he => hm.2 (he ▸ List.mem_cons_self)
  have h₁ := sameAt_link h.links hm.1 hm'
  have h₂ := sameAt_link (h.links.link n head) (ne_of_mem_of_not_mem hprev hm.2).symm hm.1
  exact ⟨h₂.1.trans h₁.1, h₂.2.trans h₁.2⟩

end Frame

section Load

variable {malloc : ℕ → Finset B → B} {h h' : Heap B} {live₀ : Finset B} {bs : List B}
  {k : HookAt B} {p : PinAt B} {pins : List (PinAt B)}

lemma newArg_spec (hm : ∀ n s, malloc n s ∉ s) (ho : Owned h live₀ bs) (a : GpiodHookArgs) :
    ∃ (x : ArgAt B) (h' : Heap B), newArg malloc h a = some (x.arg, h') ∧
      Owned h' live₀ (x.blocks ++ bs) ∧
      h'.c_arg x.arg = x.c_arg ∧ x.value h' = a ∧
      (∀ m, m ≠ x.node → SameAt h.links h'.links m) ∧ ∀ b ∈ h.live, SameBlock h h' b := by
  set arg := malloc h.calls h.live with harg
  have hnew : arg ∉ h.live := hm _ _
  have hne : ∀ b ∈ h.live, b ≠ arg := fun b hb he => hnew (he ▸ hb)
  set h₁ : Heap B := { h with
    live := insert arg h.live
    calls := h.calls + 1
    arg := Function.update h.arg arg a.arg
    c_arg := Function.update h.c_arg arg none } with hh₁
  have ho₁ : Owned h₁ live₀ (arg :: bs) := ho.insert hnew rfl
  obtain ⟨l, hinit, -, hlinks⟩ := initListHead_links (h := h₁) (n := .list arg)
    (Finset.mem_insert_self arg h.live)
  cases hc : a.c_arg with
  | none =>
    refine ⟨⟨arg, none⟩, { h₁ with links := l }, ?_, ho₁.congr rfl,
      Function.update_self _ _ _, ?_, hlinks, fun b hb => ?_⟩
    · change (h₁.initListHead (.list arg)).bind _ = _
      rw [hinit, Option.bind_some, hc]
    · have hval : Function.update h.arg arg a.arg arg = a.arg := Function.update_self _ _ _
      obtain ⟨akind, ac⟩ := a
      simp only at hc
      rw [hc]
      exact congrArg (GpiodHookArgs.mk · none) hval
    · have hb' := hne b hb
      constructor <;> simp [hh₁, hb']
  | some s =>
    set c := malloc h₁.calls h₁.live with hcdef
    have hcnew : c ∉ h₁.live := hm _ _
    have hcarg : c ≠ arg := fun he => hcnew (he ▸ Finset.mem_insert_self arg h.live)
    have ho₂ : Owned { h₁ with live := insert c h₁.live } live₀ (c :: arg :: bs) :=
      ho₁.insert hcnew rfl
    have ho₃ := ho₂.perm (List.Perm.swap arg c bs)
    refine ⟨⟨arg, some c⟩, { h₁ with
        links := l
        live := insert c h₁.live
        calls := h₁.calls + 1
        text := Function.update h.text c s
        c_arg := Function.update h₁.c_arg arg (some c) }, ?_, ho₃.congr rfl,
      Function.update_self _ _ _, ?_, hlinks, fun b hb => ?_⟩
    · change (h₁.initListHead (.list arg)).bind _ = _
      rw [hinit, Option.bind_some, hc]
      rfl
    · have hval : Function.update h.arg arg a.arg arg = a.arg := Function.update_self _ _ _
      have htext : Function.update h.text c s c = s := Function.update_self _ _ _
      obtain ⟨akind, ac⟩ := a
      simp only at hc
      rw [hc]
      exact congrArg₂ GpiodHookArgs.mk hval (congrArg some htext)
    · have hb' := hne b hb
      have hbc : b ≠ c := fun he => hcnew (he ▸ Finset.mem_insert_of_mem hb)
      constructor <;> simp [hh₁, hb', hbc]

lemma newHook_spec (hm : ∀ n s, malloc n s ∉ s) (ho : Owned h live₀ bs) (hook : GpiodHook) :
    ∃ (k : HookAt B) (h' : Heap B), newHook malloc h hook = some (k.hook, h') ∧
      Owned h' live₀ (k.blocks ++ bs) ∧ k.Is h' ∧
      k.value h' = ⟨hook.path, hook.flags, 0, -1, 0, []⟩ ∧ Adds h h' k.blocks := by
  set hk := malloc h.calls h.live with hhk
  set path := malloc (h.calls + 1) (insert hk h.live) with hpath
  have hnew : hk ∉ h.live := hm _ _
  have hnew' : path ∉ insert hk h.live := hm _ _
  have hne : path ≠ hk := fun he => hnew' (he ▸ Finset.mem_insert_self hk h.live)
  set h₁ : Heap B := { h with
    live := insert path (insert hk h.live)
    calls := h.calls + 1 + 1
    text := Function.update h.text path hook.path
    path := Function.update h.path hk path
    flags := Function.update h.flags hk hook.flags
    fired := Function.update h.fired hk 0
    spawned := Function.update h.spawned hk (-1)
    arg_list_size := Function.update h.arg_list_size hk 0 } with hh₁
  have hin : hk ∈ h₁.live := Finset.mem_insert_of_mem (Finset.mem_insert_self hk h.live)
  have ho₁ : Owned { h with live := insert hk h.live } live₀ (hk :: bs) := ho.insert hnew rfl
  have ho₂ : Owned h₁ live₀ (path :: hk :: bs) := ho₁.insert hnew' rfl
  have ho₃ := ho₂.perm (List.Perm.swap hk path bs)
  obtain ⟨l₁, hinit₁, -, hlinks₁⟩ := initListHead_links (h := h₁) (n := .list hk) hin
  obtain ⟨l₂, hinit₂, hring, hlinks₂⟩ := initListHead_links (h := { h₁ with links := l₁ })
    (n := .argList hk) hin
  refine ⟨⟨hk, path, []⟩, { h₁ with links := l₂ }, ?_, ho₃.congr rfl,
    ⟨Function.update_self _ _ _, hring, fun a ha => absurd ha List.not_mem_nil⟩, ?_,
    fun n hn => ?_, fun b hb hout => ?_⟩
  · change (h₁.initListHead (.list hk)).bind _ = _
    rw [hinit₁]
    change (Heap.initListHead { h₁ with links := l₁ } (.argList hk)).bind _ = _
    rw [hinit₂]
    rfl
  · simp [HookAt.value, hh₁]
  · have hself : n.block ≠ some hk := hn hk List.mem_cons_self
    have h₁' := hlinks₁ n fun he => hself (he ▸ rfl)
    have h₂' := hlinks₂ n fun he => hself (he ▸ rfl)
    exact ⟨h₂'.1.trans h₁'.1, h₂'.2.trans h₁'.2⟩
  · have hb₁ : b ≠ hk := fun he => hout (he ▸ List.mem_cons_self)
    have hb₂ : b ≠ path := fun he => hout (he ▸ List.mem_cons_of_mem _ List.mem_cons_self)
    constructor <;> simp [hh₁, hb₁, hb₂]

omit [DecidableEq B] in
lemma addArg_blocks (k : HookAt B) (a : ArgAt B) : (k.addArg a).blocks = k.blocks ++ a.blocks := by
  simp [HookAt.addArg, HookAt.blocks]

lemma loadArg_spec (hm : ∀ n s, malloc n s ∉ s) (ho : Owned h live₀ (k.blocks ++ bs)) (hk : k.Is h)
    (a : GpiodHookArgs) : ∃ (x : ArgAt B) (h' : Heap B), loadArg malloc k.hook h a = some h' ∧
      Owned h' live₀ ((k.addArg x).blocks ++ bs) ∧ (k.addArg x).Is h' ∧
      (k.addArg x).value h' = addArg (k.value h) a ∧ Adds h h' (k.addArg x).blocks := by
  obtain ⟨x, h₁, hnew, ho₁, hc, hval, hlinks₁, hsame⟩ := newArg_spec hm ho a
  have hin : ∀ b ∈ k.blocks, b ∈ h.live := fun b hb =>
    (ho.live b).mpr (Or.inr (List.mem_append_left _ hb))
  have hkout : ∀ b ∈ k.blocks, b ≠ x.arg := fun b hb he =>
    (List.nodup_append.mp ho₁.nodup).2.2 x.arg List.mem_cons_self b (List.mem_append_left _ hb)
      he.symm
  have hbelow : ∀ n ∈ k.below, n ≠ x.node := fun n hn he => by
    obtain ⟨b, hb, hblock⟩ := hookKind.below_block k n hn
    exact hkout b hb (Option.some.inj (hblock.symm.trans (he ▸ rfl)))
  have hk₁ : k.Is h₁ := hk.kept (fun n hn => hlinks₁ n (hbelow n hn)) fun b hb => hsame b (hin b hb)
  have hlive₁ : ∀ b ∈ k.blocks ++ x.blocks, b ∈ h₁.live := fun b hb => by
    rw [ho₁.live]
    simp only [List.mem_append] at hb ⊢
    tauto
  have hvalid : ∀ n ∈ x.node :: k.below, h₁.Valid n := by
    intro n hn
    rcases List.mem_cons.mp hn with rfl | hn
    · exact hlive₁ _ (List.mem_append_right _ List.mem_cons_self)
    · obtain ⟨b, hb, hblock⟩ := hookKind.below_block k n hn
      exact valid_of_block hblock (hlive₁ b (List.mem_append_left _ hb))
  obtain ⟨l, hadd, hring, hlinks⟩ := listAddTail_links (h := h₁) hk₁.ring
    (fun hmem => hbelow _ hmem rfl) hvalid
  have hhook := hsame k.hook (hin _ List.mem_cons_self)
  refine ⟨x, { h₁ with
      links := l
      arg_list_size := Function.update h₁.arg_list_size k.hook
        ((h₁.arg_list_size k.hook + 1) % 256) }, ?_, ?_, ⟨hk₁.path, ?_, fun b hb => ?_⟩, ?_,
    fun n hn => ?_, fun b hb hout => ?_⟩
  · change (newArg malloc h a).bind _ = _
    rw [hnew]
    change (h₁.listAddTail x.node (.argList k.hook)).bind _ = _
    rw [hadd]
    rfl
  · have hperm : (x.blocks ++ (k.blocks ++ bs)).Perm ((k.addArg x).blocks ++ bs) := by
      rw [addArg_blocks, ← List.append_assoc]
      exact List.perm_append_comm.append_right bs
    exact (ho₁.perm hperm).congr rfl
  · change Ring l (.argList k.hook) ((k.args ++ [x]).map ArgAt.node)
    rw [List.map_append]
    exact hring
  · rcases List.mem_append.mp hb with hb | hb
    · exact hk₁.args b hb
    · rw [List.mem_singleton.mp hb]
      exact hc
  · rw [← SameBlock.value fun b hb => hsame b (hin b hb), ← hval]
    simp [HookAt.value, HookAt.addArg, addArg, ArgAt.value]
  · rw [addArg_blocks] at hn
    have hne : n ≠ x.node := fun he => hn x.arg (List.mem_append_right _ List.mem_cons_self)
      (he ▸ rfl)
    have hout : n ∉ x.node :: k.below := fun hmem => by
      rcases List.mem_cons.mp hmem with he | hmem
      · exact hne he
      · obtain ⟨b, hb, hblock⟩ := hookKind.below_block k n hmem
        exact hn b (List.mem_append_left _ hb) hblock
    have h₁' := hlinks₁ n hne
    have h₂' := hlinks n hout
    exact ⟨h₂'.1.trans h₁'.1, h₂'.2.trans h₁'.2⟩
  · have hb' : b ≠ k.hook := fun he => hout (he ▸ List.mem_cons_self)
    have hs := hsame b hb
    refine ⟨hs.label, hs.path, hs.flags, hs.fired, hs.spawned, ?_, hs.arg, hs.c_arg, hs.text⟩
    exact (Function.update_of_ne hb' _ _).trans hs.arg_list_size

lemma loadArgs_spec (hm : ∀ n s, malloc n s ∉ s) (args : List GpiodHookArgs)
    (ho : Owned h live₀ (k.blocks ++ bs)) (hk : k.Is h) :
    ∃ (k' : HookAt B) (h' : Heap B), args.foldlM (loadArg malloc k.hook) h = some h' ∧
      k'.hook = k.hook ∧ k.blocks ⊆ k'.blocks ∧ Owned h' live₀ (k'.blocks ++ bs) ∧ k'.Is h' ∧
      k'.value h' = args.foldl addArg (k.value h) ∧ Adds h h' k'.blocks := by
  induction args generalizing k h with
  | nil =>
    exact ⟨k, h, rfl, rfl, List.Subset.refl _, ho, hk, rfl, fun _ _ => ⟨rfl, rfl⟩,
      fun b _ _ => SameBlock.refl h b⟩
  | cons a args ih =>
    obtain ⟨x, h₁, hload, ho₁, hk₁, hval, ha⟩ := loadArg_spec hm ho hk a
    obtain ⟨k', h', hloads, hhook, hsub, ho', hk', hval', ha'⟩ := ih ho₁ hk₁
    have hsub₁ : k.blocks ⊆ (k.addArg x).blocks := by
      rw [addArg_blocks]
      exact List.subset_append_left _ _
    refine ⟨k', h', ?_, hhook, List.Subset.trans hsub₁ hsub, ho', hk', ?_,
      ha.trans ha' hsub fun b hb => ?_⟩
    · rw [List.foldlM_cons, hload]
      exact hloads
    · rw [hval', hval, List.foldl_cons]
    · rw [ho₁.live, List.mem_append]
      rcases (ho.live b).mp hb with hb | hb
      · exact Or.inl hb
      · exact Or.inr ((List.mem_append.mp hb).imp_left fun hb => hsub₁ hb)

lemma foldl_addArg (args : List GpiodHookArgs) (hook : GpiodHook) :
    args.foldl addArg { hook with arg_list_size := hook.arg_list_size % 256 } =
      { hook with
        arg_list_size := (hook.arg_list_size + args.length) % 256
        arg_list := hook.arg_list ++ args } := by
  induction args generalizing hook with
  | nil => simp
  | cons a args ih =>
    have hstep : addArg { hook with arg_list_size := hook.arg_list_size % 256 } a =
        { addArg hook a with arg_list_size := (addArg hook a).arg_list_size % 256 } := by
      simp [addArg]
    rw [List.foldl_cons, hstep, ih]
    simp [addArg, Nat.add_assoc, Nat.add_comm 1]

omit [DecidableEq B] in
/-- The pins are as they were, when only other blocks have changed. -/
lemma Rep.adds (hr : Rep h live₀ [] pins) (ho : Owned h' live₀ (bs ++ pins.flatMap PinAt.blocks))
    (ha : Adds h h' bs) : Rep h' live₀ bs pins ∧
      ∀ b ∈ pins.flatMap PinAt.blocks, SameBlock h h' b := by
  have hout : ∀ b ∈ pins.flatMap PinAt.blocks, b ∉ bs := fun b hb hin =>
    (List.nodup_append.mp ho.nodup).2.2 b hin b hb rfl
  have hsame : ∀ b ∈ pins.flatMap PinAt.blocks, SameBlock h h' b := fun b hb =>
    ha.members b ((hr.owned.live b).mpr (Or.inr (List.mem_append_right [] hb))) (hout b hb)
  have hkept : ∀ n : Node B, ∀ b ∈ pins.flatMap PinAt.blocks, n.block = some b →
      SameAt h.links h'.links n := fun n b hb hblock => ha.links n fun c hc he =>
    hout b hb (Option.some.inj (hblock.symm.trans he) ▸ hc)
  refine ⟨⟨ho, hr.ring.congr fun n hn => ?_, fun p hp => (hr.pins p hp).kept (fun n hn => ?_)
    fun b hb => hsame b (List.mem_flatMap.mpr ⟨p, hp, hb⟩)⟩, hsame⟩
  · rcases List.mem_cons.mp hn with rfl | hn
    · exact ha.links _ fun b _ he => by cases he
    · obtain ⟨p, hp, rfl⟩ := List.mem_map.mp hn
      exact hkept _ p.pin (List.mem_flatMap.mpr ⟨p, hp, List.mem_cons_self⟩) rfl
  · obtain ⟨b, hb, hblock⟩ := pinKind.below_block p n hn
    exact hkept n b (List.mem_flatMap.mpr ⟨p, hp, hb⟩) hblock

omit [DecidableEq B] in
lemma addHook_blocks (p : PinAt B) (k : HookAt B) :
    (p.addHook k).blocks = p.blocks ++ k.blocks := by
  simp [PinAt.addHook, PinAt.blocks]

/-- **The hook is added** behind those the pin has. -/
lemma listAddTail_pin (hp : p.Is h) (hk : k.Is h) (hlive : ∀ b ∈ (p.addHook k).blocks, b ∈ h.live)
    (hnd : (p.addHook k).blocks.Nodup) : ∃ l,
      h.listAddTail (.list k.hook) (.hookList p.pin) = some { h with links := l } ∧
      (p.addHook k).Is { h with links := l } ∧
      ∀ n ∉ (p.addHook k).below, SameAt h.links l n := by
  have hhooks : ((p.hooks ++ [k]).flatMap HookAt.blocks).Nodup := (List.nodup_cons.mp hnd).2
  have hnew : Node.list k.hook ∉ .hookList p.pin :: p.hooks.map HookAt.node := by
    intro hmem
    rcases List.mem_cons.mp hmem with he | hmem
    · cases he
    · obtain ⟨k', hk', he⟩ := List.mem_map.mp hmem
      rw [List.flatMap_append, List.nodup_append] at hhooks
      refine hhooks.2.2 k'.hook (List.mem_flatMap.mpr ⟨k', hk', List.mem_cons_self⟩) k.hook ?_
        (Node.list.inj he)
      simp [HookAt.blocks]
  have hbelow : ∀ n ∈ Node.list k.hook :: .hookList p.pin :: p.hooks.map HookAt.node,
      n = .hookList p.pin ∨ ∃ k' ∈ p.hooks ++ [k], n = k'.node := by
    intro n hn
    rcases List.mem_cons.mp hn with rfl | hn
    · exact Or.inr ⟨k, by simp, rfl⟩
    rcases List.mem_cons.mp hn with rfl | hn
    · exact Or.inl rfl
    · obtain ⟨k', hk', rfl⟩ := List.mem_map.mp hn
      exact Or.inr ⟨k', List.mem_append_left _ hk', rfl⟩
  have hsub : ∀ n ∈ Node.list k.hook :: .hookList p.pin :: p.hooks.map HookAt.node,
      n ∈ (p.addHook k).below := by
    intro n hn
    rcases hbelow n hn with rfl | ⟨k', hk', rfl⟩
    · exact List.mem_cons_self
    · exact List.mem_cons_of_mem _ (List.mem_flatMap.mpr ⟨k', hk', List.mem_cons_self⟩)
  obtain ⟨l, hadd, hring, hlinks⟩ := listAddTail_links hp.ring hnew fun n hn => by
    obtain ⟨b, hb, hblock⟩ := pinKind.below_block (p.addHook k) n (hsub n hn)
    exact valid_of_block hblock (hlive b hb)
  refine ⟨l, hadd, ⟨?_, fun k' hk' => ?_⟩, fun n hn => hlinks n fun hmem => hn (hsub n hmem)⟩
  · change Ring l (.hookList p.pin) ((p.hooks ++ [k]).map HookAt.node)
    rw [List.map_append]
    exact hring
  · -- the lists of the arguments are not changed
    have his : k'.Is h := by
      rcases List.mem_append.mp hk' with hk' | hk'
      · exact hp.hooks k' hk'
      · rw [List.mem_singleton.mp hk']
        exact hk
    refine his.congr (fun n hn => hlinks n fun hmem => ?_) rfl fun _ _ => rfl
    rcases hbelow n hmem with rfl | ⟨k'', hk'', rfl⟩
    · simp [HookAt.below, ArgAt.node] at hn
    · exact Kind.not_node_of_below (K := hookKind) hhooks hk' hn (List.mem_map_of_mem hk'')

/-- **`attachHook`**: the pin has one more hook, which is as the line has it. -/
lemma attachHook_spec (hm : ∀ n s, malloc n s ∉ s) {xs ys : List (PinAt B)}
    (hr : Rep h live₀ [] (xs ++ p :: ys)) {hook : GpiodHook}
    (hhook : hook = ⟨hook.path, hook.flags, 0, -1, hook.arg_list.length % 256, hook.arg_list⟩) :
    ∃ (k : HookAt B) (h' : Heap B), attachHook malloc p.pin hook h = some h' ∧
      Rep h' live₀ [] (xs ++ p.addHook k :: ys) ∧ k.value h' = hook ∧
      ∀ b ∈ (xs ++ p :: ys).flatMap PinAt.blocks, SameBlock h h' b := by
  obtain ⟨k₀, h₁, hnew, ho₁, hk₁, hval₁, ha₁⟩ := newHook_spec hm hr.owned hook
  obtain ⟨k, h₂, hload, hname, hsub, ho₂, hk₂, hval₂, ha₂⟩ :=
    loadArgs_spec hm hook.arg_list ho₁ hk₁
  have ha : Adds h h₂ k.blocks := ha₁.trans ha₂ hsub fun b hb => by
    rw [ho₁.live, List.mem_append]
    exact ((hr.owned.live b).mp hb).imp_right Or.inr
  obtain ⟨hr₂, hsame⟩ := hr.adds ho₂ ha
  have hp : p ∈ xs ++ p :: ys := by simp
  have hp' : p.addHook k ∈ xs ++ p.addHook k :: ys := by simp
  have hperm : (k.blocks ++ (xs ++ p :: ys).flatMap PinAt.blocks).Perm
      ((xs ++ p.addHook k :: ys).flatMap PinAt.blocks) := by
    rw [List.flatMap_append, List.flatMap_append, List.flatMap_cons, List.flatMap_cons,
      addHook_blocks]
    refine (List.perm_append_comm_assoc _ _ _).trans (List.Perm.append_left _ ?_)
    rw [← List.append_assoc]
    exact List.perm_append_comm.append_right _
  have ho := hr₂.owned.perm hperm
  have hnd : (p.addHook k).blocks.Nodup := (List.nodup_flatMap.mp ho.nodup).1 _ hp'
  obtain ⟨l, hadd, hpin, hlinks⟩ := listAddTail_pin (hr₂.pins p hp) hk₂
    (fun b hb => (ho.live b).mpr (Or.inr (List.mem_flatMap.mpr ⟨_, hp', hb⟩))) hnd
  have hother : ∀ q ∈ xs ++ ys, ∀ n : Node B, (∃ b ∈ q.blocks, n.block = some b) →
      n ∉ (p.addHook k).below := by
    rintro q hq n ⟨b, hb, hblock⟩ hmem
    obtain ⟨c, hc, hblock'⟩ := pinKind.below_block _ n hmem
    obtain rfl : b = c := Option.some.inj (hblock.symm.trans hblock')
    have hmid : (xs ++ p.addHook k :: ys).Perm (p.addHook k :: (xs ++ ys)) := List.perm_middle
    have hnd' := (hmid.flatMap_right PinAt.blocks).nodup_iff.mp ho.nodup
    rw [List.flatMap_cons, List.nodup_append] at hnd'
    exact hnd'.2.2 b hc b (List.mem_flatMap.mpr ⟨q, hq, hb⟩) rfl
  have hsplit : ∀ q ∈ xs ++ p.addHook k :: ys, q ∈ xs ++ ys ∨ q = p.addHook k := fun q hq => by
    simp only [List.mem_append, List.mem_cons] at hq ⊢
    tauto
  have hnodes : (xs ++ p.addHook k :: ys).map PinAt.node = (xs ++ p :: ys).map PinAt.node := by
    rw [List.map_append, List.map_append]
    rfl
  refine ⟨k, { h₂ with links := l }, ?_, ⟨ho.congr rfl, ?_, fun q hq => ?_⟩, ?_,
    fun b hb => ?_⟩
  · change (newHook malloc h hook).bind _ = _
    rw [hnew]
    change (hook.arg_list.foldlM (loadArg malloc k₀.hook) h₁).bind _ = _
    rw [hload, ← hname]
    exact hadd
  · rw [hnodes]
    refine hr₂.ring.congr fun n hn => hlinks n fun hmem => ?_
    rcases List.mem_cons.mp hn with rfl | hn
    · obtain ⟨b, -, hblock⟩ := pinKind.below_block _ _ hmem
      cases hblock
    · rw [← hnodes] at hn
      obtain ⟨q, hq, rfl⟩ := List.mem_map.mp hn
      rcases hsplit q hq with hq | rfl
      · exact hother q hq _ ⟨q.pin, List.mem_cons_self, rfl⟩ hmem
      · exact pinKind.apart _ hnd hmem
  · rcases hsplit q hq with hq' | rfl
    · have hin : q ∈ xs ++ p :: ys := by
        simp only [List.mem_append, List.mem_cons] at hq' ⊢
        tauto
      refine (hr₂.pins q hin).kept (fun n hn => hlinks n ?_) fun b _ =>
        (SameBlock.refl h₂ b).setLinks _
      exact hother q hq' n (pinKind.below_block q n hn)
    · exact hpin
  · have hfold := foldl_addArg hook.arg_list ⟨hook.path, hook.flags, 0, -1, 0, []⟩
    rw [Nat.zero_add, List.nil_append] at hfold
    exact hval₂.trans ((congrArg (hook.arg_list.foldl addArg) hval₁).trans (hfold.trans hhook.symm))
  · exact (hsame b hb).setLinks l

/-! ### Lines -/

omit [DecidableEq B] in
/-- The pins are on `gp_list`, as those that are freed later. -/
lemma Rep.onList (hr : Rep h live₀ bs pins) : pinKind.OnList h .gpList pins where
  ring := hr.ring
  is := hr.pins
  live b hb := (hr.owned.live b).mpr (Or.inr (List.mem_append_right _ hb))
  nodup := (List.nodup_append.mp hr.owned.nodup).2.1

lemma findFrom_eq (label : Str) (ho : pinKind.OnList h .gpList pins) (n : ℕ) :
    ∀ xs ys, pins = xs ++ ys → ys.length < n →
      findFrom label h n ((ys.map pinKind.node).headD .gpList) =
        some ((ys.find? fun p => strncmpEq label (h.label p.pin) label.length).map PinAt.pin) := by
  induction n with
  | zero => intro xs ys _ hlen; exact absurd hlen (Nat.not_lt_zero _)
  | succ n ih =>
    intro xs ys hsplit hlen
    cases ys with
    | nil => rfl
    | cons p ys =>
      have hp : p ∈ pins := by simp [hsplit]
      have hread : h.read p.pin (h.label p.pin) = some (h.label p.pin) := if_pos (ho.node_valid hp)
      have hring := ho.ring
      rw [hsplit, List.map_append, List.map_cons] at hring
      have hnext : h.next (pinKind.node p) = some ((ys.map pinKind.node).headD .gpList) := by
        rw [next_valid (ho.node_valid hp), hring.next_mem]
      rw [List.map_cons, List.headD_cons, findFrom, if_neg (fun he => by cases he)]
      change (h.read p.pin (h.label p.pin)).bind _ = _
      rw [hread, Option.bind_some, List.find?_cons]
      cases strncmpEq label (h.label p.pin) label.length with
      | true => rfl
      | false =>
        change (h.next (pinKind.node p)).bind _ = _
        rw [hnext]
        exact ih (xs ++ [p]) ys (by simp [hsplit]) (Nat.lt_of_succ_lt_succ hlen)

lemma findPinByLabelAt_eq (label : Str) (ho : pinKind.OnList h .gpList pins) :
    findPinByLabelAt h label =
      some ((pins.find? fun p => strncmpEq label (h.label p.pin) label.length).map PinAt.pin) := by
  have hfirst : h.next .gpList = some ((pins.map pinKind.node).headD .gpList) := by
    rw [next_valid (h := h) (n := .gpList) trivial, ho.ring.next_head]
  rw [findPinByLabelAt, hfirst]
  exact findFrom_eq label ho _ [] pins rfl ho.length_lt

omit [DecidableEq B] in
lemma Shows.find {gp_list : List GpioPin} (hs : Shows h pins gp_list) (label : Str) :
    (pins.find? (fun p => strncmpEq label (h.label p.pin) label.length) = none ∧
      findPinByLabel gp_list label = none) ∨
    ∃ xs p ys ps pin qs, pins = xs ++ p :: ys ∧ gp_list = ps ++ pin :: qs ∧
      ps.length = xs.length ∧
      pins.find? (fun p => strncmpEq label (h.label p.pin) label.length) = some p ∧
      findPinByLabel gp_list label = some ps.length := by
  have hfst := congrArg (List.map Prod.fst) hs
  rw [List.map_map, List.map_map] at hfst
  have hidx : findPinByLabel gp_list label =
      pins.findIdx? fun p => strncmpEq label (h.label p.pin) label.length := by
    have hl := List.findIdx?_map (f := Prod.fst ∘ fun pin : GpioPin => (pin.label, pin.hook_list))
      (p := fun text => strncmpEq label text label.length) (l := gp_list)
    have hr := List.findIdx?_map (f := Prod.fst ∘ fun p : PinAt B =>
      (h.label p.pin, p.hooks.map (HookAt.value h)))
      (p := fun text => strncmpEq label text label.length) (l := pins)
    exact hl.symm.trans ((congrArg _ hfst.symm).trans hr)
  rw [hidx]
  cases hf : pins.find? fun p => strncmpEq label (h.label p.pin) label.length with
  | none =>
    left
    refine ⟨rfl, List.findIdx?_eq_none_iff.mpr fun p hp => ?_⟩
    have hno := List.find?_eq_none.mp hf p hp
    rwa [Bool.not_eq_true] at hno
  | some p =>
    right
    obtain ⟨htrue, xs, ys, rfl, hbefore⟩ := List.find?_eq_some_iff_append.mp hf
    obtain ⟨ps, rest, rfl, hps, hrest⟩ :=
      List.map_eq_append_iff.mp ((List.map_append).symm.trans hs).symm
    obtain ⟨pin, qs, rfl, -, -⟩ := List.map_eq_cons_iff.mp hrest
    have hlen : ps.length = xs.length := by
      have := congrArg List.length hps
      rwa [List.length_map, List.length_map] at this
    refine ⟨xs, p, ys, ps, pin, qs, rfl, rfl, hlen, rfl, ?_⟩
    rw [hlen, List.findIdx?_eq_some_iff_getElem]
    refine ⟨by simp, by simpa using htrue, fun j hj => ?_⟩
    rw [List.getElem_append_left hj]
    simpa using hbefore _ (List.getElem_mem hj)

variable {gp_list gp_list' : List GpioPin}

omit [DecidableEq B] in
lemma Shows.kept (hs : Shows h pins gp_list)
    (hsame : ∀ b ∈ pins.flatMap PinAt.blocks, SameBlock h h' b) : Shows h' pins gp_list := by
  refine (List.map_congr_left fun p hp => ?_).trans hs
  have hin : ∀ b ∈ p.blocks, SameBlock h h' b := fun b hb =>
    hsame b (List.mem_flatMap.mpr ⟨p, hp, hb⟩)
  have hhooks : p.hooks.map (HookAt.value h') = p.hooks.map (HookAt.value h) :=
    List.map_congr_left fun k hk => SameBlock.value fun b hb =>
      hin b (List.mem_cons_of_mem _ (List.mem_flatMap.mpr ⟨k, hk, hb⟩))
  rw [(hin p.pin List.mem_cons_self).label, hhooks]

omit [DecidableEq B] in
lemma Shows.addHook {xs ys : List (PinAt B)} {ps qs : List GpioPin} {pin : GpioPin}
    (hs : Shows h (xs ++ p :: ys) (ps ++ pin :: qs)) (hlen : ps.length = xs.length) :
    Shows h (xs ++ p.addHook k :: ys) (ps ++ pin.addHook (k.value h) :: qs) := by
  rw [Shows, List.map_append, List.map_append, List.map_cons, List.map_cons] at hs
  obtain ⟨hfront, hback⟩ := List.append_inj hs (by rw [List.length_map, List.length_map, hlen])
  obtain ⟨hhead, htail⟩ := List.cons_eq_cons.mp hback
  obtain ⟨hlabel, hhooks⟩ := Prod.mk.inj hhead
  rw [Shows, List.map_append, List.map_append, List.map_cons, List.map_cons, hfront, htail]
  simp [PinAt.addHook, hlabel, hhooks]

/-- **One line** does in memory what the loader makes of it. -/
lemma loadLineAt_refines (hm : ∀ n s, malloc n s ∉ s) (hr : Rep h live₀ [] pins)
    (hs : Shows h pins gp_list) {line : Mem}
    (hload : TabBuffer.loadLine gp_list line = .ok gp_list') :
    ∃ pins' h', loadLineAt malloc h line = some h' ∧ Rep h' live₀ [] pins' ∧
      Shows h' pins' gp_list' ∧ pins'.map PinAt.pin = pins.map PinAt.pin := by
  rw [TabBuffer.loadLine_bind] at hload
  obtain ⟨⟨label, tmp2⟩, hlabel, hload⟩ := bind_ok hload
  dsimp only at hload
  have hat := findPinByLabelAt_eq label hr.onList
  have hok : ∀ r, (findPinByLabelAt h label = some r) → loadLineAt malloc h line =
      match r with
      | none => some h
      | some pin => (TabBuffer.tabHook tmp2).toOption.bind fun hook =>
        attachHook malloc pin hook h := by
    intro r hfind
    change (TabBuffer.tabLabel line).toOption.bind _ = _
    rw [hlabel]
    change (findPinByLabelAt h label).bind _ = _
    rw [hfind]
    cases r <;> rfl
  rcases hs.find label with ⟨hnone, hnone'⟩ |
      ⟨xs, p, ys, ps, pin, qs, rfl, rfl, hlen, hsome, hsome'⟩
  · rw [hnone'] at hload
    cases hload
    rw [hnone] at hat
    exact ⟨pins, h, hok _ hat, hr, hs, rfl⟩
  · rw [hsome'] at hload
    obtain ⟨hook, hhook, hload⟩ := bind_ok hload
    cases hload
    rw [hsome] at hat
    obtain ⟨_, _, _, _, args, _, _, _, _, hshape⟩ :=
      tabHook_ok (TabBuffer.tabHook_ok_iff.mp hhook).2
    have hfields : hook =
        ⟨hook.path, hook.flags, 0, -1, hook.arg_list.length % 256, hook.arg_list⟩ := by
      rw [hshape]
    obtain ⟨k, h', hattach, hr', hvalue, hsame⟩ := attachHook_spec hm hr hfields
    refine ⟨_, h', ?_, hr', ?_, by simp [PinAt.addHook]⟩
    · rw [hok _ hat, hhook]
      exact hattach
    · have hshow := (hs.kept hsame).addHook (k := k) hlen
      rw [hvalue] at hshow
      have hmod : (ps ++ pin :: qs).modify ps.length (·.addHook hook) =
          ps ++ pin.addHook hook :: qs := by
        simp [List.modify_eq_take_cons_drop]
      rwa [hmod]

/-- **The lines** of the tab files, one behind the other. -/
lemma loadLinesAt_refines (hm : ∀ n s, malloc n s ∉ s) {buf : Mem} {lines : List (Str × Mem)}
    (hr : Rep h live₀ [] pins) (hs : Shows h pins gp_list)
    (hload : TabBuffer.loadLines gp_list buf lines = .ok gp_list') :
    ∃ pins' h', loadLinesAt malloc buf lines h = some h' ∧ Rep h' live₀ [] pins' ∧
      Shows h' pins' gp_list' ∧ pins'.map PinAt.pin = pins.map PinAt.pin := by
  induction lines generalizing h pins gp_list buf with
  | nil =>
    cases hload
    exact ⟨pins, h, rfl, hr, hs, rfl⟩
  | cons l lines ih =>
    obtain ⟨line, fresh⟩ := l
    obtain ⟨gp₁, hline, hlines⟩ := loadLines_ok hload
    obtain ⟨pins₁, h₁, hat, hr₁, hs₁, hpins₁⟩ := loadLineAt_refines hm hr hs hline
    obtain ⟨pins', h', hats, hr', hs', hpins'⟩ := ih hr₁ hs₁ hlines
    refine ⟨pins', h', ?_, hr', hs', hpins'.trans hpins₁⟩
    change (loadLineAt malloc h (getline buf line fresh)).bind _ = _
    rw [hat]
    exact hats

/-- **The directory** of tab files. -/
lemma loadTabsAt_refines (hm : ∀ n s, malloc n s ∉ s) {dir : Option Dir} {ret : ℤ}
    (hr : Rep h live₀ [] pins) (hs : Shows h pins gp_list)
    (hload : loadTabs gp_list dir = .ok (ret, gp_list')) :
    ∃ pins' h', loadTabsAt malloc h dir = some h' ∧ Rep h' live₀ [] pins' ∧
      Shows h' pins' gp_list' ∧ pins'.map PinAt.pin = pins.map PinAt.pin := by
  cases dir with
  | none =>
    cases hload
    exact ⟨pins, h, rfl, hr, hs, rfl⟩
  | some dir =>
    obtain ⟨l, hfiles, hret⟩ := bind_ok hload
    cases hret
    obtain ⟨entries, ended⟩ := dir
    rw [loadTabsAt]
    dsimp only at hfiles ⊢
    clear hload
    induction entries generalizing h pins gp_list with
    | nil =>
      cases hfiles
      exact ⟨pins, h, rfl, hr, hs, rfl⟩
    | cons e entries ih =>
      obtain ⟨file, fresh⟩ := e
      rw [List.foldlM_cons] at hfiles ⊢
      obtain ⟨l₁, hfile, hrest⟩ := bind_ok hfiles
      obtain ⟨pins₁, h₁, hat, hr₁, hs₁, hpins₁⟩ : ∃ pins₁ h₁,
          loadTabAt malloc h ⟨file, fresh⟩ = some h₁ ∧ Rep h₁ live₀ [] pins₁ ∧
          Shows h₁ pins₁ l₁ ∧ pins₁.map PinAt.pin = pins.map PinAt.pin := by
        cases file with
        | none =>
          cases hfile
          exact ⟨pins, h, rfl, hr, hs, rfl⟩
        | some text =>
          obtain ⟨⟨ret, l₂⟩, htab, hsnd⟩ : ∃ r,
              TabBuffer.loadTab gp_list (some text) fresh = .ok r ∧ r.2 = l₁ := by
            cases htab : TabBuffer.loadTab gp_list (some text) fresh with
            | error f => rw [htab] at hfile; cases hfile
            | ok r => rw [htab] at hfile; exact ⟨r, rfl, Except.ok.inj hfile⟩
          cases hsnd
          exact loadLinesAt_refines hm hr hs (loadTab_ok htab)
      obtain ⟨pins', h', hats, hr', hs', hpins'⟩ := ih hr₁ hs₁ hrest
      refine ⟨pins', h', ?_, hr', hs', hpins'.trans hpins₁⟩
      rw [hat]
      exact hats

/-! ### Pins -/

lemma loadPin_spec (hm : ∀ n s, malloc n s ∉ s) (hr : Rep h live₀ [] pins)
    (hs : Shows h pins gp_list) {pin : GpioPin} (hpin : pin.hook_list = []) :
    ∃ (p : PinAt B) (h' : Heap B), loadPin malloc h pin.label = some h' ∧
      Rep h' live₀ [] (pins ++ [p]) ∧ Shows h' (pins ++ [p]) (gp_list ++ [pin]) := by
  set b := malloc h.calls h.live with hb
  have hnew : b ∉ h.live := hm _ _
  set h₁ : Heap B := { h with live := insert b h.live, calls := h.calls + 1 } with hh₁
  have hin : b ∈ h₁.live := Finset.mem_insert_self b h.live
  have ho₁ : Owned h₁ live₀ (b :: pins.flatMap PinAt.blocks) := hr.owned.insert hnew rfl
  obtain ⟨l₁, hinit₁, -, hlinks₁⟩ := initListHead_links (h := h₁) (n := .list b) hin
  obtain ⟨l₂, hinit₂, hring, hlinks₂⟩ := initListHead_links (h := { h₁ with links := l₁ })
    (n := .hookList b) hin
  set h₂ : Heap B := { h₁ with links := l₂, label := Function.update h.label b pin.label } with hh₂
  have ha : Adds h h₂ [b] := by
    refine ⟨fun n hn => ?_, fun c hc hout => ?_⟩
    · have hself : n.block ≠ some b := hn b List.mem_cons_self
      have h₁' := hlinks₁ n fun he => hself (he ▸ rfl)
      have h₂' := hlinks₂ n fun he => hself (he ▸ rfl)
      exact ⟨h₂'.1.trans h₁'.1, h₂'.2.trans h₁'.2⟩
    · have hne : c ≠ b := fun he => hout (he ▸ List.mem_cons_self)
      constructor <;> simp [hh₂, hh₁, hne]
  have ho₂ : Owned h₂ live₀ ([b] ++ pins.flatMap PinAt.blocks) :=
    ho₁.congr rfl
  obtain ⟨hr₂, hsame⟩ := hr.adds ho₂ ha
  have hnode : Node.list b ∉ Node.gpList :: pins.map PinAt.node := by
    intro hmem
    rcases List.mem_cons.mp hmem with he | hmem
    · cases he
    · obtain ⟨p, hp, he⟩ := List.mem_map.mp hmem
      exact (List.nodup_cons.mp ho₁.nodup).1
        (List.mem_flatMap.mpr ⟨p, hp, Node.list.inj he ▸ List.mem_cons_self⟩)
  obtain ⟨l₃, hadd, hring₃, hlinks₃⟩ := listAddTail_links (h := h₂) hr₂.ring hnode fun n hn => by
    rcases List.mem_cons.mp hn with rfl | hn
    · exact hin
    rcases List.mem_cons.mp hn with rfl | hn
    · trivial
    · obtain ⟨p, hp, rfl⟩ := List.mem_map.mp hn
      exact hr₂.onList.node_valid hp
  have hbelow : ∀ q ∈ pins, ∀ n ∈ q.below, n ∉ Node.list b :: .gpList :: pins.map PinAt.node := by
    intro q hq n hn hmem
    rcases List.mem_cons.mp hmem with rfl | hmem
    · obtain ⟨c, hc, hblock⟩ := pinKind.below_block q _ hn
      cases hblock
      exact (List.nodup_cons.mp ho₁.nodup).1 (List.mem_flatMap.mpr ⟨q, hq, hc⟩)
    · exact not_gpList_of_below hr₂.onList.nodup hq hn hmem
  have hpinIs : PinAt.Is ⟨b, []⟩ { h₂ with links := l₃ } := by
    refine ⟨hring.congr fun n hn => hlinks₃ n fun hmem => ?_,
      fun k hk => absurd hk List.not_mem_nil⟩
    rw [List.mem_singleton.mp hn] at hmem
    simp [PinAt.node] at hmem
  have hperm : (b :: pins.flatMap PinAt.blocks).Perm
      ((pins ++ [(⟨b, []⟩ : PinAt B)]).flatMap PinAt.blocks) := by
    rw [List.flatMap_append, List.flatMap_singleton]
    exact (List.perm_append_singleton b _).symm
  have ho := ho₁.perm hperm
  refine ⟨⟨b, []⟩, { h₂ with links := l₃ }, ?_, ⟨ho.congr rfl, ?_, fun q hq => ?_⟩,
    ?_⟩
  · change (h₁.initListHead (.list b)).bind _ = _
    rw [hinit₁]
    change (Heap.initListHead { h₁ with links := l₁ } (.hookList b)).bind _ = _
    rw [hinit₂]
    exact hadd
  · rw [List.map_append]
    exact hring₃
  · rcases List.mem_append.mp hq with hq | hq
    · exact (hr₂.pins q hq).kept (fun n hn => hlinks₃ n (hbelow q hq n hn)) fun b _ =>
        (SameBlock.refl h₂ b).setLinks _
    · rw [List.mem_singleton.mp hq]
      exact hpinIs
  · have hold : Shows { h₂ with links := l₃ } pins gp_list :=
      hs.kept fun c hc => (hsame c hc).setLinks l₃
    rw [Shows, List.map_append, List.map_append, show _ = _ from hold, List.append_cancel_left_eq,
      List.map_singleton, List.map_singleton, hpin]
    simp [hh₂]

lemma loadPins_spec (hm : ∀ n s, malloc n s ∉ s) (hr : Rep h live₀ [] pins)
    (hs : Shows h pins gp_list) (more : List GpioPin) (hnew : ∀ pin ∈ more, pin.hook_list = []) :
    ∃ (pins' : List (PinAt B)) (h' : Heap B),
      (more.map GpioPin.label).foldlM (loadPin malloc) h = some h' ∧ Rep h' live₀ [] pins' ∧
      Shows h' pins' (gp_list ++ more) := by
  induction more generalizing h pins gp_list with
  | nil => exact ⟨pins, h, rfl, hr, by rwa [List.append_nil]⟩
  | cons pin more ih =>
    obtain ⟨hfirst, hrest⟩ := List.forall_mem_cons.mp hnew
    obtain ⟨p, h₁, hload, hr₁, hs₁⟩ := loadPin_spec hm hr hs hfirst
    obtain ⟨pins', h', hloads, hr', hs'⟩ := ih hr₁ hs₁ hrest
    refine ⟨pins', h', ?_, hr', ?_⟩
    · rw [List.map_cons, List.foldlM_cons, hload]
      exact hloads
    · rwa [List.append_assoc, List.singleton_append] at hs'

end Load

end Gpiod.HookHeap
