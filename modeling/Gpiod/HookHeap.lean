import Mathlib.Data.Finset.Card
import Gpiod.ListHead
import Gpiod.Pin

/-!
Pins, hooks and arguments in memory, and how `gpiod-pin.c` and `gpiod-hooktab.c` free them.

Each structure is a block that the nodes of its lists are members of, and the strings of a hook are
blocks of their own. A pin is freed with its hooks, a hook with its arguments: each block of them
once, and with nothing read of a block that is gone.
-/

namespace Gpiod.HookHeap

open Gpiod.Pin Gpiod.CircularList Gpiod.ListHead

/-! ### Memory -/

/-- A `struct list_head`: the address 0, `gp_list`, and the members of the structures. -/
inductive Node (B : Type)
  | null
  | gpList
  | list (b : B)
  | hookList (pin : B)
  | argList (hook : B)
  deriving DecidableEq, Repr

/-- The pointers, the blocks that are allocated, and the members of the structures in them; `calls`
is the number of allocations made. -/
structure Heap (B : Type) where
  links : Links (Node B)
  live : Finset B
  calls : ℕ
  label : B → Str
  path : B → B
  flags : B → ℕ
  fired : B → ℤ
  spawned : B → ℤ
  arg_list_size : B → ℕ
  arg : B → HooktabArgs
  c_arg : B → Option B
  text : B → Str

variable {B : Type} [DecidableEq B]

/-- The node may be read and written. -/
def Heap.Valid (h : Heap B) : Node B → Prop
  | .null => False
  | .gpList => True
  | .list b | .hookList b | .argList b => b ∈ h.live

instance (h : Heap B) : (n : Node B) → Decidable (h.Valid n)
  | .null => inferInstanceAs (Decidable False)
  | .gpList => inferInstanceAs (Decidable True)
  | .list b | .hookList b | .argList b => inferInstanceAs (Decidable (b ∈ h.live))

/-- A member of the structure in a block; `none` where the block is not allocated. -/
def Heap.read {α : Type} (h : Heap B) (b : B) (member : α) : Option α :=
  if b ∈ h.live then some member else none

def Heap.next (h : Heap B) (n : Node B) : Option (Node B) :=
  if h.Valid n then some (h.links.next n) else none

def Heap.free (h : Heap B) (b : B) : Option (Heap B) :=
  if b ∈ h.live then some { h with live := h.live.erase b } else none

def Heap.listDel (h : Heap B) (entry : Node B) : Option (Heap B) :=
  if h.Valid entry ∧ h.Valid (h.links.prev entry) ∧ h.Valid (h.links.next entry) then
    some { h with links := ListHead.listDel .null entry h.links }
  else none

def Heap.initListHead (h : Heap B) (ptr : Node B) : Option (Heap B) :=
  if h.Valid ptr then some { h with links := ListHead.initListHead ptr h.links } else none

def Heap.listAddTail (h : Heap B) (new head : Node B) : Option (Heap B) :=
  if h.Valid new ∧ h.Valid head ∧ h.Valid (h.links.prev head) then
    some { h with links := ListHead.listAddTail new head h.links }
  else none

/-- `list_for_each_safe`; the bound on the rounds is above the number of blocks. -/
def Heap.forEachSafe (h : Heap B) (head : Node B) (body : Node B → Heap B → Option (Heap B)) :
    Option (Heap B) :=
  listForEachSafe? Heap.next body head (h.live.card + 1) h

def Node.block : Node B → Option B
  | .null | .gpList => none
  | .list b | .hookList b | .argList b => some b

def listEntry : Node B → Option B
  | .list b => some b
  | _ => none

/-! ### Freeing -/

/-- `if(c_arg != 0) free(c_arg);` -/
def Heap.freeIf (h : Heap B) : Option B → Option (Heap B)
  | some c_arg => h.free c_arg
  | none => some h

/-- The body of the loop of `freeHook`. -/
def freeArg (ag : Node B) (h : Heap B) : Option (Heap B) := do
  let arg ← listEntry ag
  let c_arg ← h.read arg (h.c_arg arg)
  let h ← h.freeIf c_arg
  let h ← h.listDel (.list arg)
  h.free arg

def freeHook (hook : B) (h : Heap B) : Option (Heap B) := h.forEachSafe (.argList hook) freeArg

/-- The body of the loop of `freeTabs`. -/
def freeTab (hk : Node B) (h : Heap B) : Option (Heap B) := do
  let hook ← listEntry hk
  let path ← h.read hook (h.path hook)
  let h ← h.free path
  let h ← freeHook hook h
  let h ← h.listDel (.list hook)
  h.free hook

def freeTabs (pin : B) (h : Heap B) : Option (Heap B) := h.forEachSafe (.hookList pin) freeTab

/-- The structure freed is that of the facility, which the pin is the first member of. -/
def freeGpioPin (pin : B) (h : Heap B) : Option (Heap B) := do
  let h ← freeTabs pin h
  h.free pin

def freeGpioPins (h : Heap B) : Option (Heap B) :=
  h.forEachSafe .gpList fun pos h => do
    let pin ← listEntry pos
    freeGpioPin pin h

/-- The body of the loop of `init_gpio_pins`, with what `pin->init` returns. -/
def initGpioPin (init : B → ℤ) (pos : Node B) (h : Heap B) : Option (Heap B) := do
  let pin ← listEntry pos
  let ret ← h.read pin (init pin)
  if ret = -1 then do
    let h ← h.listDel (.list pin)
    freeGpioPin pin h
  else some h

def initGpioPins (init : B → ℤ) (h : Heap B) : Option (Heap B) :=
  h.forEachSafe .gpList (initGpioPin init)

/-! ### Where the structures are -/

structure ArgAt (B : Type) where
  arg : B
  c_arg : Option B

structure HookAt (B : Type) where
  hook : B
  path : B
  args : List (ArgAt B)

structure PinAt (B : Type) where
  pin : B
  hooks : List (HookAt B)

def ArgAt.blocks (a : ArgAt B) : List B := a.arg :: a.c_arg.toList

def HookAt.blocks (k : HookAt B) : List B := k.hook :: k.path :: k.args.flatMap ArgAt.blocks

def PinAt.blocks (p : PinAt B) : List B := p.pin :: p.hooks.flatMap HookAt.blocks

def ArgAt.node (a : ArgAt B) : Node B := .list a.arg

def HookAt.node (k : HookAt B) : Node B := .list k.hook

def PinAt.node (p : PinAt B) : Node B := .list p.pin

/-- The nodes of the lists below a structure. -/
def HookAt.below (k : HookAt B) : List (Node B) := .argList k.hook :: k.args.map ArgAt.node

def PinAt.below (p : PinAt B) : List (Node B) :=
  .hookList p.pin :: p.hooks.flatMap fun k => k.node :: k.below

/-- The hook is in memory, with its arguments on its list. -/
structure HookAt.Is (k : HookAt B) (h : Heap B) : Prop where
  path : h.path k.hook = k.path
  ring : Ring h.links (.argList k.hook) (k.args.map ArgAt.node)
  args : ∀ a ∈ k.args, h.c_arg a.arg = a.c_arg

structure PinAt.Is (p : PinAt B) (h : Heap B) : Prop where
  ring : Ring h.links (.hookList p.pin) (p.hooks.map HookAt.node)
  hooks : ∀ k ∈ p.hooks, k.Is h

/-- What freeing blocks leaves: the other blocks, and the pointers of the nodes not given. -/
structure Freed (h h' : Heap B) (bs : List B) (ns : List (Node B)) : Prop where
  live : ∀ b, b ∈ h'.live ↔ b ∈ h.live ∧ b ∉ bs
  links : ∀ n ∉ ns, SameAt h.links h'.links n
  members : h' = { h with links := h'.links, live := h'.live }

section Frame

variable {h h' h'' : Heap B} {k : HookAt B} {p : PinAt B} {bs bs' : List B} {ns ns' : List (Node B)}
  {n head : Node B} {ys zs : List (Node B)} {b : B}

omit [DecidableEq B] in
lemma HookAt.Is.congr (hk : k.Is h) (hsame : ∀ n ∈ k.below, SameAt h.links h'.links n)
    (hpath : h'.path k.hook = h.path k.hook)
    (harg : ∀ a ∈ k.args, h'.c_arg a.arg = h.c_arg a.arg) : k.Is h' :=
  ⟨hpath.trans hk.path, hk.ring.congr hsame, fun a ha => (harg a ha).trans (hk.args a ha)⟩

omit [DecidableEq B] in
lemma Freed.refl (h : Heap B) : Freed h h [] [] :=
  ⟨fun _ => by simp, fun _ _ => ⟨rfl, rfl⟩, rfl⟩

omit [DecidableEq B] in
lemma Freed.trans (hf : Freed h h' bs ns) (hf' : Freed h' h'' bs' ns') :
    Freed h h'' (bs ++ bs') (ns ++ ns') := by
  refine ⟨fun b => ?_, fun n hn => ?_, ?_⟩
  · rw [hf'.live, hf.live, List.mem_append, not_or, and_assoc]
  · rw [List.mem_append, not_or] at hn
    obtain ⟨hnext, hprev⟩ := hf.links n hn.1
    obtain ⟨hnext', hprev'⟩ := hf'.links n hn.2
    exact ⟨hnext'.trans hnext, hprev'.trans hprev⟩
  · rw [hf'.members, hf.members]

omit [DecidableEq B] in
lemma Freed.mono (hf : Freed h h' bs ns) (hbs : ∀ b, b ∈ bs ↔ b ∈ bs') (hns : ns ⊆ ns') :
    Freed h h' bs' ns' :=
  ⟨fun b => by rw [hf.live, hbs], fun n hn => hf.links n fun hmem => hn (hns hmem), hf.members⟩

omit [DecidableEq B] in
lemma Freed.hook (hf : Freed h h' bs ns) (hk : k.Is h) (hout : ∀ n ∈ k.below, n ∉ ns) :
    k.Is h' := by
  have hpath : h'.path = h.path := by rw [hf.members]
  have harg : h'.c_arg = h.c_arg := by rw [hf.members]
  exact hk.congr (fun n hn => hf.links n (hout n hn)) (congrFun hpath _) fun a _ => congrFun harg _

omit [DecidableEq B] in
lemma Freed.pin (hf : Freed h h' bs ns) (hp : p.Is h) (hout : ∀ n ∈ p.below, n ∉ ns) :
    p.Is h' := by
  refine ⟨hp.ring.congr fun n hn => hf.links n (hout n ?_), fun k hk => ?_⟩
  · rcases List.mem_cons.mp hn with rfl | hn
    · exact List.mem_cons_self
    · obtain ⟨k, hk, rfl⟩ := List.mem_map.mp hn
      exact List.mem_cons_of_mem _ (List.mem_flatMap.mpr ⟨k, hk, List.mem_cons_self⟩)
  · refine hf.hook (hp.hooks k hk) fun n hn => hout n ?_
    exact List.mem_cons_of_mem _ (List.mem_flatMap.mpr ⟨k, hk, List.mem_cons_of_mem _ hn⟩)

/-! ### One operation -/

lemma free_live (hb : b ∈ h.live) : ∃ h', h.free b = some h' ∧ Freed h h' [b] [] := by
  refine ⟨_, if_pos hb, fun c => ?_, fun _ _ => ⟨rfl, rfl⟩, rfl⟩
  rw [Finset.mem_erase, List.mem_singleton]
  exact and_comm

lemma next_valid (hn : h.Valid n) : h.next n = some (h.links.next n) := if_pos hn

/-- **Removal** of a node of a list that is there. -/
lemma listDel_ring (hr : Ring h.links head (ys ++ n :: zs))
    (hv : ∀ m ∈ head :: (ys ++ n :: zs), h.Valid m) :
    ∃ h', h.listDel n = some h' ∧ Ring h'.links head (ys ++ zs) ∧
      Freed h h' [] (head :: (ys ++ n :: zs)) := by
  obtain ⟨hprev, hnext⟩ := hr.neighbours
  have hprev' : h.links.prev n ∈ head :: (ys ++ n :: zs) :=
    List.mem_append_left (n :: zs) hprev
  have hnext' : h.links.next n ∈ head :: (ys ++ n :: zs) := by
    simp only [List.mem_append, List.mem_cons, List.not_mem_nil, or_false] at hnext ⊢
    tauto
  have hn : n ∈ head :: (ys ++ n :: zs) := by simp
  have hout : n ∉ head :: (ys ++ zs) := by
    have hnd := hr.nodup
    rw [List.nodup_cons, List.nodup_middle, List.nodup_cons] at hnd
    rw [List.mem_cons, not_or]
    exact ⟨fun he => hnd.1 (by simp [he]), hnd.2.1⟩
  refine ⟨_, if_pos ⟨hv n hn, hv _ hprev', hv _ hnext'⟩, ?_, fun _ => by simp, fun m hm => ?_, rfl⟩
  · exact hr.unlink.congr fun c hc => sameAt_set _ _ _ (ne_of_mem_of_not_mem hc hout)
  · have hlink := sameAt_link h.links (ne_of_mem_of_not_mem hprev' hm).symm
      (ne_of_mem_of_not_mem hnext' hm).symm
    have hset := sameAt_set (h.links.link (h.links.prev n) (h.links.next n)) .null .null
      (ne_of_mem_of_not_mem hn hm).symm
    exact ⟨hset.1.trans hlink.1, hset.2.trans hlink.2⟩

omit [DecidableEq B] in
lemma valid_of_block (hb : n.block = some b) (hlive : b ∈ h.live) : h.Valid n := by
  cases n <;> cases hb <;> exact hlive

end Frame

/-! ### Lists of structures -/

/-- A kind of structures that are on a list: the block of one, its blocks and the nodes below it,
and what it is for it to be in memory. -/
structure Kind (B β : Type) where
  block : β → B
  blocks : β → List B
  below : β → List (Node B)
  Is : β → Heap B → Prop
  block_mem : ∀ x, block x ∈ blocks x
  below_block : ∀ x, ∀ n ∈ below x, ∃ b ∈ blocks x, n.block = some b
  apart : ∀ x, (blocks x).Nodup → .list (block x) ∉ below x
  frame : ∀ {h h' : Heap B} {bs : List B} {ns : List (Node B)} {x : β}, Freed h h' bs ns → Is x h →
    (∀ n ∈ below x, n ∉ ns) → Is x h'

namespace Kind

variable {β : Type} (K : Kind B β)

def node (x : β) : Node B := .list (K.block x)

/-- The structures are on a list, each with all of its blocks and no two with one in common. -/
structure OnList (h : Heap B) (head : Node B) (xs : List β) : Prop where
  ring : Ring h.links head (xs.map K.node)
  is : ∀ x ∈ xs, K.Is x h
  live : ∀ b ∈ xs.flatMap K.blocks, b ∈ h.live
  nodup : (xs.flatMap K.blocks).Nodup

/-- The nodes that taking a structure from the list may change. -/
def touched (head : Node B) (xs : List β) (x : β) : List (Node B) :=
  head :: xs.map K.node ++ K.below x

/-- The body frees the structure that the node is a member of, and takes it from the list. -/
def Frees (head : Node B) (body : Node B → Heap B → Option (Heap B)) : Prop :=
  ∀ x xs (h : Heap B), K.OnList h head (x :: xs) → h.Valid head →
    (∀ b ∈ (x :: xs).flatMap K.blocks, head.block ≠ some b) →
    ∃ h', body (K.node x) h = some h' ∧ Ring h'.links head (xs.map K.node) ∧
      Freed h h' (K.blocks x) (K.touched head (x :: xs) x)

variable {K} {h h' : Heap B} {head n : Node B} {x y : β} {xs ys zs : List β}

omit [DecidableEq B] in
lemma disjoint_blocks (hnd : (xs.flatMap K.blocks).Nodup) (hx : x ∈ xs) (hy : y ∈ xs)
    (hne : x ≠ y) : List.Disjoint (K.blocks x) (K.blocks y) := by
  have : Std.Symm (Function.onFun List.Disjoint K.blocks) := ⟨fun _ _ h => h.symm⟩
  exact (List.nodup_flatMap.mp hnd).2.forall hx hy hne

omit [DecidableEq B] in
lemma not_node_of_below (hnd : (xs.flatMap K.blocks).Nodup) (hy : y ∈ xs) (hn : n ∈ K.below y) :
    n ∉ xs.map K.node := by
  intro hmem
  obtain ⟨z, hz, rfl⟩ := List.mem_map.mp hmem
  obtain ⟨b, hb, hblock⟩ := K.below_block y _ hn
  obtain rfl : K.block z = b := Option.some.inj hblock
  by_cases hzy : z = y
  · subst hzy
    exact K.apart z ((List.nodup_flatMap.mp hnd).1 z hz) hn
  · exact disjoint_blocks hnd hz hy hzy (K.block_mem z) hb

omit [DecidableEq B] in
lemma not_touched (hnd : (xs.flatMap K.blocks).Nodup)
    (hhead : ∀ b ∈ xs.flatMap K.blocks, head.block ≠ some b) (hx : x ∈ xs) (hy : y ∈ xs)
    (hne : y ≠ x) (hn : n ∈ K.below y) : n ∉ K.touched head xs x := by
  obtain ⟨b, hb, hblock⟩ := K.below_block y n hn
  rw [touched, List.cons_append, List.mem_cons, List.mem_append, not_or, not_or]
  refine ⟨fun he => ?_, not_node_of_below hnd hy hn, fun hmem => ?_⟩
  · exact hhead b (List.mem_flatMap.mpr ⟨y, hy, hb⟩) (he ▸ hblock)
  · obtain ⟨c, hc, hblock'⟩ := K.below_block x n hmem
    obtain rfl : b = c := Option.some.inj (hblock.symm.trans hblock')
    exact disjoint_blocks hnd hy hx hne hb hc

omit [DecidableEq B] in
lemma OnList.rest (ho : K.OnList h head (ys ++ x :: zs))
    (hhead : ∀ b ∈ (ys ++ x :: zs).flatMap K.blocks, head.block ≠ some b)
    (hr : Ring h'.links head ((ys ++ zs).map K.node))
    (hf : Freed h h' (K.blocks x) (K.touched head (ys ++ x :: zs) x)) :
    K.OnList h' head (ys ++ zs) := by
  have hx : x ∈ ys ++ x :: zs := by simp
  have hsub : ys ++ zs ⊆ ys ++ x :: zs := fun y hy => by
    simp only [List.mem_append, List.mem_cons] at hy ⊢
    tauto
  have hperm : ((ys ++ x :: zs).flatMap K.blocks).Perm
      (K.blocks x ++ (ys ++ zs).flatMap K.blocks) := by
    have hmid : (ys ++ x :: zs).Perm (x :: (ys ++ zs)) := List.perm_middle
    have hmid := hmid.flatMap_right K.blocks
    rwa [List.flatMap_cons] at hmid
  obtain ⟨-, hnd, hdisj⟩ := List.nodup_append.mp (hperm.nodup_iff.mp ho.nodup)
  refine ⟨hr, fun y hy => ?_, fun b hb => (hf.live b).mpr ⟨?_, fun hin => ?_⟩, hnd⟩
  · refine K.frame hf (ho.is y (hsub hy)) fun n hn =>
      not_touched ho.nodup hhead hx (hsub hy) (fun he => ?_) hn
    exact hdisj _ (he ▸ K.block_mem y) _ (List.mem_flatMap.mpr ⟨y, hy, K.block_mem y⟩) rfl
  · exact ho.live b (hperm.mem_iff.mpr (List.mem_append_right _ hb))
  · exact hdisj b hin b hb rfl

lemma OnList.length_lt (ho : K.OnList h head xs) : xs.length < h.live.card + 1 := by
  have hnd : (xs.map K.node).Nodup := (List.nodup_cons.mp ho.ring.nodup).2
  have hblocks : (xs.map K.block).Nodup := by
    refine List.Nodup.of_map (Node.list (B := B)) ?_
    rwa [List.map_map]
  have hsub : (xs.map K.block).toFinset ⊆ h.live := fun b hb => by
    obtain ⟨x, hx, rfl⟩ := List.mem_map.mp (List.mem_toFinset.mp hb)
    exact ho.live _ (List.mem_flatMap.mpr ⟨x, hx, K.block_mem x⟩)
  have hcard := Finset.card_le_card hsub
  rw [List.toFinset_card_of_nodup hblocks, List.length_map] at hcard
  exact Nat.lt_succ_of_le hcard

omit [DecidableEq B] in
lemma OnList.node_valid (ho : K.OnList h head xs) (hx : x ∈ xs) : h.Valid (K.node x) :=
  ho.live _ (List.mem_flatMap.mpr ⟨x, hx, K.block_mem x⟩)

/-- In the middle of the loop: the structures `rest` are still there. -/
structure Freeing (K : Kind B β) (h : Heap B) (head : Node B) (xs : List β) (ns : List (Node B))
    (h' : Heap B) : Prop where
  split : ∃ done rest, xs = done ++ rest ∧ ns = rest.map K.node ∧ K.OnList h' head rest ∧
    Freed h h' (done.flatMap K.blocks) (head :: xs.flatMap fun x => K.node x :: K.below x)

omit [DecidableEq B] in
lemma touched_subset (done : List β) : K.touched head (x :: xs) x ⊆
    head :: (done ++ x :: xs).flatMap fun x => K.node x :: K.below x := by
  intro n hn
  rw [touched, List.cons_append, List.mem_cons, List.mem_append] at hn
  rcases hn with rfl | hn | hn
  · exact List.mem_cons_self
  · obtain ⟨y, hy, rfl⟩ := List.mem_map.mp hn
    exact List.mem_cons_of_mem _ (List.mem_flatMap.mpr
      ⟨y, List.mem_append_right done hy, List.mem_cons_self⟩)
  · exact List.mem_cons_of_mem _ (List.mem_flatMap.mpr
      ⟨x, by simp, List.mem_cons_of_mem _ hn⟩)

omit [DecidableEq B] in
lemma Freeing.step {body : Node B → Heap B → Option (Heap B)} (hbody : K.Frees head body)
    (hhead : ∀ b ∈ xs.flatMap K.blocks, head.block ≠ some b) {ns : List (Node B)}
    (hI : Freeing K h head xs (n :: ns) h') (hv : h'.Valid head) :
    ∃ h'', body n h' = some h'' ∧ Freeing K h head xs ns h'' := by
  obtain ⟨done, rest, hsplit, hns, ho, hf⟩ := hI
  obtain ⟨x, rest, rfl, rfl, rfl⟩ := List.map_eq_cons_iff.mp hns.symm
  have hout : ∀ b ∈ (x :: rest).flatMap K.blocks, head.block ≠ some b := fun b hb =>
    hhead b (by rw [hsplit, List.flatMap_append]; exact List.mem_append_right _ hb)
  obtain ⟨h'', hok, hring, hf'⟩ := hbody x rest h' ho hv hout
  have hrest : K.OnList h'' head ([] ++ rest) := OnList.rest ho hout hring hf'
  refine ⟨h'', hok, done ++ [x], rest, by rw [hsplit, List.append_assoc]; rfl, rfl, hrest,
    (hf.trans hf').mono (fun b => ?_) ?_⟩
  · rw [List.flatMap_append, List.flatMap_singleton]
  · rw [hsplit]
    exact List.append_subset.mpr ⟨List.Subset.refl _, touched_subset done⟩

omit [DecidableEq B] in
lemma Freeing.read {ns : List (Node B)} (hI : Freeing K h head xs (n :: ns) h') :
    h'.links.next n = ns.headD head ∧ h'.Valid n := by
  obtain ⟨done, rest, hsplit, hns, ho, hf⟩ := hI
  obtain ⟨x, rest, rfl, rfl, rfl⟩ := List.map_eq_cons_iff.mp hns.symm
  have hring := ho.ring
  rw [List.map_cons, ← List.nil_append (K.node x :: _)] at hring
  exact ⟨hring.next_mem, ho.node_valid List.mem_cons_self⟩

/-- **A list is freed**: each structure once, and nothing else. -/
lemma forEachSafe_freed {body : Node B → Heap B → Option (Heap B)} (hbody : K.Frees head body)
    (ho : K.OnList h head xs) (hvalid : ∀ h' : Heap B, (∀ b ∈ h.live, b ∉ xs.flatMap K.blocks →
      b ∈ h'.live) → h'.Valid head) (hhead : ∀ b ∈ xs.flatMap K.blocks, head.block ≠ some b) :
    ∃ h', h.forEachSafe head body = some h' ∧
      Freed h h' (xs.flatMap K.blocks) (head :: xs.flatMap fun x => K.node x :: K.below x) := by
  have hthere : ∀ {ns : List (Node B)} {h' : Heap B}, Freeing K h head xs ns h' →
      h'.Valid head := by
    rintro ns h' ⟨done, rest, rfl, rfl, -, hf⟩
    refine hvalid h' fun b hb hout => (hf.live b).mpr ⟨hb, fun hin => hout ?_⟩
    rw [List.flatMap_append]
    exact List.mem_append_left _ hin
  have hstart : Freeing K h head xs (xs.map K.node) h :=
    ⟨[], xs, rfl, rfl, ho, (Freed.refl h).mono (fun _ => Iff.rfl) (List.nil_subset _)⟩
  have hfirst : h.next head = some ((xs.map K.node).headD head) := by
    rw [next_valid (hthere hstart), ho.ring.next_head]
  have hlen : (xs.map K.node).length < h.live.card + 1 := by
    rw [List.length_map]
    exact ho.length_lt
  obtain ⟨h', hok, done, rest, rfl, hrest, -, hf⟩ := listForEachSafe?_rule Heap.next body head
    (Freeing K h head xs) (fun n ns h' hI => hI.step hbody hhead (hthere hI))
    (fun n ns h' hI => by rw [next_valid hI.read.2, hI.read.1])
    (fun h' hI => ⟨_, next_valid (hthere hI)⟩) hfirst (List.nodup_cons.mp ho.ring.nodup).1 hstart
    hlen
  obtain rfl : rest = [] := List.map_eq_nil_iff.mp hrest.symm
  rw [List.append_nil] at hf ⊢
  exact ⟨h', hok, hf⟩

/-- **The end of a body**: once what is below a structure is gone, it is taken from the list and
freed. -/
lemma OnList.unlink_free {bs : List B} (ho : K.OnList h head (x :: xs)) (hv : h.Valid head)
    (hhead : ∀ b ∈ (x :: xs).flatMap K.blocks, head.block ≠ some b)
    (hf : Freed h h' bs (K.below x)) (hbs : ∀ b, b ∈ K.blocks x ↔ b = K.block x ∨ b ∈ bs)
    (hself : K.block x ∉ bs) : ∃ h₁ h₂, h'.listDel (K.node x) = some h₁ ∧
      h₁.free (K.block x) = some h₂ ∧ Ring h₂.links head (xs.map K.node) ∧
      Freed h h₂ (K.blocks x) (K.touched head (x :: xs) x) := by
  have hnd := ho.nodup
  rw [List.flatMap_cons, List.nodup_append] at hnd
  have hin : ∀ b ∈ bs, b ∈ (x :: xs).flatMap K.blocks := fun b hb => by
    rw [List.flatMap_cons]
    exact List.mem_append_left _ ((hbs b).mpr (Or.inr hb))
  have hkept : ∀ y ∈ x :: xs, K.block y ∈ h'.live := fun y hy => by
    refine (hf.live _).mpr ⟨ho.node_valid hy, fun hb => ?_⟩
    rcases List.mem_cons.mp hy with rfl | hy
    · exact hself hb
    · exact hnd.2.2 _ ((hbs _).mpr (Or.inr hb)) _ (List.mem_flatMap.mpr ⟨y, hy, K.block_mem y⟩) rfl
  have hvalid : ∀ n ∈ head :: (x :: xs).map K.node, h'.Valid n := by
    intro n hn
    rcases List.mem_cons.mp hn with rfl | hn
    · cases hb : n.block with
      | none =>
        cases n with
        | null => exact hv
        | gpList => trivial
        | _ => cases hb
      | some b =>
        refine valid_of_block hb ((hf.live b).mpr ⟨?_, fun hmem => hhead b (hin b hmem) hb⟩)
        cases n <;> cases hb <;> exact hv
    · obtain ⟨y, hy, rfl⟩ := List.mem_map.mp hn
      exact hkept y hy
  have hring : Ring h'.links head ([] ++ K.node x :: xs.map K.node) := by
    refine ho.ring.congr fun n hn => hf.links n fun hbelow => ?_
    obtain ⟨b, hb, hblock⟩ := K.below_block x n hbelow
    rcases List.mem_cons.mp hn with rfl | hn
    · exact hhead b (by rw [List.flatMap_cons]; exact List.mem_append_left _ hb) hblock
    · exact not_node_of_below ho.nodup List.mem_cons_self hbelow hn
  obtain ⟨h₁, hdel, hring₁, hf₁⟩ := listDel_ring hring hvalid
  have hlive₁ : K.block x ∈ h₁.live := (hf₁.live _).mpr ⟨hkept x List.mem_cons_self, by simp⟩
  obtain ⟨h₂, hfree, hf₂⟩ := free_live hlive₁
  refine ⟨h₁, h₂, hdel, hfree, hring₁.congr fun n _ => hf₂.links n (by simp), ?_⟩
  refine ((hf.trans hf₁).trans hf₂).mono (fun b => ?_) fun n hn => ?_
  · rw [hbs]
    simp [or_comm]
  · simp only [touched, List.mem_append, List.mem_cons, List.map_cons, List.nil_append,
      List.not_mem_nil, or_false] at hn ⊢
    tauto

end Kind

/-! ### Arguments and hooks -/

def argKind : Kind B (ArgAt B) where
  block := ArgAt.arg
  blocks := ArgAt.blocks
  below _ := []
  Is a h := h.c_arg a.arg = a.c_arg
  block_mem _ := List.mem_cons_self
  below_block _ n hn := absurd hn List.not_mem_nil
  apart _ _ := List.not_mem_nil
  frame hf ha _ := by rw [hf.members]; exact ha

def hookKind : Kind B (HookAt B) where
  block := HookAt.hook
  blocks := HookAt.blocks
  below := HookAt.below
  Is := HookAt.Is
  block_mem _ := List.mem_cons_self
  below_block k n hn := by
    rcases List.mem_cons.mp hn with rfl | hn
    · exact ⟨k.hook, List.mem_cons_self, rfl⟩
    · obtain ⟨a, ha, rfl⟩ := List.mem_map.mp hn
      exact ⟨a.arg, List.mem_cons_of_mem _ (List.mem_cons_of_mem _
        (List.mem_flatMap.mpr ⟨a, ha, List.mem_cons_self⟩)), rfl⟩
  apart k hnd hmem := by
    rcases List.mem_cons.mp hmem with he | hmem
    · cases he
    · obtain ⟨a, ha, he⟩ := List.mem_map.mp hmem
      have harg : a.arg = k.hook := Node.list.inj he
      refine (List.nodup_cons.mp hnd).1 (List.mem_cons_of_mem _ (List.mem_flatMap.mpr ⟨a, ha, ?_⟩))
      rw [← harg]
      exact List.mem_cons_self
  frame hf hk hout := hf.hook hk hout

variable {h : Heap B} {head : Node B} {k : HookAt B} {p : PinAt B}

lemma freeArg_frees (head : Node B) : argKind.Frees head (freeArg (B := B)) := by
  intro a as h ho hv hhead
  have hlive : ∀ b ∈ a.blocks, b ∈ h.live := fun b hb =>
    ho.live b (by rw [List.flatMap_cons]; exact List.mem_append_left _ hb)
  have hnd : a.blocks.Nodup := by
    have hnd := ho.nodup
    rw [List.flatMap_cons, List.nodup_append] at hnd
    exact hnd.1
  have hc : h.c_arg a.arg = a.c_arg := ho.is a List.mem_cons_self
  have harg : a.arg ∈ h.live := hlive _ List.mem_cons_self
  obtain ⟨h₁, hfree, hf₁⟩ : ∃ h₁, h.freeIf a.c_arg = some h₁ ∧ Freed h h₁ a.c_arg.toList [] := by
    cases hs : a.c_arg with
    | none => exact ⟨h, rfl, Freed.refl h⟩
    | some s => exact free_live (hlive s (by simp [ArgAt.blocks, hs]))
  obtain ⟨h₂, h₃, hdel, hend, hring, hf⟩ := ho.unlink_free hv hhead hf₁
    (fun b => List.mem_cons) (List.nodup_cons.mp hnd).1
  have hread : h.read a.arg (h.c_arg a.arg) = some a.c_arg := by rw [hc]; exact if_pos harg
  refine ⟨h₃, ?_, hring, hf⟩
  change (h.read a.arg (h.c_arg a.arg)).bind _ = some h₃
  rw [hread, Option.bind_some, hfree]
  change (h₁.listDel (.list a.arg)).bind _ = some h₃
  rw [show h₁.listDel (.list a.arg) = some h₂ from hdel]
  exact hend

omit [DecidableEq B] in
lemma HookAt.Is.onList (hk : k.Is h) (hlive : ∀ b ∈ k.blocks, b ∈ h.live) (hnd : k.blocks.Nodup) :
    argKind.OnList h (.argList k.hook) k.args where
  ring := hk.ring
  is := hk.args
  live b hb := hlive b (List.mem_cons_of_mem _ (List.mem_cons_of_mem _ hb))
  nodup := (List.nodup_cons.mp (List.nodup_cons.mp hnd).2).2

/-- **`freeHook`** frees the arguments. -/
lemma freeHook_freed (hk : k.Is h) (hlive : ∀ b ∈ k.hook :: k.args.flatMap ArgAt.blocks, b ∈ h.live)
    (hnd : k.blocks.Nodup) : ∃ h', freeHook k.hook h = some h' ∧
      Freed h h' (k.args.flatMap ArgAt.blocks) k.below := by
  obtain ⟨hhook, hpath⟩ := List.nodup_cons.mp hnd
  have hout : k.hook ∉ k.args.flatMap ArgAt.blocks := fun hmem =>
    hhook (List.mem_cons_of_mem _ hmem)
  have ho : argKind.OnList h (.argList k.hook) k.args :=
    ⟨hk.ring, hk.args, fun b hb => hlive b (List.mem_cons_of_mem _ hb),
      (List.nodup_cons.mp hpath).2⟩
  obtain ⟨h', hok, hf⟩ := Kind.forEachSafe_freed (freeArg_frees _) ho
    (fun h' hh' => hh' _ (hlive _ List.mem_cons_self) hout)
    (fun b hb he => hout (Option.some.inj he ▸ hb))
  refine ⟨h', hok, hf.mono (fun _ => Iff.rfl) fun n hn => ?_⟩
  rcases List.mem_cons.mp hn with rfl | hn
  · exact List.mem_cons_self
  · obtain ⟨a, ha, hn⟩ := List.mem_flatMap.mp hn
    rw [List.mem_singleton.mp hn]
    exact List.mem_cons_of_mem _ (List.mem_map_of_mem ha)

lemma freeTab_frees (head : Node B) : hookKind.Frees head (freeTab (B := B)) := by
  intro k ks h ho hv hhead
  have hlive : ∀ b ∈ k.blocks, b ∈ h.live := fun b hb =>
    ho.live b (by rw [List.flatMap_cons]; exact List.mem_append_left _ hb)
  have hnd : k.blocks.Nodup := by
    have hnd := ho.nodup
    rw [List.flatMap_cons, List.nodup_append] at hnd
    exact hnd.1
  have hk : k.Is h := ho.is k List.mem_cons_self
  obtain ⟨hhook, hpath⟩ := List.nodup_cons.mp hnd
  have hread : h.read k.hook (h.path k.hook) = some k.path := by
    rw [hk.path]
    exact if_pos (hlive _ List.mem_cons_self)
  obtain ⟨h₁, hfree, hf₁⟩ := free_live (hlive k.path (List.mem_cons_of_mem _ List.mem_cons_self))
  have hlive₁ : ∀ b ∈ k.hook :: k.args.flatMap ArgAt.blocks, b ∈ h₁.live := by
    intro b hb
    rw [hf₁.live, List.mem_singleton]
    rcases List.mem_cons.mp hb with rfl | hb
    · exact ⟨hlive _ List.mem_cons_self, fun he => hhook (he ▸ List.mem_cons_self)⟩
    · exact ⟨hlive _ (List.mem_cons_of_mem _ (List.mem_cons_of_mem _ hb)),
        fun he => (List.nodup_cons.mp hpath).1 (he ▸ hb)⟩
  obtain ⟨h₂, hargs, hf₂⟩ := freeHook_freed (hf₁.hook hk fun n _ => List.not_mem_nil) hlive₁ hnd
  obtain ⟨h₃, h₄, hdel, hend, hring, hf⟩ := ho.unlink_free hv hhead (hf₁.trans hf₂)
    (fun b => List.mem_cons) hhook
  refine ⟨h₄, ?_, hring, hf⟩
  change (h.read k.hook (h.path k.hook)).bind _ = some h₄
  rw [hread, Option.bind_some, hfree]
  change (freeHook k.hook h₁).bind _ = some h₄
  rw [hargs]
  change (h₂.listDel (.list k.hook)).bind _ = some h₄
  rw [show h₂.listDel (.list k.hook) = some h₃ from hdel]
  exact hend

/-! ### Pins -/

/-- **`freeTabs` and the structure of the pin**: all the blocks of the pin. -/
lemma freeGpioPin_freed (hp : p.Is h) (hlive : ∀ b ∈ p.blocks, b ∈ h.live) (hnd : p.blocks.Nodup) :
    ∃ h', freeGpioPin p.pin h = some h' ∧ Freed h h' p.blocks p.below := by
  obtain ⟨hpin, hhooks⟩ := List.nodup_cons.mp hnd
  have ho : hookKind.OnList h (.hookList p.pin) p.hooks :=
    ⟨hp.ring, hp.hooks, fun b hb => hlive b (List.mem_cons_of_mem _ hb), hhooks⟩
  obtain ⟨h₁, htabs, hf₁⟩ := Kind.forEachSafe_freed (freeTab_frees _) ho
    (fun h' hh' => hh' _ (hlive _ List.mem_cons_self) hpin)
    (fun b hb he => hpin (Option.some.inj he ▸ hb))
  obtain ⟨h₂, hfree, hf₂⟩ := free_live ((hf₁.live _).mpr ⟨hlive _ List.mem_cons_self, hpin⟩)
  refine ⟨h₂, ?_, (hf₁.trans hf₂).mono (fun b => ?_) ?_⟩
  · change (freeTabs p.pin h).bind _ = some h₂
    rw [show freeTabs p.pin h = some h₁ from htabs]
    exact hfree
  · rw [PinAt.blocks, List.mem_append, List.mem_singleton, List.mem_cons]
    exact or_comm
  · rw [List.append_nil]
    exact List.Subset.refl _

def pinKind : Kind B (PinAt B) where
  block := PinAt.pin
  blocks := PinAt.blocks
  below := PinAt.below
  Is := PinAt.Is
  block_mem _ := List.mem_cons_self
  below_block p n hn := by
    rcases List.mem_cons.mp hn with rfl | hn
    · exact ⟨p.pin, List.mem_cons_self, rfl⟩
    · obtain ⟨k, hk, hn⟩ := List.mem_flatMap.mp hn
      have hin : ∀ b ∈ k.blocks, b ∈ p.blocks := fun b hb =>
        List.mem_cons_of_mem _ (List.mem_flatMap.mpr ⟨k, hk, hb⟩)
      rcases List.mem_cons.mp hn with rfl | hn
      · exact ⟨k.hook, hin _ List.mem_cons_self, rfl⟩
      · obtain ⟨b, hb, hblock⟩ := hookKind.below_block k n hn
        exact ⟨b, hin b hb, hblock⟩
  apart p hnd hmem := by
    obtain ⟨hpin, -⟩ := List.nodup_cons.mp hnd
    rcases List.mem_cons.mp hmem with he | hmem
    · cases he
    · obtain ⟨k, hk, hn⟩ := List.mem_flatMap.mp hmem
      rcases List.mem_cons.mp hn with he | hn
      · have hhook : p.pin = k.hook := Node.list.inj he
        exact hpin (List.mem_flatMap.mpr ⟨k, hk, hhook ▸ List.mem_cons_self⟩)
      · obtain ⟨b, hb, hblock⟩ := hookKind.below_block k _ hn
        exact hpin (List.mem_flatMap.mpr ⟨k, hk, Option.some.inj hblock ▸ hb⟩)
  frame hf hp hout := hf.pin hp hout

variable {h' : Heap B} {pins : List (PinAt B)}

omit [DecidableEq B] in
lemma gpList_block (bs : List B) : ∀ b ∈ bs, (Node.gpList : Node B).block ≠ some b :=
  fun _ _ he => by cases he

omit [DecidableEq B] in
lemma not_gpList_of_below (hnd : (pins.flatMap PinAt.blocks).Nodup) (hp : p ∈ pins) {n : Node B}
    (hn : n ∈ p.below) : n ∉ Node.gpList :: pins.map pinKind.node := by
  rw [List.mem_cons, not_or]
  refine ⟨fun he => ?_, Kind.not_node_of_below hnd hp hn⟩
  obtain ⟨b, -, hblock⟩ := pinKind.below_block p n hn
  rw [he] at hblock
  cases hblock

lemma freeGpioPin_onList (ho : pinKind.OnList h .gpList pins) (hp : p ∈ pins)
    (hf : Freed h h' [] (.gpList :: pins.map pinKind.node)) :
    ∃ h'', freeGpioPin p.pin h' = some h'' ∧ Freed h' h'' p.blocks p.below :=
  freeGpioPin_freed (hf.pin (ho.is p hp) fun _ hn => not_gpList_of_below ho.nodup hp hn)
    (fun b hb => (hf.live b).mpr
      ⟨ho.live b (List.mem_flatMap.mpr ⟨p, hp, hb⟩), List.not_mem_nil⟩)
    ((List.nodup_flatMap.mp ho.nodup).1 p hp)

/-- In the middle of the loop of `init_gpio_pins`. -/
structure Removing (h : Heap B) (init : B → ℤ) (pins : List (PinAt B)) (ns : List (Node B))
    (h' : Heap B) : Prop where
  split : ∃ done rest, pins = done ++ rest ∧ ns = rest.map pinKind.node ∧
    pinKind.OnList h' .gpList ((done.filter fun p => init p.pin ≠ -1) ++ rest) ∧
    (∀ b, b ∈ h'.live ↔ b ∈ h.live ∧
      b ∉ (done.filter fun p => init p.pin = -1).flatMap PinAt.blocks) ∧
    h' = { h with links := h'.links, live := h'.live }

lemma Removing.step {init : B → ℤ} {n : Node B} {ns : List (Node B)}
    (hI : Removing h init pins (n :: ns) h') :
    ∃ h'', initGpioPin init n h' = some h'' ∧ Removing h init pins ns h'' := by
  obtain ⟨done, rest, hsplit, hns, ho, hlive, hmem⟩ := hI
  obtain ⟨p, rest, rfl, rfl, rfl⟩ := List.map_eq_cons_iff.mp hns.symm
  have hsplit' : pins = (done ++ [p]) ++ rest := by rw [hsplit, List.append_assoc]; rfl
  have hp : p ∈ (done.filter fun p => init p.pin ≠ -1) ++ p :: rest := by simp
  have hread : h'.read p.pin (init p.pin) = some (init p.pin) := if_pos (ho.node_valid hp)
  by_cases hret : init p.pin = -1
  · -- the pin is taken from the list and freed
    have hvalid : ∀ n ∈ Node.gpList :: (((done.filter fun p => init p.pin ≠ -1).map pinKind.node) ++
        pinKind.node p :: rest.map pinKind.node), h'.Valid n := by
      intro n hn
      rcases List.mem_cons.mp hn with rfl | hn
      · trivial
      · rw [← List.map_cons, ← List.map_append] at hn
        obtain ⟨q, hq, rfl⟩ := List.mem_map.mp hn
        exact ho.node_valid hq
    have hring := ho.ring
    rw [List.map_append, List.map_cons] at hring
    obtain ⟨h₁, hdel, hring₁, hf₁⟩ := listDel_ring hring hvalid
    rw [← List.map_cons, ← List.map_append] at hf₁
    obtain ⟨h₂, hfree, hf₂⟩ := freeGpioPin_onList ho hp hf₁
    rw [← List.map_append] at hring₁
    have hring₂ : Ring h₂.links .gpList
        (((done.filter fun p => init p.pin ≠ -1) ++ rest).map pinKind.node) := by
      refine hring₁.congr fun n hn => hf₂.links n fun hbelow =>
        not_gpList_of_below ho.nodup hp hbelow ?_
      simp only [List.map_append, List.map_cons, List.mem_append, List.mem_cons] at hn ⊢
      tauto
    have hf := hf₁.trans hf₂
    refine ⟨h₂, ?_, done ++ [p], rest, hsplit', rfl, ?_, fun b => ?_, ?_⟩
    · change (h'.read p.pin (init p.pin)).bind _ = some h₂
      rw [hread, Option.bind_some, if_pos hret]
      change (h'.listDel (pinKind.node p)).bind _ = some h₂
      rw [hdel]
      exact hfree
    · have hrest := ho.rest (gpList_block _) hring₂ hf
      rw [List.filter_append, List.filter_singleton]
      simpa [hret] using hrest
    · rw [hf.live, hlive, List.filter_append, List.filter_singleton]
      simp [hret, and_assoc]
    · rw [hf.members, hmem]
  · refine ⟨h', ?_, done ++ [p], rest, hsplit', rfl, ?_, fun b => ?_, hmem⟩
    · change (h'.read p.pin (init p.pin)).bind _ = some h'
      rw [hread]
      exact if_neg hret
    · rw [List.filter_append, List.filter_singleton]
      simpa [hret] using ho
    · rw [List.filter_append, List.filter_singleton, hlive]
      simp [hret]

/-- **`init_gpio_pins`** frees the pins whose `init` has failed, and keeps the others in order. -/
lemma initGpioPins_freed (init : B → ℤ) (ho : pinKind.OnList h .gpList pins) :
    ∃ h', initGpioPins init h = some h' ∧
      pinKind.OnList h' .gpList (pins.filter fun p => init p.pin ≠ -1) ∧
      (∀ b, b ∈ h'.live ↔ b ∈ h.live ∧
        b ∉ (pins.filter fun p => init p.pin = -1).flatMap PinAt.blocks) ∧
      h' = { h with links := h'.links, live := h'.live } := by
  have hfirst : h.next .gpList = some ((pins.map pinKind.node).headD .gpList) := by
    rw [next_valid (h := h) (n := .gpList) trivial, ho.ring.next_head]
  have hlen : (pins.map pinKind.node).length < h.live.card + 1 := by
    rw [List.length_map]
    exact ho.length_lt
  have hstart : Removing h init pins (pins.map pinKind.node) h :=
    ⟨[], pins, rfl, rfl, ho, fun b => by simp, rfl⟩
  obtain ⟨h', hok, done, rest, rfl, hrest, ho', hlive, hmem⟩ := listForEachSafe?_rule Heap.next
    (initGpioPin init) .gpList (Removing h init pins) (fun n ns h' hI => hI.step)
    (fun n ns h' hI => by
      obtain ⟨done, rest, -, hns, ho', -, -⟩ := hI
      obtain ⟨p, rest, rfl, rfl, rfl⟩ := List.map_eq_cons_iff.mp hns.symm
      have hring := ho'.ring
      rw [List.map_append, List.map_cons] at hring
      rw [next_valid (ho'.node_valid (by simp)), hring.next_mem])
    (fun h' hI => ⟨_, next_valid (h := h') (n := .gpList) trivial⟩) hfirst
    (List.nodup_cons.mp ho.ring.nodup).1 hstart hlen
  obtain rfl : rest = [] := List.map_eq_nil_iff.mp hrest.symm
  rw [List.append_nil] at ho' ⊢
  exact ⟨h', hok, ho', hlive, hmem⟩

/-- In the middle of the loop of `free_gpio_pins`: the pins stay on the list. -/
structure FreeingAll (h : Heap B) (pins : List (PinAt B)) (ns : List (Node B)) (h' : Heap B) :
    Prop where
  split : ∃ done rest, pins = done ++ rest ∧ ns = rest.map pinKind.node ∧
    Freed h h' (done.flatMap PinAt.blocks) (done.flatMap PinAt.below)

omit [DecidableEq B] in
lemma FreeingAll.pin {done rest : List (PinAt B)}
    (ho : pinKind.OnList h .gpList (done ++ p :: rest))
    (hf : Freed h h' (done.flatMap PinAt.blocks) (done.flatMap PinAt.below)) :
    p.Is h' ∧ (∀ b ∈ p.blocks, b ∈ h'.live) ∧ SameAt h.links h'.links (pinKind.node p) := by
  have hp : p ∈ done ++ p :: rest := by simp
  have hnd := ho.nodup
  rw [List.flatMap_append, List.flatMap_cons] at hnd
  have hapart : ∀ b ∈ p.blocks, b ∉ done.flatMap PinAt.blocks := fun b hb hdone =>
    (List.nodup_append.mp hnd).2.2 b hdone b (List.mem_append_left _ hb) rfl
  refine ⟨hf.pin (ho.is p hp) fun n hn hmem => ?_, fun b hb => ?_, hf.links _ fun hmem => ?_⟩
  · obtain ⟨q, hq, hnq⟩ := List.mem_flatMap.mp hmem
    obtain ⟨b, hb, hblock⟩ := pinKind.below_block p n hn
    obtain ⟨c, hc, hblock'⟩ := pinKind.below_block q n hnq
    obtain rfl : b = c := Option.some.inj (hblock.symm.trans hblock')
    exact hapart b hb (List.mem_flatMap.mpr ⟨q, hq, hc⟩)
  · exact (hf.live b).mpr ⟨ho.live b (List.mem_flatMap.mpr ⟨p, hp, hb⟩), hapart b hb⟩
  · obtain ⟨q, hq, hnq⟩ := List.mem_flatMap.mp hmem
    exact Kind.not_node_of_below ho.nodup (List.mem_append_left _ hq) hnq
      (List.mem_map_of_mem hp)

/-- **`free_gpio_pins`** frees every pin, with its hooks and their arguments. -/
lemma freeGpioPins_freed (ho : pinKind.OnList h .gpList pins) :
    ∃ h', freeGpioPins h = some h' ∧
      Freed h h' (pins.flatMap PinAt.blocks) (pins.flatMap PinAt.below) := by
  have hfirst : h.next .gpList = some ((pins.map pinKind.node).headD .gpList) := by
    rw [next_valid (h := h) (n := .gpList) trivial, ho.ring.next_head]
  have hlen : (pins.map pinKind.node).length < h.live.card + 1 := by
    rw [List.length_map]
    exact ho.length_lt
  obtain ⟨h', hok, done, rest, rfl, hrest, hf⟩ := listForEachSafe?_rule Heap.next
    (fun pos h => (listEntry pos).bind fun pin => freeGpioPin pin h) .gpList (FreeingAll h pins)
    (fun n ns h' hI => by
      obtain ⟨done, rest, rfl, hns, hf⟩ := hI
      obtain ⟨p, rest, rfl, rfl, rfl⟩ := List.map_eq_cons_iff.mp hns.symm
      obtain ⟨his, hlive, -⟩ := FreeingAll.pin ho hf
      obtain ⟨h'', hok, hf'⟩ := freeGpioPin_freed his hlive
        ((List.nodup_flatMap.mp ho.nodup).1 p (by simp))
      refine ⟨h'', hok, done ++ [p], rest, by simp, rfl, ?_⟩
      rw [List.flatMap_append, List.flatMap_append, List.flatMap_singleton, List.flatMap_singleton]
      exact hf.trans hf')
    (fun n ns h' hI => by
      obtain ⟨done, rest, rfl, hns, hf⟩ := hI
      obtain ⟨p, rest, rfl, rfl, rfl⟩ := List.map_eq_cons_iff.mp hns.symm
      obtain ⟨-, hlive, hsame⟩ := FreeingAll.pin ho hf
      have hring := ho.ring
      rw [List.map_append, List.map_cons] at hring
      have hvalid : h'.Valid (pinKind.node p) := hlive _ List.mem_cons_self
      rw [next_valid hvalid, hsame.1, hring.next_mem])
    (fun h' hI => ⟨_, next_valid (h := h') (n := .gpList) trivial⟩) hfirst
    (List.nodup_cons.mp ho.ring.nodup).1 ⟨[], pins, rfl, rfl, Freed.refl h⟩ hlen
  obtain rfl : rest = [] := List.map_eq_nil_iff.mp hrest.symm
  rw [List.append_nil]
  exact ⟨h', hok, hf⟩

end Gpiod.HookHeap
