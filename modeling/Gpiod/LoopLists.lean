import Mathlib.Data.Finset.Card
import Mathlib.Logic.Relation
import Gpiod.ListHead
import Gpiod.Loop
import Gpiod.LoopSetup

/-!
The lists of `loop` in memory: the pins are parted into two, and both are given back at
every exit.

Between the two the loop works on the lists of the wrappers and of the clients only. The heads of
the lists that are spliced keep their pointers, so they are lists no more; as the heads of the
program are never used again, nothing follows them.
-/

namespace Gpiod.LoopLists

open Gpiod.Pin Gpiod.Loop Gpiod.CLong Gpiod.LoopSetup Gpiod.CircularList Gpiod.ListHead

/-! ### Memory -/

inductive ListName
  | gpList | iList | pList | eList | tcpClients
  deriving DecidableEq, Repr

/-- The nodes in memory: their pointers, those of objects that are not freed, and those of the
clients that a descriptor is watched for. -/
structure Mem (A : Type) where
  links : Links A
  allocated : Finset A
  clients : Set A

/-- What is fixed: the heads, which are static variables, the address 0, and the pin that a node
is a member of. -/
structure Layout (A : Type) where
  head : ListName → A
  distinct : Function.Injective head
  null : A
  pin : A → GpioPin

variable {A : Type} [DecidableEq A] (L : Layout A)

/-- The pointer forward of a node, which cannot be read in freed memory. -/
def Mem.next (m : Mem A) (a : A) : Option A :=
  if a ∈ m.allocated then some (m.links.next a) else none

/-- A bound on the rounds of a loop over a list, above the number of its nodes. -/
def Mem.bound (m : Mem A) : ℕ := m.allocated.card + 1

def Mem.addTail (m : Mem A) (new : A) (k : ListName) : Mem A :=
  { m with links := listAddTail new (L.head k) m.links }

def Mem.moveTail (m : Mem A) (list : A) (k : ListName) : Mem A :=
  { m with links := listMoveTail list (L.head k) m.links }

def Mem.splice (m : Mem A) (k l : ListName) : Mem A :=
  { m with links := listSplice (L.head k) (L.head l) m.links }

def Mem.malloc (m : Mem A) (a : A) : Mem A := { m with allocated := insert a m.allocated }

def Mem.free (m : Mem A) (a : A) : Mem A := { m with allocated := m.allocated.erase a }

/-! ### The loop -/

/-- The body of the loop over the pins at the start. -/
def movePin (pos : A) (m : Mem A) : Mem A :=
  if onIList (L.pin pos) then m.moveTail L pos .iList else m.moveTail L pos .pList

def partition (m : Mem A) : Option (Mem A) :=
  listForEachSafe Mem.next (movePin L) (L.head .gpList) m.bound m

def deleteTcpClient (c : A) (m : Mem A) : Mem A :=
  { (({ m with links := listDel L.null c m.links } : Mem A).free c) with
    clients := m.clients \ {c} }

/-- What is done to memory from the partition to the shutdown. A step through the pointer of a
failed accept, which is null, or through a wrapper that is freed has no defined result, so no exit
follows it. -/
inductive Run : Mem A → Mem A → Prop
  /-- `add_to_epoll` succeeds -/
  | wrap {m : Mem A} {a : A} (ha : a ∉ m.allocated) : Run m ((m.malloc a).addTail L a .eList)
  /-- a client is accepted -/
  | connect {m : Mem A} {a : A} (ha : a ∉ m.allocated) :
      Run m { (({ m.malloc a with links := initListHead a m.links } : Mem A).addTail L a
        .tcpClients) with clients := insert a m.clients }
  | disconnect {m : Mem A} {a : A} (ha : a ∈ m.clients) : Run m (deleteTcpClient L a m)
  /-- writes to memory that is no node of a list -/
  | elsewhere {m : Mem A} {links : Links A} (h : ∀ a ∈ m.allocated, SameAt m.links links a) :
      Run m { m with links := links }

/-- The body of a loop that frees the objects of a list; the nodes are noted. -/
def freeNode (pos : A) (s : Mem A × List A) : Mem A × List A := (s.1.free pos, s.2 ++ [pos])

def freeList (k : ListName) (m : Mem A) : Option (Mem A × List A) :=
  listForEachSafe (fun s => s.1.next) freeNode (L.head k) m.bound (m, [])

/-- What follows the loop over the events: the clients are disconnected and the wrappers freed. -/
def shutdown (m : Mem A) : Option (Mem A) := do
  let m ← listForEachSafe Mem.next (deleteTcpClient L) (L.head .tcpClients) m.bound m
  let (m, _) ← freeList L .eList m
  return m

def spliceLists (m : Mem A) : Mem A := (m.splice L .iList .gpList).splice L .pList .gpList

/-- An exit of `loop`, and the memory there; `none` would be a read of freed memory, or a loop
that does not end. -/
inductive Exits (m : Mem A) : Option (Mem A) → Prop
  /-- a call of the set-up fails -/
  | setup {w : LongWidth} {poll_period : ℤ} {calls : SetupCalls} {label : Label}
      (h : setup w poll_period calls = some label) :
      Exits m ((partition L m).map (spliceLists L))
  | shutdown {w : LongWidth} {poll_period : ℤ} {calls : SetupCalls} {m₁ m₂ : Mem A}
      (h : setup w poll_period calls = none) (hp : partition L m = some m₁)
      (hr : Relation.ReflTransGen (Run L) m₁ m₂) :
      Exits m ((shutdown L m₂).map (spliceLists L))

/-! ### Behind the loop -/

/-- `cleanup_gpio_pins`: the pins whose `cleanup` is called. -/
def cleanupGpioPins (m : Mem A) : Option (List A) :=
  listForEach (fun _ => m.next) (fun pos visited => visited ++ [pos]) (L.head .gpList) m.bound []

/-- `free_gpio_pins`: the pins that are freed. -/
def freeGpioPins (m : Mem A) : Option (List A) := (freeList L .gpList m).map Prod.snd

/-- The pins of a list that go to `i_list`. -/
def interruptPins (L : Layout A) (pins : List A) : List A :=
  pins.filter fun a => onIList (L.pin a)

/-- Those that go to `p_list`. -/
def pollPins (L : Layout A) (pins : List A) : List A :=
  pins.filter fun a => !onIList (L.pin a)

def givenBack (L : Layout A) (pins : List A) : List A := pollPins L pins ++ interruptPins L pins

/-- Every pin is given back: `gp_list` is a list of them all, without the two other heads, and the
functions behind the loop come to each pin once. -/
structure GivesBack (pins : List A) (m : Mem A) : Prop where
  ring : Ring m.links (L.head .gpList) (givenBack L pins)
  once : (givenBack L pins).Perm pins
  iList : L.head .iList ∉ L.head .gpList :: givenBack L pins
  pList : L.head .pList ∉ L.head .gpList :: givenBack L pins
  cleanup : cleanupGpioPins L m = some (givenBack L pins)
  free : freeGpioPins L m = some (givenBack L pins)

def contents (gp is ps es cs : List A) : ListName → List A
  | .gpList => gp
  | .iList => is
  | .pList => ps
  | .eList => es
  | .tcpClients => cs

/-- The lists in memory, none of whose nodes is freed. -/
structure InMemory (m : Mem A) (S : Set ListName) (c : ListName → List A) : Prop where
  lists : Lists m.links L.head S c
  owned : ∀ k ∈ S, ∀ a ∈ L.head k :: c k, a ∈ m.allocated

/-- The memory where `loop` is called: the pins are on `gp_list`, and the other lists are empty. -/
structure Entry (pins : List A) where
  mem : Mem A
  lists : InMemory L mem Set.univ (contents pins [] [] [] [])
  clients : mem.clients = ∅

/-- Nodes that the lists have no part in, and the pointers they have. -/
structure Frame (A : Type) where
  nodes : Set A
  links : Links A

/-- The lists in memory, and the nodes of a frame as they are. -/
structure Framed (L : Layout A) (F : Frame A) (m : Mem A) (S : Set ListName)
    (c : ListName → List A) : Prop extends InMemory L m S c where
  apart : ∀ a ∈ F.nodes, Fresh L.head S c a
  kept : ∀ a ∈ F.nodes, a ∈ m.allocated ∧ SameAt F.links m.links a

/-- The nodes of none of the lists where `loop` is called. -/
def Entry.frame {L : Layout A} {pins : List A} (e : Entry L pins) : Frame A where
  nodes := {a | a ∈ e.mem.allocated ∧ Fresh L.head Set.univ (contents pins [] [] [] []) a}
  links := e.mem.links

variable {L} {F : Frame A} {m : Mem A} {S : Set ListName} {c : ListName → List A} {k l : ListName}
  {gp is ps es cs pins xs ys zs : List A} {x y : A}

omit [DecidableEq A] in
lemma Entry.framed (e : Entry L pins) :
    Framed L e.frame e.mem Set.univ (contents pins [] [] [] []) :=
  ⟨e.lists, fun _ ha => ha.2, fun _ ha => ⟨ha.1, rfl, rfl⟩⟩

omit [DecidableEq A] in
lemma InMemory.framed (h : InMemory L m S c) : Framed L ⟨∅, m.links⟩ m S c :=
  ⟨h, fun _ ha => ha.elim, fun _ ha => ha.elim⟩

/-! ### Reading and freeing -/

lemma InMemory.first (h : InMemory L m S c) (hk : k ∈ S) :
    m.next (L.head k) = some ((c k).headD (L.head k)) := by
  rw [Mem.next, if_pos (h.owned k hk _ List.mem_cons_self), (h.lists.ring k hk).next_head]

lemma InMemory.read (h : InMemory L m S c) (hk : k ∈ S) (hc : c k = ys ++ y :: zs) :
    m.next y = some (zs.headD (L.head k)) := by
  have hring := h.lists.ring k hk
  have hmem : y ∈ L.head k :: c k := by simp [hc]
  rw [hc] at hring
  rw [Mem.next, if_pos (h.owned k hk y hmem), hring.next_mem]

omit [DecidableEq A] in
lemma InMemory.head_not_mem (h : InMemory L m S c) (hk : k ∈ S) : L.head k ∉ c k :=
  (List.nodup_cons.mp (h.lists.ring k hk).nodup).1

lemma InMemory.length_lt (h : InMemory L m S c) (hk : k ∈ S) : (c k).length < m.bound := by
  have hnd := (List.nodup_cons.mp (h.lists.ring k hk).nodup).2
  have hsub : (c k).toFinset ⊆ m.allocated := fun a ha =>
    h.owned k hk a (List.mem_cons_of_mem _ (List.mem_toFinset.mp ha))
  have hcard := Finset.card_le_card hsub
  rw [List.toFinset_card_of_nodup hnd] at hcard
  exact Nat.lt_succ_of_le hcard

omit [DecidableEq A] in
lemma InMemory.fresh (h : InMemory L m S c) (hx : x ∉ m.allocated) : Fresh L.head S c x :=
  fun k hk hmem => hx (h.owned k hk x hmem)

lemma Framed.free (h : Framed L F m S c) (hx : Fresh L.head S c x) (hf : x ∉ F.nodes) :
    Framed L F (m.free x) S c where
  lists := h.lists
  owned k hk a ha := Finset.mem_erase.mpr ⟨fun he => hx k hk (he ▸ ha), h.owned k hk a ha⟩
  apart := h.apart
  kept a ha := ⟨Finset.mem_erase.mpr ⟨fun he => hf (he ▸ ha), (h.kept a ha).1⟩, (h.kept a ha).2⟩

/-- In the middle of freeing a list: the nodes `ys` are still there, and nothing but the list is
touched. -/
structure Freeing (L : Layout A) (F : Frame A) (m : Mem A) (S : Set ListName)
    (c : ListName → List A) (k : ListName) (ys : List A) (s : Mem A × List A) : Prop where
  split : c k = s.2 ++ ys
  links : s.1.links = m.links
  others : ∀ l ∈ S \ {k}, ∀ a ∈ L.head l :: c l, a ∈ s.1.allocated
  head : L.head k ∈ s.1.allocated
  rest : ∀ a ∈ ys, a ∈ s.1.allocated
  frame : ∀ a ∈ F.nodes, a ∈ s.1.allocated

lemma Freeing.step (h : Framed L F m S c) (hk : k ∈ S) {s : Mem A × List A}
    (hf : Freeing L F m S c k (y :: ys) s) : Freeing L F m S c k ys (freeNode y s) := by
  have hnd := List.nodup_cons.mp (h.lists.ring k hk).nodup
  have hy : y ∈ c k := by simp [hf.split]
  have hnd' := hf.split ▸ hnd.2
  rw [List.nodup_append, List.nodup_cons] at hnd'
  refine ⟨by simp [hf.split, freeNode], hf.links, fun l hl a ha => ?_, ?_, fun a ha => ?_,
    fun a ha => ?_⟩
  · refine Finset.mem_erase.mpr ⟨?_, hf.others l hl a ha⟩
    rintro rfl
    exact h.lists.apart k hk l hl.1 (Ne.symm hl.2) a (List.mem_cons_of_mem _ hy) ha
  · exact Finset.mem_erase.mpr ⟨fun he => hnd.1 (he ▸ hy), hf.head⟩
  · refine Finset.mem_erase.mpr ⟨?_, hf.rest a (List.mem_cons_of_mem y ha)⟩
    rintro rfl
    exact hnd'.2.1.1 ha
  · refine Finset.mem_erase.mpr ⟨?_, hf.frame a ha⟩
    exact (h.apart a ha).ne hk (List.mem_cons_of_mem _ hy)

lemma Freeing.read (h : Framed L F m S c) (hk : k ∈ S) {s : Mem A × List A}
    (hf : Freeing L F m S c k (y :: ys) s) : s.1.next y = some (ys.headD (L.head k)) := by
  have hring := h.lists.ring k hk
  rw [hf.split] at hring
  rw [Mem.next, if_pos (hf.rest y List.mem_cons_self), hf.links, hring.next_mem]

/-- **A list is freed** node by node, each once, and the others are still there. -/
lemma freeList_spec (h : Framed L F m S c) (hk : k ∈ S) :
    ∃ m', freeList L k m = some (m', c k) ∧ Framed L F m' (S \ {k}) c := by
  have hstart : Freeing L F m S c k (c k) (m, []) :=
    ⟨rfl, rfl, fun l hl => h.owned l hl.1, h.owned k hk _ List.mem_cons_self,
      fun a ha => h.owned k hk a (List.mem_cons_of_mem _ ha), fun a ha => (h.kept a ha).1⟩
  obtain ⟨⟨m', visited⟩, hs, hf⟩ := listForEachSafe_rule
    (fun s : Mem A × List A => s.1.next) freeNode (L.head k) (Freeing L F m S c k)
    (fun y ys s hf => hf.step h hk) (fun y ys s hf => hf.read h hk)
    (fun s hf => ⟨_, if_pos hf.head⟩) (h.first hk) (h.head_not_mem hk) hstart (h.length_lt hk)
  have hvisited : c k = visited := hf.split.trans (List.append_nil visited)
  have hlinks : m'.links = m.links := hf.links
  refine ⟨m', by rw [freeList, hs, hvisited], ⟨?_, hf.others⟩, fun a ha l hl => ?_, fun a ha => ?_⟩
  · rw [hlinks]
    exact h.lists.subset fun _ hm => hm.1
  · exact h.apart a ha l hl.1
  · rw [hlinks]
    exact ⟨hf.frame a ha, (h.kept a ha).2⟩

/-! ### One list operation -/

section Contents

omit [DecidableEq A]

@[simp] lemma update_gpList (gp' : List A) :
    Function.update (contents gp is ps es cs) .gpList gp' = contents gp' is ps es cs := by
  funext k
  cases k <;> rfl

@[simp] lemma update_iList (is' : List A) :
    Function.update (contents gp is ps es cs) .iList is' = contents gp is' ps es cs := by
  funext k
  cases k <;> rfl

@[simp] lemma update_pList (ps' : List A) :
    Function.update (contents gp is ps es cs) .pList ps' = contents gp is ps' es cs := by
  funext k
  cases k <;> rfl

@[simp] lemma update_eList (es' : List A) :
    Function.update (contents gp is ps es cs) .eList es' = contents gp is ps es' cs := by
  funext k
  cases k <;> rfl

@[simp] lemma update_tcpClients (cs' : List A) :
    Function.update (contents gp is ps es cs) .tcpClients cs' = contents gp is ps es cs' := by
  funext k
  cases k <;> rfl

lemma owned_update (h : ∀ k ∈ S, ∀ a ∈ L.head k :: c k, a ∈ m.allocated)
    (hys : ∀ a ∈ ys, a ∈ m.allocated) :
    ∀ l ∈ S, ∀ a ∈ L.head l :: Function.update c k ys l, a ∈ m.allocated := by
  intro l hl a ha
  by_cases hlk : l = k
  · subst hlk
    rw [Function.update_self] at ha
    rcases List.mem_cons.mp ha with rfl | ha
    · exact h l hl _ List.mem_cons_self
    · exact hys a ha
  · rw [Function.update_of_ne hlk] at ha
    exact h l hl a ha

end Contents

lemma Framed.moveTail (h : Framed L F m S c) (hk : k ∈ S) (hl : l ∈ S) (hkl : k ≠ l)
    (hc : c k = y :: ys) : Framed L F (m.moveTail L y l) S
      (Function.update (Function.update c k ys) l (c l ++ [y])) := by
  have hsplit : c k = [] ++ y :: ys := hc
  have hy : ∀ a ∈ F.nodes, a ∉ ys ∧ a ∉ c l ++ [y] := fun a ha => by
    have hk' := h.apart a ha k hk
    have hl' := h.apart a ha l hl
    rw [hc] at hk'
    simp only [List.mem_cons, List.mem_append, List.not_mem_nil, or_false, not_or] at hk' hl' ⊢
    tauto
  refine ⟨⟨listMoveTail_lists h.lists hk hl hkl hsplit, ?_⟩, fun a ha => ?_, fun a ha => ?_⟩
  · refine owned_update (owned_update h.owned fun a ha => ?_) fun a ha => ?_
    · exact h.owned k hk a (by simp [hc, ha])
    · rcases List.mem_append.mp ha with ha | ha
      · exact h.owned l hl a (List.mem_cons_of_mem _ ha)
      · exact h.owned k hk a (by simp [hc, List.mem_singleton.mp ha])
  · exact ((h.apart a ha).update hk (hy a ha).1).update hl (hy a ha).2
  · exact ⟨(h.kept a ha).1,
      (h.kept a ha).2.trans (listMoveTail_same h.lists hk hl hsplit (h.apart a ha))⟩

lemma Framed.addTail (h : Framed L F m S c) (hk : k ∈ S) (hx : x ∉ m.allocated) :
    Framed L F ((m.malloc x).addTail L x k) S (Function.update c k (c k ++ [x])) := by
  have hne : ∀ a ∈ F.nodes, a ≠ x := fun a ha he => hx (he ▸ (h.kept a ha).1)
  refine ⟨⟨listAddTail_lists h.lists hk (h.fresh hx), ?_⟩, fun a ha => ?_, fun a ha => ?_⟩
  · refine owned_update (fun l hl a ha => Finset.mem_insert_of_mem (h.owned l hl a ha))
      fun a ha => ?_
    rcases List.mem_append.mp ha with ha | ha
    · exact Finset.mem_insert_of_mem (h.owned k hk a (List.mem_cons_of_mem _ ha))
    · exact Finset.mem_insert.mpr (Or.inl (List.mem_singleton.mp ha))
  · refine (h.apart a ha).update hk fun hmem => ?_
    rcases List.mem_append.mp hmem with hmem | hmem
    · exact h.apart a ha k hk (List.mem_cons_of_mem _ hmem)
    · exact hne a ha (List.mem_singleton.mp hmem)
  · exact ⟨Finset.mem_insert_of_mem (h.kept a ha).1,
      (h.kept a ha).2.trans (listAddTail_same h.lists hk (h.apart a ha) (hne a ha))⟩

lemma Framed.deleteTcpClient (h : Framed L F m S c) (hk : k ∈ S) (hc : c k = ys ++ y :: zs) :
    Framed L F (deleteTcpClient L y m) S (Function.update c k (ys ++ zs)) := by
  obtain ⟨hlists, hfresh⟩ := listDel_lists L.null h.lists hk hc
  have hrest : ∀ a ∈ ys ++ zs, a ∈ c k := fun a ha => by
    rw [hc]
    simp only [List.mem_cons, List.mem_append] at ha ⊢
    tauto
  have hy : y ∈ L.head k :: c k := by simp [hc]
  have hholds : Framed L F { m with links := listDel L.null y m.links } S
      (Function.update c k (ys ++ zs)) := by
    refine ⟨⟨hlists, owned_update h.owned fun a ha => ?_⟩, fun a ha => ?_, fun a ha => ?_⟩
    · exact h.owned k hk a (List.mem_cons_of_mem _ (hrest a ha))
    · exact (h.apart a ha).update hk fun hmem =>
        h.apart a ha k hk (List.mem_cons_of_mem _ (hrest a hmem))
    · exact ⟨(h.kept a ha).1,
        (h.kept a ha).2.trans (listDel_same L.null h.lists hk hc (h.apart a ha))⟩
  have hfree := hholds.free hfresh fun hf => h.apart y hf k hk hy
  exact ⟨⟨hfree.lists, hfree.owned⟩, hfree.apart, hfree.kept⟩

lemma Framed.splice (h : Framed L F m S c) (hk : k ∈ S) (hl : l ∈ S) (hkl : k ≠ l) :
    Framed L F (m.splice L k l) (S \ {k}) (Function.update c l (c k ++ c l)) := by
  refine ⟨⟨listSplice_lists h.lists hk hl hkl, ?_⟩, fun a ha => ?_, fun a ha => ?_⟩
  · refine owned_update (fun j hj => h.owned j hj.1) fun a ha => ?_
    rcases List.mem_append.mp ha with ha | ha
    · exact h.owned k hk a (List.mem_cons_of_mem _ ha)
    · exact h.owned l hl a (List.mem_cons_of_mem _ ha)
  · have hall : Fresh L.head S (Function.update c l (c k ++ c l)) a := by
      refine (h.apart a ha).update hl fun hmem => ?_
      rcases List.mem_append.mp hmem with hmem | hmem
      · exact h.apart a ha k hk (List.mem_cons_of_mem _ hmem)
      · exact h.apart a ha l hl (List.mem_cons_of_mem _ hmem)
    exact fun j hj => hall j hj.1
  · exact ⟨(h.kept a ha).1, (h.kept a ha).2.trans (listSplice_same h.lists hk hl (h.apart a ha))⟩

/-! ### The partition -/

/-- In the middle of the partition: the pins `ys` are still on `gp_list`. -/
structure Parting (L : Layout A) (F : Frame A) (pins ys : List A) (m : Mem A) : Prop where
  lists : ∃ done, pins = done ++ ys ∧
    Framed L F m Set.univ (contents ys (interruptPins L done) (pollPins L done) [] [])
  clients : m.clients = ∅

lemma Parting.step (h : Parting L F pins (y :: ys) m) :
    Parting L F pins ys (movePin L y m) := by
  obtain ⟨⟨done, hdone, hholds⟩, hclients⟩ := h
  unfold movePin
  cases hy : onIList (L.pin y) with
  | true =>
    have hmove := hholds.moveTail (l := .iList) (Set.mem_univ .gpList) (Set.mem_univ _)
      (by decide) rfl
    rw [update_gpList, update_iList] at hmove
    refine ⟨⟨done ++ [y], by simp [hdone], ?_⟩, hclients⟩
    simp only [interruptPins, pollPins, List.filter_append, List.filter_singleton, hy,
      Bool.not_true, cond_true, cond_false, List.append_nil]
    exact hmove
  | false =>
    have hmove := hholds.moveTail (l := .pList) (Set.mem_univ .gpList) (Set.mem_univ _)
      (by decide) rfl
    rw [update_gpList, update_pList] at hmove
    refine ⟨⟨done ++ [y], by simp [hdone], ?_⟩, hclients⟩
    simp only [interruptPins, pollPins, List.filter_append, List.filter_singleton, hy,
      Bool.not_false, cond_true, cond_false, List.append_nil]
    exact hmove

/-- **The partition** ends with every pin on one of the two lists. -/
lemma partition_spec (e : Entry L pins) :
    ∃ m, partition L e.mem = some m ∧ m.clients = ∅ ∧
      Framed L e.frame m Set.univ (contents [] (interruptPins L pins) (pollPins L pins) [] []) := by
  have hgp := Set.mem_univ ListName.gpList
  obtain ⟨m, hm, ⟨done, hdone, hholds⟩, hclients⟩ := listForEachSafe_rule Mem.next
    (movePin L) (L.head .gpList) (Parting L e.frame pins) (fun y ys m h => h.step)
    (fun y ys m h => by
      obtain ⟨done, -, hholds⟩ := h.lists
      exact hholds.read hgp (List.nil_append (y :: ys)).symm)
    (fun m h => by
      obtain ⟨done, -, hholds⟩ := h.lists
      exact ⟨_, hholds.first hgp⟩)
    (e.lists.first hgp) (e.lists.head_not_mem hgp) ⟨⟨[], rfl, e.framed⟩, e.clients⟩
    (e.lists.length_lt hgp)
  rw [List.append_nil] at hdone
  subst hdone
  exact ⟨m, hm, hclients, hholds⟩

/-! ### The run -/

/-- The lists during the run: the wrappers `es` and the clients `cs` come and go. -/
structure Running (L : Layout A) (F : Frame A) (is ps : List A) (m : Mem A) : Prop where
  lists : ∃ es cs, Framed L F m Set.univ (contents [] is ps es cs) ∧ ∀ a, a ∈ m.clients ↔ a ∈ cs

/-- **A step of the run** leaves the lists of the pins as they are. -/
lemma Running.step {m' : Mem A} (h : Running L F is ps m) (hs : Run L m m') :
    Running L F is ps m' := by
  obtain ⟨es, cs, hholds, hclients⟩ := h
  cases hs with
  | @wrap a ha =>
    have hadd := hholds.addTail (Set.mem_univ .eList) ha
    rw [update_eList] at hadd
    exact ⟨_, cs, hadd, hclients⟩
  | @connect a ha =>
    have hinit : Framed L F { m with links := initListHead a m.links } Set.univ
        (contents [] is ps es cs) :=
      ⟨⟨set_lists hholds.lists (hholds.fresh ha) a a, hholds.owned⟩, hholds.apart,
        fun b hb => ⟨(hholds.kept b hb).1, (hholds.kept b hb).2.trans (sameAt_set _ a a
          fun he => ha (he ▸ (hholds.kept b hb).1))⟩⟩
    have hadd := hinit.addTail (Set.mem_univ .tcpClients) ha
    rw [update_tcpClients] at hadd
    refine ⟨es, _, ⟨⟨hadd.lists, hadd.owned⟩, hadd.apart, hadd.kept⟩, fun b => ?_⟩
    have hb := hclients b
    simp only [Set.mem_insert_iff, contents, List.mem_append, List.mem_singleton]
    tauto
  | @disconnect a ha =>
    obtain ⟨ys, zs, hsplit⟩ := List.append_of_mem ((hclients a).mp ha)
    subst hsplit
    have hdel := hholds.deleteTcpClient (Set.mem_univ .tcpClients) rfl
    rw [update_tcpClients] at hdel
    refine ⟨es, _, hdel, fun b => ?_⟩
    have hnd := (List.nodup_cons.mp (hholds.lists.ring .tcpClients (Set.mem_univ _)).nodup).2
    have hout : a ∉ ys ++ zs := (List.nodup_cons.mp (List.nodup_middle.mp hnd)).1
    have hb := hclients b
    change b ∈ m.clients \ {a} ↔ b ∈ ys ++ zs
    rw [Set.mem_sdiff, Set.mem_singleton_iff, hb]
    constructor
    · rintro ⟨hmem, hne⟩
      rcases List.mem_append.mp hmem with hy | hz
      · exact List.mem_append_left zs hy
      · exact List.mem_append_right ys ((List.mem_cons.mp hz).resolve_left hne)
    · intro hmem
      refine ⟨?_, ne_of_mem_of_not_mem hmem hout⟩
      rcases List.mem_append.mp hmem with hy | hz
      · exact List.mem_append_left _ hy
      · exact List.mem_append_right ys (List.mem_cons_of_mem a hz)
  | @elsewhere links hsame =>
    refine ⟨es, cs, ⟨⟨hholds.lists.congr fun k hk a ha => ?_, hholds.owned⟩, hholds.apart,
      fun a ha => ⟨(hholds.kept a ha).1, ?_⟩⟩, hclients⟩
    · exact hsame a (hholds.owned k hk a ha)
    · exact (hholds.kept a ha).2.trans (hsame a (hholds.kept a ha).1)

/-- **A whole run** does. -/
lemma Running.run {m' : Mem A} (h : Running L F is ps m)
    (hr : Relation.ReflTransGen (Run L) m m') : Running L F is ps m' := by
  induction hr with
  | refl => exact h
  | tail _ hs ih => exact ih.step hs

/-- The lists of the pins, when the others are gone. -/
abbrev pinLists : Set ListName := {k | k = .gpList ∨ k = .iList ∨ k = .pList}

lemma shutdown_spec (h : Running L F is ps m) :
    ∃ m', shutdown L m = some m' ∧ ∃ es, Framed L F m' pinLists (contents [] is ps es []) := by
  obtain ⟨es, cs, hholds, -⟩ := h
  have htcp := Set.mem_univ ListName.tcpClients
  obtain ⟨m₁, hm₁, hheld⟩ := listForEachSafe_rule Mem.next (deleteTcpClient L)
    (L.head .tcpClients) (fun ys m => Framed L F m Set.univ (contents [] is ps es ys))
    (fun y ys m h => by
      have hdel := h.deleteTcpClient htcp (List.nil_append (y :: ys)).symm
      rwa [update_tcpClients] at hdel)
    (fun y ys m h => h.read htcp (List.nil_append (y :: ys)).symm) (fun m h => ⟨_, h.first htcp⟩)
    (hholds.first htcp) (hholds.head_not_mem htcp) hholds (hholds.length_lt htcp)
  obtain ⟨m₂, hm₂, hheld₂⟩ := freeList_spec hheld (Set.mem_univ .eList)
  have hsub : pinLists ⊆ Set.univ \ {.eList} := by
    rintro k (rfl | rfl | rfl) <;> exact ⟨Set.mem_univ _, by decide⟩
  exact ⟨m₂, by simp [shutdown, hm₁, hm₂], es,
    ⟨⟨hheld₂.lists.subset hsub, fun k hk => hheld₂.owned k (hsub hk)⟩,
      fun a ha k hk => hheld₂.apart a ha k (hsub hk), hheld₂.kept⟩⟩

/-! ### The exit -/

lemma cleanupGpioPins_spec (h : InMemory L m S c) (hk : .gpList ∈ S) :
    cleanupGpioPins L m = some (c .gpList) := by
  obtain ⟨visited, hs, hsplit⟩ := listForEach_rule (fun _ => m.next)
    (fun pos visited => visited ++ [pos]) (L.head .gpList)
    (fun ys visited => c .gpList = visited ++ ys)
    (fun y ys visited hsplit => ⟨by simp [hsplit], h.read hk hsplit⟩) (h.first hk)
    (h.head_not_mem hk) (s := []) rfl (h.length_lt hk)
  rw [List.append_nil] at hsplit
  rw [cleanupGpioPins, hs, hsplit]

/-- **The splices** give `gp_list` all the pins. -/
lemma spliceLists_spec (hS : pinLists ⊆ S)
    (h : Framed L F m S (contents [] (interruptPins L pins) (pollPins L pins) es cs)) :
    GivesBack L pins (spliceLists L m) ∧
      ∀ a ∈ F.nodes, SameAt F.links (spliceLists L m).links a := by
  have hgp : ListName.gpList ∈ S := hS (Or.inl rfl)
  have hi : ListName.iList ∈ S := hS (Or.inr (Or.inl rfl))
  have hp : ListName.pList ∈ S := hS (Or.inr (Or.inr rfl))
  have h₁ := h.splice hi hgp (by decide)
  rw [update_gpList] at h₁
  have h₂ := h₁.splice (k := .pList) (l := .gpList) ⟨hp, by decide⟩ ⟨hgp, by decide⟩ (by decide)
  rw [update_gpList] at h₂
  have hback : Framed L F (spliceLists L m) ((S \ {.iList}) \ {.pList})
      (contents (givenBack L pins) (interruptPins L pins) (pollPins L pins) es cs) := by
    rw [givenBack, ← List.append_nil (interruptPins L pins)]
    nth_rewrite 2 [List.append_nil]
    exact h₂
  have hgp' : ListName.gpList ∈ (S \ {.iList}) \ {.pList} := ⟨⟨hgp, by decide⟩, by decide⟩
  have hapart := h.lists.apart
  refine ⟨⟨hback.lists.ring _ hgp', ?_, ?_, ?_, cleanupGpioPins_spec hback.toInMemory hgp', ?_⟩,
    fun a ha => (hback.kept a ha).2⟩
  · exact List.perm_append_comm.trans (List.filter_append_perm _ pins)
  · have h1 := hapart .iList hi .gpList hgp (by decide) _ List.mem_cons_self
    have h2 := hapart .iList hi .pList hp (by decide) _ List.mem_cons_self
    have h3 := h.head_not_mem hi
    simp only [contents, givenBack, List.mem_cons, List.mem_append, not_or, List.not_mem_nil,
      not_false_eq_true, and_true] at h1 h2 h3 ⊢
    exact ⟨h1, h2.2, h3⟩
  · have h1 := hapart .pList hp .gpList hgp (by decide) _ List.mem_cons_self
    have h2 := hapart .pList hp .iList hi (by decide) _ List.mem_cons_self
    have h3 := h.head_not_mem hp
    simp only [contents, givenBack, List.mem_cons, List.mem_append, not_or, List.not_mem_nil,
      not_false_eq_true, and_true] at h1 h2 h3 ⊢
    exact ⟨h1, h3, h2.2⟩
  · obtain ⟨m', hm', -⟩ := freeList_spec hback hgp'
    rw [freeGpioPins, hm']
    rfl

/-! ### Pins that are loaded -/

/-- The heads, each linked to itself. -/
def emptyMem (L : Layout A) : Mem A where
  links := ⟨id, id⟩
  allocated := {L.head .gpList, L.head .iList, L.head .pList, L.head .eList, L.head .tcpClients}
  clients := ∅

/-- `list_add_tail` of every pin that `loadConfig` allocates. -/
def loadPins (L : Layout A) (pins : List A) (m : Mem A) : Mem A :=
  pins.foldl (fun m a => (m.malloc a).addTail L a .gpList) m

lemma mem_emptyMem {a : A} : a ∈ (emptyMem L).allocated ↔ ∃ k, a = L.head k := by
  simp only [emptyMem, Finset.mem_insert, Finset.mem_singleton]
  constructor
  · rintro (h | h | h | h | h) <;> exact ⟨_, h⟩
  · rintro ⟨k, rfl⟩
    cases k <;> simp

lemma emptyMem_lists : InMemory L (emptyMem L) Set.univ (contents [] [] [] [] []) := by
  have hnil : ∀ k, contents ([] : List A) [] [] [] [] k = [] := fun k => by cases k <;> rfl
  refine ⟨⟨fun k _ => ?_, fun k _ l _ hkl a ha => ?_⟩, fun k _ a ha => ?_⟩
  · rw [hnil k]
    exact ⟨List.nodup_singleton _, List.isChain_pair.mpr ⟨rfl, rfl⟩⟩
  · rw [hnil k, List.mem_singleton] at ha
    rw [hnil l, List.mem_singleton, ha]
    exact fun he => hkl (L.distinct he)
  · rw [hnil k, List.mem_singleton] at ha
    exact mem_emptyMem.mpr ⟨k, ha⟩

lemma loadPins_lists (h : InMemory L m Set.univ (contents gp [] [] [] []))
    (hout : ∀ a ∈ pins, a ∉ m.allocated) (hnd : pins.Nodup) :
    InMemory L (loadPins L pins m) Set.univ (contents (gp ++ pins) [] [] [] []) := by
  induction pins generalizing m gp with
  | nil => rwa [List.append_nil]
  | cons a pins ih =>
    rw [List.nodup_cons] at hnd
    have hadd := h.framed.addTail (Set.mem_univ .gpList) (hout a List.mem_cons_self)
    rw [update_gpList] at hadd
    have hrest := ih hadd.toInMemory (fun b hb => ?_) hnd.2
    · rw [← List.singleton_append, ← List.append_assoc]
      exact hrest
    · refine Finset.mem_insert.not.mpr (not_or.mpr ⟨?_, hout b (List.mem_cons_of_mem a hb)⟩)
      rintro rfl
      exact hnd.1 hb

lemma loadPins_clients (m : Mem A) : (loadPins L pins m).clients = m.clients := by
  induction pins generalizing m with
  | nil => rfl
  | cons a pins ih => exact ih _

lemma loaded_lists (hnd : pins.Nodup) (hout : ∀ a ∈ pins, ∀ k, a ≠ L.head k) :
    InMemory L (loadPins L pins (emptyMem L)) Set.univ (contents pins [] [] [] []) := by
  have hfresh : ∀ a ∈ pins, a ∉ (emptyMem L).allocated := fun a ha hmem => by
    obtain ⟨k, hk⟩ := mem_emptyMem.mp hmem
    exact hout a ha k hk
  have hload := loadPins_lists emptyMem_lists hfresh hnd
  rwa [List.nil_append] at hload

/-- The entry with the pins that are loaded, in any number and at any addresses. -/
def Entry.loaded (L : Layout A) (pins : List A) (hnd : pins.Nodup)
    (hout : ∀ a ∈ pins, ∀ k, a ≠ L.head k) : Entry L pins :=
  ⟨loadPins L pins (emptyMem L), loaded_lists hnd hout, loadPins_clients (emptyMem L)⟩

/-! ### Giving back -/

/-- At every exit of the loop every pin is given back, and the nodes of none of the lists have the
pointers they had. -/
theorem loop_framed (e : Entry L pins) {r : Option (Mem A)} (hr : Exits L e.mem r) :
    ∃ m, r = some m ∧ GivesBack L pins m ∧ ∀ a ∈ e.frame.nodes, SameAt e.mem.links m.links a := by
  obtain ⟨m₁, hm₁, hclients, hheld⟩ := partition_spec e
  cases hr with
  | setup h =>
    rw [hm₁]
    exact ⟨_, rfl, spliceLists_spec (Set.subset_univ _) hheld⟩
  | shutdown h hp hrun =>
    obtain rfl := Option.some.inj (hm₁.symm.trans hp)
    have hstart : Running L e.frame (interruptPins L pins) (pollPins L pins) m₁ :=
      ⟨[], [], hheld, fun a => by simp [hclients]⟩
    obtain ⟨m', hm', es, hheld'⟩ := shutdown_spec (hstart.run hrun)
    rw [hm']
    exact ⟨_, rfl, spliceLists_spec (le_refl _) hheld'⟩

/-- **Every pin is given back** at every exit of the loop, whatever list of pins it is called
with. -/
theorem loop_givesBack (e : Entry L pins) {r : Option (Mem A)} (hr : Exits L e.mem r) :
    ∃ m, r = some m ∧ GivesBack L pins m := by
  obtain ⟨m, hm, hback, -⟩ := loop_framed e hr
  exact ⟨m, hm, hback⟩

/-- The heads at the first five addresses. -/
def lowHead : ListName → ℕ
  | .gpList => 0
  | .iList => 1
  | .pList => 2
  | .eList => 3
  | .tcpClients => 4

lemma lowHead_injective : Function.Injective lowHead := by
  intro k l h
  cases k <;> cases l <;> first | rfl | cases h

def oddPolled : Layout ℕ where
  head := lowHead
  distinct := lowHead_injective
  null := 5
  pin := fun a => ⟨[], 0, .sysfs, if a % 2 = 1 then .polled else .both, 0, []⟩

/-- A wrapper is allocated and a client comes and goes. -/
def oneClient (m : Mem ℕ) : Mem ℕ :=
  let wrapped := (m.malloc 20).addTail oddPolled 20 .eList
  let connected : Mem ℕ := { (({ wrapped.malloc 21 with
    links := initListHead 21 wrapped.links } : Mem ℕ).addTail oddPolled 21 .tcpClients) with
    clients := insert 21 wrapped.clients }
  deleteTcpClient oddPolled 21 connected

lemma oneClient_run {m : Mem ℕ} (h : 20 ∉ m.allocated ∧ 21 ∉ m.allocated) :
    Relation.ReflTransGen (Run oddPolled) m (oneClient m) := by
  refine .tail (.tail (.single (.wrap h.1)) (.connect ?_)) (.disconnect (Set.mem_insert _ _))
  intro hmem
  rcases Finset.mem_insert.mp hmem with he | hmem
  · cases he
  · exact h.2 hmem

/-- The loop has run with three pins, and shuts down. -/
theorem givesBack_three : ∃ m₁ m,
    partition oddPolled (loadPins oddPolled [10, 11, 12] (emptyMem oddPolled)) = some m₁ ∧
      (shutdown oddPolled (oneClient m₁)).map (spliceLists oddPolled) = some m ∧
      GivesBack oddPolled [10, 11, 12] m := by
  have hout : ∀ a ∈ [10, 11, 12], ∀ k, a ≠ oddPolled.head k := by
    intro a ha k
    cases k <;> simp [oddPolled, lowHead] at ha ⊢ <;> omega
  have hset : setup .w64 50 ⟨0, 0, 0, 0, 0, fun _ => 0, 0⟩ = none := rfl
  have hfree : ((partition oddPolled (loadPins oddPolled [10, 11, 12] (emptyMem oddPolled))).map
      fun m => decide (20 ∉ m.allocated ∧ 21 ∉ m.allocated)) = some true := by decide
  obtain ⟨m₁, hm₁, hfree⟩ := Option.map_eq_some_iff.mp hfree
  obtain ⟨m, hm, hback⟩ := loop_givesBack (Entry.loaded oddPolled [10, 11, 12] (by decide) hout)
    (.shutdown hset hm₁ (oneClient_run (of_decide_eq_true hfree)))
  exact ⟨m₁, m, hm₁, hm, hback⟩

end Gpiod.LoopLists
