import Mathlib.Data.List.Chain
import Mathlib.Data.List.Nodup
import Mathlib.Data.Set.Insert
import Mathlib.Logic.Function.Basic
import Mathlib.Tactic.Common

/-!
Intrusive circular lists: heads and nodes linked by two pointers each, in one heap.

All that list operations do to the heap is to make two nodes neighbours, and two paths are joined
that way where neither end is in the middle of them. A family of lists without a common
node keeps that under insertion of a new node, removal and splicing.
-/

namespace Gpiod.CircularList

structure Links (A : Type) where
  next : A → A
  prev : A → A

variable {A : Type}

/-- The two heaps have the same pointers at a node. -/
def SameAt (h h' : Links A) (a : A) : Prop := h'.next a = h.next a ∧ h'.prev a = h.prev a

/-- `b` is behind `a`, seen from both. -/
structure Linked (h : Links A) (a b : A) : Prop where
  next : h.next a = b
  prev : h.prev b = a

lemma SameAt.trans {h h' h'' : Links A} {a : A} (h₁ : SameAt h h' a) (h₂ : SameAt h' h'' a) :
    SameAt h h'' a :=
  ⟨h₂.1.trans h₁.1, h₂.2.trans h₁.2⟩

/-- Each node of the list is linked to the one behind it. -/
def Path (h : Links A) (l : List A) : Prop := l.IsChain (Linked h)

/-- The nodes `xs` behind the head, in this order, and back to the head. -/
structure Ring (h : Links A) (head : A) (xs : List A) : Prop where
  nodup : (head :: xs).Nodup
  path : Path h (head :: (xs ++ [head]))

/-! ### Following the pointers -/

section Pointers

variable {h h' : Links A} {head x : A} {l xs ys : List A}

/-- A path needs only the pointers forward of all nodes but the last, and the pointers back of all
but the first. -/
lemma Path.congr (hp : Path h l) (hnext : ∀ c ∈ l.dropLast, h'.next c = h.next c)
    (hprev : ∀ c ∈ l.tail, h'.prev c = h.prev c) : Path h' l := by
  induction l with
  | nil => exact .nil
  | cons a l ih =>
    cases l with
    | nil => exact .singleton a
    | cons b l =>
      obtain ⟨hab, htail⟩ := List.isChain_cons_cons.mp hp
      have ha : h'.next a = h.next a := hnext a (by simp)
      have hb : h'.prev b = h.prev b := hprev b (by simp)
      refine List.isChain_cons_cons.mpr ⟨⟨ha.trans hab.next, hb.trans hab.prev⟩, ?_⟩
      refine ih htail (fun c hc => hnext c ?_) fun c hc => hprev c ?_
      · rw [List.dropLast_cons_cons]
        exact List.mem_cons_of_mem a hc
      · exact List.mem_of_mem_tail hc

lemma Ring.congr (hr : Ring h head xs) (hsame : ∀ c ∈ head :: xs, SameAt h h' c) :
    Ring h' head xs := by
  refine ⟨hr.nodup, hr.path.congr (fun c hc => (hsame c ?_).1) fun c hc => (hsame c ?_).2⟩
  · rwa [← List.cons_append, List.dropLast_concat] at hc
  · rw [List.tail_cons, List.mem_append, List.mem_singleton] at hc
    rcases hc with hc | rfl
    · exact List.mem_cons_of_mem head hc
    · exact List.mem_cons_self

lemma Ring.next_head (hr : Ring h head xs) : h.next head = xs.headD head := by
  have hpath := hr.path
  cases xs with
  | nil => exact (List.isChain_cons_cons.mp hpath).1.next
  | cons x xs => exact (List.isChain_cons_cons.mp hpath).1.next

lemma Ring.split (hr : Ring h head (ys ++ x :: xs)) :
    Path h (head :: (ys ++ [x])) ∧ Path h (x :: (xs ++ [head])) := by
  have hpath := hr.path
  rw [List.append_assoc, List.cons_append, ← List.cons_append, Path, List.isChain_split] at hpath
  exact hpath

lemma Ring.next_mem (hr : Ring h head (ys ++ x :: xs)) : h.next x = xs.headD head := by
  have hpath := hr.split.2
  cases xs with
  | nil => exact (List.isChain_cons_cons.mp hpath).1.next
  | cons y xs => exact (List.isChain_cons_cons.mp hpath).1.next

lemma Path.last (hp : Path h (head :: (xs ++ [x]))) :
    ∃ u p, head :: xs = u ++ [p] ∧ Path h (head :: xs) ∧ h.prev x = p := by
  obtain ⟨u, p, hup⟩ : ∃ u p, head :: xs = u ++ [p] :=
    ⟨_, _, (List.dropLast_append_getLast (List.cons_ne_nil head xs)).symm⟩
  rw [← List.cons_append, hup, List.append_assoc, Path] at hp
  obtain ⟨hfront, hlink⟩ := List.isChain_split.mp hp
  exact ⟨u, p, hup, hup ▸ hfront, (List.isChain_cons_cons.mp hlink).1.prev⟩

lemma Path.first (hp : Path h (x :: (xs ++ [head]))) :
    ∃ n v, xs ++ [head] = n :: v ∧ Path h (xs ++ [head]) ∧ h.next x = n := by
  obtain ⟨n, v, hnv⟩ : ∃ n v, xs ++ [head] = n :: v :=
    List.exists_cons_of_ne_nil (List.append_ne_nil_of_right_ne_nil xs (by simp))
  rw [hnv, Path] at hp
  obtain ⟨hlink, hrest⟩ := List.isChain_cons_cons.mp hp
  exact ⟨n, v, hnv, hnv ▸ hrest, hlink.next⟩

lemma Ring.neighbours (hr : Ring h head (ys ++ x :: xs)) :
    h.prev x ∈ head :: ys ∧ h.next x ∈ xs ++ [head] := by
  obtain ⟨u, p, hup, -, hp⟩ := hr.split.1.last
  obtain ⟨n, v, hnv, -, hn⟩ := hr.split.2.first
  rw [hup, hnv, hp, hn]
  exact ⟨by simp, List.mem_cons_self⟩

lemma Ring.ends (hr : Ring h head xs) : h.prev head ∈ head :: xs ∧ h.next head ∈ head :: xs := by
  obtain ⟨u, p, hup, -, hp⟩ := hr.path.last
  obtain ⟨n, v, hnv, -, hn⟩ := hr.path.first
  have hmem : n ∈ xs ++ [head] := by rw [hnv]; simp
  refine ⟨by rw [hp, hup]; simp, ?_⟩
  rw [hn, List.mem_cons]
  simpa [or_comm] using hmem

lemma Ring.ends_of_ne_nil (hr : Ring h head xs) (hne : xs ≠ []) :
    h.prev head ∈ xs ∧ h.next head ∈ xs := by
  obtain ⟨first, w, rfl⟩ := List.exists_cons_of_ne_nil hne
  obtain ⟨hlink, hrest⟩ := List.isChain_cons_cons.mp hr.path
  obtain ⟨u, p, hup, -, hp⟩ := Path.last (x := head) hrest
  rw [hlink.next, hp]
  exact ⟨by rw [hup]; simp, List.mem_cons_self⟩

end Pointers

variable [DecidableEq A]

/-! ### Making neighbours -/

/-- `b` behind `a`: `b->prev = a`, then `a->next = b`. -/
def Links.link (h : Links A) (a b : A) : Links A where
  next := Function.update h.next a b
  prev := Function.update h.prev b a

/-- Both pointers of a node. -/
def Links.set (h : Links A) (a n p : A) : Links A where
  next := Function.update h.next a n
  prev := Function.update h.prev a p

@[simp] lemma link_next_self (h : Links A) (a b : A) : (h.link a b).next a = b := by
  simp [Links.link]
@[simp] lemma link_prev_self (h : Links A) (a b : A) : (h.link a b).prev b = a := by
  simp [Links.link]
lemma link_next_ne (h : Links A) {a c : A} (b : A) (hc : c ≠ a) :
    (h.link a b).next c = h.next c := by
  simp [Links.link, hc]
lemma link_prev_ne (h : Links A) (a : A) {b c : A} (hc : c ≠ b) :
    (h.link a b).prev c = h.prev c := by
  simp [Links.link, hc]

lemma sameAt_link (h : Links A) {a b c : A} (ha : c ≠ a) (hb : c ≠ b) : SameAt h (h.link a b) c :=
  ⟨link_next_ne h b ha, link_prev_ne h a hb⟩

lemma sameAt_set (h : Links A) {a c : A} (n p : A) (hc : c ≠ a) : SameAt h (h.set a n p) c := by
  simp [SameAt, Links.set, hc]

section Surgery

variable {h : Links A} {head list x : A} {l m xs ys u v : List A} {n p : A}

lemma Path.link_frame (hl : Path h l) (hp : p ∉ l.dropLast) (hn : n ∉ l.tail) :
    Path (h.link p n) l :=
  hl.congr (fun _ hc => link_next_ne h n (ne_of_mem_of_not_mem hc hp))
    fun _ hc => link_prev_ne h p (ne_of_mem_of_not_mem hc hn)

/-- **Joining two paths**: the last node of one and the first of the other are made neighbours,
which neither path meets where that would change it. -/
lemma Path.join (hl : Path h l) (hm : Path h m) (hup : l = u ++ [p]) (hnv : m = n :: v)
    (hndl : l.Nodup) (hndm : m.Nodup) (hpm : p ∉ m.dropLast) (hnl : n ∉ l.tail) :
    Path (h.link p n) (l ++ m) := by
  have hpl : p ∉ l.dropLast := by
    rw [hup, List.nodup_append] at hndl
    rw [hup, List.dropLast_concat]
    exact fun hp => hndl.2.2 p hp p (List.mem_singleton_self p) rfl
  have hnm : n ∉ m.tail := by
    rw [hnv, List.nodup_cons] at hndm
    rw [hnv]
    exact hndm.1
  have hfront := hl.link_frame hpl hnl
  have hback := hm.link_frame hpm hnm
  subst hup hnv
  rw [List.append_assoc, List.singleton_append, Path, List.isChain_split]
  refine ⟨hfront, List.isChain_cons_cons.mpr ⟨?_, hback⟩⟩
  exact ⟨link_next_self h p n, link_prev_self h p n⟩

omit [DecidableEq A] in
lemma nodup_behind (hnd : (head :: xs).Nodup) : (xs ++ [head]).Nodup :=
  (List.perm_append_singleton head xs).nodup_iff.mpr hnd

/-- **Removal**: the neighbours of a node are made neighbours. -/
lemma Ring.unlink (hr : Ring h head (ys ++ x :: xs)) :
    Ring (h.link (h.prev x) (h.next x)) head (ys ++ xs) := by
  obtain ⟨hfront, hback⟩ := hr.split
  obtain ⟨u, p, hup, hu, hp⟩ := hfront.last
  obtain ⟨n, v, hnv, hv, hn⟩ := hback.first
  have hnd : (head :: ys ++ xs).Nodup :=
    hr.nodup.sublist (((List.sublist_cons_self x xs).append_left ys).cons_cons head)
  obtain ⟨hndl, hndx, hdisj⟩ := List.nodup_append.mp hnd
  have hys := (List.nodup_cons.mp hndl).1
  have hxs : head ∉ xs := fun h0 => hdisj head List.mem_cons_self head h0 rfl
  have hpm : p ∉ xs := by
    have hpmem : p ∈ head :: ys := by rw [hup]; simp
    exact fun hpx => hdisj p hpmem p hpx rfl
  have hnl : n ∉ ys := by
    have hnmem : n ∈ xs ++ [head] := by rw [hnv]; simp
    rcases List.mem_append.mp hnmem with hnx | hnh
    · exact fun hny => hdisj n (List.mem_cons_of_mem head hny) n hnx rfl
    · rw [List.mem_singleton.mp hnh]
      exact hys
  refine ⟨hnd, ?_⟩
  rw [hp, hn, List.append_assoc]
  exact hu.join hv hup hnv hndl (nodup_behind (List.nodup_cons.mpr ⟨hxs, hndx⟩))
    (by rwa [List.dropLast_concat]) hnl

/-- **Insertion at the end** of a node that is not on the list. -/
lemma Ring.push (hr : Ring h head xs) (hx : x ∉ head :: xs) :
    Ring ((h.link x head).link (h.prev head) x) head (xs ++ [x]) := by
  obtain ⟨u, p, hup, hu, hp⟩ := hr.path.last
  have hhead := (List.nodup_cons.mp hr.nodup).1
  have hxh : x ≠ head := fun h0 => hx (h0 ▸ List.mem_cons_self)
  have hxs : x ∉ xs := fun h0 => hx (List.mem_cons_of_mem head h0)
  have hpx : p ≠ x := by
    rintro rfl
    exact hx (by rw [hup]; simp)
  have hfront : Path (h.link x head) (head :: xs) :=
    hu.link_frame (fun h0 => hx (List.dropLast_subset _ h0)) hhead
  have hend : Path (h.link x head) [x, head] :=
    Path.join (u := []) (.singleton x) (.singleton head) rfl rfl (List.nodup_singleton x)
      (List.nodup_singleton head) List.not_mem_nil List.not_mem_nil
  have hnd : (head :: xs ++ [x]).Nodup :=
    (List.perm_append_singleton x (head :: xs)).nodup_iff.mpr (List.nodup_cons.mpr ⟨hx, hr.nodup⟩)
  refine ⟨hnd, ?_⟩
  rw [hp, List.append_assoc]
  exact hfront.join hend hup rfl hr.nodup (by simpa using hxh) (by simpa using hpx) hxs

/-- **Splicing**: the nodes of a list that is not empty, put behind another head. -/
lemma Ring.splice (hl : Ring h list xs) (hr : Ring h head ys) (hne : xs ≠ [])
    (hapart : ∀ a ∈ list :: xs, a ∉ head :: ys) :
    Ring ((h.link head (h.next list)).link (h.prev list) (h.next head)) head (xs ++ ys) := by
  obtain ⟨first, w, rfl⟩ := List.exists_cons_of_ne_nil hne
  obtain ⟨hlink, hrest⟩ := List.isChain_cons_cons.mp hl.path
  obtain ⟨u, p, hup, hu, hp⟩ := Path.last (x := list) hrest
  obtain ⟨n, v, hnv, hv, hn⟩ := hr.path.first
  have hndw := (List.nodup_cons.mp hl.nodup).2
  obtain ⟨hys, hndy⟩ := List.nodup_cons.mp hr.nodup
  have hout : ∀ a ∈ first :: w, a ∉ head :: ys := fun a ha =>
    hapart a (List.mem_cons_of_mem list ha)
  have hhead : head ∉ first :: w := fun h0 => hout head h0 List.mem_cons_self
  have hndl : (head :: first :: w).Nodup := List.nodup_cons.mpr ⟨hhead, hndw⟩
  have hpm : p ∉ ys := fun h0 =>
    hout p (by rw [hup]; simp) (List.mem_cons_of_mem head h0)
  have hnl : n ∉ first :: w := by
    have hnmem : n ∈ ys ++ [head] := by rw [hnv]; simp
    exact fun h0 => hout n h0 ((List.perm_append_singleton head ys).mem_iff.mp hnmem)
  -- the head in front of the nodes, then the last of them in front of the list's own
  have hfront : Path (h.link head first) (head :: first :: w) :=
    Path.join (u := []) (.singleton head) hu rfl rfl (List.nodup_singleton head) hndw
      (fun h0 => hhead (List.dropLast_subset _ h0)) List.not_mem_nil
  have hend : Path (h.link head first) (ys ++ [head]) := by
    refine hv.link_frame (by rwa [List.dropLast_concat]) fun h0 => ?_
    have hfirst := (List.perm_append_singleton head ys).mem_iff.mp (List.mem_of_mem_tail h0)
    exact hout first List.mem_cons_self hfirst
  have hnd : (head :: first :: w ++ ys).Nodup := by
    refine List.nodup_append.mpr ⟨hndl, hndy, fun a ha b hb hab => ?_⟩
    subst hab
    rcases List.mem_cons.mp ha with rfl | ha
    · exact hys hb
    · exact hout a ha (List.mem_cons_of_mem head hb)
  refine ⟨hnd, ?_⟩
  rw [hlink.next, hp, hn, List.append_assoc]
  exact hfront.join hend (u := head :: u) (by rw [hup]; rfl) hnv hndl (nodup_behind hr.nodup)
    (by rwa [List.dropLast_concat]) hnl

end Surgery

/-! ### Several lists -/

variable {K : Type} [DecidableEq K] {h h' : Links A} {head : K → A} {S : Set K} {c : K → List A}
  {k l : K} {x : A} {xs ys : List A}

/-- Lists named by the members of `S`, with the nodes `c` and no node in common. -/
structure Lists (h : Links A) (head : K → A) (S : Set K) (c : K → List A) : Prop where
  ring : ∀ k ∈ S, Ring h (head k) (c k)
  apart : ∀ k ∈ S, ∀ l ∈ S, k ≠ l → ∀ a ∈ head k :: c k, a ∉ head l :: c l

/-- A node of none of the lists. -/
def Fresh (head : K → A) (S : Set K) (c : K → List A) (x : A) : Prop :=
  ∀ k ∈ S, x ∉ head k :: c k

omit [DecidableEq A] [DecidableEq K] in
lemma Lists.congr (hl : Lists h head S c)
    (hsame : ∀ k ∈ S, ∀ a ∈ head k :: c k, SameAt h h' a) : Lists h' head S c :=
  ⟨fun k hk => (hl.ring k hk).congr (hsame k hk), hl.apart⟩

omit [DecidableEq A] [DecidableEq K] in
lemma Lists.subset {T : Set K} (hl : Lists h head S c) (hT : T ⊆ S) : Lists h head T c :=
  ⟨fun k hk => hl.ring k (hT hk), fun k hk l hl' => hl.apart k (hT hk) l (hT hl')⟩

omit [DecidableEq A] in
lemma Lists.replace (hl : Lists h head S c) (hring : Ring h' (head k) ys)
    (hys : ∀ a ∈ ys, a ∈ c k ∨ Fresh head S c a) (hk : k ∈ S)
    (hsame : ∀ l ∈ S, l ≠ k → ∀ a ∈ head l :: c l, SameAt h h' a) :
    Lists h' head S (Function.update c k ys) := by
  have hout : ∀ l ∈ S, l ≠ k → ∀ a ∈ head k :: ys, a ∉ head l :: c l := by
    intro l hls hlk a ha
    rcases List.mem_cons.mp ha with rfl | ha
    · exact hl.apart k hk l hls hlk.symm _ List.mem_cons_self
    · rcases hys a ha with hc | hf
      · exact hl.apart k hk l hls hlk.symm a (List.mem_cons_of_mem _ hc)
      · exact hf l hls
  refine ⟨fun l hls => ?_, fun l hls m hms hlm a ha ham => ?_⟩
  · by_cases hlk : l = k
    · subst hlk
      rwa [Function.update_self]
    · rw [Function.update_of_ne hlk]
      exact (hl.ring l hls).congr (hsame l hls hlk)
  · by_cases hlk : l = k
    · subst hlk
      rw [Function.update_self] at ha
      rw [Function.update_of_ne hlm.symm] at ham
      exact hout m hms hlm.symm a ha ham
    · rw [Function.update_of_ne hlk] at ha
      by_cases hmk : m = k
      · subst hmk
        rw [Function.update_self] at ham
        exact hout l hls hlk a ham ha
      · rw [Function.update_of_ne hmk] at ham
        exact hl.apart l hls m hms hlm a ha ham

omit [DecidableEq K] in
lemma Lists.sameAt_link (hl : Lists h head S c) (hk : k ∈ S) {a b : A}
    (ha : a ∈ head k :: c k ∨ Fresh head S c a) (hb : b ∈ head k :: c k ∨ Fresh head S c b)
    (hsame : ∀ l ∈ S, l ≠ k → ∀ d ∈ head l :: c l, SameAt h h' d) :
    ∀ l ∈ S, l ≠ k → ∀ d ∈ head l :: c l, SameAt h (h'.link a b) d := by
  intro l hls hlk d hd
  have hne : ∀ e : A, (e ∈ head k :: c k ∨ Fresh head S c e) → d ≠ e := by
    rintro e (he | he) rfl
    · exact hl.apart k hk l hls hlk.symm d he hd
    · exact he l hls hd
  obtain ⟨hnext, hprev⟩ := CircularList.sameAt_link h' (hne a ha) (hne b hb)
  obtain ⟨hnext', hprev'⟩ := hsame l hls hlk d hd
  exact ⟨hnext.trans hnext', hprev.trans hprev'⟩

lemma Lists.unlink (hl : Lists h head S c) (hk : k ∈ S) (hc : c k = ys ++ x :: xs) :
    Lists (h.link (h.prev x) (h.next x)) head S (Function.update c k (ys ++ xs)) ∧
      Fresh head S (Function.update c k (ys ++ xs)) x := by
  have hring := hl.ring k hk
  rw [hc] at hring
  obtain ⟨hp, hn⟩ := hring.neighbours
  have hpmem : h.prev x ∈ head k :: c k := by
    rw [hc, ← List.cons_append]
    exact List.mem_append_left _ hp
  have hnmem : h.next x ∈ head k :: c k := by
    rw [hc]
    simp only [List.mem_append, List.mem_cons, List.not_mem_nil, or_false] at hn ⊢
    tauto
  have hsame := hl.sameAt_link hk (Or.inl hpmem) (Or.inl hnmem) fun _ _ _ d _ => ⟨rfl, rfl⟩
  refine ⟨hl.replace hring.unlink (fun a ha => Or.inl ?_) hk hsame, fun l hls hxl => ?_⟩
  · rw [hc]
    simp only [List.mem_append, List.mem_cons] at ha ⊢
    tauto
  · have hx : x ∈ head k :: c k := by simp [hc]
    by_cases hlk : l = k
    · subst hlk
      have hnd := hring.nodup
      rw [Function.update_self] at hxl
      simp only [List.nodup_cons, List.nodup_append, List.mem_append, List.mem_cons, not_or]
        at hnd hxl
      obtain ⟨⟨-, hxh, -⟩, -, ⟨hxx, -⟩, hdisj⟩ := hnd
      rcases hxl with rfl | hxy | hxx'
      · exact hxh rfl
      · exact hdisj x hxy x (Or.inl rfl) rfl
      · exact hxx hxx'
    · rw [Function.update_of_ne hlk] at hxl
      exact hl.apart k hk l hls (Ne.symm hlk) x hx hxl

lemma Lists.push (hl : Lists h head S c) (hk : k ∈ S) (hx : Fresh head S c x) :
    Lists ((h.link x (head k)).link (h.prev (head k)) x) head S
      (Function.update c k (c k ++ [x])) := by
  have hsame := hl.sameAt_link hk (Or.inr hx) (Or.inl List.mem_cons_self)
    fun _ _ _ d _ => ⟨rfl, rfl⟩
  refine hl.replace ((hl.ring k hk).push (hx k hk)) (fun a ha => ?_) hk
    (hl.sameAt_link hk (Or.inl (hl.ring k hk).ends.1) (Or.inr hx) hsame)
  rcases List.mem_append.mp ha with ha | ha
  · exact Or.inl ha
  · rw [List.mem_singleton.mp ha]
    exact Or.inr hx

/-- The list that is spliced is none any more: its head keeps its pointers. -/
lemma Lists.splice (hl : Lists h head S c) (hk : k ∈ S) (hls : l ∈ S) (hkl : k ≠ l)
    (hne : c k ≠ []) :
    Lists ((h.link (head l) (h.next (head k))).link (h.prev (head k)) (h.next (head l))) head
      (S \ {k}) (Function.update c l (c k ++ c l)) := by
  have hring := (hl.ring k hk).splice (hl.ring l hls) hne (hl.apart k hk l hls hkl)
  obtain ⟨hp, hn⟩ := (hl.ring k hk).ends_of_ne_nil hne
  have hother : Lists h head (S \ {k}) c := hl.subset fun _ hm => hm.1
  have hlT : l ∈ S \ {k} := ⟨hls, hkl.symm⟩
  have hfresh : ∀ a ∈ c k, Fresh head (S \ {k}) c a := fun a ha m hm =>
    hl.apart k hk m hm.1 (Ne.symm hm.2) a (List.mem_cons_of_mem _ ha)
  have hsame := hother.sameAt_link hlT (Or.inl List.mem_cons_self) (Or.inr (hfresh _ hn))
    fun _ _ _ d _ => ⟨rfl, rfl⟩
  refine hother.replace hring (fun a ha => ?_) hlT
    (hother.sameAt_link hlT (Or.inr (hfresh _ hp)) (Or.inl (hl.ring l hls).ends.2) hsame)
  rcases List.mem_append.mp ha with ha | ha
  · exact Or.inr (hfresh a ha)
  · exact Or.inl ha

/-! ### Nodes of none of the lists -/

section Frame

variable {a : A}

omit [DecidableEq A] [DecidableEq K] in
lemma Fresh.ne (ha : Fresh head S c a) (hk : k ∈ S) (hx : x ∈ head k :: c k) : a ≠ x :=
  fun he => ha k hk (he ▸ hx)

omit [DecidableEq A] in
lemma Fresh.update (ha : Fresh head S c a) (hk : k ∈ S) (hys : a ∉ ys) :
    Fresh head S (Function.update c k ys) a := by
  intro l hls hmem
  by_cases hlk : l = k
  · subst hlk
    rw [Function.update_self] at hmem
    rcases List.mem_cons.mp hmem with rfl | hmem
    · exact ha l hk List.mem_cons_self
    · exact hys hmem
  · rw [Function.update_of_ne hlk] at hmem
    exact ha l hls hmem

omit [DecidableEq K] in
lemma Lists.unlink_same (hl : Lists h head S c) (hk : k ∈ S) (hc : c k = ys ++ x :: xs)
    (ha : Fresh head S c a) : SameAt h (h.link (h.prev x) (h.next x)) a := by
  have hring := hl.ring k hk
  rw [hc] at hring
  obtain ⟨hp, hn⟩ := hring.neighbours
  refine CircularList.sameAt_link h (ha.ne hk ?_) (ha.ne hk ?_)
  · rw [hc, ← List.cons_append]
    exact List.mem_append_left _ hp
  · rw [hc]
    simp only [List.mem_append, List.mem_cons, List.not_mem_nil, or_false] at hn ⊢
    tauto

omit [DecidableEq K] in
lemma Lists.push_same (hl : Lists h head S c) (hk : k ∈ S) (ha : Fresh head S c a) (hx : a ≠ x) :
    SameAt h ((h.link x (head k)).link (h.prev (head k)) x) a :=
  (CircularList.sameAt_link h hx (ha.ne hk List.mem_cons_self)).trans
    (CircularList.sameAt_link _ (ha.ne hk (hl.ring k hk).ends.1) hx)

omit [DecidableEq K] in
lemma Lists.splice_same (hl : Lists h head S c) (hk : k ∈ S) (hls : l ∈ S)
    (ha : Fresh head S c a) :
    SameAt h ((h.link (head l) (h.next (head k))).link (h.prev (head k)) (h.next (head l))) a :=
  (CircularList.sameAt_link h (ha.ne hls List.mem_cons_self) (ha.ne hk (hl.ring k hk).ends.2)).trans
    (CircularList.sameAt_link _ (ha.ne hk (hl.ring k hk).ends.1) (ha.ne hls (hl.ring l hls).ends.2))

end Frame

end Gpiod.CircularList
