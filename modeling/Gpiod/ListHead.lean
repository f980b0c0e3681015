import Gpiod.CircularList

/-!
The lists of `list.h`: the operations on the pointers, and the two loops over a list.

A loop reads the pointer forward of the node it is at. What it reads it from is left open, so
that it may fail where the node has been freed; the loop that is safe against removal reads it
before its body runs.
-/

namespace Gpiod.ListHead

open Gpiod.CircularList

section Operations

variable {A : Type} [DecidableEq A]

/-- `__list_add`. -/
def listInsert (new prev next : A) (h : Links A) : Links A := (h.link new next).link prev new

def listAddTail (new head : A) (h : Links A) : Links A := listInsert new (h.prev head) head h

/-- `__list_del`. -/
def listUnlink (prev next : A) (h : Links A) : Links A := h.link prev next

def initListHead (ptr : A) (h : Links A) : Links A := h.set ptr ptr ptr

def listDel (null entry : A) (h : Links A) : Links A :=
  (listUnlink (h.prev entry) (h.next entry) h).set entry null null

def listMoveTail (list head : A) (h : Links A) : Links A :=
  listAddTail list head (listUnlink (h.prev list) (h.next list) h)

def listEmpty (head : A) (h : Links A) : Bool := h.next head == head

/-- `list_splice`; the pointers of the list are read before any is set. -/
def listSplice (list head : A) (h : Links A) : Links A :=
  if listEmpty list h then h
  else (h.link head (h.next list)).link (h.prev list) (h.next head)

end Operations

/-! ### What they do to lists -/

section Lists

variable {A K : Type} [DecidableEq A] [DecidableEq K] {h : Links A} {head : K → A} {S : Set K}
  {c : K → List A} {k l : K} {x : A} {xs ys : List A}

lemma listAddTail_lists (hl : Lists h head S c) (hk : k ∈ S) (hx : Fresh head S c x) :
    Lists (listAddTail x (head k) h) head S (Function.update c k (c k ++ [x])) := hl.push hk hx

omit [DecidableEq K] in
lemma set_lists (hl : Lists h head S c) (hx : Fresh head S c x) (n p : A) :
    Lists (h.set x n p) head S c :=
  hl.congr fun k hk _ ha => sameAt_set h n p fun he => hx k hk (he ▸ ha)

lemma listDel_lists (null : A) (hl : Lists h head S c) (hk : k ∈ S) (hc : c k = ys ++ x :: xs) :
    Lists (listDel null x h) head S (Function.update c k (ys ++ xs)) ∧
      Fresh head S (Function.update c k (ys ++ xs)) x := by
  obtain ⟨hlists, hfresh⟩ := hl.unlink hk hc
  exact ⟨set_lists hlists hfresh null null, hfresh⟩

/-- **A move**: the node leaves its list and comes to the end of another. -/
lemma listMoveTail_lists (hl : Lists h head S c) (hk : k ∈ S) (hls : l ∈ S) (hkl : k ≠ l)
    (hc : c k = ys ++ x :: xs) :
    Lists (listMoveTail x (head l) h) head S
      (Function.update (Function.update c k (ys ++ xs)) l (c l ++ [x])) := by
  obtain ⟨hlists, hfresh⟩ := hl.unlink hk hc
  have hpush := hlists.push hls hfresh
  rwa [Function.update_of_ne hkl.symm] at hpush

/-- **A splice**: the nodes of a list come to the front of another. -/
lemma listSplice_lists (hl : Lists h head S c) (hk : k ∈ S) (hls : l ∈ S) (hkl : k ≠ l) :
    Lists (listSplice (head k) (head l) h) head (S \ {k}) (Function.update c l (c k ++ c l)) := by
  have hnext := (hl.ring k hk).next_head
  unfold listSplice listEmpty
  by_cases hne : c k = []
  · rw [hne, List.headD_nil] at hnext
    rw [if_pos (beq_iff_eq.mpr hnext), hne, List.nil_append, Function.update_eq_self]
    exact hl.subset fun _ hm => hm.1
  · have hnot : ¬ (h.next (head k) == head k) = true := by
      rw [beq_iff_eq]
      intro he
      have hmem := ((hl.ring k hk).ends_of_ne_nil hne).2
      rw [he] at hmem
      exact (List.nodup_cons.mp (hl.ring k hk).nodup).1 hmem
    rw [if_neg hnot]
    exact hl.splice hk hls hkl hne

/-! What they leave of a node of none of the lists. -/

variable {a : A}

omit [DecidableEq K] in
lemma listAddTail_same (hl : Lists h head S c) (hk : k ∈ S) (ha : Fresh head S c a) (hx : a ≠ x) :
    SameAt h (listAddTail x (head k) h) a := hl.push_same hk ha hx

omit [DecidableEq K] in
lemma listDel_same (null : A) (hl : Lists h head S c) (hk : k ∈ S) (hc : c k = ys ++ x :: xs)
    (ha : Fresh head S c a) : SameAt h (listDel null x h) a :=
  (hl.unlink_same hk hc ha).trans (sameAt_set _ null null (ha.ne hk (by simp [hc])))

lemma listMoveTail_same (hl : Lists h head S c) (hk : k ∈ S) (hls : l ∈ S)
    (hc : c k = ys ++ x :: xs) (ha : Fresh head S c a) :
    SameAt h (listMoveTail x (head l) h) a := by
  obtain ⟨hlists, -⟩ := hl.unlink hk hc
  have hout : a ∉ ys ++ xs := fun hmem => ha k hk (by
    rw [hc]
    simp only [List.mem_cons, List.mem_append] at hmem ⊢
    tauto)
  exact (hl.unlink_same hk hc ha).trans
    (hlists.push_same hls (ha.update hk hout) (ha.ne hk (by simp [hc])))

omit [DecidableEq K] in
lemma listSplice_same (hl : Lists h head S c) (hk : k ∈ S) (hls : l ∈ S) (ha : Fresh head S c a) :
    SameAt h (listSplice (head k) (head l) h) a := by
  unfold listSplice
  split
  · exact ⟨rfl, rfl⟩
  · exact hl.splice_same hk hls ha

end Lists

/-! ### The loops -/

section Loops

variable {A σ : Type} [DecidableEq A] (next : σ → A → Option A) (body : A → σ → σ) (head : A)

/-- `list_for_each` from `pos` on. -/
def forEachFrom : ℕ → A → σ → Option σ
  | 0, _, _ => none
  | n + 1, pos, s =>
    if pos = head then some s
    else do
      let s := body pos s
      let pos ← next s pos
      forEachFrom n pos s

def listForEach (n : ℕ) (s : σ) : Option σ := do
  let pos ← next s head
  forEachFrom next body head n pos s

/-- `list_for_each_safe` from `pos` on, with `tmp` behind it. -/
def forEachSafeFrom : ℕ → A → A → σ → Option σ
  | 0, _, _, _ => none
  | n + 1, pos, tmp, s =>
    if pos = head then some s
    else do
      let s := body pos s
      let tmp' ← next s tmp
      forEachSafeFrom n tmp tmp' s

def listForEachSafe (n : ℕ) (s : σ) : Option σ := do
  let pos ← next s head
  let tmp ← next s pos
  forEachSafeFrom next body head n pos tmp s

variable {next body head} (I : List A → σ → Prop)

lemma forEachFrom_rule (hbody : ∀ y ys s, I (y :: ys) s →
      I ys (body y s) ∧ next (body y s) y = some (ys.headD head))
    {ys : List A} {s : σ} {n : ℕ} (hhead : head ∉ ys) (hI : I ys s) (hn : ys.length < n) :
    ∃ s', forEachFrom next body head n (ys.headD head) s = some s' ∧ I [] s' := by
  induction ys generalizing s n with
  | nil =>
    obtain ⟨n, rfl⟩ : ∃ k, n = k + 1 := ⟨n - 1, by omega⟩
    exact ⟨s, by simp [forEachFrom], hI⟩
  | cons y ys ih =>
    obtain ⟨n, rfl⟩ : ∃ k, n = k + 1 := ⟨n - 1, by omega⟩
    rw [List.mem_cons, not_or] at hhead
    obtain ⟨hI', hnext⟩ := hbody y ys s hI
    rw [List.headD_cons, forEachFrom, if_neg (Ne.symm hhead.1)]
    simp only [hnext, Option.bind_eq_bind, Option.bind_some]
    exact ih hhead.2 hI' (by simpa using hn)

variable (next body head) in
/-- **Rule of the loop**: an invariant on the nodes that are still to come holds of none in the
end. -/
lemma listForEach_rule (hbody : ∀ y ys s, I (y :: ys) s →
      I ys (body y s) ∧ next (body y s) y = some (ys.headD head))
    {xs : List A} {s : σ} {n : ℕ} (hfirst : next s head = some (xs.headD head)) (hhead : head ∉ xs)
    (hI : I xs s) (hn : xs.length < n) :
    ∃ s', listForEach next body head n s = some s' ∧ I [] s' := by
  simp only [listForEach, hfirst, Option.bind_eq_bind, Option.bind_some]
  exact forEachFrom_rule I hbody hhead hI hn

lemma forEachSafeFrom_rule (hbody : ∀ y ys s, I (y :: ys) s → I ys (body y s))
    (hread : ∀ y ys s, I (y :: ys) s → next s y = some (ys.headD head))
    (hend : ∀ s, I [] s → ∃ a, next s head = some a)
    {ys : List A} {s : σ} {n : ℕ} {tmp : A} (hhead : head ∉ ys) (hI : I ys s)
    (htmp : ∀ y zs, ys = y :: zs → tmp = zs.headD head) (hn : ys.length < n) :
    ∃ s', forEachSafeFrom next body head n (ys.headD head) tmp s = some s' ∧ I [] s' := by
  induction ys generalizing s n tmp with
  | nil =>
    obtain ⟨n, rfl⟩ : ∃ k, n = k + 1 := ⟨n - 1, by omega⟩
    exact ⟨s, by simp [forEachSafeFrom], hI⟩
  | cons y ys ih =>
    obtain ⟨n, rfl⟩ : ∃ k, n = k + 1 := ⟨n - 1, by omega⟩
    rw [List.mem_cons, not_or] at hhead
    have hI' := hbody y ys s hI
    obtain rfl := htmp y ys rfl
    -- the node behind is read when the body has run
    obtain ⟨tmp', hnext, htmp'⟩ : ∃ tmp', next (body y s) (ys.headD head) = some tmp' ∧
        ∀ z zs, ys = z :: zs → tmp' = zs.headD head := by
      cases ys with
      | nil =>
        obtain ⟨a, ha⟩ := hend _ hI'
        exact ⟨a, ha, nofun⟩
      | cons z zs =>
        refine ⟨zs.headD head, hread z zs _ hI', fun z' zs' he => ?_⟩
        rw [(List.cons.inj he).2]
    rw [List.headD_cons, forEachSafeFrom, if_neg (Ne.symm hhead.1)]
    simp only [hnext, Option.bind_eq_bind, Option.bind_some]
    exact ih hhead.2 hI' htmp' (by simpa using hn)

variable (next body head) in
/-- **Rule of the safe loop**: the body may take the node it is at from the list, and free it. -/
lemma listForEachSafe_rule (hbody : ∀ y ys s, I (y :: ys) s → I ys (body y s))
    (hread : ∀ y ys s, I (y :: ys) s → next s y = some (ys.headD head))
    (hend : ∀ s, I [] s → ∃ a, next s head = some a)
    {xs : List A} {s : σ} {n : ℕ} (hfirst : next s head = some (xs.headD head)) (hhead : head ∉ xs)
    (hI : I xs s) (hn : xs.length < n) :
    ∃ s', listForEachSafe next body head n s = some s' ∧ I [] s' := by
  obtain ⟨tmp, htmp, hbehind⟩ : ∃ tmp, next s (xs.headD head) = some tmp ∧
      ∀ y zs, xs = y :: zs → tmp = zs.headD head := by
    cases xs with
    | nil => exact ⟨head, hfirst, nofun⟩
    | cons y ys =>
      refine ⟨ys.headD head, hread y ys s hI, fun z zs he => ?_⟩
      rw [(List.cons.inj he).2]
  simp only [listForEachSafe, hfirst, htmp, Option.bind_eq_bind, Option.bind_some]
  exact forEachSafeFrom_rule I hbody hread hend hhead hI hbehind hn

end Loops

/-! ### A body that may fail -/

section Fallible

variable {A σ : Type} [DecidableEq A] (next : σ → A → Option A) (body : A → σ → Option σ) (head : A)

/-- `list_for_each_safe`, left where the body fails. -/
def listForEachSafe? (n : ℕ) (s : σ) : Option σ :=
  (listForEachSafe (fun s pos => s.bind fun s => next s pos) (fun pos s => s.bind (body pos)) head n
    (some s)).join

variable {next body head} (I : List A → σ → Prop)

variable (next body head) in
lemma listForEachSafe?_rule (hbody : ∀ y ys s, I (y :: ys) s → ∃ s', body y s = some s' ∧ I ys s')
    (hread : ∀ y ys s, I (y :: ys) s → next s y = some (ys.headD head))
    (hend : ∀ s, I [] s → ∃ a, next s head = some a)
    {xs : List A} {s : σ} {n : ℕ} (hfirst : next s head = some (xs.headD head)) (hhead : head ∉ xs)
    (hI : I xs s) (hn : xs.length < n) :
    ∃ s', listForEachSafe? next body head n s = some s' ∧ I [] s' := by
  obtain ⟨r, hr, s', rfl, hI'⟩ := listForEachSafe_rule (fun s pos => s.bind fun s => next s pos)
    (fun pos s => s.bind (body pos)) head (fun ys r => ∃ s, r = some s ∧ I ys s)
    (fun y ys r ⟨s, hs, hI⟩ => by
      obtain ⟨s', hs', hI'⟩ := hbody y ys s hI
      exact ⟨s', by rw [hs]; exact hs', hI'⟩)
    (fun y ys r ⟨s, hs, hI⟩ => by rw [hs]; exact hread y ys s hI)
    (fun r ⟨s, hs, hI⟩ => by rw [hs]; exact hend s hI)
    (s := some s) hfirst hhead ⟨s, rfl, hI⟩ hn
  exact ⟨s', by rw [listForEachSafe?, hr]; rfl, hI'⟩

end Fallible

end Gpiod.ListHead
