import Mathlib.Data.List.Basic
import Mathlib.Logic.Relation

/-!
Runs of a deterministic machine with outputs, and invariants of a guarded transition
relation.

A machine takes a state and an input to the next state; a run is a fold over the inputs, and
`visits` keeps the states it passes through. A relation whose steps are let through by a
guard is what a condition on runs asks for: every step of the run meets the guard.
-/

namespace Gpiod.Machine

variable {σ ι ο : Type*}

/-- The states a run passes through, each with the input taken there. -/
def visits (step : σ → ι → σ) : σ → List ι → List (σ × ι)
  | _, [] => []
  | s, i :: is => (s, i) :: visits step (step s i) is

@[simp] lemma visits_nil (step : σ → ι → σ) (s : σ) : visits step s [] = [] := rfl
@[simp] lemma visits_cons (step : σ → ι → σ) (s : σ) (i : ι) (is : List ι) :
    visits step s (i :: is) = (s, i) :: visits step (step s i) is := rfl

lemma visits_inv {step : σ → ι → σ} {I : σ → Prop} (hstep : ∀ s i, I s → I (step s i))
    {s : σ} (h0 : I s) (is : List ι) : ∀ v ∈ visits step s is, I v.1 := by
  induction is generalizing s with
  | nil => simp
  | cons i is ih =>
    intro v hv
    rcases List.mem_cons.mp hv with rfl | hv
    · exact h0
    · exact ih (hstep s i h0) v hv

lemma marked_iff {step : σ → ι → σ} {hit : σ → ι → Bool} {mark : σ → Prop}
    (hset : ∀ s i, hit s i = true → mark (step s i))
    (hkeep : ∀ s i, mark s → mark (step s i))
    (honly : ∀ s i, mark (step s i) → mark s ∨ hit s i = true) (s : σ) (is : List ι) :
    mark (is.foldl step s) ↔ mark s ∨ 0 < (visits step s is).countP fun v => hit v.1 v.2 := by
  induction is generalizing s with
  | nil => simp
  | cons i is ih =>
    have hstep : mark (step s i) ↔ mark s ∨ hit s i = true :=
      ⟨honly s i, fun h => h.elim (hkeep s i) (hset s i)⟩
    rw [List.foldl_cons, ih, hstep, visits_cons, List.countP_cons]
    cases hit s i <;> simp

/-- What a run puts out, in order. -/
def outputs (step : σ → ι → σ × List ο) : σ → List ι → List ο
  | _, [] => []
  | s, i :: is => (step s i).2 ++ outputs step (step s i).1 is

@[simp] lemma outputs_nil (step : σ → ι → σ × List ο) (s : σ) : outputs step s [] = [] := rfl
@[simp] lemma outputs_cons (step : σ → ι → σ × List ο) (s : σ) (i : ι) (is : List ι) :
    outputs step s (i :: is) = (step s i).2 ++ outputs step (step s i).1 is := rfl

def after (step : σ → ι → σ × List ο) (s : σ) (is : List ι) : σ :=
  is.foldl (fun s i => (step s i).1) s

@[simp] lemma after_nil (step : σ → ι → σ × List ο) (s : σ) : after step s [] = s := rfl
@[simp] lemma after_cons (step : σ → ι → σ × List ο) (s : σ) (i : ι) (is : List ι) :
    after step s (i :: is) = after step (step s i).1 is := rfl

lemma outputs_append (step : σ → ι → σ × List ο) (s : σ) (is js : List ι) :
    outputs step s (is ++ js) = outputs step s is ++ outputs step (after step s is) js := by
  induction is generalizing s with
  | nil => rfl
  | cons i is ih => simp [ih]

lemma after_append (step : σ → ι → σ × List ο) (s : σ) (is js : List ι) :
    after step s (is ++ js) = after step (after step s is) js :=
  List.foldl_append

lemma mem_outputs {step : σ → ι → σ × List ο} {s : σ} {is : List ι} {o : ο} :
    o ∈ outputs step s is ↔
      ∃ v ∈ visits (fun s i => (step s i).1) s is, o ∈ (step v.1 v.2).2 := by
  induction is generalizing s with
  | nil => simp
  | cons i is ih => simp [ih]

lemma countP_outputs {step : σ → ι → σ × List ο} {p : ο → Bool} {hit : σ → ι → Bool}
    (h : ∀ s i, (step s i).2.countP p = if hit s i then 1 else 0) (s : σ) (is : List ι) :
    (outputs step s is).countP p =
      (visits (fun s i => (step s i).1) s is).countP fun v => hit v.1 v.2 := by
  induction is generalizing s with
  | nil => rfl
  | cons i is ih =>
    rw [outputs_cons, visits_cons, List.countP_append, List.countP_cons, h, ih]
    exact Nat.add_comm _ _

/-! ### Runs that may stop -/

/-- The state after a run and what it puts out, where no step of it stops the machine. -/
def tryRun (step : σ → ι → Option (σ × List ο)) : σ → List ι → Option (σ × List ο)
  | s, [] => some (s, [])
  | s, i :: is => (step s i).bind fun r => (tryRun step r.1 is).map fun r' => (r'.1, r.2 ++ r'.2)

/-- Where the steps that do not stop the machine are known by a guard, so are the runs. -/
theorem tryRun_eq_some_iff {step : σ → ι → σ × List ο} {tryStep : σ → ι → Option (σ × List ο)}
    {C : σ → ι → Prop} (hgoes : ∀ s i, C s i → tryStep s i = some (step s i))
    (hstops : ∀ s i, ¬ C s i → tryStep s i = none) {s : σ} {is : List ι} {r : σ × List ο} :
    tryRun tryStep s is = some r ↔
      (∀ v ∈ visits (fun s i => (step s i).1) s is, C v.1 v.2) ∧
        r = (after step s is, outputs step s is) := by
  induction is generalizing s r with
  | nil =>
    rw [visits_nil, tryRun, Option.some_inj]
    exact ⟨fun h => ⟨List.forall_mem_nil _, h.symm⟩, fun h => h.2.symm⟩
  | cons i is ih =>
    rw [visits_cons, List.forall_mem_cons, tryRun]
    by_cases hc : C s i
    · rw [hgoes s i hc, Option.bind_some, Option.map_eq_some_iff, and_iff_right hc]
      constructor
      · rintro ⟨r', hr', rfl⟩
        obtain ⟨hrest, rfl⟩ := ih.mp hr'
        exact ⟨hrest, rfl⟩
      · rintro ⟨hrest, rfl⟩
        exact ⟨_, ih.mpr ⟨hrest, rfl⟩, rfl⟩
    · rw [hstops s i hc, Option.bind_none]
      exact ⟨nofun, fun h => absurd h.1.1 hc⟩

/-! ### Steps in order -/

/-- Steps of these kinds come one after the other in a run, others before, between and behind
them. -/
def InOrder {α : Type*} : List (α → Prop) → List α → Prop
  | [], _ => True
  | _ :: _, [] => False
  | p :: ps, v :: vs => (p v ∧ InOrder ps vs) ∨ InOrder (p :: ps) vs

section InOrder

variable {α : Type*} {p q : α → Prop} {ps : List (α → Prop)} {v : α} {vs : List α}

@[simp] lemma inOrder_nil : InOrder [] vs := by
  unfold InOrder
  trivial

@[simp] lemma not_inOrder_end : ¬ InOrder (p :: ps) [] := by
  unfold InOrder
  exact id

lemma inOrder_cons :
    InOrder (p :: ps) (v :: vs) ↔ (p v ∧ InOrder ps vs) ∨ InOrder (p :: ps) vs := Iff.rfl

/-- What comes in order comes so in a longer run. -/
lemma InOrder.behind (h : InOrder ps vs) (v : α) : InOrder ps (v :: vs) := by
  cases ps with
  | nil => exact inOrder_nil
  | cons p ps => exact Or.inr h

lemma InOrder.tail (h : InOrder (p :: ps) vs) : InOrder ps vs := by
  induction vs with
  | nil => exact absurd h not_inOrder_end
  | cons v vs ih =>
    rcases inOrder_cons.mp h with ⟨-, h⟩ | h
    · exact h.behind v
    · exact (ih h).behind v

end InOrder

/-! ### Hits that hold the next one back -/

/-- What asks for a hit gets it unless the machine is held. A hit holds it, if hits do so at all,
until an input frees it. -/
structure Latch (step : σ → ι → σ) (hit : σ → ι → Bool) (held : σ → Prop) (holds : Prop)
    (asks frees : σ × ι → Prop) (I : σ → Prop) : Prop where
  inv : ∀ s i, I s → I (step s i)
  hit_iff : ∀ s i, I s → (hit s i = true ↔ asks (s, i) ∧ ¬ held s)
  held_iff : ∀ s i, I s → (held (step s i) ↔
    (hit s i = true ∧ holds) ∨ (hit s i = false ∧ held s ∧ ¬ frees (s, i)))

/-- The kinds of steps that take two hits. -/
def twoHits (holds : Prop) [Decidable holds] (asks frees : σ × ι → Prop) : List (σ × ι → Prop) :=
  if holds then [asks, frees, asks] else [asks, asks]

namespace Latch

variable {step : σ → ι → σ} {hit : σ → ι → Bool} {held : σ → Prop} {holds : Prop}
  {asks frees : σ × ι → Prop} {I : σ → Prop} {s : σ}

lemma hit_free (h : Latch step hit held holds asks frees I) (hI : I s) (hs : ¬ held s)
    {is : List ι} : 0 < (visits step s is).countP (fun v => hit v.1 v.2) ↔
      InOrder [asks] (visits step s is) := by
  induction is generalizing s with
  | nil => simp
  | cons i is ih =>
    rw [visits_cons, List.countP_cons, inOrder_cons, and_iff_left inOrder_nil]
    have hask := (h.hit_iff s i hI).trans (and_iff_left hs)
    cases hi : hit s i with
    | true => simp [hask.mp hi]
    | false =>
      have hs' : ¬ held (step s i) := fun hh => by
        have := (h.held_iff s i hI).mp hh
        simp [hi, hs] at this
      have hno : ¬ asks (s, i) := fun ha => by simp [hask.mpr ha] at hi
      rw [or_iff_right hno, ← ih (h.inv s i hI) hs']
      simp

lemma hit_held (h : Latch step hit held holds asks frees I) (hI : I s) (hs : held s)
    {is : List ι} : 0 < (visits step s is).countP (fun v => hit v.1 v.2) ↔
      InOrder [frees, asks] (visits step s is) := by
  induction is generalizing s with
  | nil => simp
  | cons i is ih =>
    have hi : hit s i = false := by
      rw [← Bool.not_eq_true, h.hit_iff s i hI]
      exact fun ha => ha.2 hs
    have hheld : held (step s i) ↔ ¬ frees (s, i) := by
      rw [h.held_iff s i hI]
      simp [hi, hs]
    rw [visits_cons, List.countP_cons, inOrder_cons, if_neg (by simp [hi]), Nat.add_zero]
    by_cases hf : frees (s, i)
    · rw [h.hit_free (h.inv s i hI) fun hh => hheld.mp hh hf]
      exact ⟨fun ha => Or.inl ⟨hf, ha⟩, fun ha => ha.elim And.right InOrder.tail⟩
    · rw [ih (h.inv s i hI) (hheld.mpr hf), or_iff_right fun ha => hf ha.1]

/-- **At most once**: a machine that is not held is hit twice in a run exactly if an input asks for
a hit once more behind one that asks for it, where a hit holds it with one that frees it between
them. -/
theorem hits_le_one_iff [Decidable holds] (h : Latch step hit held holds asks frees I) (hI : I s)
    (hs : ¬ held s) (is : List ι) : (visits step s is).countP (fun v => hit v.1 v.2) ≤ 1 ↔
      ¬ InOrder (twoHits holds asks frees) (visits step s is) := by
  suffices htwo : 2 ≤ (visits step s is).countP (fun v => hit v.1 v.2) ↔
      InOrder (twoHits holds asks frees) (visits step s is) by
    rw [← htwo]
    omega
  induction is generalizing s with
  | nil =>
    unfold twoHits
    split <;> simp
  | cons i is ih =>
    have hask := (h.hit_iff s i hI).trans (and_iff_left hs)
    have hI' := h.inv s i hI
    rw [visits_cons, List.countP_cons]
    cases hi : hit s i with
    | true =>
      have hheld : held (step s i) ↔ holds := by
        rw [h.held_iff s i hI]
        simp [hi]
      have hrest : ∀ n, 2 ≤ n + 1 ↔ 0 < n := fun n => by omega
      rw [if_pos rfl, hrest]
      unfold twoHits
      split
      · next hl =>
        rw [inOrder_cons, h.hit_held hI' (hheld.mpr hl)]
        exact ⟨fun ha => Or.inl ⟨hask.mp hi, ha⟩, fun ha => ha.elim And.right InOrder.tail⟩
      · next hl =>
        rw [inOrder_cons, h.hit_free hI' fun hh => hl (hheld.mp hh)]
        exact ⟨fun ha => Or.inl ⟨hask.mp hi, ha⟩, fun ha => ha.elim And.right InOrder.tail⟩
    | false =>
      have hs' : ¬ held (step s i) := fun hh => by
        have := (h.held_iff s i hI).mp hh
        simp [hi, hs] at this
      have hno : ¬ asks (s, i) := fun ha => by simp [hask.mpr ha] at hi
      rw [if_neg (by simp), Nat.add_zero, ih hI' hs']
      unfold twoHits
      split <;> rw [inOrder_cons, or_iff_right fun ha => hno ha.1]

end Latch

/-! ### Simulation -/

/-- The inputs of a second machine that stand for those of a run, `f` giving them for a step. -/
def translate {κ : Type*} (step : σ → ι → σ × List ο) (f : σ → ι → List κ) (s : σ)
    (is : List ι) : List κ :=
  outputs (fun s i => ((step s i).1, f s i)) s is

/-- **Simulation**: where every step of a machine is a run of a second one that keeps the states
related and puts out the same, so is every run. -/
theorem simulated {τ κ : Type*} {step : σ → ι → σ × List ο} {step' : τ → κ → τ × List ο}
    {f : σ → ι → List κ} {R : σ → τ → Prop}
    (hstep : ∀ s t i, R s t → R (step s i).1 (after step' t (f s i)) ∧
      (step s i).2 = outputs step' t (f s i))
    {s : σ} {t : τ} (h0 : R s t) (is : List ι) :
    R (after step s is) (after step' t (translate step f s is)) ∧
      outputs step s is = outputs step' t (translate step f s is) := by
  induction is generalizing s t with
  | nil => exact ⟨h0, rfl⟩
  | cons i is ih =>
    obtain ⟨hR, hout⟩ := hstep s t i h0
    obtain ⟨hafter, hrest⟩ := ih hR
    have hsplit : translate step f s (i :: is) = f s i ++ translate step f (step s i).1 is := rfl
    rw [hsplit, after_append, outputs_append, after_cons, outputs_cons, hout, ← hrest]
    exact ⟨hafter, rfl⟩

/-! ### Guarded relations -/

/-- A step of `R` on an input that the guard lets through. -/
def Guarded (R : σ → ι → σ → Prop) (C : σ → ι → Prop) (s t : σ) : Prop :=
  ∃ i, C s i ∧ R s i t

lemma guarded_mono {R : σ → ι → σ → Prop} {C C' : σ → ι → Prop} (hC : ∀ s i, C s i → C' s i)
    {s t : σ} (h : Relation.ReflTransGen (Guarded R C) s t) :
    Relation.ReflTransGen (Guarded R C') s t := by
  induction h with
  | refl => exact .refl
  | tail _ hlast ih =>
    obtain ⟨i, hc, hr⟩ := hlast
    exact ih.tail ⟨i, hC _ i hc, hr⟩

/-- **The invariant rule**: what every guarded step keeps holds wherever guarded steps lead. -/
theorem guarded_inv {R : σ → ι → σ → Prop} {C : σ → ι → Prop} {I : σ → Prop}
    (hstep : ∀ s i t, I s → C s i → R s i t → I t) {s t : σ} (h0 : I s)
    (h : Relation.ReflTransGen (Guarded R C) s t) : I t := by
  induction h with
  | refl => exact h0
  | tail _ hlast ih =>
    obtain ⟨i, hc, hr⟩ := hlast
    exact hstep _ i _ ih hc hr

/-- **Invariants in layers**: a second one may use the first in its step. -/
theorem guarded_inv_and {R : σ → ι → σ → Prop} {C : σ → ι → Prop} {I J : σ → Prop}
    (hI : ∀ s i t, I s → R s i t → I t) (hJ : ∀ s i t, I s → J s → C s i → R s i t → J t)
    {s t : σ} (hI0 : I s) (hJ0 : J s) (h : Relation.ReflTransGen (Guarded R C) s t) :
    I t ∧ J t :=
  guarded_inv (I := fun s => I s ∧ J s)
    (fun s i t h hc hr => ⟨hI s i t h.1 hr, hJ s i t h.1 h.2 hc hr⟩) ⟨hI0, hJ0⟩ h

/-- **Simulation of relations**: where every guarded step from a state that stands for another is a
guarded step of that one, so is every run; the second relation may be known by an invariant. -/
theorem guarded_simulated {τ κ : Type*} {R : σ → ι → σ → Prop} {C : σ → ι → Prop}
    {R' : τ → κ → τ → Prop} {C' : τ → κ → Prop} {I : τ → Prop} {Rel : σ → τ → Prop}
    (hI : ∀ t i t', I t → C' t i → R' t i t' → I t')
    (hstep : ∀ s i s' t, Rel s t → I t → C s i → R s i s' →
      ∃ j t', C' t j ∧ R' t j t' ∧ Rel s' t')
    {s s' : σ} {t : τ} (h0 : Rel s t) (hI0 : I t) (h : Relation.ReflTransGen (Guarded R C) s s') :
    ∃ t', Relation.ReflTransGen (Guarded R' C') t t' ∧ I t' ∧ Rel s' t' := by
  induction h with
  | refl => exact ⟨t, .refl, hI0, h0⟩
  | tail _ hlast ih =>
    obtain ⟨t₁, hrun, hI₁, hRel⟩ := ih
    obtain ⟨i, hc, hr⟩ := hlast
    obtain ⟨j, t₂, hc', hr', hRel'⟩ := hstep _ i _ t₁ hRel hI₁ hc hr
    exact ⟨t₂, hrun.tail ⟨j, hc', hr'⟩, hI t₁ j t₂ hI₁ hc' hr', hRel'⟩

/-- **Simulation by runs**: where every guarded step is, on related states, a run of guarded steps
of a second relation, so is every run; the first relation may be known by an invariant. -/
theorem guarded_runs {τ κ : Type*} {R : σ → ι → σ → Prop} {C : σ → ι → Prop}
    {R' : τ → κ → τ → Prop} {C' : τ → κ → Prop} {I : σ → Prop} {S : σ → τ → Prop}
    (hI : ∀ s i s', I s → R s i s' → I s')
    (hstep : ∀ s i s' t, I s → S s t → C s i → R s i s' →
      ∃ t', Relation.ReflTransGen (Guarded R' C') t t' ∧ S s' t')
    {s s' : σ} {t : τ} (hI0 : I s) (h0 : S s t) (h : Relation.ReflTransGen (Guarded R C) s s') :
    ∃ t', Relation.ReflTransGen (Guarded R' C') t t' ∧ S s' t' := by
  have hboth : I s' ∧ ∃ t', Relation.ReflTransGen (Guarded R' C') t t' ∧ S s' t' := by
    induction h with
    | refl => exact ⟨hI0, t, .refl, h0⟩
    | tail _ hlast ih =>
      obtain ⟨hI₁, t₁, hrun, hS⟩ := ih
      obtain ⟨i, hc, hr⟩ := hlast
      obtain ⟨t₂, hrun', hS'⟩ := hstep _ i _ t₁ hI₁ hS hc hr
      exact ⟨hI _ i _ hI₁ hr, t₂, hrun.trans hrun', hS'⟩
  exact hboth.2

/-- **Views**: where every guarded step is, seen through a view, a run of guarded steps of a second
relation, so is every run. -/
theorem guarded_view {τ κ : Type*} {R : σ → ι → σ → Prop} {C : σ → ι → Prop}
    {R' : τ → κ → τ → Prop} {C' : τ → κ → Prop} {I : σ → Prop} {view : σ → τ}
    (hI : ∀ s i s', I s → R s i s' → I s')
    (hstep : ∀ s i s', I s → C s i → R s i s' →
      Relation.ReflTransGen (Guarded R' C') (view s) (view s'))
    {s s' : σ} (hI0 : I s) (h : Relation.ReflTransGen (Guarded R C) s s') :
    Relation.ReflTransGen (Guarded R' C') (view s) (view s') := by
  obtain ⟨t', hrun, rfl⟩ := guarded_runs (S := fun s t => t = view s) hI
    (fun s i s' t hs ht hc hr => ⟨view s', ht ▸ hstep s i s' hs hc hr, rfl⟩) hI0 rfl h
  exact hrun

/-! ### Lists -/

lemma exists_pairs {α β γ : Type*} {f : α → γ} {g : β → γ} :
    ∀ {as : List α} {bs : List β}, as.map f = bs.map g →
      ∃ ps : List (α × β), ps.map Prod.fst = as ∧ ps.map Prod.snd = bs ∧
        ∀ p ∈ ps, f p.1 = g p.2
  | [], [], _ => ⟨[], rfl, rfl, by simp⟩
  | a :: as, b :: bs, h => by
    rw [List.map_cons, List.map_cons] at h
    obtain ⟨hab, hrest⟩ := List.cons.inj h
    obtain ⟨ps, hfst, hsnd, hps⟩ := exists_pairs hrest
    refine ⟨(a, b) :: ps, by rw [List.map_cons, hfst], by rw [List.map_cons, hsnd], ?_⟩
    exact List.forall_mem_cons.mpr ⟨hab, hps⟩
  | [], b :: bs, h => by cases h
  | a :: as, [], h => by cases h

lemma flatMap_of_ite {α β : Type*} {f : α → List β} {p : α → Bool} {g : α → β} {l : List α}
    (h : ∀ a ∈ l, f a = if p a then [g a] else []) : l.flatMap f = (l.filter p).map g := by
  induction l with
  | nil => rfl
  | cons a l ih =>
    obtain ⟨ha, hl⟩ := List.forall_mem_cons.mp h
    rw [List.flatMap_cons, ha, ih hl]
    cases hp : p a <;> simp [hp]

end Gpiod.Machine
