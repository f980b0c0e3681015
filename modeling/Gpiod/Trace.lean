import Mathlib.Tactic.Common

/-!
Computations that may fail, with the events on their way.

Two variants of one computation that differ in what an event does to the rest are compared event
by event: where the events of the one are all allowed, the other is the same computation, and
where they are not, its events are not all good.
-/

namespace Gpiod.Trace

variable {E F : Type} {α β : Type}

structure Traced (E F α : Type) where
  events : List E
  result : Except F α

/-- A computation without events. -/
def Traced.lift (x : Except F α) : Traced E F α := ⟨[], x⟩

def Traced.emit (e : E) : Traced E F Unit := ⟨[e], .ok ()⟩

/-- A failure ends the events. -/
def Traced.andThen (x : Traced E F α) (k : α → Traced E F β) : Traced E F β :=
  match x.result with
  | .error f => ⟨x.events, .error f⟩
  | .ok a => ⟨x.events ++ (k a).events, (k a).result⟩

instance : Monad (Traced E F) where
  pure a := ⟨[], .ok a⟩
  bind := Traced.andThen

@[simp] lemma lift_result (x : Except F α) : (Traced.lift x : Traced E F α).result = x := rfl
@[simp] lemma emit_result (e : E) : (Traced.emit e : Traced E F Unit).result = .ok () := rfl
@[simp] lemma pure_result (a : α) : (pure a : Traced E F α).result = .ok a := rfl

@[simp] lemma bind_result (x : Traced E F α) (k : α → Traced E F β) :
    (x >>= k).result = x.result >>= fun a => (k a).result := by
  obtain ⟨events, _ | a⟩ := x <;> rfl

lemma lift_ok_bind (a : α) (k : α → Traced E F β) : Traced.lift (.ok a) >>= k = k a := rfl

lemma bind_of_ok {x : Traced E F α} {a : α} (h : x.result = .ok a) (k : α → Traced E F β) :
    (x >>= k).events = x.events ++ (k a).events := by
  obtain ⟨events, result⟩ := x
  subst h
  rfl

lemma bind_of_error {x : Traced E F α} {f : F} (h : x.result = .error f)
    (k : α → Traced E F β) : (x >>= k).events = x.events := by
  obtain ⟨events, result⟩ := x
  subst h
  rfl

/-- The events of `x` are good where those of `y` are allowed, and only there; and there the two
are the same. -/
structure Agree (good allowed : E → Prop) (x y : Traced E F α) : Prop where
  events : (∀ e ∈ x.events, good e) ↔ ∀ e ∈ y.events, allowed e
  same : (∀ e ∈ y.events, allowed e) → x = y

variable {good allowed : E → Prop}

lemma agree_lift (x : Except F α) : Agree good allowed (Traced.lift x) (Traced.lift x) :=
  ⟨⟨fun _ _ h => absurd h List.not_mem_nil, fun _ _ h => absurd h List.not_mem_nil⟩, fun _ => rfl⟩

lemma agree_pure (a : α) : Agree good allowed (pure a : Traced E F α) (pure a) :=
  agree_lift (.ok a)

lemma agree_emit {e e' : E} {a a' : α} (h : good e ↔ allowed e')
    (heq : allowed e' → e = e' ∧ a = a') :
    Agree good allowed (Traced.emit e >>= fun _ => pure a : Traced E F α)
      (Traced.emit e' >>= fun _ => pure a') := by
  have hevents : ∀ (p : E → Prop) (e : E), (∀ d ∈ [e], p d) ↔ p e := by simp
  refine ⟨(hevents good e).trans (h.trans (hevents allowed e').symm), fun ha => ?_⟩
  obtain ⟨rfl, rfl⟩ := heq ((hevents allowed e').mp ha)
  rfl

lemma events_subset_bind (x : Traced E F α) (k : α → Traced E F β) :
    x.events ⊆ (x >>= k).events := by
  cases hr : x.result with
  | error f =>
    rw [bind_of_error hr]
    exact List.Subset.refl _
  | ok a =>
    rw [bind_of_ok hr]
    exact List.subset_append_left _ _

/-- **Composition**: the second parts are compared only where the first are the same. -/
lemma Agree.bind {x y : Traced E F α} {k k' : α → Traced E F β} (h : Agree good allowed x y)
    (hk : ∀ a, x = y → y.result = .ok a → Agree good allowed (k a) (k' a)) :
    Agree good allowed (x >>= k) (y >>= k') := by
  by_cases hy : ∀ e ∈ y.events, allowed e
  · obtain rfl := h.same hy
    cases hr : x.result with
    | error f =>
      have hxk : x >>= k = x >>= k' := by
        obtain ⟨events, result⟩ := x
        subst hr
        rfl
      refine ⟨?_, fun _ => hxk⟩
      rw [bind_of_error hr, bind_of_error hr]
      exact h.events
    | ok a =>
      obtain ⟨hiff, hsame⟩ := hk a rfl hr
      refine ⟨?_, fun hall => ?_⟩
      · rw [bind_of_ok hr, bind_of_ok hr]
        simp only [List.mem_append, or_imp, forall_and, h.events, hiff]
      · rw [bind_of_ok hr] at hall
        have hka : k a = k' a := hsame fun e he => hall e (List.mem_append_right _ he)
        obtain ⟨events, result⟩ := x
        subst hr
        change (⟨events ++ (k a).events, (k a).result⟩ : Traced E F β) =
          ⟨events ++ (k' a).events, (k' a).result⟩
        rw [hka]
  · have hx : ¬ ∀ e ∈ x.events, good e := fun hx => hy (h.events.mp hx)
    have hxk : ¬ ∀ e ∈ (x >>= k).events, good e :=
      fun hall => hx fun e he => hall e (events_subset_bind x k he)
    have hyk : ¬ ∀ e ∈ (y >>= k').events, allowed e :=
      fun hall => hy fun e he => hall e (events_subset_bind y k' he)
    exact ⟨iff_of_false hxk hyk, fun hall => absurd hall hyk⟩

/-! ### Events that are allowed -/

/-- The result of a computation that stops with `f` at the first event that is not allowed. -/
def Traced.guard (allow : E → Bool) (f : F) (x : Traced E F α) : Except F α :=
  if x.events.all allow then x.result else .error f

variable {allow : E → Bool} {f : F}

/-- **Guarding a composition** is composing the guarded parts. -/
lemma guard_bind (x : Traced E F α) (k : α → Traced E F β) :
    (x >>= k).guard allow f = x.guard allow f >>= fun a => (k a).guard allow f := by
  obtain ⟨events, result⟩ := x
  cases result with
  | error f' =>
    change (if events.all allow then .error f' else .error f) =
      (if events.all allow then .error f' else .error f : Except F α) >>= _
    split <;> rfl
  | ok a =>
    change (if (events ++ (k a).events).all allow then (k a).result else .error f) =
      (if events.all allow then .ok a else .error f : Except F α) >>= _
    rw [List.all_append]
    cases events.all allow <;> rfl

lemma guard_ok_iff {x : Traced E F α} {a : α} :
    x.guard allow f = .ok a ↔ (∀ e ∈ x.events, allow e = true) ∧ x.result = .ok a := by
  unfold Traced.guard
  split
  · next h => exact ⟨fun hr => ⟨List.all_eq_true.mp h, hr⟩, And.right⟩
  · next h => exact ⟨nofun, fun hr => absurd (List.all_eq_true.mpr hr.1) h⟩

end Gpiod.Trace
