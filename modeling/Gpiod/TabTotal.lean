import Gpiod.TabField

/-!
The loops over a tab line end.

The cursors only move forward. A pass of the modifier loop that goes on leaves its cursor
behind the place it started at, and so does a pass of the argument loop that makes an entry,
so the bounds the loops are given are never reached.
-/

namespace Gpiod.TabTotal

open Gpiod.Pin Gpiod.TabScan Gpiod.TabField

/-- The bound on the iterations of a loop was not reached. -/
def Ends {α : Type*} (e : Except Fault α) : Prop := e ≠ .error .fuel

variable {α β : Type*}

lemma ends_ok (a : α) : Ends (.ok a : Except Fault α) := nofun

lemma Ends.bind {e : Except Fault α} {k : α → Except Fault β} (he : Ends e)
    (hk : ∀ a, e = .ok a → Ends (k a)) : Ends (e.bind k) := by
  cases e with
  | error f => exact fun h => he (by cases h; rfl)
  | ok a => exact hk a rfl

/-! ### The cursors -/

lemma eatSpace_spec (m : Mem) : Ends (eatSpace m) ∧
    ∀ m', eatSpace m = .ok m' → m'.length ≤ m.length := by
  induction m with
  | nil => exact ⟨nofun, nofun⟩
  | cons c m ih =>
    rw [eatSpace]
    split_ifs
    · exact ⟨ends_ok _, fun m' h => by cases h; rfl⟩
    · refine ⟨ih.1, fun m' h => ?_⟩
      have := ih.2 m' h
      rw [List.length_cons]
      omega
    · exact ⟨ends_ok _, fun m' h => by cases h; rfl⟩

lemma nextSpace_spec (m : Mem) : Ends (nextSpace m) ∧
    ∀ m', nextSpace m = .ok m' → m'.length ≤ m.length := by
  induction m with
  | nil => exact ⟨nofun, nofun⟩
  | cons c m ih =>
    rw [nextSpace]
    split_ifs
    · exact ⟨ends_ok _, fun m' h => by cases h; rfl⟩
    · exact ⟨ends_ok _, fun m' h => by cases h; rfl⟩
    · refine ⟨ih.1, fun m' h => ?_⟩
      have := ih.2 m' h
      rw [List.length_cons]
      omega

lemma peek_spec (m : Mem) : Ends (peek m) ∧ ∀ c, peek m = .ok c → 0 < m.length := by
  cases m with
  | nil => exact ⟨nofun, nofun⟩
  | cons c m => exact ⟨ends_ok _, fun _ _ => Nat.succ_pos _⟩

lemma memchr_length {c : UInt8} {n : ℕ} {m t : Mem} (h : memchr c n m = some t) :
    t.length ≤ m.length := by
  obtain ⟨w, rfl, -⟩ := memchr_split h
  rw [List.length_append]
  omega

/-! ### The modifier loop -/

lemma cutWord_spec (m : Mem) : Ends (cutWord m) ∧ ∀ w coma t, cutWord m = .ok (w, coma, t) →
    t.length ≤ m.length ∧ (coma = true → w ≠ [] → t.length < m.length) := by
  obtain ⟨he, hel⟩ := eatSpace_spec m
  refine ⟨he.bind fun tmp1 _ => (nextSpace_spec tmp1).1.bind fun tmp2 _ => ends_ok _, ?_⟩
  intro w coma t h
  obtain ⟨tmp1, tmp2, h1, h2, hr⟩ := cutWord_ok h
  obtain ⟨rfl, rfl, rfl⟩ := by simpa only [Prod.mk.injEq] using hr
  have hl1 := hel _ h1
  have hl2 := (nextSpace_spec tmp1).2 _ h2
  cases hc : memchr 0x2c (cursorDist tmp1 tmp2) tmp1 with
  | none => exact ⟨by rw [Option.getD_none]; omega, nofun⟩
  | some c =>
    have hlc := memchr_length hc
    rw [Option.getD_some]
    refine ⟨by omega, fun _ hw => ?_⟩
    -- a comma at the start of the stretch leaves an empty word
    by_contra hlt
    have heq : c.length = tmp1.length := by omega
    have hdist : cursorDist tmp1 c = 0 := by simp [cursorDist, heq]
    exact hw (by rw [hdist]; rfl)

/-- **A pass that goes on** leaves the cursor behind the place it started at. -/
lemma modPass_spec (f : ℕ) (m : Mem) : Ends (modPass f m) ∧
    ∀ g t, modPass f m = .ok (g, true, t) → t.length < m.length := by
  obtain ⟨hcut, hlen⟩ := cutWord_spec m
  refine ⟨hcut.bind fun r _ => ?_, fun g t h => ?_⟩
  · obtain ⟨w, coma, t⟩ := r
    show Ends (ite _ _ _)
    split
    · exact ends_ok _
    · refine (eatSpace_spec t).1.bind fun tmp3 _ => (peek_spec tmp3).1.bind fun c _ => ?_
      split <;> exact ends_ok _
  · obtain ⟨w, coma, t₀, h1, ⟨hk, hr⟩ | ⟨hk, tmp3, c, h3, hp, hr⟩⟩ := modPass_ok h
    · cases hr
      exact (hlen w true t h1).2 rfl (by rintro rfl; exact absurd hk (by decide))
    · have hle := (hlen w coma t₀ h1).1
      have hl3 := (eatSpace_spec t₀).2 tmp3 h3
      have hpos := (peek_spec tmp3).2 c hp
      split at hr <;> cases hr <;> rw [List.length_tail] <;> omega

lemma modLoop_ends {n : ℕ} {f : ℕ} {m : Mem} (h : m.length < n) : Ends (modLoop n f m) := by
  induction n generalizing f m with
  | zero => omega
  | succ n ih =>
    obtain ⟨hpass, hlen⟩ := modPass_spec f m
    refine hpass.bind fun r hr => ?_
    obtain ⟨g, coma, t⟩ := r
    cases coma with
    | false => exact ends_ok _
    | true =>
      have := hlen g t hr
      exact ih (by omega)

/-! ### The argument loop -/

lemma argLoop_ends {n : ℕ} {tmp1 tmp2 : Mem}
    (h : tmp1.length ≠ tmp2.length → tmp2.length + 2 ≤ n) (hn : 0 < n) :
    Ends (argLoop n tmp1 tmp2) := by
  induction n generalizing tmp1 tmp2 with
  | zero => omega
  | succ n ih =>
    rw [argLoop]
    split
    · exact ends_ok _
    · next hne =>
      have h := h hne
      refine (eatSpace_spec tmp2).1.bind fun tmp1' h1 => ?_
      refine (nextSpace_spec tmp1').1.bind fun tmp2' h2 => ?_
      have hl1 := (eatSpace_spec tmp2).2 tmp1' h1
      have hl2 := (nextSpace_spec tmp1').2 tmp2' h2
      exact (ih (by omega) (by omega)).bind fun args _ => ends_ok _

/-! ### The line and the file -/

lemma tabHook_ends (m : Mem) : Ends (tabHook m) := by
  refine (modLoop_ends (Nat.lt_succ_self _)).bind fun r _ => ?_
  refine (eatSpace_spec r.2).1.bind fun tmp1 _ => (nextSpace_spec tmp1).1.bind fun tmp2 h2 => ?_
  have hl2 := (nextSpace_spec tmp1).2 tmp2 h2
  exact (argLoop_ends (by omega) (by omega)).bind fun args _ => ends_ok _

lemma loadLine_ends (gp_list : List GpioPin) (line : Mem) : Ends (loadLine gp_list line) := by
  have hlabel : Ends (tabLabel line) := (eatSpace_spec line).1.bind fun tmp1 _ =>
    (nextSpace_spec tmp1).1.bind fun tmp2 _ => ends_ok _
  refine hlabel.bind fun r _ => ?_
  obtain ⟨label, tmp2⟩ := r
  dsimp only
  cases findPinByLabel gp_list label with
  | none => exact ends_ok _
  | some i => exact (tabHook_ends tmp2).bind fun hook _ => ends_ok _

/-- **Loading a file ends**: whatever the file holds, no loop reaches its bound. -/
theorem loadTab_ends (gp_list : List GpioPin) (file : Option Str) (fresh : ℕ → Mem) :
    Ends (loadTab gp_list file fresh) := by
  have hlines : ∀ (lines : List (Str × Mem)) (gp_list : List GpioPin) (buf : Mem),
      Ends (loadLines gp_list buf lines) := by
    intro lines
    induction lines with
    | nil => exact fun _ _ => ends_ok _
    | cons l lines ih => exact fun gp_list buf => (loadLine_ends _ _).bind fun gp_list' _ => ih _ _
  cases file with
  | none => exact ends_ok _
  | some text => exact (hlines _ _ _).bind fun gp_list' _ => ends_ok _

end Gpiod.TabTotal
