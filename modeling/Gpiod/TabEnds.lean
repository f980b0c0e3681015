import Mathlib.Logic.Relation
import Gpiod.TabBounds
import Gpiod.TabTotal

/-!
The two loops over a line that ends in a line feed.

A cursor is the memory behind it, so to move on is to leave a proper suffix. A pass of the
modifier loop that another one follows moves on, also from a comma it is put back on in front
of an unknown word: there the next pass finds the empty word, which is recognised. A line feed
keeps the text from being broken off, and with it the cursor in front of the NUL.
-/

namespace Gpiod.TabEnds

open Gpiod.Pin Gpiod.TabScan Gpiod.TabField Gpiod.TabArgs Gpiod.TabBounds Gpiod.TabTotal

/-- A pass of the modifier loop from `m` is followed by one from `t`. -/
def Continues (m t : Mem) : Prop := ∃ f g, modPass f m = .ok (g, true, t)

/-- The cursor `t` is strictly further than `m`, and not past the NUL in front of `stale`. -/
structure MovesOn (stale m t : Mem) : Prop where
  suffix : t <:+ m
  further : t.length < m.length
  within : 0 :: stale <:+ t

/-- What the loops do on the line from the cursor behind its label on. -/
structure LoopsEnd (tmp2 stale : Mem) : Prop where
  moves : ∀ m, Relation.ReflTransGen Continues tmp2 m → ∀ t, Continues m t → MovesOn stale m t
  ends : ∃ flags c tmp1 tmp2' args,
    (∀ n, tmp2.length < n → modLoop n 0 tmp2 = .ok (flags, c)) ∧
      eatSpace c = .ok tmp1 ∧ nextSpace tmp1 = .ok tmp2' ∧
        ∀ n, tmp1.length + 2 ≤ n → argLoop n tmp1 tmp2' = .ok args

/-! ### The cursors are suffixes -/

section Suffix

variable {m t : Mem}

lemma eatSpace_suffix (h : eatSpace m = .ok t) : t <:+ m := by
  obtain ⟨b, -, -, hm, -⟩ := eatSpace_split h
  exact ⟨b, hm.symm⟩

lemma nextSpace_suffix (h : nextSpace m = .ok t) : t <:+ m := by
  obtain ⟨p, -, -, hm, -⟩ := nextSpace_split h
  exact ⟨p, hm.symm⟩

lemma memchr_suffix {c : UInt8} {n : ℕ} (h : memchr c n m = some t) : t <:+ m := by
  obtain ⟨w, rfl, -⟩ := memchr_split h
  exact List.suffix_append w t

lemma cutWord_suffix {w : Str} {coma : Bool} (h : cutWord m = .ok (w, coma, t)) : t <:+ m := by
  obtain ⟨tmp1, tmp2, h1, h2, hr⟩ := cutWord_ok h
  have ht : t = (memchr 0x2c (cursorDist tmp1 tmp2) tmp1).getD tmp2 :=
    congrArg (fun r : Str × Bool × Mem => r.2.2) hr
  have htmp1 := eatSpace_suffix h1
  cases hc : memchr 0x2c (cursorDist tmp1 tmp2) tmp1 with
  | none =>
    rw [ht, hc]
    exact (nextSpace_suffix h2).trans htmp1
  | some c =>
    rw [ht, hc]
    exact (memchr_suffix hc).trans htmp1

lemma modPass_suffix {f g : ℕ} {coma : Bool} (h : modPass f m = .ok (g, coma, t)) : t <:+ m := by
  obtain ⟨w, c₀, t₀, hcut, ⟨-, hr⟩ | ⟨-, tmp3, c, h3, -, hr⟩⟩ := modPass_ok h
  · cases hr
    exact cutWord_suffix hcut
  · have ht₀ := cutWord_suffix hcut
    split at hr
    · cases hr
      exact ((List.tail_suffix tmp3).trans (eatSpace_suffix h3)).trans ht₀
    · cases hr
      exact (List.tail_suffix t₀).trans ht₀

end Suffix

/-! ### The modifier loop -/

/-- In front of the NUL, at a text that is not broken off. -/
def AtText (stale m : Mem) : Prop := ∃ x : Str, ¬ Unfinished x ∧ m = x ++ 0 :: stale

lemma AtText.within {stale m : Mem} (h : AtText stale m) : 0 :: stale <:+ m := by
  obtain ⟨x, -, rfl⟩ := h
  exact List.suffix_append x _

/-- **A pass that another one follows** stays at such a text. -/
lemma AtText.continues {stale m t : Mem} (h : AtText stale m) (hc : Continues m t) :
    AtText stale t := by
  obtain ⟨x, hx, rfl⟩ := h
  obtain ⟨f, g, hpass⟩ := hc
  obtain ⟨w, coma, y, hp⟩ := (passes_of_text x).resolve_left hx
  rw [hp.run f stale] at hpass
  cases hpass
  exact ⟨y, fun hu => hx ((hp.more rfl).2.1 hu), rfl⟩

lemma AtText.reaches {stale m t : Mem} (h : AtText stale m)
    (hr : Relation.ReflTransGen Continues m t) : AtText stale t := by
  induction hr with
  | refl => exact h
  | tail _ hc ih => exact ih.continues hc

lemma AtText.movesOn {stale m t : Mem} (h : AtText stale m) (hc : Continues m t) :
    MovesOn stale m t := by
  have hwithin := (h.continues hc).within
  obtain ⟨f, g, hpass⟩ := hc
  exact ⟨modPass_suffix hpass, (modPass_spec f m).2 g t hpass, hwithin⟩

/-! ### The line -/

lemma argLoop_tokens {c : Mem} {ts : List Str} (h : Tokens c ts) :
    ∃ tmp1 tmp2 args, eatSpace c = .ok tmp1 ∧ nextSpace tmp1 = .ok tmp2 ∧
      ∀ n, tmp1.length + 2 ≤ n → argLoop n tmp1 tmp2 = .ok args := by
  cases h with
  | @done b m r hb hr hbr =>
    refine ⟨r :: m, r :: m, [], eatSpace_found hb hbr m, nextSpace_stop hr m, fun n hn => ?_⟩
    obtain ⟨n, rfl⟩ : ∃ k, n = k + 1 := ⟨n - 1, by omega⟩
    rw [argLoop, if_pos rfl]
  | @token b p m r args hb hp hne hr hargs =>
    have hpos : 0 < p.length := List.length_pos_iff.mpr hne
    refine ⟨p ++ r :: m, r :: m, entries args, eatSpace_piece hb hp fun hp => absurd hp hne,
      nextSpace_piece hp hr, fun n hn => ?_⟩
    refine hargs.run n (p ++ r :: m) ?_ ?_
    · simp only [List.length_append, List.length_cons] at hn ⊢
      omega
    · simp only [List.length_append, List.length_cons]
      omega

lemma loopsEnd_of_text {x : Str} (hx : ¬ Unfinished x) (stale : Mem) :
    LoopsEnd (x ++ 0 :: stale) stale := by
  have hat : AtText stale (x ++ 0 :: stale) := ⟨x, hx, rfl⟩
  obtain ⟨ws, y, hends⟩ := (listEnds_finished x).resolve_left hx
  obtain ⟨ts, hts⟩ := tokens_text y
  obtain ⟨tmp1, tmp2, args, h1, h2, hargs⟩ := argLoop_tokens (hts stale)
  refine ⟨fun m hm t hc => (hat.reaches hm).movesOn hc,
    _, y ++ 0 :: stale, tmp1, tmp2, args, fun n hn => (hends stale).cuts.run n 0 hn, h1, h2, hargs⟩

/-- **Parsing a line ends**: on every line with its line feed, whatever the buffer holds behind
the NUL, both loops come to an end, each pass of the modifier loop that another one follows
moves the cursor on and not past the NUL, and so the line is loaded. -/
theorem loopsEnd_of_line (gp_list : List GpioPin) (body : Str) (stale : Mem) :
    (∃ label tmp2, tabLabel (body ++ [0x0a] ++ 0 :: stale) = .ok (label, tmp2) ∧
      LoopsEnd tmp2 stale) ∧
    ∃ gp_list', loadLine gp_list (body ++ [0x0a] ++ 0 :: stale) = .ok gp_list' := by
  have hline : (0x0a : UInt8) ∈ body ++ [0x0a] := by simp
  obtain ⟨made, hmade⟩ := loadLine_newline gp_list hline
  refine ⟨⟨_, _, tabLabel_eq _ stale, loopsEnd_of_text (fun hu => ?_) stale⟩,
    _, hmade gp_list stale rfl⟩
  exact hu.no_newline (afterToken_newline hline)

end Gpiod.TabEnds
