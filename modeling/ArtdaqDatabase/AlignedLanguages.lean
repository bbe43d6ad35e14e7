import Mathlib.Computability.Language
import Mathlib.Order.CompletePartialOrder
import Mathlib.Tactic

/-!
# Aligned languages

Two languages are aligned in a third one when two of their words that begin the
same text are the same word, and a word of the third.  The relation is closed
under the operations of regular expressions, provided that what follows a word
tells where it ends.
-/

namespace ArtdaqDatabase

open scoped Computability

section

variable {σ : Type} {l m k l' m' k' : Language σ} {follow follow' : List σ → Prop}

def Aligned (l m k : Language σ) (follow : List σ → Prop) : Prop :=
  ∀ u ∈ l, ∀ v ∈ m, ∀ r s, follow r → follow s → u ++ r = v ++ s → u = v ∧ u ∈ k

theorem Aligned.weaken
    (h : Aligned l m k follow) (hfollow : ∀ r, follow' r → follow r) : Aligned l m k follow' :=
  fun u hu v hv r s hr hs heq => h u hu v hv r s (hfollow r hr) (hfollow s hs) heq

/-- No word of the one and no word of the other begin the same text. -/
theorem Aligned.apart
    (h : ∀ u ∈ l, ∀ v ∈ m, ∀ r s, u ++ r ≠ v ++ s) (k : Language σ) (follow : List σ → Prop) :
    Aligned l m k follow :=
  fun u hu v hv r s _ _ heq => absurd heq (h u hu v hv r s)

theorem Aligned.zero (m k : Language σ) (follow : List σ → Prop) : Aligned 0 m k follow :=
  fun u hu => absurd hu (Language.notMem_zero u)

theorem Aligned.zero_right (l k : Language σ) (follow : List σ → Prop) : Aligned l 0 k follow :=
  fun _ _ v hv => absurd hv (Language.notMem_zero v)

theorem Aligned.one (follow : List σ → Prop) : Aligned (1 : Language σ) 1 1 follow := by
  rintro _ ⟨⟩ _ ⟨⟩ r s _ _ _
  exact ⟨rfl, rfl⟩

theorem Aligned.singleton (word : List σ) (follow : List σ → Prop) :
    Aligned ({word} : Language σ) {word} {word} follow := by
  rintro _ ⟨⟩ _ ⟨⟩ r s _ _ _
  exact ⟨rfl, rfl⟩

theorem Aligned.mul
    (h : Aligned l m k follow') (h' : Aligned l' m' k' follow)
    (hl : ∀ w ∈ l', ∀ r, follow r → follow' (w ++ r))
    (hm : ∀ w ∈ m', ∀ r, follow r → follow' (w ++ r)) :
    Aligned (l * l') (m * m') (k * k') follow := by
  rintro _ ⟨u, hu, u', hu', rfl⟩ _ ⟨v, hv, v', hv', rfl⟩ r s hr hs heq
  simp only [List.append_assoc] at heq
  obtain ⟨rfl, hk⟩ := h u hu v hv (u' ++ r) (v' ++ s) (hl u' hu' r hr) (hm v' hv' s hs) heq
  obtain ⟨rfl, hk'⟩ := h' u' hu' v' hv' r s hr hs (List.append_cancel_left heq)
  exact ⟨rfl, Language.append_mem_mul hk hk'⟩

theorem Aligned.add
    (h : Aligned l m k follow) (h' : Aligned l' m' k' follow)
    (hcross : Aligned l m' 0 follow) (hcross' : Aligned l' m 0 follow) :
    Aligned (l + l') (m + m') (k + k') follow := by
  rintro u (hu | hu) v (hv | hv) r s hr hs heq
  · obtain ⟨rfl, hk⟩ := h u hu v hv r s hr hs heq
    exact ⟨rfl, Or.inl hk⟩
  · exact absurd (hcross u hu v hv r s hr hs heq).2 (Language.notMem_zero u)
  · exact absurd (hcross' u hu v hv r s hr hs heq).2 (Language.notMem_zero u)
  · obtain ⟨rfl, hk⟩ := h' u hu v hv r s hr hs heq
    exact ⟨rfl, Or.inr hk⟩

/-- One more word and no more word are told apart by the beginning of a word. -/
theorem Aligned.kstar
    (h : Aligned l m k follow')
    (hl : ∀ w ∈ l, ∀ r, follow' (w ++ r)) (hm : ∀ w ∈ m, ∀ r, follow' (w ++ r))
    (hlast : ∀ r, follow r → follow' r)
    (hstopl : ∀ w ∈ l, ∀ r, ¬ follow (w ++ r)) (hstopm : ∀ w ∈ m, ∀ r, ¬ follow (w ++ r)) :
    Aligned l∗ m∗ k∗ follow := by
  have hnext : ∀ {l : Language σ}, (∀ w ∈ l, ∀ r, follow' (w ++ r)) →
      ∀ {ws : List (List σ)}, (∀ w ∈ ws, w ∈ l) → ∀ r, follow r → follow' (ws.flatten ++ r) := by
    intro l hl ws hws r hr
    cases ws with
    | nil => exact hlast r hr
    | cons w ws =>
        rw [List.flatten_cons, List.append_assoc]
        exact hl w (hws w List.mem_cons_self) _
  rintro u hu v hv r s hr hs heq
  obtain ⟨us, rfl, hus⟩ := Language.mem_kstar.1 hu
  obtain ⟨vs, rfl, hvs⟩ := Language.mem_kstar.1 hv
  clear hu hv
  induction us generalizing vs with
  | nil =>
      cases vs with
      | nil => exact ⟨rfl, Language.nil_mem_kstar k⟩
      | cons w ws =>
          rw [List.flatten_cons, List.append_assoc] at heq
          rw [show r = w ++ (ws.flatten ++ s) from heq] at hr
          exact absurd hr (hstopm w (hvs w List.mem_cons_self) _)
  | cons u us ih =>
      have hu := hus u List.mem_cons_self
      have htail : ∀ w ∈ us, w ∈ l := fun w hw => hus w (List.mem_cons_of_mem u hw)
      rw [List.flatten_cons, List.append_assoc] at heq
      cases vs with
      | nil =>
          rw [show s = u ++ (us.flatten ++ r) from heq.symm] at hs
          exact absurd hs (hstopl u hu _)
      | cons v vs =>
          have hv := hvs v List.mem_cons_self
          have htail' : ∀ w ∈ vs, w ∈ m := fun w hw => hvs w (List.mem_cons_of_mem v hw)
          rw [List.flatten_cons, List.append_assoc] at heq
          obtain ⟨rfl, hk⟩ := h u hu v hv _ _ (hnext hl htail r hr) (hnext hm htail' s hs) heq
          obtain ⟨hflat, hrest⟩ := ih htail vs htail' (List.append_cancel_left heq)
          refine ⟨by rw [List.flatten_cons, List.flatten_cons, hflat], ?_⟩
          rw [List.flatten_cons, ← Language.one_add_self_mul_kstar_eq_kstar k]
          exact Or.inr (Language.append_mem_mul hk hrest)

end

end ArtdaqDatabase
