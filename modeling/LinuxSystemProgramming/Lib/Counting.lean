import Mathlib.Algebra.BigOperators.Group.Finset.Piecewise
import Mathlib.Algebra.Order.BigOperators.Group.Finset
import Mathlib.Data.Fintype.BigOperators

namespace LinuxSystemProgramming.Counting

variable {ι σ τ : Type*} [Fintype ι]

def count (p : σ → Bool) (f : ι → σ) : ℕ := ∑ i, (p (f i)).toNat

theorem count_congr {p : σ → Bool} {q : τ → Bool} {f : ι → σ} {g : ι → τ}
    (h : ∀ i, p (f i) = q (g i)) : count p f = count q g :=
  Finset.sum_congr rfl (fun i _ => congrArg Bool.toNat (h i))

theorem count_eq_zero {p : σ → Bool} {f : ι → σ} (h : ∀ i, p (f i) = false) : count p f = 0 :=
  Finset.sum_eq_zero (fun i _ => by rw [h i, Bool.toNat_false])

theorem count_eq_card {p : σ → Bool} {f : ι → σ} (h : ∀ i, p (f i) = true) :
    count p f = Fintype.card ι := by
  calc count p f = ∑ _i : ι, 1 := Finset.sum_congr rfl (fun i _ => by rw [h i, Bool.toNat_true])
    _ = Fintype.card ι := (Finset.card_eq_sum_ones _).symm

theorem count_le_card (p : σ → Bool) (f : ι → σ) : count p f ≤ Fintype.card ι := by
  calc count p f ≤ ∑ _i : ι, 1 := Finset.sum_le_sum (fun i _ => Bool.toNat_le (p (f i)))
    _ = Fintype.card ι := (Finset.card_eq_sum_ones _).symm

theorem all_of_count {p : σ → Bool} {f : ι → σ} (h : Fintype.card ι ≤ count p f) (i : ι) :
    p (f i) = true := by
  by_contra hi
  have hlt : count p f < ∑ _i : ι, 1 := by
    apply Finset.sum_lt_sum (fun j _ => Bool.toNat_le (p (f j)))
    refine ⟨i, Finset.mem_univ i, ?_⟩
    rw [Bool.eq_false_of_not_eq_true hi, Bool.toNat_false]
    exact Nat.one_pos
  rw [← Finset.card_eq_sum_ones, Finset.card_univ] at hlt
  omega

theorem exists_of_count {p : σ → Bool} {f : ι → σ} (h : 0 < count p f) : ∃ i, p (f i) = true := by
  by_contra hn
  have hz : count p f = 0 := by
    apply count_eq_zero
    intro i
    exact Bool.eq_false_of_not_eq_true fun hi => hn ⟨i, hi⟩
  omega

variable [DecidableEq ι]

theorem count_update (p : σ → Bool) (f : ι → σ) (i : ι) (x : σ) :
    count p (Function.update f i x) + (p (f i)).toNat = count p f + (p x).toNat := by
  have hx : (fun j => (p (Function.update f i x j)).toNat) =
      Function.update (fun j => (p (f j)).toNat) i (p x).toNat := by
    funext j
    by_cases hj : j = i
    · rw [hj, Function.update_self, Function.update_self]
    · rw [Function.update_of_ne hj, Function.update_of_ne hj]
  have hf := Finset.add_sum_erase Finset.univ (fun j => (p (f j)).toNat) (Finset.mem_univ i)
  simp only [count]
  rw [hx, Finset.sum_update_of_mem (Finset.mem_univ i), Finset.sdiff_singleton_eq_erase]
  omega

variable {p : σ → Bool} {f : ι → σ} {i : ι} {x : σ}

theorem count_same (h : p x = p (f i)) : count p (Function.update f i x) = count p f := by
  have hu := count_update p f i x
  rw [h] at hu
  omega

theorem count_enter (hf : p (f i) = false) (hx : p x = true) :
    count p (Function.update f i x) = count p f + 1 := by
  have hu := count_update p f i x
  rwa [hf, hx, Bool.toNat_false, Bool.toNat_true, Nat.add_zero] at hu

theorem count_leave (hf : p (f i) = true) (hx : p x = false) :
    count p (Function.update f i x) + 1 = count p f := by
  have hu := count_update p f i x
  rwa [hf, hx, Bool.toNat_false, Bool.toNat_true, Nat.add_zero] at hu

theorem sum_update_lt (μ : σ → ℕ) {f : ι → σ} {i : ι} {x : σ} (h : μ x < μ (f i)) :
    ∑ j, μ (Function.update f i x j) < ∑ j, μ (f j) := by
  apply Finset.sum_lt_sum
  · intro j _
    by_cases hj : j = i
    · rw [hj, Function.update_self]
      exact h.le
    · rw [Function.update_of_ne hj]
  · exact ⟨i, Finset.mem_univ i, by rwa [Function.update_self]⟩

end LinuxSystemProgramming.Counting
