import Mathlib.Data.List.Infix
import Mathlib.Data.List.TakeDrop

namespace LinuxSystemProgramming.Subsequence

open scoped List

variable {α : Type*} {target p : List α} {a b c : α} {k : ℕ}

theorem sublist_concat_concat {l : List α} :
    l ++ [c] <+ p ++ [b] ↔ l ++ [c] <+ p ∨ c = b ∧ l <+ p := by
  have hlast {q : List α} : c :: l.reverse <+ q.reverse ↔ l ++ [c] <+ q := by
    rw [← List.reverse_concat, List.reverse_sublist]
  rw [← hlast, ← hlast, List.reverse_concat, List.cons_sublist_cons', List.reverse_sublist]

theorem take_succ_eq {l : List α} (h : l[k]? = some c) : l.take (k + 1) = l.take k ++ [c] := by
  rw [List.take_add_one, h]
  rfl

theorem take_sublist {l : List α} {m n : ℕ} (h : m ≤ n) : l.take m <+ l.take n := by
  apply List.IsPrefix.sublist
  exact List.take_prefix_take_left h

structure Matched (target p : List α) (k : ℕ) : Prop where
  found : target.take k <+ p
  more : k < target.length
  limit : ¬ target.take (k + 1) <+ p

namespace Matched

theorem nil (h : target ≠ []) : Matched target [] 0 := by
  have hpos := List.length_pos_iff.mpr h
  refine ⟨by simp, hpos, ?_⟩
  intro hs
  have hlen := hs.length_le
  simp only [List.length_take, List.length_nil] at hlen
  omega

theorem not_sublist (h : Matched target p k) : ¬ target <+ p := by
  intro hs
  apply h.limit
  exact (List.take_sublist _ _).trans hs

theorem append_next (h : Matched target p k) (hb : target[k]? = some b) (hk : k + 1 < target.length) :
    Matched target (p ++ [b]) (k + 1) := by
  have htake := take_succ_eq hb
  have hnext := take_succ_eq (List.getElem?_eq_getElem hk)
  refine ⟨?_, hk, ?_⟩
  · rw [htake]
    exact h.found.append (List.Sublist.refl _)
  · rw [hnext, sublist_concat_concat]
    rintro (hs | ⟨-, hs⟩)
    · apply h.limit
      exact (List.sublist_append_left _ _).trans hs
    · exact h.limit hs

theorem append_other (h : Matched target p k) (hc : target[k]? = some c) (hne : b ≠ c) :
    Matched target (p ++ [b]) k := by
  have htake := take_succ_eq hc
  refine ⟨h.found.trans (List.sublist_append_left _ _), h.more, ?_⟩
  rw [htake, sublist_concat_concat, ← htake]
  rintro (hs | ⟨rfl, -⟩)
  · exact h.limit hs
  · exact hne rfl

theorem sublist_append_last (h : Matched target p k) (hb : target[k]? = some b)
    (hk : k + 1 = target.length) : target <+ p ++ [b] := by
  have htake := take_succ_eq hb
  rw [hk, List.take_length] at htake
  rw [htake]
  exact h.found.append (List.Sublist.refl _)

end Matched

structure EndsAt (target l : List α) (n : ℕ) : Prop where
  bound : n ≤ l.length
  found : target <+ l.take n
  first : ∀ m < n, ¬ target <+ l.take m

namespace EndsAt

variable {l : List α} {m n i : ℕ}

theorem unique (h : EndsAt target l n) (h' : EndsAt target l m) : n = m := by
  apply le_antisymm
  · by_contra hlt
    exact h.first m (by omega) h'.found
  · by_contra hlt
    exact h'.first n (by omega) h.found

theorem length_le (h : EndsAt target l n) : target.length ≤ n := by
  have hlen := h.found.length_le
  simp only [List.length_take] at hlen
  omega

theorem of_matched {k : ℕ} (h : Matched target (l.take n) k) (hb : l[n]? = some b)
    (ht : target[k]? = some b) (hk : k + 1 = target.length) : EndsAt target l (n + 1) := by
  obtain ⟨hn, -⟩ := List.getElem?_eq_some_iff.mp hb
  refine ⟨hn, ?_, ?_⟩
  · rw [take_succ_eq hb]
    exact h.sublist_append_last ht hk
  · intro m hm hs
    apply h.not_sublist
    exact hs.trans (take_sublist (by omega))

end EndsAt

def OccursAt (target l : List α) (i : ℕ) : Prop := target <+: l.drop i

namespace OccursAt

variable {l : List α} {i n : ℕ}

theorem length_bound (h : OccursAt target l i) (ht : target ≠ []) : i + target.length ≤ l.length := by
  have hpos := List.length_pos_iff.mpr ht
  have hlen := h.length_le
  simp only [List.length_drop] at hlen
  omega

theorem sublist_take (h : OccursAt target l i) : target <+ l.take (i + target.length) := by
  obtain ⟨rest, hr⟩ := h
  rw [List.take_add, ← hr, List.take_left]
  exact List.sublist_append_right _ _

theorem sublist (h : OccursAt target l i) : target <+ l :=
  h.sublist_take.trans (List.take_sublist _ _)

theorem getElem? (h : OccursAt target l i) {j : ℕ} (hj : j < target.length) :
    l[i + j]? = target[j]? := by
  obtain ⟨rest, hr⟩ := h
  rw [← List.getElem?_drop, ← hr, List.getElem?_append_left hj]

theorem endsAt_le (h : EndsAt target l n) (hi : OccursAt target l i) : n ≤ i + target.length := by
  by_contra hlt
  exact h.first _ (by omega) hi.sublist_take

end OccursAt

end LinuxSystemProgramming.Subsequence
