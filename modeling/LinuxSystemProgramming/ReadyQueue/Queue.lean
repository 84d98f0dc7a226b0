import LinuxSystemProgramming.Lib.RingBuffer
import Mathlib.Data.List.OfFn

/-!
`ready_queue_push` and `ready_queue_pop` of 10_9 on the array and its two indices, for
`READY_QUEUE_SIZE = M`. The calls are those of the ring buffer with a slot for every element of the
array, and so those of a list that holds `M - 1` ids. An access outside the array has no result.
-/

namespace LinuxSystemProgramming.ReadyQueue

open RingBuffer

-- The indices stay below `M`, so that the sums do not wrap as a `size_t`.
structure Globals where
  readyQueue : List Int32
  rqHead : ℕ
  rqTail : ℕ
  deriving DecidableEq

namespace Globals

def initial (M : ℕ) : Globals where
  readyQueue := List.replicate M 0
  rqHead := 0
  rqTail := 0

def readyQueuePush (M : ℕ) (g : Globals) (id : Int32) : Option Globals :=
  let next := (g.rqTail + 1) % M
  if next = g.rqHead then some g
  else if g.rqTail < g.readyQueue.length then
    some { g with readyQueue := g.readyQueue.set g.rqTail id, rqTail := next }
  else none

/-- The returned value, what `*popped_id` holds after the call, and the queue. -/
def readyQueuePop (M : ℕ) (g : Globals) (poppedId : Int32) : Option (ℕ × Int32 × Globals) :=
  if g.rqHead = g.rqTail then some (0, poppedId, g)
  else (g.readyQueue[g.rqHead]?).map (fun id => (1, id, { g with rqHead := (g.rqHead + 1) % M }))

end Globals

inductive Call
  | push (id : Int32)
  | pop (poppedId : Int32)
  deriving DecidableEq

def Globals.call (M : ℕ) (g : Globals) : Call → Option (List (ℕ × Int32) × Globals)
  | .push id => (g.readyQueuePush M id).map (fun g' => ([], g'))
  | .pop poppedId => (g.readyQueuePop M poppedId).map (fun r => ([(r.1, r.2.1)], r.2.2))

def Globals.calls (M : ℕ) (g : Globals) : List Call → Option (List (ℕ × Int32) × Globals)
  | [] => some ([], g)
  | c :: cs => (g.call M c).bind (fun r => (r.2.calls M cs).map (fun r' => (r.1 ++ r'.1, r'.2)))

/-- The bounded queue that is meant. -/
def boundedCall (capacity : ℕ) (q : List Int32) : Call → List (ℕ × Int32) × List Int32
  | .push id => ([], if q.length < capacity then q ++ [id] else q)
  | .pop poppedId =>
    match q with
    | [] => ([(0, poppedId)], [])
    | id :: ids => ([(1, id)], ids)

def boundedCalls (capacity : ℕ) (q : List Int32) : List Call → List (ℕ × Int32) × List Int32
  | [] => ([], q)
  | c :: cs =>
    let r := boundedCall capacity q c
    let r' := boundedCalls capacity r.2 cs
    (r.1 ++ r'.1, r'.2)

structure Globals.Stores (M : ℕ) (g : Globals) (q : List Int32) : Prop where
  head : g.rqHead < M
  tail : g.rqTail < M
  room : q.length < M
  last : (g.rqHead + q.length) % M = g.rqTail
  slot : ∀ k < q.length, g.readyQueue[(g.rqHead + k) % M]? = q[k]?

namespace Globals

variable {n : ℕ} {g g' : Globals} {r r' : Ring Int32 n} {q : List Int32} {id old : Int32}

structure Refines (g : Globals) (r : Ring Int32 n) : Prop where
  slots : g.readyQueue = List.ofFn r.slots
  head : g.rqHead = r.head.val
  tail : g.rqTail = r.tail.val

theorem initial_refines (n : ℕ) : (initial (n + 1)).Refines (.empty 0 : Ring Int32 n) where
  slots := (List.ofFn_const (n + 1) (0 : Int32)).symm
  head := rfl
  tail := rfl

theorem ofFn_update {m : ℕ} {f : Fin m → Int32} {i : Fin m} :
    List.ofFn (Function.update f i id) = (List.ofFn f).set i.val id := by
  apply List.ext_getElem
  · simp
  · intro k h _
    have hk : k < m := by simpa using h
    rw [List.getElem_set]
    by_cases hi : i.val = k
    · subst hi
      simp
    · have hne : (⟨k, hk⟩ : Fin m) ≠ i := by
        rintro rfl
        exact hi rfl
      simp [hi, Function.update_of_ne hne]

theorem succ_val (i : Fin (n + 1)) : (i + 1).val = (i.val + 1) % (n + 1) := by
  simp [Fin.val_add]

theorem next_eq_iff (h : g.Refines r) :
    (g.rqTail + 1) % (n + 1) = g.rqHead ↔ r.tail + 1 = r.head := by
  rw [h.tail, h.head, ← succ_val, Fin.ext_iff]

theorem Refines.push_full (h : g.Refines r) (hp : r.push id = none) :
    g.readyQueuePush (n + 1) id = some g := by
  apply if_pos
  exact (next_eq_iff h).mpr (Ring.push_none_iff.mp hp)

theorem Refines.push (h : g.Refines r) (hp : r.push id = some r') :
    ∃ g', g.readyQueuePush (n + 1) id = some g' ∧ g'.Refines r' := by
  obtain ⟨hne, he⟩ := Option.ite_none_left_eq_some.mp hp
  obtain rfl := Option.some.inj he
  have htail : g.rqTail < g.readyQueue.length := by
    rw [h.slots, h.tail, List.length_ofFn]
    exact r.tail.isLt
  refine ⟨{ g with readyQueue := g.readyQueue.set g.rqTail id, rqTail := (g.rqTail + 1) % (n + 1) },
    ?_, ?_⟩
  · rw [readyQueuePush, if_neg (mt (next_eq_iff h).mp hne), if_pos htail]
  · refine ⟨?_, h.head, ?_⟩
    · change g.readyQueue.set g.rqTail id = List.ofFn (Function.update r.slots r.tail id)
      rw [h.slots, h.tail, ofFn_update]
    · change (g.rqTail + 1) % (n + 1) = (r.tail + 1).val
      rw [h.tail, succ_val]

theorem Refines.pop_empty (h : g.Refines r) (hp : r.pop = none) :
    g.readyQueuePop (n + 1) old = some (0, old, g) := by
  have he : r.head = r.tail := by
    by_contra hne
    simp [Ring.pop, hne] at hp
  apply if_pos
  rw [h.head, h.tail, he]

theorem Refines.pop (old : Int32) (h : g.Refines r) (hp : r.pop = some (id, r')) :
    ∃ g', g.readyQueuePop (n + 1) old = some (1, id, g') ∧ g'.Refines r' := by
  obtain ⟨hne, he⟩ := Option.ite_none_left_eq_some.mp hp
  obtain ⟨rfl, rfl⟩ := Prod.mk.inj (Option.some.inj he)
  have hget : g.readyQueue[g.rqHead]? = some (r.slots r.head) := by
    rw [h.slots, h.head, List.getElem?_ofFn, dif_pos r.head.isLt]
  have hneg : ¬ g.rqHead = g.rqTail := by
    rw [h.head, h.tail, ← Fin.ext_iff]
    exact hne
  refine ⟨{ g with rqHead := (g.rqHead + 1) % (n + 1) }, ?_, h.slots, ?_, h.tail⟩
  · rw [readyQueuePop, if_neg hneg, hget]
    rfl
  · change (g.rqHead + 1) % (n + 1) = (r.head + 1).val
    rw [h.head, succ_val]

theorem Refines.stores (h : g.Refines r) (hq : r.Holds q) : g.Stores (n + 1) q where
  head := h.head.trans_lt r.head.isLt
  tail := h.tail.trans_lt r.tail.isLt
  room := Nat.lt_succ_of_le hq.length_le
  last := by
    rw [Segment.length_eq hq, h.head, h.tail, ← Fin.val_add]
    congr 1
    exact add_sub_cancel _ _
  slot k hk := by
    have hslot := Segment.slot hq hk
    rw [h.slots, h.head, List.getElem?_eq_getElem hk, List.getElem?_ofFn]
    simp only [Nat.mod_lt _ n.succ_pos, dif_pos]
    rw [hslot]

def Holds (n : ℕ) (g : Globals) (q : List Int32) : Prop :=
  ∃ r : Ring Int32 n, g.Refines r ∧ r.Holds q

theorem Holds.stores (h : g.Holds n q) : g.Stores (n + 1) q := by
  obtain ⟨r, hr, hh⟩ := h
  exact hr.stores hh

theorem Holds.length_le (h : g.Holds n q) : q.length ≤ n := by
  obtain ⟨r, -, hh⟩ := h
  exact Ring.Holds.length_le hh

theorem Holds.push_full (h : g.Holds n q) (id : Int32) (hq : q.length = n) :
    g.readyQueuePush (n + 1) id = some g := by
  obtain ⟨r, hr, hh⟩ := h
  exact hr.push_full (hh.full_iff.mpr hq)

theorem Holds.push (h : g.Holds n q) (id : Int32) (hq : q.length < n) :
    ∃ g', g.readyQueuePush (n + 1) id = some g' ∧ g'.Holds n (q ++ [id]) := by
  obtain ⟨r, hr, hh⟩ := h
  cases hp : r.push id with
  | none => exact absurd (hh.full_iff.mp hp) hq.ne
  | some r' =>
    obtain ⟨g', hg, hr'⟩ := hr.push hp
    exact ⟨g', hg, r', hr', hh.push hp⟩

theorem Holds.pop_empty (h : g.Holds n []) : g.readyQueuePop (n + 1) old = some (0, old, g) := by
  obtain ⟨r, hr, hh⟩ := h
  apply hr.pop_empty
  exact if_pos (hh.nil_iff.mpr rfl)

theorem Holds.pop (h : g.Holds n (id :: q)) (old : Int32) :
    ∃ g', g.readyQueuePop (n + 1) old = some (1, id, g') ∧ g'.Holds n q := by
  obtain ⟨r, hr, hh⟩ := h
  cases hp : r.pop with
  | none =>
    have hne : r.head ≠ r.tail := mt hh.nil_iff.mp (List.cons_ne_nil _ _)
    simp [Ring.pop, hne] at hp
  | some p =>
    obtain ⟨x, r'⟩ := p
    obtain ⟨ys, he, hh'⟩ := hh.pop hp
    obtain ⟨rfl, rfl⟩ := List.cons.inj he
    obtain ⟨g', hg, hr'⟩ := hr.pop old hp
    exact ⟨g', hg, r', hr', hh'⟩

theorem Holds.call (h : g.Holds n q) (c : Call) :
    ∃ g', g.call (n + 1) c = some ((boundedCall n q c).1, g') ∧
      g'.Holds n (boundedCall n q c).2 := by
  cases c with
  | push id =>
    by_cases hq : q.length < n
    · obtain ⟨g', hg, hh'⟩ := h.push id hq
      refine ⟨g', ?_, ?_⟩
      · rw [Globals.call, hg]
        rfl
      · rwa [boundedCall, if_pos hq]
    · have hle := h.length_le
      have hg := h.push_full id (by omega)
      refine ⟨g, ?_, ?_⟩
      · rw [Globals.call, hg]
        rfl
      · rwa [boundedCall, if_neg hq]
  | pop old =>
    cases q with
    | nil =>
      refine ⟨g, ?_, h⟩
      rw [Globals.call, h.pop_empty]
      rfl
    | cons id ids =>
      obtain ⟨g', hg, hh'⟩ := h.pop old
      refine ⟨g', ?_, hh'⟩
      rw [Globals.call, hg]
      rfl

theorem Holds.calls (h : g.Holds n q) (cs : List Call) :
    ∃ g', g.calls (n + 1) cs = some ((boundedCalls n q cs).1, g') ∧
      g'.Holds n (boundedCalls n q cs).2 := by
  induction cs generalizing g q with
  | nil => exact ⟨g, rfl, h⟩
  | cons c cs ih =>
    obtain ⟨g₁, hg₁, hh₁⟩ := h.call c
    obtain ⟨g₂, hg₂, hh₂⟩ := ih hh₁
    refine ⟨g₂, ?_, hh₂⟩
    rw [Globals.calls, hg₁, Option.bind_some, hg₂]
    rfl

theorem initial_holds (n : ℕ) : (initial (n + 1)).Holds n [] :=
  ⟨.empty 0, initial_refines n, rfl⟩

end Globals

structure Globals.Bounded (M : ℕ) (g : Globals) (q : List Int32) : Prop where
  stores : g.Stores M q
  push : ∀ id, q.length < M - 1 →
    ∃ g', g.readyQueuePush M id = some g' ∧ g'.Stores M (q ++ [id])
  push_full : ∀ id, ¬ q.length < M - 1 → g.readyQueuePush M id = some g
  pop : ∀ old id ids, q = id :: ids →
    ∃ g', g.readyQueuePop M old = some (1, id, g') ∧ g'.Stores M ids
  pop_empty : ∀ old, q = [] → g.readyQueuePop M old = some (0, old, g)

theorem Globals.Holds.bounded {n : ℕ} {g : Globals} {q : List Int32} (h : g.Holds n q) :
    g.Bounded (n + 1) q where
  stores := h.stores
  push id hq := by
    obtain ⟨g', hg, hh⟩ := h.push id hq
    exact ⟨g', hg, hh.stores⟩
  push_full id hq := by
    have hle := h.length_le
    apply h.push_full id
    change ¬ q.length < n at hq
    omega
  pop old id ids hq := by
    subst hq
    obtain ⟨g', hg, hh⟩ := h.pop old
    exact ⟨g', hg, hh.stores⟩
  pop_empty old hq := by
    subst hq
    exact h.pop_empty

/-- The calls are those of a list that holds at most `M - 1` ids, whatever was called before. -/
theorem ready_queue_bounded (M : ℕ) (hM : 2 ≤ M) (cs : List Call) :
    ∃ g, (Globals.initial M).calls M cs = some ((boundedCalls (M - 1) [] cs).1, g) ∧
      g.Bounded M (boundedCalls (M - 1) [] cs).2 := by
  obtain ⟨n, rfl⟩ : ∃ n, M = n + 1 := ⟨M - 1, by omega⟩
  obtain ⟨g, hg, hh⟩ := (Globals.initial_holds n).calls cs
  exact ⟨g, hg, hh.bounded⟩

theorem ready_queue_bounded_three :
    ∃ g, (Globals.initial 3).calls 3 [.push 7, .push 8, .push 9, .pop 0, .push 10, .pop 0, .pop 0,
        .pop 5] = some ([(1, 7), (1, 8), (1, 10), (0, 5)], g) ∧ g.Bounded 3 [] :=
  ready_queue_bounded 3 (by decide) [.push 7, .push 8, .push 9, .pop 0, .push 10, .pop 0, .pop 0,
    .pop 5]

end LinuxSystemProgramming.ReadyQueue
