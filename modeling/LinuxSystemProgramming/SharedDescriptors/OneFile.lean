import LinuxSystemProgramming.Lib.Descriptors

namespace LinuxSystemProgramming.SharedDescriptors

open CMemory Files Descriptors

inductive File
  | terminal
  | disk
  deriving DecidableEq

def regular : File → Bool
  | .terminal => false
  | .disk => true

variable {π : Type*}

structure Holds (k : Kernel π File) (start written : List Byte) : Prop where
  consistent : Consistent regular k
  descriptions : ∃ T D, k.descriptions = [T, D] ∧ T.file = .terminal ∧ D.file = .disk ∧
    D.start = start ∧ D.written = written

variable {k : Kernel π File} {start written : List Byte} {p q : π} {fd d : ℕ}

theorem Holds.content (h : Holds k start written) :
    k.content .disk = writeAt start 0 written := by
  obtain ⟨T, D, hd, hT, hD, rfl, rfl⟩ := h.descriptions
  have hsole : Sole k 1 D := by
    intro e E hE hf
    rw [hd] at hE
    cases e with
    | zero =>
      cases hE
      rw [hT, hD] at hf
      cases hf
    | succ e =>
      cases e with
      | zero => rfl
      | succ e => cases hE
  have hc := h.consistent.content 1 D (by rw [hd]; rfl) hsole
  rwa [hD] at hc

theorem Holds.lookup_cases (h : Holds k start written) (hl : k.lookup p fd = some d) :
    d = 0 ∨ d = 1 := by
  obtain ⟨T, D, hd, -⟩ := h.descriptions
  have hlt := h.consistent.open_lt p fd d hl
  rw [hd] at hlt
  change d < 2 at hlt
  omega

variable [DecidableEq π]

theorem Holds.opened {content : File → List Byte} (truncates : Bool) :
    Holds ((Kernel.start p .terminal content).attempt regular (.openFile p .disk truncates))
      (if truncates then [] else content .disk) [] := by
  refine ⟨(Consistent.start p .terminal content).attempt _, _, _, rfl, rfl, rfl, rfl, rfl⟩

theorem Holds.exit (h : Holds k start written) (p : π) :
    Holds (k.attempt regular (.exit p)) start written :=
  ⟨h.consistent.attempt _, h.descriptions⟩

theorem Holds.fork (h : Holds k start written) (p q : π) :
    Holds (k.attempt regular (.fork p q)) start written :=
  ⟨h.consistent.attempt _, h.descriptions⟩

theorem Holds.put (h : Holds k start written) (p : π) (fd : ℕ) {d : Option ℕ}
    (hd : ∀ e, d = some e → e < k.descriptions.length) : Holds (k.put p fd d) start written :=
  ⟨h.consistent.put hd, h.descriptions⟩

theorem Holds.close (h : Holds k start written) (p : π) (fd : ℕ) :
    Holds (k.attempt regular (.close p fd)) start written := by
  simp only [Kernel.attempt, Kernel.next]
  cases k.lookup p fd with
  | none => exact h
  | some d => exact h.put p fd (by rintro _ ⟨⟩)

-- The terminal has description 0 and the file description 1.
theorem Holds.write (h : Holds k start written) (hl : k.lookup p fd = some d)
    (taken : List Byte) :
    Holds (k.attempt regular (.write p fd taken)) start
        (written ++ if d = 1 then taken else []) ∧
      (k.attempt regular (.write p fd taken)).content .terminal =
        k.content .terminal ++ if d = 0 then taken else [] := by
  have hc := h.consistent.attempt (.write p fd taken)
  have hd' := h.lookup_cases hl
  obtain ⟨T, D, hd, hT, hD, rfl, rfl⟩ := h.descriptions
  rcases hd' with rfl | rfl
  · rw [attempt_write hl (show k.descriptions[0]? = some T by rw [hd]; rfl)] at hc ⊢
    refine ⟨⟨hc, T.more taken, D, by simp [Kernel.written, hd], hT, hD, rfl, by simp⟩, ?_⟩
    by_cases ht : taken = []
    · simp [Kernel.written, Kernel.stored, hT, ht]
    · simp [Kernel.written, Kernel.stored, hT, ht, regular]
  · rw [attempt_write hl (show k.descriptions[1]? = some D by rw [hd]; rfl)] at hc ⊢
    refine ⟨⟨hc, T, D.more taken, by simp [Kernel.written, hd], hT, hD, rfl, rfl⟩, ?_⟩
    simp [Kernel.written, hD]

theorem write_table (k : Kernel π File) (p : π) (fd : ℕ) (taken : List Byte) :
    (k.attempt regular (.write p fd taken)).table = k.table := by
  simp only [Kernel.attempt, Kernel.next]
  cases k.lookup p fd with
  | none => rfl
  | some d =>
    rw [Option.bind_some]
    cases k.descriptions[d]? with
    | none => rfl
    | some D => rfl

theorem write_lookup (k : Kernel π File) (p q : π) (fd n : ℕ) (taken : List Byte) :
    (k.attempt regular (.write p fd taken)).lookup q n = k.lookup q n := by
  rw [Kernel.lookup, write_table]
  rfl

theorem close_lookup_other (k : Kernel π File) (fd n : ℕ) (h : q ≠ p) :
    (k.attempt regular (.close p fd)).lookup q n = k.lookup q n := by
  simp only [Kernel.attempt, Kernel.next]
  cases k.lookup p fd with
  | none => rfl
  | some d => exact lookup_put_other _ _ _ _ h

theorem exit_lookup_other (k : Kernel π File) (n : ℕ) (h : q ≠ p) :
    (k.attempt regular (.exit p)).lookup q n = k.lookup q n := by
  simp [Kernel.attempt, Kernel.next, Kernel.lookup, h]

end LinuxSystemProgramming.SharedDescriptors
