import LinuxSystemProgramming.Lib.Files
import Mathlib.Logic.Function.Basic

/-!
The descriptors of processes. An entry of a table refers to an open file description, which has the
offset; `dup` and `fork` copy entries, so that several of them share one description. A file that is
not regular, such as a terminal, takes every write at its end.
-/

namespace LinuxSystemProgramming.Descriptors

open CMemory Files

/-- `start` is the content of the file when it was opened, and `written` what has gone in since then
through this description. -/
structure Description (φ : Type*) where
  file : φ
  start : List Byte
  offset : ℕ
  written : List Byte
  deriving DecidableEq

def Description.more {φ : Type*} (D : Description φ) (taken : List Byte) : Description φ :=
  { D with offset := D.offset + taken.length, written := D.written ++ taken }

abbrev Table := List (Option ℕ)

namespace Table

def lookup (t : Table) (fd : ℕ) : Option ℕ := t.getD fd none

def put (t : Table) (fd : ℕ) (d : Option ℕ) : Table :=
  (t ++ List.replicate (fd + 1 - t.length) none).set fd d

def lowest : Table → ℕ
  | [] => 0
  | none :: _ => 0
  | some _ :: t => lowest t + 1

theorem lookup_pad (t : Table) (k fd : ℕ) : lookup (t ++ List.replicate k none) fd = lookup t fd := by
  simp only [lookup, List.getD_eq_getElem?_getD]
  by_cases h : fd < t.length
  · rw [List.getElem?_append_left h]
  · rw [List.getElem?_append_right (by omega), List.getElem?_eq_none (by omega : t.length ≤ fd),
      List.getElem?_replicate]
    split <;> rfl

theorem lookup_put (t : Table) (fd : ℕ) (d : Option ℕ) (n : ℕ) :
    lookup (t.put fd d) n = if n = fd then d else lookup t n := by
  have hlt : fd < (t ++ List.replicate (fd + 1 - t.length) none).length := by
    simp only [List.length_append, List.length_replicate]
    omega
  by_cases hn : n = fd
  · subst hn
    rw [if_pos rfl, lookup, put, List.getD_eq_getElem?_getD, List.getElem?_set_self hlt]
    rfl
  · rw [if_neg hn, lookup, put, List.getD_eq_getElem?_getD,
      List.getElem?_set_ne (fun h => hn h.symm), ← List.getD_eq_getElem?_getD]
    exact lookup_pad t _ n

theorem mem_of_lookup {t : Table} {fd d : ℕ} (h : lookup t fd = some d) : some d ∈ t := by
  rw [lookup, List.getD_eq_getElem?_getD] at h
  cases hx : t[fd]? with
  | none => rw [hx] at h; cases h
  | some x =>
    rw [hx] at h
    cases h
    exact List.mem_of_getElem? hx

end Table

structure Kernel (π φ : Type*) where
  table : π → Table
  descriptions : List (Description φ)
  content : φ → List Byte

inductive Call (π φ : Type*)
  | openFile (p : π) (file : φ) (truncates : Bool)
  | dup (p : π) (fd : ℕ)
  | dup2 (p : π) (fd newfd : ℕ)
  | close (p : π) (fd : ℕ)
  | write (p : π) (fd : ℕ) (taken : List Byte)
  | fork (p c : π)
  | exit (p : π)

variable {π φ : Type*}

namespace Kernel

variable [DecidableEq π] [DecidableEq φ]

def lookup (k : Kernel π φ) (p : π) (fd : ℕ) : Option ℕ := Table.lookup (k.table p) fd

def put (k : Kernel π φ) (p : π) (fd : ℕ) (d : Option ℕ) : Kernel π φ :=
  { k with table := Function.update k.table p (Table.put (k.table p) fd d) }

def free (k : Kernel π φ) (p : π) : ℕ := Table.lowest (k.table p)

def opened (k : Kernel π φ) (p : π) (file : φ) (truncates : Bool) : Kernel π φ :=
  let start := if truncates then [] else k.content file
  { (k.put p (k.free p) (some k.descriptions.length)) with
    descriptions := k.descriptions ++ [⟨file, start, 0, []⟩]
    content := Function.update k.content file start }

def start (p : π) (terminal : φ) (content : φ → List Byte) : Kernel π φ where
  table := Function.update (fun _ => []) p [some 0, some 0, some 0]
  descriptions := [⟨terminal, content terminal, 0, []⟩]
  content := content

variable (regular : φ → Bool)

def stored (D : Description φ) (old taken : List Byte) : List Byte :=
  if taken = [] then old
  else if regular D.file then writeAt old D.offset taken else old ++ taken

def written (k : Kernel π φ) (d : ℕ) (D : Description φ) (taken : List Byte) : Kernel π φ := { k with
  descriptions := k.descriptions.set d (D.more taken)
  content := Function.update k.content D.file (stored regular D (k.content D.file) taken) }

def next (k : Kernel π φ) : Call π φ → Option (Kernel π φ)
  | .openFile p file truncates => some (k.opened p file truncates)
  | .dup p fd => (k.lookup p fd).map (fun d => k.put p (k.free p) (some d))
  | .dup2 p fd newfd => (k.lookup p fd).map (fun d => k.put p newfd (some d))
  | .close p fd => (k.lookup p fd).map (fun _ => k.put p fd none)
  | .write p fd taken =>
    (k.lookup p fd).bind (fun d => k.descriptions[d]?.map (fun D => k.written regular d D taken))
  | .fork p c => some { k with table := Function.update k.table c (k.table p) }
  | .exit p => some { k with table := Function.update k.table p [] }

end Kernel

variable {regular : φ → Bool} {k k' : Kernel π φ} {p q : π} {fd d e : ℕ} {D : Description φ}

theorem writeAt_nil (content : List Byte) : writeAt content 0 [] = content := by
  simp [writeAt]

theorem writeAt_append (content bytes more : List Byte) :
    writeAt (writeAt content 0 bytes) bytes.length more = writeAt content 0 (bytes ++ more) := by
  simp [writeAt, List.drop_drop]

def Sole (k : Kernel π φ) (d : ℕ) (D : Description φ) : Prop :=
  ∀ (e : ℕ) (E : Description φ), k.descriptions[e]? = some E → E.file = D.file → e = d

structure Consistent (regular : φ → Bool) (k : Kernel π φ) : Prop where
  open_lt : ∀ p fd d, k.lookup p fd = some d → d < k.descriptions.length
  offset : ∀ (d : ℕ) (D : Description φ), k.descriptions[d]? = some D →
    D.offset = D.written.length
  content : ∀ (d : ℕ) (D : Description φ), k.descriptions[d]? = some D → Sole k d D →
    k.content D.file = if regular D.file then writeAt D.start 0 D.written else D.start ++ D.written

section Tables

variable [DecidableEq π]

@[simp] theorem lookup_put_self (k : Kernel π φ) (p : π) (fd : ℕ) (d : Option ℕ) (n : ℕ) :
    (k.put p fd d).lookup p n = if n = fd then d else k.lookup p n := by
  simp only [Kernel.lookup, Kernel.put, Function.update_self, Table.lookup_put]

theorem lookup_put_other (k : Kernel π φ) (fd : ℕ) (d : Option ℕ) (n : ℕ) (h : q ≠ p) :
    (k.put p fd d).lookup q n = k.lookup q n := by
  simp only [Kernel.lookup, Kernel.put, Function.update_of_ne h]

theorem lookup_put_lt {d' : Option ℕ} {n m : ℕ} (h : ∀ p fd d, k.lookup p fd = some d → d < m)
    (hd : ∀ d, d' = some d → d < m) (hl : (k.put p fd d').lookup q n = some d) : d < m := by
  by_cases hq : q = p
  · subst hq
    rw [lookup_put_self] at hl
    split at hl
    · exact hd d hl
    · exact h q n d hl
  · rw [lookup_put_other k fd d' n hq] at hl
    exact h q n d hl

theorem Consistent.put (h : Consistent regular k) {d' : Option ℕ}
    (hd : ∀ d, d' = some d → d < k.descriptions.length) : Consistent regular (k.put p fd d') :=
  ⟨fun _ _ _ hl => lookup_put_lt h.open_lt hd hl, h.offset, h.content⟩

theorem Consistent.start (p : π) (terminal : φ) (content : φ → List Byte) :
    Consistent regular (Kernel.start p terminal content) := by
  have hone : ∀ (d : ℕ) (D : Description φ),
      (Kernel.start p terminal content).descriptions[d]? = some D →
        D = ⟨terminal, content terminal, 0, []⟩ := by
    intro d D hD
    obtain ⟨hlt, hD⟩ := List.getElem?_eq_some_iff.mp hD
    have hzero : d = 0 := Nat.lt_one_iff.mp hlt
    subst hzero
    exact hD.symm
  refine ⟨fun q n d hl => ?_, fun d D hD => ?_, fun d D hD _ => ?_⟩
  · simp only [Kernel.lookup, Kernel.start, Function.update_apply] at hl
    split at hl
    · have hmem := Table.mem_of_lookup hl
      simp only [List.mem_cons, Option.some.injEq, List.not_mem_nil, or_false, or_self] at hmem
      subst hmem
      exact Nat.one_pos
    · cases hl
  · rw [hone d D hD]
    rfl
  · rw [hone d D hD]
    simp [writeAt_nil, Kernel.start]

end Tables

section Writes

variable [DecidableEq φ]

theorem written_self (hD : k.descriptions[d]? = some D) (taken : List Byte) :
    (k.written regular d D taken).descriptions[d]? = some (D.more taken) := by
  obtain ⟨hlt, _⟩ := List.getElem?_eq_some_iff.mp hD
  exact List.getElem?_set_self hlt

theorem written_other (he : e ≠ d) (taken : List Byte) :
    (k.written regular d D taken).descriptions[e]? = k.descriptions[e]? :=
  List.getElem?_set_ne (fun h => he h.symm)

theorem written_sole {E E' : Description φ} {taken : List Byte} (hD : k.descriptions[d]? = some D)
    (hf : E'.file = E.file) (h : Sole (k.written regular d D taken) e E') : Sole k e E := by
  intro f F hF hfile
  by_cases hfd : f = d
  · subst hfd
    rw [hD] at hF
    cases hF
    exact h f (D.more taken) (written_self hD taken) (hfile.trans hf.symm)
  · apply h f F _ (hfile.trans hf.symm)
    rwa [written_other hfd]

theorem Consistent.written (h : Consistent regular k) (hD : k.descriptions[d]? = some D)
    (taken : List Byte) : Consistent regular (k.written regular d D taken) := by
  refine ⟨fun q n e hl => ?_, fun e E hE => ?_, fun e E hE hsole => ?_⟩
  · simp only [Kernel.written, List.length_set]
    exact h.open_lt q n e hl
  · by_cases he : e = d
    · subst he
      rw [written_self hD] at hE
      cases hE
      simp only [Description.more, h.offset e D hD, List.length_append]
    · rw [written_other he] at hE
      exact h.offset e E hE
  · by_cases he : e = d
    · subst he
      rw [written_self hD] at hE
      cases hE
      have hc := h.content e D hD (written_sole hD rfl hsole)
      simp only [Description.more, Kernel.written, Kernel.stored, Function.update_self, hc,
        h.offset e D hD]
      by_cases ht : taken = []
      · rw [if_pos ht, ht, List.append_nil]
      · rw [if_neg ht]
        split
        · exact writeAt_append _ _ _
        · exact List.append_assoc _ _ _
    · rw [written_other he] at hE
      have hfile : E.file ≠ D.file := by
        intro hf
        exact he (hsole d _ (written_self hD taken) hf.symm).symm
      simp only [Kernel.written, Function.update_of_ne hfile]
      exact h.content e E hE (written_sole hD rfl hsole)

end Writes

variable [DecidableEq π] [DecidableEq φ]

theorem opened_cases {file : φ} {truncates : Bool}
    (hD : (k.opened p file truncates).descriptions[d]? = some D) :
    k.descriptions[d]? = some D ∨ d = k.descriptions.length ∧
      D = ⟨file, if truncates then [] else k.content file, 0, []⟩ := by
  simp only [Kernel.opened] at hD
  rcases Nat.lt_trichotomy d k.descriptions.length with hlt | heq | hgt
  · rw [List.getElem?_append_left hlt] at hD
    exact .inl hD
  · subst heq
    simp only [List.getElem?_concat_length, Option.some.injEq] at hD
    exact .inr ⟨rfl, hD.symm⟩
  · have hlen : (k.descriptions ++ [(⟨file, if truncates then [] else k.content file, 0, []⟩ :
        Description φ)]).length ≤ d := by
      simp only [List.length_append, List.length_singleton]
      omega
    rw [List.getElem?_eq_none hlen] at hD
    cases hD

theorem opened_keeps {file : φ} {truncates : Bool} (hD : k.descriptions[d]? = some D) :
    (k.opened p file truncates).descriptions[d]? = some D := by
  obtain ⟨hlt, _⟩ := List.getElem?_eq_some_iff.mp hD
  simp only [Kernel.opened]
  rwa [List.getElem?_append_left hlt]

theorem Consistent.opened (h : Consistent regular k) (p : π) (file : φ) (truncates : Bool) :
    Consistent regular (k.opened p file truncates) := by
  refine ⟨fun q n d hl => ?_, fun d D hD => ?_, fun d D hD hsole => ?_⟩
  · simp only [Kernel.opened, List.length_append, List.length_singleton]
    refine lookup_put_lt (fun q n d hl => Nat.lt_succ_of_lt (h.open_lt q n d hl)) ?_ hl
    rintro d ⟨⟩
    exact Nat.lt_succ_self _
  · rcases opened_cases hD with hD | ⟨_, rfl⟩
    · exact h.offset d D hD
    · rfl
  · rcases opened_cases hD with hold | ⟨_, rfl⟩
    · have hne : D.file ≠ file := by
        intro hf
        have hnew := hsole k.descriptions.length
          ⟨file, if truncates then [] else k.content file, 0, []⟩ (by simp [Kernel.opened]) hf.symm
        obtain ⟨hlt, _⟩ := List.getElem?_eq_some_iff.mp hold
        omega
      have hc := h.content d D hold (fun e E hE => hsole e E (opened_keeps hE))
      simp only [Kernel.opened]
      rwa [Function.update_of_ne hne]
    · simp only [Kernel.opened, Function.update_self, writeAt_nil, List.append_nil]
      exact (ite_self _).symm

theorem Consistent.next {call : Call π φ} (h : Consistent regular k)
    (hs : k.next regular call = some k') : Consistent regular k' := by
  cases call with
  | openFile p file truncates =>
    cases hs
    exact h.opened p file truncates
  | dup p fd =>
    obtain ⟨d, hl, rfl⟩ := Option.map_eq_some_iff.mp hs
    apply h.put
    rintro _ ⟨⟩
    exact h.open_lt p fd d hl
  | dup2 p fd newfd =>
    obtain ⟨d, hl, rfl⟩ := Option.map_eq_some_iff.mp hs
    apply h.put
    rintro _ ⟨⟩
    exact h.open_lt p fd d hl
  | close p fd =>
    obtain ⟨d, _, rfl⟩ := Option.map_eq_some_iff.mp hs
    apply h.put
    rintro _ ⟨⟩
  | write p fd taken =>
    obtain ⟨d, _, hs⟩ := Option.bind_eq_some_iff.mp hs
    obtain ⟨D, hD, rfl⟩ := Option.map_eq_some_iff.mp hs
    exact h.written hD taken
  | fork p c =>
    cases hs
    refine ⟨fun q n d hl => ?_, h.offset, h.content⟩
    simp only [Kernel.lookup, Function.update_apply] at hl
    split at hl
    · exact h.open_lt p n d hl
    · exact h.open_lt q n d hl
  | exit p =>
    cases hs
    refine ⟨fun q n d hl => ?_, h.offset, h.content⟩
    simp only [Kernel.lookup, Function.update_apply] at hl
    split at hl
    · cases hl
    · exact h.open_lt q n d hl

namespace Kernel

variable (regular) in
-- A call that fails changes nothing.
def attempt (k : Kernel π φ) (call : Call π φ) : Kernel π φ := (k.next regular call).getD k

end Kernel

theorem Consistent.attempt (h : Consistent regular k) (call : Call π φ) :
    Consistent regular (k.attempt regular call) := by
  unfold Kernel.attempt
  cases hs : k.next regular call with
  | none => exact h
  | some k' => exact h.next hs

theorem attempt_write {taken : List Byte} (hl : k.lookup p fd = some d)
    (hD : k.descriptions[d]? = some D) :
    k.attempt regular (.write p fd taken) = k.written regular d D taken := by
  simp [Kernel.attempt, Kernel.next, hl, hD]

end LinuxSystemProgramming.Descriptors
