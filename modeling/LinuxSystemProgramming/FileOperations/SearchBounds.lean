import LinuxSystemProgramming.FileOperations.Search

namespace LinuxSystemProgramming.FileOperations

open CMemory Files Subsequence Transition

open scoped List

namespace Search

variable {content : List Byte} {s t : Search}

def InLoop (s : Search) : Prop :=
  s.pc = .read ∨ s.pc = .compare ∨ s.pc = .seek ∨ s.pc = .write

def TargetInside (s : Search) : Prop :=
  s.pc = .compare → s.targetIterator < strlen stringTarget

def IndexInside (s : Search) : Prop :=
  (s.InLoop → s.totalBytesRead < sizeBufRead) ∧ s.TargetInside

/-- The index is inside the buffer where a byte is stored or compared: where `read` finds the end
of the file, none is. -/
def StoreInside (s : Search) : Prop :=
  (s.pc = .read ∧ s.offset < s.file.length ∨ s.pc = .compare → s.totalBytesRead < sizeBufRead) ∧
    s.TargetInside

theorem head_reached {n : ℕ} (hn : n ≤ sizeBufRead) (hlen : n ≤ content.length)
    (hno : ¬ stringTarget <+ content.take n) :
    ∃ s, (search content).Reachable s ∧ s.pc = .read ∧ AtHead content s ∧ s.totalBytesRead = n := by
  induction n with
  | zero => exact ⟨_, System.Reachable.step .run (.init rfl) rfl, rfl, initial_atHead, rfl⟩
  | succ n ih =>
    have hno' : ¬ stringTarget <+ content.take n := by
      intro h
      apply hno
      exact h.trans (take_sublist (Nat.le_succ n))
    obtain ⟨s, hr, hpc, hat, rfl⟩ := ih (by omega) (by omega) hno'
    have hread : (search content).Reachable s.read :=
      hr.step .run (by simp [main, hpc])
    rcases read_byte hat hlen with ⟨-, hpc', b, hb⟩ | ⟨hfull, -⟩
    · have hcompare : (search content).Reachable s.read.compare :=
        hread.step .run (by simp [main, hpc'])
      have hoff : s.read.compare.offset = s.totalBytesRead + 1 := by
        rw [compare_offset, hb.offset, read_totalBytesRead]
      rcases compare_cases hb with ⟨hpc'', hat'⟩ | ⟨-, hat'⟩
      · exact ⟨_, hcompare, hpc'', hat', hat'.offset.symm.trans hoff⟩
      · have hends := hat'.endsAt.found
        rw [hoff] at hends
        exact absurd hends hno
    · omega

theorem targetInside_of_loop (h : s.Loop content) : s.TargetInside := by
  intro hpc
  simp only [Loop, hpc] at h
  obtain ⟨b, hb⟩ := h
  exact hb.matched.more

theorem inside_of_loop (h : s.Loop content) (hpc : s.pc = .compare ∨ s.pc = .seek ∨ s.pc = .write) :
    s.totalBytesRead < sizeBufRead := by
  rcases hpc with hpc | hpc | hpc <;> simp only [Loop, hpc] at h
  · obtain ⟨b, hb⟩ := h
    exact hb.inside
  · exact h.inside
  · exact h

theorem head_full (h : AtHead content s) (hs : ¬ s.totalBytesRead < sizeBufRead) :
    s.totalBytesRead = sizeBufRead ∧ sizeBufRead ≤ content.length ∧
      ¬ stringTarget <+ content.take sizeBufRead := by
  have hin := h.inside
  have hfull : s.totalBytesRead = sizeBufRead := by omega
  rw [← hfull]
  exact ⟨rfl, h.file_bound, h.matched.not_sublist⟩

theorem indexInside_of_condition (h : s.Loop content)
    (hc : content.length < sizeBufRead ∨ stringTarget <+ content.take sizeBufRead) :
    s.IndexInside := by
  refine ⟨?_, targetInside_of_loop h⟩
  rintro (hpc | hpc)
  · simp only [Loop, hpc] at h
    by_contra hs
    obtain ⟨-, hlen, hno⟩ := head_full h hs
    rcases hc with hlt | hyes
    · omega
    · exact hno hyes
  · exact inside_of_loop h hpc

theorem storeInside_of_condition (h : s.Loop content)
    (hc : content.length ≤ sizeBufRead ∨ stringTarget <+ content.take sizeBufRead) :
    s.StoreInside := by
  refine ⟨?_, targetInside_of_loop h⟩
  rintro (⟨hpc, hlt⟩ | hpc)
  · simp only [Loop, hpc] at h
    by_contra hs
    obtain ⟨hfull, -, hno⟩ := head_full h hs
    rw [h.file, h.offset, hfull] at hlt
    rcases hc with hle | hyes
    · omega
    · exact hno hyes
  · exact inside_of_loop h (.inl hpc)

end Search

/-- The index is below 250 in every state of the loop exactly where the file is shorter than that,
or has the letters of "Rohan" in this order among its first 250 bytes. A file of exactly 250 bytes
takes the index to 250, where no byte is stored any more. -/
theorem search_index_iff (content : List Byte) :
    ((∀ s, (search content).Reachable s → s.IndexInside) ↔
      content.length < sizeBufRead ∨ stringTarget <+ content.take sizeBufRead) ∧
    ((∀ s, (search content).Reachable s → s.StoreInside) ↔
      content.length ≤ sizeBufRead ∨ stringTarget <+ content.take sizeBufRead) := by
  constructor
  · constructor
    · intro h
      by_contra hc
      rw [not_or] at hc
      obtain ⟨s, hr, hpc, -, htotal⟩ := Search.head_reached le_rfl (by omega) hc.2
      have hlt := (h s hr).1 (.inl hpc)
      omega
    · intro hc s hr
      exact Search.indexInside_of_condition (Search.reachable_loop hr) hc
  · constructor
    · intro h
      by_contra hc
      rw [not_or] at hc
      obtain ⟨s, hr, hpc, hat, htotal⟩ := Search.head_reached le_rfl (by omega) hc.2
      have hbyte : s.offset < s.file.length := by
        rw [hat.file, hat.offset]
        omega
      have hlt := (h s hr).1 (.inl ⟨hpc, hbyte⟩)
      omega
    · intro hc s hr
      exact Search.storeInside_of_condition (Search.reachable_loop hr) hc

theorem search_index_beyond :
    ∃ s, (search (List.replicate 251 0)).Reachable s ∧ ¬ s.IndexInside ∧ ¬ s.StoreInside := by
  have hno : ¬ stringTarget <+ (List.replicate 251 (0 : Byte)).take sizeBufRead := by
    intro hs
    have hmem := hs.subset (List.mem_cons_self : (82 : Byte) ∈ stringTarget)
    have hzero := List.eq_of_mem_replicate (List.mem_of_mem_take hmem)
    revert hzero
    decide
  have hlen : sizeBufRead < (List.replicate 251 (0 : Byte)).length := by
    rw [List.length_replicate, sizeBufRead]
    omega
  obtain ⟨s, hr, hpc, hat, htotal⟩ := Search.head_reached le_rfl hlen.le hno
  have hbyte : s.offset < s.file.length := by
    rw [hat.file, hat.offset, htotal]
    exact hlen
  refine ⟨s, hr, ?_, ?_⟩
  · intro h
    have hlt := h.1 (.inl hpc)
    omega
  · intro h
    have hlt := h.1 (.inl ⟨hpc, hbyte⟩)
    omega

end LinuxSystemProgramming.FileOperations
