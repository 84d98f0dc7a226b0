import LinuxSystemProgramming.Lib.CMemory

namespace LinuxSystemProgramming.CMemory

structure TextLine where
  text : List Byte
  plain : ∀ b ∈ text, b ≠ 0 ∧ b ≠ newline

def joined (lines : List TextLine) : List Byte := lines.flatMap (fun l => l.text ++ [newline])

def piecesFrom (n : ℕ) : List Byte → List Byte → List (List Byte)
  | cur, [] => [cur]
  | cur, b :: text =>
    if cur.length + 1 = n then (cur ++ [b]) :: piecesFrom n [] text else piecesFrom n (cur ++ [b]) text

def pieces (n : ℕ) (l : TextLine) : List (List Byte) := piecesFrom n [] l.text

theorem lineText_plain {l : List Byte} (h : ∀ b ∈ l, b ≠ 0 ∧ b ≠ newline) : lineText l = l := by
  apply List.takeWhile_eq_self_iff.mpr
  intro b hb
  simpa using h b hb

theorem lineText_newline {l : List Byte} (h : ∀ b ∈ l, b ≠ 0 ∧ b ≠ newline) :
    lineText (l ++ [newline]) = l := by
  induction l with
  | nil => rfl
  | cons b l ih =>
    have hb := h b (by simp)
    have hl := ih (fun c hc => h c (List.mem_cons_of_mem _ hc))
    simp only [lineText, List.cons_append, List.takeWhile_cons] at *
    rw [if_pos (by simp [hb]), hl]

theorem chunksFrom_text {n : ℕ} (cur text rest : List Byte)
    (h : ∀ b ∈ cur ++ text, b ≠ 0 ∧ b ≠ newline) :
    (chunksFrom n cur (text ++ newline :: rest)).map lineText =
      piecesFrom n cur text ++ (chunks n rest).map lineText := by
  induction text generalizing cur with
  | nil =>
    rw [List.append_nil] at h
    simp [chunksFrom, piecesFrom, chunks, lineText_newline h]
  | cons b text ih =>
    have hcur : ∀ c ∈ cur ++ [b], c ≠ 0 ∧ c ≠ newline := by
      intro c hc
      apply h
      simp only [List.mem_append, List.mem_cons, List.not_mem_nil, or_false] at hc ⊢
      rcases hc with hc | hc
      · exact .inl hc
      · exact .inr (.inl hc)
    have htext : ∀ c ∈ [] ++ text, c ≠ 0 ∧ c ≠ newline := by
      intro c hc
      apply h
      simp only [List.nil_append] at hc
      simp [hc]
    have hb : b ≠ newline := (hcur b (by simp)).2
    simp only [List.cons_append, chunksFrom, piecesFrom, hb, false_or]
    split_ifs
    · rw [List.map_cons, lineText_plain hcur, ih [] htext, List.cons_append]
    · apply ih
      rwa [List.append_assoc]

theorem chunksFrom_length_le {n : ℕ} {cur input chunk : List Byte} (hc : cur.length < n)
    (h : chunk ∈ chunksFrom n cur input) : chunk.length ≤ n := by
  induction input generalizing cur with
  | nil =>
    rw [chunksFrom] at h
    split_ifs at h
    · cases h
    · rw [List.mem_singleton.mp h]
      exact hc.le
  | cons b input ih =>
    rw [chunksFrom] at h
    split_ifs at h with hb
    · rcases List.mem_cons.mp h with rfl | h
      · simp only [List.length_append, List.length_singleton]
        omega
      · exact ih (by rw [List.length_nil]; omega) h
    · apply ih ?_ h
      rw [not_or] at hb
      simp only [List.length_append, List.length_singleton]
      omega

theorem chunks_length_le {n : ℕ} {input chunk : List Byte} (hn : 0 < n)
    (h : chunk ∈ chunks n input) : chunk.length ≤ n := chunksFrom_length_le (by rwa [List.length_nil]) h

theorem chunks_joined (n : ℕ) (lines : List TextLine) :
    (chunks n (joined lines)).map lineText = lines.flatMap (pieces n) := by
  induction lines with
  | nil => rfl
  | cons l lines ih =>
    have hl : joined (l :: lines) = l.text ++ newline :: joined lines := by simp [joined]
    rw [hl, chunks, chunksFrom_text [] l.text _ l.plain, ih]
    rfl

theorem piecesFrom_short {n : ℕ} (cur text : List Byte) (h : cur.length + text.length < n) :
    piecesFrom n cur text = [cur ++ text] := by
  induction text generalizing cur with
  | nil => simp [piecesFrom]
  | cons b text ih =>
    rw [List.length_cons] at h
    rw [piecesFrom, if_neg (by omega), ih]
    · simp
    · simp only [List.length_append, List.length_singleton]
      omega

theorem piecesFrom_pos (n : ℕ) (cur text : List Byte) : 1 ≤ (piecesFrom n cur text).length := by
  induction text generalizing cur with
  | nil => simp [piecesFrom]
  | cons b text ih =>
    rw [piecesFrom]
    split_ifs
    · simp
    · exact ih _

theorem piecesFrom_long {n : ℕ} (cur text : List Byte) (hc : cur.length < n)
    (h : n ≤ cur.length + text.length) : 2 ≤ (piecesFrom n cur text).length := by
  induction text generalizing cur with
  | nil =>
    rw [List.length_nil] at h
    omega
  | cons b text ih =>
    rw [List.length_cons] at h
    rw [piecesFrom]
    split_ifs
    · have hpos := piecesFrom_pos n [] text
      rw [List.length_cons]
      omega
    · apply ih
      · simp only [List.length_append, List.length_singleton]
        omega
      · simp only [List.length_append, List.length_singleton]
        omega

theorem pieces_short {n : ℕ} {lines : List TextLine} (h : ∀ l ∈ lines, l.text.length < n) :
    lines.flatMap (pieces n) = lines.map TextLine.text := by
  induction lines with
  | nil => rfl
  | cons l lines ih =>
    have hl := h l (by simp)
    have hlines := ih (fun k hk => h k (List.mem_cons_of_mem _ hk))
    rw [List.flatMap_cons, hlines, pieces, piecesFrom_short [] _ (by simpa using hl)]
    rfl

theorem le_pieces_length (n : ℕ) (lines : List TextLine) :
    lines.length ≤ (lines.flatMap (pieces n)).length := by
  induction lines with
  | nil => exact Nat.zero_le _
  | cons l lines ih =>
    have hpos := piecesFrom_pos n [] l.text
    rw [List.flatMap_cons, List.length_append, List.length_cons, pieces]
    omega

theorem short_of_pieces {n : ℕ} {lines : List TextLine} (hn : 0 < n)
    (h : (lines.flatMap (pieces n)).length ≤ lines.length) : ∀ l ∈ lines, l.text.length < n := by
  induction lines with
  | nil => simp
  | cons l lines ih =>
    have hpos := piecesFrom_pos n [] l.text
    have hrest := le_pieces_length n lines
    rw [List.flatMap_cons, List.length_append, List.length_cons, pieces] at h
    intro k hk
    rcases List.mem_cons.mp hk with rfl | hk
    · by_contra hlong
      have htwo := piecesFrom_long [] k.text hn (by simpa using hlong)
      omega
    · exact ih (by omega) k hk

end LinuxSystemProgramming.CMemory
