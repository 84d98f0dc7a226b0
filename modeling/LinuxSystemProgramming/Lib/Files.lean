import LinuxSystemProgramming.Lib.CMemory

namespace LinuxSystemProgramming.Files

open CMemory

def readAt (content : List Byte) (offset n : ℕ) : List Byte := (content.drop offset).take n

-- A write beyond the end leaves a hole that reads as zeros.
def writeAt (content : List Byte) (offset : ℕ) (bytes : List Byte) : List Byte :=
  content.take offset ++ List.replicate (offset - content.length) 0 ++ bytes ++
    content.drop (offset + bytes.length)

def truncate (content : List Byte) (size : ℕ) : List Byte :=
  content.take size ++ List.replicate (size - content.length) 0

variable {content : List Byte} {offset size : ℕ} {b : Byte}

theorem readAt_one_none (h : content.length ≤ offset) : readAt content offset 1 = [] := by
  rw [readAt, List.drop_eq_nil_of_le h]
  rfl

theorem readAt_one (h : content[offset]? = some b) : readAt content offset 1 = [b] := by
  obtain ⟨hlt, rfl⟩ := List.getElem?_eq_some_iff.mp h
  rw [readAt, List.drop_eq_getElem_cons hlt]
  rfl

theorem writeAt_one (h : offset < content.length) :
    writeAt content offset [b] = content.set offset b := by
  have hzero : offset - content.length = 0 := by omega
  rw [writeAt, hzero, List.set_eq_take_append_cons_drop, if_pos h]
  simp

@[simp] theorem truncate_length : (truncate content size).length = size := by
  simp only [truncate, List.length_append, List.length_take, List.length_replicate]
  omega

theorem writeAt_whole {bytes : List Byte} (h : content.length ≤ bytes.length) :
    writeAt content 0 bytes = bytes := by
  rw [writeAt, List.drop_eq_nil_of_le (by omega)]
  simp

theorem truncate_keep {text : List Byte} {k : ℕ} (h : text.length ≤ size) :
    truncate (text ++ List.replicate k 0) size =
      text ++ List.replicate (size - text.length) 0 := by
  rw [truncate, List.take_append, List.take_of_length_le h, List.take_replicate, List.append_assoc,
    List.replicate_append_replicate, List.length_append, List.length_replicate]
  congr 2
  omega

theorem truncate_cut {text : List Byte} {k : ℕ} (h : size ≤ text.length) :
    truncate (text ++ List.replicate k 0) size = text.take size := by
  rw [truncate, List.take_append_of_le_length h, List.length_append]
  have hzero : size - (text.length + (List.replicate k (0 : Byte)).length) = 0 := by omega
  rw [hzero]
  exact List.append_nil _

end LinuxSystemProgramming.Files
