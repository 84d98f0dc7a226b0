import LinuxSystemProgramming.Lib.CMemory
import Mathlib.Data.BitVec

namespace LinuxSystemProgramming.CMemory

inductive Fault
  | overflow
  | outOfBounds
  deriving DecidableEq

structure CInt where
  value : ℤ
  range : -(intMax : ℤ) - 1 ≤ value ∧ value ≤ intMax

namespace CInt

def ofInt (v : ℤ) : Except Fault CInt :=
  if h : -(intMax : ℤ) - 1 ≤ v ∧ v ≤ intMax then .ok ⟨v, h⟩ else .error .overflow

def literal (n : ℕ) (h : n ≤ intMax) : CInt := ⟨n, by omega⟩

def add (a b : CInt) : Except Fault CInt := ofInt (a.value + b.value)

def mul (a b : CInt) : Except Fault CInt := ofInt (a.value * b.value)

def toUnsigned (bits : ℕ) (a : CInt) : BitVec bits := BitVec.ofInt bits a.value

def load (array : List Byte) (i : CInt) : Except Fault Byte :=
  if 0 ≤ i.value then
    match array[i.value.toNat]? with
    | some b => .ok b
    | none => .error .outOfBounds
  else .error .outOfBounds

def set (array : List Byte) (i : CInt) (b : Byte) : Except Fault (List Byte) :=
  if 0 ≤ i.value ∧ i.value < array.length then .ok (array.set i.value.toNat b)
  else .error .outOfBounds

variable {a b i : CInt} {array : List Byte} {k : ℕ}

theorem ofInt_eq_ok {v : ℤ} : ofInt v = .ok a ↔ a.value = v := by
  unfold ofInt
  split_ifs with h
  · rw [Except.ok.injEq]
    constructor
    · rintro rfl
      rfl
    · rintro rfl
      rfl
  · constructor
    · rintro ⟨⟩
    · rintro rfl
      exact absurd a.range h

theorem ofInt_overflow (h : intMax < k) : ofInt k = .error .overflow := by
  apply dif_neg
  omega

theorem toUnsigned_toNat {bits : ℕ} (h : a.value = k) (hk : k < 2 ^ bits) :
    (a.toUnsigned bits).toNat = k := by
  rw [toUnsigned, h, BitVec.ofInt_natCast, BitVec.toNat_ofNat, Nat.mod_eq_of_lt hk]

theorem load_ok {y : Byte} (h : i.value = k) (hy : array[k]? = some y) : load array i = .ok y := by
  rw [load, if_pos (by omega), h, Int.toNat_natCast, hy]

theorem set_ok (h : i.value = k) (hk : k < array.length) (y : Byte) :
    set array i y = .ok (array.set k y) := by
  rw [set, if_pos (by omega), h, Int.toNat_natCast]

end CInt

end LinuxSystemProgramming.CMemory
