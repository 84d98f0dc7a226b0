import Mathlib.Data.List.Basic
import Mathlib.Data.List.TakeWhile
import Mathlib.Tactic.Linarith

/-!
Bytes, C strings and line input. A memory object is the list of its bytes; a C string ends before
its first NUL. `line n` is what one call of `fgets` with room for `n` bytes takes from its input,
and `chunks n` cuts a whole input after every newline and after every `n` bytes.
-/

namespace LinuxSystemProgramming.CMemory

abbrev Byte := UInt8

def newline : Byte := 10

def store (buf : List Byte) (off : ℕ) (bytes : List Byte) : Option (List Byte) :=
  if off + bytes.length ≤ buf.length then
    some (buf.take off ++ bytes ++ buf.drop (off + bytes.length))
  else none

theorem store_ok {buf bytes : List Byte} {off : ℕ} (h : off + bytes.length ≤ buf.length) :
    ∃ buf', store buf off bytes = some buf' ∧ buf'.length = buf.length ∧
      buf'.take (off + bytes.length) = buf.take off ++ bytes := by
  refine ⟨buf.take off ++ bytes ++ buf.drop (off + bytes.length), if_pos h, ?_, ?_⟩
  · simp only [List.length_append, List.length_take, List.length_drop]
    omega
  · have he : (buf.take off ++ bytes).length = off + bytes.length := by
      simp only [List.length_append, List.length_take]
      omega
    rw [← he, List.take_left]

theorem store_next {l buf buf' : List Byte} {n : ℕ} {b : Byte} (h : l.take n <+: buf)
    (hb : l[n]? = some b) (hs : store buf n [b] = some buf') : l.take (n + 1) <+: buf' := by
  obtain ⟨-, hs⟩ := Option.ite_none_right_eq_some.mp hs
  obtain ⟨hn, -⟩ := List.getElem?_eq_some_iff.mp hb
  have hlen : (l.take n).length = n := List.length_take_of_le (Nat.le_of_lt hn)
  have htake : buf.take n = l.take n := by
    have ht := List.prefix_iff_eq_take.mp h
    rw [hlen] at ht
    exact ht.symm
  rw [List.take_add_one, hb, ← Option.some.inj hs, htake]
  exact List.prefix_append _ _

def cString (buf : List Byte) : List Byte := buf.takeWhile (fun b => b != 0)

def strlen (buf : List Byte) : ℕ := (cString buf).length

def strcspn (buf : List Byte) (reject : Byte) : ℕ :=
  (buf.takeWhile (fun b => b != 0 && b != reject)).length

@[simp] theorem cString_nul (s rest : List Byte) : cString (s ++ 0 :: rest) = cString s := by
  induction s with
  | nil => simp [cString]
  | cons b s ih =>
    simp only [cString, List.cons_append, List.takeWhile_cons] at *
    split_ifs
    · rw [ih]
    · rfl

theorem cString_ne_zero {buf : List Byte} {b : Byte} (h : b ∈ cString buf) : b ≠ 0 := by
  have hb := List.mem_takeWhile_imp h
  simpa using hb

theorem cString_eq_self {s : List Byte} (hs : ∀ b ∈ s, b ≠ 0) : cString s = s := by
  apply List.takeWhile_eq_self_iff.mpr
  intro b hb
  simpa using hs b hb

theorem cString_eq_self_iff {s : List Byte} : cString s = s ↔ (0 : Byte) ∉ s := by
  constructor
  · intro h hmem
    rw [← h] at hmem
    exact cString_ne_zero hmem rfl
  · intro h
    apply cString_eq_self
    rintro b hb rfl
    exact h hb

theorem cString_length_le (buf : List Byte) : (cString buf).length ≤ buf.length :=
  (List.takeWhile_prefix _).length_le

structure Text where
  bytes : List Byte
  nul_free : ∀ b ∈ bytes, b ≠ 0

theorem Text.strlen (t : Text) : CMemory.strlen t.bytes = t.bytes.length := by
  rw [CMemory.strlen, cString_eq_self t.nul_free]

def intMax : ℕ := 2147483647

/-- `snprintf` for a text: what it returns, `none` for a negative value, and the bytes that it has
set. -/
def snprintf (size : ℕ) (text : List Byte) : Option ℕ × List Byte :=
  if intMax < text.length then (none, []) else (some text.length, text.take (size - 1) ++ [0])

def line : ℕ → List Byte → List Byte
  | 0, _ => []
  | _ + 1, [] => []
  | n + 1, b :: input => if b = newline then [b] else b :: line n input

def fgets (buf : List Byte) (size : ℕ) (stdin : List Byte) : Option (List Byte × List Byte) :=
  if stdin = [] then none
  else (store buf 0 (line (size - 1) stdin ++ [0])).map
    (fun buf' => (buf', stdin.drop (line (size - 1) stdin).length))

def lineText (l : List Byte) : List Byte := l.takeWhile (fun b => b != 0 && b != newline)

theorem lineText_ne_zero {l : List Byte} {b : Byte} (h : b ∈ lineText l) : b ≠ 0 := by
  have hb := List.mem_takeWhile_imp h
  simp only [bne_iff_ne, ne_eq, Bool.and_eq_true] at hb
  exact hb.1

theorem lineText_nul (l rest : List Byte) :
    (l ++ 0 :: rest).takeWhile (fun b => b != 0 && b != newline) = lineText l := by
  induction l with
  | nil => simp [lineText]
  | cons b l ih =>
    simp only [lineText, List.cons_append, List.takeWhile_cons] at *
    split_ifs
    · rw [ih]
    · rfl

theorem line_length_le (n : ℕ) (input : List Byte) : (line n input).length ≤ n := by
  induction n generalizing input with
  | zero => simp [line]
  | succ n ih =>
    cases input with
    | nil => simp [line]
    | cons b input =>
      simp only [line]
      split_ifs
      · simp
      · simpa using ih input

theorem line_length_pos {n : ℕ} {input : List Byte} (hn : 0 < n) (h : input ≠ []) :
    0 < (line n input).length := by
  obtain ⟨m, rfl⟩ : ∃ m, n = m + 1 := ⟨n - 1, by omega⟩
  cases input with
  | nil => exact absurd rfl h
  | cons b input =>
    simp only [line]
    split_ifs <;> simp

theorem fgets_ok {buf stdin : List Byte} {size : ℕ} (hs : 0 < size) (hb : size ≤ buf.length)
    (hi : stdin ≠ []) :
    ∃ buf' rest, fgets buf size stdin =
        some (buf', stdin.drop (line (size - 1) stdin).length) ∧
      buf'.length = buf.length ∧ buf' = line (size - 1) stdin ++ 0 :: rest := by
  have hl := line_length_le (size - 1) stdin
  obtain ⟨buf', hstore, hlen, htake⟩ :
      ∃ buf', store buf 0 (line (size - 1) stdin ++ [0]) = some buf' ∧ _ := by
    apply store_ok
    simp only [List.length_append, List.length_singleton]
    omega
  refine ⟨buf', buf'.drop (0 + (line (size - 1) stdin ++ [0]).length), ?_, hlen, ?_⟩
  · rw [fgets, if_neg hi, hstore]
    rfl
  · conv_lhs => rw [← List.take_append_drop (0 + (line (size - 1) stdin ++ [0]).length) buf', htake]
    simp

theorem strip_ok (l rest : List Byte) :
    ∃ buf' rest', store (l ++ 0 :: rest) (strcspn (l ++ 0 :: rest) newline) [0] = some buf' ∧
      buf'.length = (l ++ 0 :: rest).length ∧ buf' = lineText l ++ 0 :: rest' := by
  have hlen : (lineText l).length ≤ l.length := (List.takeWhile_prefix _).length_le
  rw [strcspn, lineText_nul]
  obtain ⟨buf', hstore, hl, htake⟩ :
      ∃ buf', store (l ++ 0 :: rest) (lineText l).length [0] = some buf' ∧ _ := by
    apply store_ok
    simp only [List.length_append, List.length_cons, List.length_nil]
    omega
  refine ⟨buf', buf'.drop ((lineText l).length + [(0 : Byte)].length), hstore, hl, ?_⟩
  conv_lhs => rw [← List.take_append_drop ((lineText l).length + [(0 : Byte)].length) buf', htake]
  have ht : (l ++ 0 :: rest).take (lineText l).length = lineText l :=
    (List.prefix_iff_eq_take.mp ((List.takeWhile_prefix _).trans (List.prefix_append _ _))).symm
  rw [ht, List.append_assoc]
  rfl

theorem lineText_length_le (n : ℕ) (input : List Byte) : (lineText (line n input)).length ≤ n :=
  (List.takeWhile_prefix _).length_le.trans (line_length_le n input)

@[simp] theorem cString_lineText (l rest : List Byte) :
    cString (lineText l ++ 0 :: rest) = lineText l := by
  rw [cString_nul]
  exact cString_eq_self (fun b hb => lineText_ne_zero hb)

theorem fgets_strip {buf stdin : List Byte} {size : ℕ} (hs : 0 < size) (hb : size ≤ buf.length)
    (hi : stdin ≠ []) :
    ∃ taken buf' rest, fgets buf size stdin =
        some (taken, stdin.drop (line (size - 1) stdin).length) ∧
      store taken (strcspn taken newline) [0] = some buf' ∧ buf'.length = buf.length ∧
      buf' = lineText (line (size - 1) stdin) ++ 0 :: rest := by
  obtain ⟨taken, rest, hf, hlen, rfl⟩ := fgets_ok hs hb hi
  obtain ⟨buf', rest', hstore, hlen', hbuf⟩ := strip_ok (line (size - 1) stdin) rest
  exact ⟨_, buf', rest', hf, hstore, hlen'.trans hlen, hbuf⟩

def chunksFrom (n : ℕ) : List Byte → List Byte → List (List Byte)
  | cur, [] => if cur = [] then [] else [cur]
  | cur, b :: input =>
    if b = newline ∨ cur.length + 1 = n then (cur ++ [b]) :: chunksFrom n [] input
    else chunksFrom n (cur ++ [b]) input

def chunks (n : ℕ) (input : List Byte) : List (List Byte) := chunksFrom n [] input

theorem chunksFrom_line {n : ℕ} (cur input : List Byte) (hc : cur.length < n)
    (hne : cur ≠ [] ∨ input ≠ []) :
    chunksFrom n cur input = (cur ++ line (n - cur.length) input) ::
      chunks n (input.drop (line (n - cur.length) input).length) := by
  induction input generalizing cur with
  | nil =>
    have hcur : cur ≠ [] := by simpa using hne
    obtain ⟨k, hk⟩ : ∃ k, n - cur.length = k + 1 := ⟨n - cur.length - 1, by omega⟩
    simp [chunksFrom, chunks, hk, line, hcur]
  | cons b input ih =>
    obtain ⟨k, hk⟩ : ∃ k, n - cur.length = k + 1 := ⟨n - cur.length - 1, by omega⟩
    simp only [chunksFrom, hk, line]
    by_cases hb : b = newline
    · simp [hb, chunks]
    · by_cases hf : cur.length + 1 = n
      · have hk0 : k = 0 := by omega
        simp [hb, hf, hk0, line, chunks]
      · have hk' : n - (cur ++ [b]).length = k := by
          simp only [List.length_append, List.length_singleton]
          omega
        rw [if_neg (by simp [hb, hf]), if_neg hb,
          ih (cur ++ [b]) (by simp only [List.length_append, List.length_singleton]; omega)
            (Or.inl (by simp)), hk']
        simp

theorem chunks_line {n : ℕ} (hn : 0 < n) {input : List Byte} (h : input ≠ []) :
    chunks n input = line n input :: chunks n (input.drop (line n input).length) := by
  rw [chunks, chunksFrom_line [] input hn (Or.inr h)]
  rfl

inductive ByteOrder
  | little
  | big
  deriving DecidableEq

def littleEndian (n : ℕ) : List Byte :=
  [UInt8.ofNat n, UInt8.ofNat (n / 2 ^ 8), UInt8.ofNat (n / 2 ^ 16), UInt8.ofNat (n / 2 ^ 24)]

def littleEndianValue (bytes : List Byte) : ℕ := bytes.foldr (fun b v => b.toNat + 256 * v) 0

def uint32Bytes : ByteOrder → ℕ → List Byte
  | .little, n => littleEndian n
  | .big, n => (littleEndian n).reverse

def uint32Value : ByteOrder → List Byte → ℕ
  | .little, bytes => littleEndianValue bytes
  | .big, bytes => littleEndianValue bytes.reverse

@[simp] theorem uint32Bytes_length (o : ByteOrder) (n : ℕ) : (uint32Bytes o n).length = 4 := by
  cases o <;> rfl

theorem littleEndianValue_littleEndian (n : ℕ) (h : n < 2 ^ 32) :
    littleEndianValue (littleEndian n) = n := by
  simp only [littleEndianValue, littleEndian, List.foldr_cons, List.foldr_nil, UInt8.toNat_ofNat']
  omega

theorem littleEndian_littleEndianValue (bytes : List Byte) (h : bytes.length = 4) :
    littleEndian (littleEndianValue bytes) = bytes := by
  obtain ⟨a, b, c, d, rfl⟩ := List.length_eq_four.mp h
  have ha := a.toNat_lt
  have hb := b.toNat_lt
  have hc := c.toNat_lt
  have hd := d.toNat_lt
  simp only [littleEndianValue, littleEndian, List.foldr_cons, List.foldr_nil, List.cons.injEq,
    and_true, ← UInt8.toNat_inj, UInt8.toNat_ofNat']
  omega

theorem uint32Value_uint32Bytes (o : ByteOrder) (n : ℕ) (h : n < 2 ^ 32) :
    uint32Value o (uint32Bytes o n) = n := by
  cases o <;> simp only [uint32Value, uint32Bytes, List.reverse_reverse,
    littleEndianValue_littleEndian n h]

theorem uint32Bytes_uint32Value (o : ByteOrder) (bytes : List Byte) (h : bytes.length = 4) :
    uint32Bytes o (uint32Value o bytes) = bytes := by
  cases o with
  | little => exact littleEndian_littleEndianValue bytes h
  | big =>
    simp only [uint32Value, uint32Bytes]
    rw [littleEndian_littleEndianValue _ (by simpa using h), List.reverse_reverse]

end LinuxSystemProgramming.CMemory
