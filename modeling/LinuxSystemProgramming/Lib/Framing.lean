import Mathlib.Data.List.Infix
import Mathlib.Data.List.TakeDrop
import Mathlib.Tactic.Linarith

/-!
Length-prefixed framing: a header of fixed size gives the length of the payload that follows it.
A stream stops at a frame boundary (`header []`), inside a header, inside a payload, or at a header
whose length is refused (`failed`). `parse` is the one-shot parser; `feed` takes one symbol at a
time, and `inHeader` and `inPayload` act on a header or payload once it is complete.
-/

namespace LinuxSystemProgramming.Framing

variable {α : Type*}

structure Format (α : Type*) where
  headerSize : ℕ
  header : ℕ → List α
  length : List α → ℕ
  valid : ℕ → Bool
  headerSize_pos : 0 < headerSize
  header_length : ∀ n, (header n).length = headerSize
  length_header : ∀ n, valid n = true → length (header n) = n
  header_of_length : ∀ h, h.length = headerSize → header (length h) = h

inductive Phase (α : Type*)
  | header (got : List α)
  | payload (need : ℕ) (got : List α)
  | failed (header : List α)
  deriving DecidableEq

structure Decoded (α : Type*) where
  payloads : List (List α)
  phase : Phase α
  deriving DecidableEq

namespace Format

variable (F : Format α)

def encode (p : List α) : List α := F.header p.length ++ p

def encodeAll (ps : List (List α)) : List α := ps.flatMap F.encode

@[simp] theorem encodeAll_nil : F.encodeAll [] = [] := rfl

@[simp] theorem encodeAll_cons (p : List α) (ps : List (List α)) :
    F.encodeAll (p :: ps) = F.encode p ++ F.encodeAll ps := rfl

@[simp] theorem encodeAll_append (ps qs : List (List α)) :
    F.encodeAll (ps ++ qs) = F.encodeAll ps ++ F.encodeAll qs := by
  simp [encodeAll]

def parse (s : List α) : Decoded α :=
  if s.length < F.headerSize then ⟨[], .header s⟩
  else if F.valid (F.length (s.take F.headerSize)) then
    if (s.drop F.headerSize).length < F.length (s.take F.headerSize) then
      ⟨[], .payload (F.length (s.take F.headerSize)) (s.drop F.headerSize)⟩
    else
      ⟨(s.drop F.headerSize).take (F.length (s.take F.headerSize)) ::
          (parse ((s.drop F.headerSize).drop (F.length (s.take F.headerSize)))).payloads,
        (parse ((s.drop F.headerSize).drop (F.length (s.take F.headerSize)))).phase⟩
  else ⟨[], .failed (s.take F.headerSize)⟩
termination_by s.length
decreasing_by
  all_goals
    have := F.headerSize_pos
    simp only [List.length_drop]
    omega

def inPayload (done : List (List α)) (need : ℕ) (got : List α) : Decoded α :=
  if got.length < need then ⟨done, .payload need got⟩ else ⟨done ++ [got], .header []⟩

def inHeader (done : List (List α)) (got : List α) : Decoded α :=
  if got.length < F.headerSize then ⟨done, .header got⟩
  else if F.valid (F.length got) then inPayload done (F.length got) []
  else ⟨done, .failed got⟩

def feed (d : Decoded α) (x : α) : Decoded α :=
  match d.phase with
  | .header got => F.inHeader d.payloads (got ++ [x])
  | .payload need got => inPayload d.payloads need (got ++ [x])
  | .failed _ => d

def decodeFrom (d : Decoded α) (s : List α) : Decoded α := s.foldl F.feed d

def decode (s : List α) : Decoded α := F.decodeFrom ⟨[], .header []⟩ s

@[simp] theorem decodeFrom_nil (d : Decoded α) : F.decodeFrom d [] = d := rfl

@[simp] theorem decodeFrom_cons (d : Decoded α) (x : α) (s : List α) :
    F.decodeFrom d (x :: s) = F.decodeFrom (F.feed d x) s := rfl

theorem decodeFrom_append (d : Decoded α) (s t : List α) :
    F.decodeFrom d (s ++ t) = F.decodeFrom (F.decodeFrom d s) t := List.foldl_append

theorem decode_append (s t : List α) : F.decode (s ++ t) = F.decodeFrom (F.decode s) t :=
  F.decodeFrom_append _ s t

@[simp] theorem inHeader_nil (done : List (List α)) : F.inHeader done [] = ⟨done, .header []⟩ := by
  simp [inHeader, F.headerSize_pos]

theorem inHeader_of_lt (done : List (List α)) {got : List α} (h : got.length < F.headerSize) :
    F.inHeader done got = ⟨done, .header got⟩ := if_pos h

theorem inPayload_of_lt (done : List (List α)) {need : ℕ} {got : List α} (h : got.length < need) :
    inPayload done need got = ⟨done, .payload need got⟩ := if_pos h

theorem decodeFrom_inHeader (done : List (List α)) (got s : List α)
    (h : got.length + s.length ≤ F.headerSize) :
    F.decodeFrom (F.inHeader done got) s = F.inHeader done (got ++ s) := by
  induction s generalizing got with
  | nil => simp
  | cons x s ih =>
    simp only [List.length_cons] at h
    have hg : got.length < F.headerSize := by omega
    have hf : F.feed (F.inHeader done got) x = F.inHeader done (got ++ [x]) := by
      simp [feed, inHeader, hg]
    rw [decodeFrom_cons, hf, ih (got ++ [x]) (by simp; omega)]
    simp

theorem decodeFrom_inPayload (done : List (List α)) (need : ℕ) (got s : List α)
    (h : got.length + s.length ≤ need) :
    F.decodeFrom (inPayload done need got) s = inPayload done need (got ++ s) := by
  induction s generalizing got with
  | nil => simp
  | cons x s ih =>
    simp only [List.length_cons] at h
    have hg : got.length < need := by omega
    have hf : F.feed (inPayload done need got) x = inPayload done need (got ++ [x]) := by
      simp [feed, inPayload, hg]
    rw [decodeFrom_cons, hf, ih (got ++ [x]) (by simp; omega)]
    simp

theorem decodeFrom_failed (done : List (List α)) (h s : List α) :
    F.decodeFrom ⟨done, .failed h⟩ s = ⟨done, .failed h⟩ := by
  induction s with
  | nil => rfl
  | cons x s ih => exact ih

theorem decodeFrom_header (done : List (List α)) (h : List α) (hl : h.length = F.headerSize) :
    F.decodeFrom ⟨done, .header []⟩ h =
      if F.valid (F.length h) then inPayload done (F.length h) [] else ⟨done, .failed h⟩ := by
  rw [← F.inHeader_nil done, F.decodeFrom_inHeader done [] h (by simp [hl])]
  simp [inHeader, hl]

theorem decodeFrom_parse (s : List α) (done : List (List α)) :
    F.decodeFrom ⟨done, .header []⟩ s = ⟨done ++ (F.parse s).payloads, (F.parse s).phase⟩ := by
  induction hn : s.length using Nat.strong_induction_on generalizing s done with
  | _ n ih =>
    rw [parse]
    by_cases hs : s.length < F.headerSize
    · rw [← F.inHeader_nil done, F.decodeFrom_inHeader done [] s (by simp; omega)]
      simp [inHeader, hs]
    · have hh : (s.take F.headerSize).length = F.headerSize := by simp; omega
      conv_lhs => rw [← List.take_append_drop F.headerSize s]
      rw [decodeFrom_append, F.decodeFrom_header done _ hh]
      simp only [hs, ↓reduceIte]
      generalize s.take F.headerSize = hd at *
      by_cases hv : F.valid (F.length hd) = true
      · simp only [hv, ↓reduceIte]
        by_cases hb : (s.drop F.headerSize).length < F.length hd
        · rw [F.decodeFrom_inPayload done _ [] _ (by simp only [List.length_nil]; omega)]
          simp only [inPayload, List.nil_append, hb, ↓reduceIte, List.append_nil]
        · have hr := ih ((s.drop F.headerSize).drop (F.length hd)).length
            (by have := F.headerSize_pos; simp only [List.length_drop]; omega)
            ((s.drop F.headerSize).drop (F.length hd))
            (done ++ [(s.drop F.headerSize).take (F.length hd)]) rfl
          conv_lhs => rw [← List.take_append_drop (F.length hd) (s.drop F.headerSize)]
          have ht : ((s.drop F.headerSize).take (F.length hd)).length = F.length hd := by
            rw [List.length_take]; omega
          rw [decodeFrom_append, F.decodeFrom_inPayload done _ [] _ (by simp [ht])]
          simp only [inPayload, List.nil_append, ht, lt_irrefl, ↓reduceIte, hr, hb,
            List.append_assoc, List.cons_append]
      · simp only [hv, Bool.false_eq_true, ↓reduceIte, F.decodeFrom_failed, List.append_nil]

/-- Reading a stream symbol by symbol gives what the one-shot parser gives. -/
theorem decode_eq_parse (s : List α) : F.decode s = F.parse s := by
  rw [decode, decodeFrom_parse, List.nil_append]

theorem decodeFrom_encode (done : List (List α)) (p : List α) (hp : F.valid p.length = true) :
    F.decodeFrom ⟨done, .header []⟩ (F.encode p) = ⟨done ++ [p], .header []⟩ := by
  rw [encode, decodeFrom_append, F.decodeFrom_header done _ (F.header_length _)]
  simp only [F.length_header _ hp, hp, ↓reduceIte]
  rw [F.decodeFrom_inPayload done _ [] _ (by simp)]
  simp [inPayload]

theorem decodeFrom_encodeAll (done ps : List (List α)) (hp : ∀ p ∈ ps, F.valid p.length = true) :
    F.decodeFrom ⟨done, .header []⟩ (F.encodeAll ps) = ⟨done ++ ps, .header []⟩ := by
  induction ps generalizing done with
  | nil => simp
  | cons p ps ih =>
    rw [encodeAll_cons, decodeFrom_append, F.decodeFrom_encode done p (hp p (by simp)),
      ih _ (fun q hq => hp q (List.mem_cons_of_mem _ hq))]
    simp

theorem decode_encodeAll (ps : List (List α)) (hp : ∀ p ∈ ps, F.valid p.length = true) :
    F.decode (F.encodeAll ps) = ⟨ps, .header []⟩ := by
  rw [decode, F.decodeFrom_encodeAll [] ps hp, List.nil_append]

theorem payloads_prefix_inPayload (done : List (List α)) (need : ℕ) (got : List α) :
    done <+: (inPayload done need got).payloads := by
  unfold inPayload
  split_ifs
  · exact List.prefix_rfl
  · exact List.prefix_append _ _

theorem payloads_prefix_inHeader (done : List (List α)) (got : List α) :
    done <+: (F.inHeader done got).payloads := by
  unfold inHeader
  split_ifs
  · exact List.prefix_rfl
  · exact payloads_prefix_inPayload _ _ _
  · exact List.prefix_rfl

theorem payloads_prefix_decodeFrom (d : Decoded α) (s : List α) :
    d.payloads <+: (F.decodeFrom d s).payloads := by
  induction s generalizing d with
  | nil => exact List.prefix_rfl
  | cons x s ih =>
    refine List.IsPrefix.trans ?_ (ih (F.feed d x))
    unfold feed
    split
    · exact F.payloads_prefix_inHeader _ _
    · exact payloads_prefix_inPayload _ _ _
    · exact List.prefix_rfl

theorem payloads_mono {s t : List α} (h : s <+: t) :
    (F.decode s).payloads <+: (F.decode t).payloads := by
  obtain ⟨r, rfl⟩ := h
  rw [decode_append]
  exact F.payloads_prefix_decodeFrom _ r

theorem failed_mono {s t hd : List α} (h : s <+: t) (hf : (F.decode s).phase = .failed hd) :
    F.decode t = F.decode s := by
  obtain ⟨r, rfl⟩ := h
  obtain ⟨done, hs⟩ : ∃ done, F.decode s = ⟨done, .failed hd⟩ := ⟨_, by rw [← hf]⟩
  rw [decode_append, hs, decodeFrom_failed]

theorem decode_prefix_encodeAll {s : List α} {ps : List (List α)}
    (hp : ∀ p ∈ ps, F.valid p.length = true) (h : s <+: F.encodeAll ps) :
    (F.decode s).payloads <+: ps ∧ ∀ hd, (F.decode s).phase ≠ .failed hd := by
  constructor
  · simpa only [F.decode_encodeAll ps hp] using F.payloads_mono h
  · intro hd hf
    have he := F.failed_mono h hf
    rw [F.decode_encodeAll ps hp] at he
    rw [← he] at hf
    cases hf

def pending : Phase α → List α
  | .header got => got
  | .payload need got => F.header need ++ got
  | .failed h => h

structure Decoded.WellFormed (d : Decoded α) : Prop where
  payloads : ∀ p ∈ d.payloads, F.valid p.length = true
  header : ∀ got, d.phase = .header got → got.length < F.headerSize
  payload : ∀ need got, d.phase = .payload need got → F.valid need = true ∧ got.length < need

theorem inPayload_wellFormed {done : List (List α)} {need : ℕ} (got : List α)
    (hd : ∀ p ∈ done, F.valid p.length = true) (hn : F.valid need = true) (hg : got.length ≤ need) :
    Decoded.WellFormed F (inPayload done need got) ∧
      F.encodeAll (inPayload done need got).payloads ++ F.pending (inPayload done need got).phase =
        F.encodeAll done ++ (F.header need ++ got) := by
  unfold inPayload
  split_ifs with h
  · refine ⟨⟨hd, by simp, ?_⟩, rfl⟩
    rintro _ _ ⟨⟩
    exact ⟨hn, h⟩
  · have he : got.length = need := by omega
    refine ⟨⟨?_, by simp [F.headerSize_pos], by simp⟩, by simp [pending, encode, he]⟩
    intro p hp
    rcases List.mem_append.mp hp with hp | hp
    · exact hd p hp
    · rw [List.mem_singleton.mp hp, he, hn]

theorem inHeader_wellFormed {done : List (List α)} (got : List α)
    (hd : ∀ p ∈ done, F.valid p.length = true) (hg : got.length ≤ F.headerSize) :
    Decoded.WellFormed F (F.inHeader done got) ∧
      F.encodeAll (F.inHeader done got).payloads ++ F.pending (F.inHeader done got).phase =
        F.encodeAll done ++ got := by
  unfold inHeader
  split_ifs with h hv
  · refine ⟨⟨hd, ?_, by simp⟩, rfl⟩
    rintro _ ⟨⟩
    exact h
  · have hp := F.inPayload_wellFormed [] hd hv (Nat.zero_le _)
    rw [F.header_of_length got (by omega), List.append_nil] at hp
    exact hp
  · exact ⟨⟨hd, by simp, by simp⟩, rfl⟩

theorem feed_wellFormed {d : Decoded α} (hd : Decoded.WellFormed F d) (x : α)
    (hf : ∀ h, d.phase ≠ .failed h) :
    Decoded.WellFormed F (F.feed d x) ∧
      F.encodeAll (F.feed d x).payloads ++ F.pending (F.feed d x).phase =
        F.encodeAll d.payloads ++ F.pending d.phase ++ [x] := by
  obtain ⟨done, phase⟩ := d
  cases phase with
  | header got =>
    have hg := hd.header got rfl
    simpa [feed, pending] using F.inHeader_wellFormed (got ++ [x]) hd.payloads (by simp; omega)
  | payload need got =>
    obtain ⟨hn, hg⟩ := hd.payload need got rfl
    simpa [feed, pending] using
      F.inPayload_wellFormed (got ++ [x]) hd.payloads hn (by simp; omega)
  | failed h => exact absurd rfl (hf h)

theorem decode_wellFormed (s : List α) : Decoded.WellFormed F (F.decode s) ∧
    ((∀ h, (F.decode s).phase ≠ .failed h) →
      s = F.encodeAll (F.decode s).payloads ++ F.pending (F.decode s).phase) := by
  induction s using List.reverseRecOn with
  | nil => exact ⟨⟨by simp [decode], by simp [decode, F.headerSize_pos], by simp [decode]⟩, fun _ => rfl⟩
  | append_singleton s x ih =>
    obtain ⟨hw, hs⟩ := ih
    have hx : F.decode (s ++ [x]) = F.feed (F.decode s) x := by rw [decode_append]; rfl
    rw [hx]
    by_cases hf : ∃ h, (F.decode s).phase = .failed h
    · obtain ⟨h, hf⟩ := hf
      have he : F.feed (F.decode s) x = F.decode s := by simp [feed, hf]
      rw [he]
      exact ⟨hw, fun hn => absurd hf (hn h)⟩
    · have hf' : ∀ h, (F.decode s).phase ≠ .failed h := fun h he => hf ⟨h, he⟩
      obtain ⟨hw', he⟩ := F.feed_wellFormed hw x hf'
      exact ⟨hw', fun _ => by rw [he, ← hs hf']⟩

theorem decodeFrom_pending (ps : List (List α)) {d : Decoded α} (hd : Decoded.WellFormed F d)
    (hf : ∀ h, d.phase ≠ .failed h) :
    F.decodeFrom ⟨ps, .header []⟩ (F.pending d.phase) = ⟨ps, d.phase⟩ := by
  obtain ⟨done, phase⟩ := d
  cases phase with
  | header got =>
    have hg := hd.header got rfl
    rw [← F.inHeader_nil ps, pending, F.decodeFrom_inHeader ps [] got (by simp; omega),
      List.nil_append, F.inHeader_of_lt ps hg]
  | payload need got =>
    obtain ⟨hn, hg⟩ := hd.payload need got rfl
    rw [pending, decodeFrom_append, F.decodeFrom_header ps _ (F.header_length need),
      F.length_header need hn, if_pos hn, F.decodeFrom_inPayload ps need [] got (by simp; omega),
      List.nil_append, inPayload_of_lt ps hg]
  | failed h => exact absurd rfl (hf h)

theorem decode_encodeAll_pending {ps : List (List α)} (hp : ∀ p ∈ ps, F.valid p.length = true)
    {d : Decoded α} (hd : Decoded.WellFormed F d) (hf : ∀ h, d.phase ≠ .failed h) :
    F.decode (F.encodeAll ps ++ F.pending d.phase) = ⟨ps, d.phase⟩ := by
  rw [decode_append, F.decode_encodeAll ps hp, F.decodeFrom_pending ps hd hf]

end Format

end LinuxSystemProgramming.Framing
