import LinuxSystemProgramming.Lib.CMemory

/-!
The helpers of 2_3, 2_4, 2_6 and 7_9 that write a text to a file: what they return, and the bytes
that have reached the file. What they write to the terminal is left out, but for the length of the
log of 2_3, which that helper tests.
-/

namespace LinuxSystemProgramming.FileOperations

open CMemory

/-- What the calls of `write` return, by their number and by the bytes asked for; `none` is -1. -/
structure WriteCalls where
  result : ℕ → ℕ → Option ℕ
  le : ∀ i asked n, result i asked = some n → n ≤ asked
  pos : ∀ i asked n, result i asked = some n → 0 < asked → 0 < n

inductive Status
  | success
  | errWrite
  | errEncoding
  deriving DecidableEq

def writeLoop (w : WriteCalls) (buf : List Byte) (i totalWritten : ℕ) : Bool × List Byte :=
  if h : totalWritten < buf.length then
    match hw : w.result i (buf.length - totalWritten) with
    | none => (false, [])
    | some bytesWritten =>
      have _hpos := w.pos i _ bytesWritten hw (Nat.sub_pos_of_lt h)
      let rest := writeLoop w buf (i + 1) (totalWritten + bytesWritten)
      (rest.1, (buf.drop totalWritten).take bytesWritten ++ rest.2)
  else (true, [])
termination_by buf.length - totalWritten

/-- `logLength` is what `snprintf` returns for the log at the end. -/
def WritingToAFile.writeToAFileSafer (w : WriteCalls) (logLength : ℤ)
    (buf : List Byte) : Status × List Byte :=
  let r := writeLoop w buf 0 0
  if r.1 then
    if 0 < logLength then (.success, r.2) else (.errEncoding, r.2)
  else (.errWrite, r.2)

def sizeBufTx : ℕ := 256

def writeToAFileAndLogSafe (w : WriteCalls) (textToWrite : List Byte) : Status × List Byte :=
  let formatted := snprintf sizeBufTx textToWrite
  match formatted.1 with
  | none => (.errEncoding, [])
  | some len =>
    if 0 < len then
      let asked := if len > sizeBufTx then sizeBufTx - 1 else len
      match w.result 0 asked with
      | none => (.errWrite, [])
      | some written => if written = 0 then (.errWrite, []) else (.success, formatted.2.take written)
    else (.errEncoding, [])

def writeToFile (w : WriteCalls) (msg : List Byte) : Status × List Byte :=
  let sizeBuf := strlen msg + 1
  let formatted := snprintf sizeBuf msg
  match formatted.1 with
  | none => (.errEncoding, [])
  | some len =>
    if 0 < len then
      let asked := if len > sizeBuf then sizeBuf - 1 else len
      match w.result 0 asked with
      | none => (.errWrite, [])
      | some written => (.success, formatted.2.take written)
    else (.errEncoding, [])

def FileDescriptor.writeToAFileSafer (w : WriteCalls) (txbuf : List Byte) : Status × List Byte :=
  match w.result 0 (strlen txbuf) with
  | none => (.errWrite, [])
  | some written => (.success, txbuf.take written)

def Reports (text : List Byte) (r : Status × List Byte) : Prop :=
  (r.1 = .success → r.2 = text) ∧ (r.1 ≠ .success → r.2 <+: text)

variable {w : WriteCalls} {text : List Byte} {n k : ℕ}

theorem reports_error {status : Status} (h : status ≠ .success) : Reports text (status, []) :=
  ⟨fun hs => absurd hs h, fun _ => List.nil_prefix⟩

theorem reports_success {bytes : List Byte} : Reports text (.success, bytes) ↔ bytes = text :=
  ⟨fun h => h.1 rfl, fun h => ⟨fun _ => h, fun hs => absurd rfl hs⟩⟩

theorem writeLoop_prefix (w : WriteCalls) (buf : List Byte) (i totalWritten : ℕ) :
    (writeLoop w buf i totalWritten).2 <+: buf.drop totalWritten := by
  fun_induction writeLoop w buf i totalWritten with
  | case1 => exact List.nil_prefix
  | case2 i totalWritten h n hw hpos rest ih =>
    rw [← List.drop_drop] at ih
    have hsplit := List.take_append_drop n (buf.drop totalWritten)
    conv_rhs => rw [← hsplit]
    exact (List.prefix_append_right_inj _).mpr ih
  | case3 => exact List.nil_prefix

theorem writeLoop_success (w : WriteCalls) (buf : List Byte) (i totalWritten : ℕ)
    (h : (writeLoop w buf i totalWritten).1 = true) :
    (writeLoop w buf i totalWritten).2 = buf.drop totalWritten := by
  fun_induction writeLoop w buf i totalWritten with
  | case1 => cases h
  | case2 i totalWritten hlt n hw hpos rest ih =>
    have hrest := ih h
    change _ ++ rest.2 = _
    rw [hrest, ← List.drop_drop, List.take_append_drop]
  | case3 i totalWritten hge => rw [List.drop_eq_nil_of_le (by omega)]

theorem WritingToAFile.reports (w : WriteCalls) (logLength : ℤ) (buf : List Byte) :
    Reports buf (writeToAFileSafer w logLength buf) := by
  have hprefix := writeLoop_prefix w buf 0 0
  have hwhole := writeLoop_success w buf 0 0
  rw [List.drop_zero] at hprefix hwhole
  unfold writeToAFileSafer
  generalize writeLoop w buf 0 0 = r at hprefix hwhole
  obtain ⟨ok, file⟩ := r
  cases ok with
  | false => exact ⟨by rintro ⟨⟩, fun _ => hprefix⟩
  | true =>
    dsimp only
    rw [if_pos rfl]
    split_ifs
    · exact reports_success.mpr (hwhole rfl)
    · exact ⟨by rintro ⟨⟩, fun _ => hprefix⟩

theorem take_eq_self_iff (hn : n ≤ text.length) : text.take n = text ↔ n = text.length := by
  constructor
  · intro h
    have hlen := congrArg List.length h
    rw [List.length_take] at hlen
    omega
  · rintro rfl
    exact List.take_length

theorem FileDescriptor.reports_iff (w : WriteCalls) (text : Text) :
    Reports text.bytes (writeToAFileSafer w text.bytes) ↔
      w.result 0 text.bytes.length = none ∨
        w.result 0 text.bytes.length = some text.bytes.length := by
  rw [writeToAFileSafer, text.strlen]
  cases hw : w.result 0 text.bytes.length with
  | none => exact ⟨fun _ => .inl rfl, fun _ => reports_error (by decide)⟩
  | some n => simp [reports_success, take_eq_self_iff (w.le _ _ _ hw)]

theorem snprintf_long {size : ℕ} (h : intMax < text.length) : snprintf size text = (none, []) :=
  if_pos h

theorem snprintf_ok {size : ℕ} (h : text.length ≤ intMax) :
    snprintf size text = (some text.length, text.take (size - 1) ++ [0]) :=
  if_neg (by omega)

theorem buffer_take (hn : n ≤ text.length) (hk : text.length ≤ k) :
    (text.take k ++ [(0 : Byte)]).take n = text.take n := by
  rw [List.take_of_length_le hk, List.take_append_of_le_length hn]

theorem writeToFile_reports_iff (w : WriteCalls) (text : Text) :
    Reports text.bytes (writeToFile w text.bytes) ↔
      text.bytes = [] ∨ intMax < text.bytes.length ∨
        w.result 0 text.bytes.length = none ∨
          w.result 0 text.bytes.length = some text.bytes.length := by
  rw [writeToFile, text.strlen]
  by_cases hlong : intMax < text.bytes.length
  · rw [snprintf_long hlong]
    exact ⟨fun _ => .inr (.inl hlong), fun _ => reports_error (by decide)⟩
  · rw [snprintf_ok (by omega)]
    dsimp only
    by_cases hpos : 0 < text.bytes.length
    · have hne : text.bytes ≠ [] := List.length_pos_iff.mp hpos
      rw [if_pos hpos, if_neg (by omega)]
      cases hw : w.result 0 text.bytes.length with
      | none => simp [reports_error]
      | some n =>
        have hle := w.le _ _ _ hw
        dsimp only
        rw [reports_success, buffer_take hle (by omega), take_eq_self_iff hle]
        simp [hne, hlong]
    · have hnil : text.bytes = [] := List.length_eq_zero_iff.mp (by omega)
      rw [if_neg hpos]
      exact ⟨fun _ => .inl hnil, fun _ => reports_error (by decide)⟩

theorem cut_ne_text (text : Text) (h : sizeBufTx ≤ text.bytes.length) (hn : n ≤ sizeBufTx) :
    (text.bytes.take (sizeBufTx - 1) ++ [0]).take n ≠ text.bytes := by
  intro he
  have hlen := congrArg List.length he
  simp only [List.length_take, List.length_append, List.length_singleton, sizeBufTx] at hlen h hn
  have hn' : n = 256 := by omega
  have hmem : (0 : Byte) ∈ text.bytes := by
    rw [← he, List.take_of_length_le]
    · simp
    · simp only [List.length_append, List.length_take, List.length_singleton, sizeBufTx]
      omega
  exact text.nul_free 0 hmem rfl

theorem writeToAFileAndLogSafe_reports_iff (w : WriteCalls) (text : Text) :
    Reports text.bytes (writeToAFileAndLogSafe w text.bytes) ↔
      text.bytes = [] ∨ intMax < text.bytes.length ∨
        w.result 0 (if sizeBufTx < text.bytes.length then sizeBufTx - 1 else text.bytes.length) =
          none ∨
        text.bytes.length < sizeBufTx ∧
          w.result 0 text.bytes.length = some text.bytes.length := by
  rw [writeToAFileAndLogSafe]
  by_cases hlong : intMax < text.bytes.length
  · rw [snprintf_long hlong]
    exact ⟨fun _ => .inr (.inl hlong), fun _ => reports_error (by decide)⟩
  · rw [snprintf_ok (by omega)]
    dsimp only
    by_cases hpos : 0 < text.bytes.length
    · have hne : text.bytes ≠ [] := List.length_pos_iff.mp hpos
      rw [if_pos hpos]
      by_cases hcut : sizeBufTx < text.bytes.length
      · rw [if_pos hcut]
        cases hw : w.result 0 (sizeBufTx - 1) with
        | none => simp [reports_error]
        | some n =>
          have hle := w.le _ _ _ hw
          have hne' := cut_ne_text text hcut.le (hle.trans (Nat.sub_le _ _))
          have hzero : ¬ n = 0 := by
            have hn := w.pos _ _ _ hw (by decide)
            omega
          have hshort : ¬ text.bytes.length < sizeBufTx := by omega
          dsimp only
          rw [if_neg hzero, reports_success]
          simp [hne', hne, hlong, hshort]
      · rw [if_neg hcut]
        cases hw : w.result 0 text.bytes.length with
        | none => simp [reports_error]
        | some n =>
          have hle := w.le _ _ _ hw
          have hzero : ¬ n = 0 := by
            have hn := w.pos _ _ _ hw hpos
            omega
          dsimp only
          rw [if_neg hzero, reports_success]
          by_cases hfits : text.bytes.length < sizeBufTx
          · rw [buffer_take hle (by omega), take_eq_self_iff hle]
            simp [hne, hlong, hfits]
          · have hne' := cut_ne_text text (by omega) (n := n) (by omega)
            simp [hne', hne, hlong, hfits]
    · have hnil : text.bytes = [] := List.length_eq_zero_iff.mp (by omega)
      rw [if_neg hpos]
      exact ⟨fun _ => .inl hnil, fun _ => reports_error (by decide)⟩

/-- Each helper reports what it has written, for every text and all results of `write`: the loop of
2_3 always, and the others exactly where their one call of `write` fails or takes the whole text. -/
theorem write_helpers_report (w : WriteCalls) (logLength : ℤ) (buf : List Byte) (text : Text) :
    Reports buf (WritingToAFile.writeToAFileSafer w logLength buf) ∧
    (Reports text.bytes (writeToAFileAndLogSafe w text.bytes) ↔
      text.bytes = [] ∨ intMax < text.bytes.length ∨
        w.result 0 (if sizeBufTx < text.bytes.length then sizeBufTx - 1 else text.bytes.length) =
          none ∨
        text.bytes.length < sizeBufTx ∧
          w.result 0 text.bytes.length = some text.bytes.length) ∧
    (Reports text.bytes (writeToFile w text.bytes) ↔
      text.bytes = [] ∨ intMax < text.bytes.length ∨
        w.result 0 text.bytes.length = none ∨
          w.result 0 text.bytes.length = some text.bytes.length) ∧
    (Reports text.bytes (FileDescriptor.writeToAFileSafer w text.bytes) ↔
      w.result 0 text.bytes.length = none ∨
        w.result 0 text.bytes.length = some text.bytes.length) :=
  ⟨WritingToAFile.reports w logLength buf, writeToAFileAndLogSafe_reports_iff w text,
    writeToFile_reports_iff w text, FileDescriptor.reports_iff w text⟩

def singleBytes : WriteCalls where
  result _ asked := some (min asked 1)
  le := by
    rintro _ asked _ ⟨⟩
    omega
  pos := by
    rintro _ asked _ ⟨⟩ h
    omega

def greeting : Text := ⟨[104, 105], by simp⟩

theorem short_writes_succeed :
    ¬ Reports greeting.bytes (writeToAFileAndLogSafe singleBytes greeting.bytes) ∧
      ¬ Reports greeting.bytes (writeToFile singleBytes greeting.bytes) ∧
      ¬ Reports greeting.bytes (FileDescriptor.writeToAFileSafer singleBytes greeting.bytes) := by
  rw [writeToAFileAndLogSafe_reports_iff, writeToFile_reports_iff, FileDescriptor.reports_iff]
  decide

end LinuxSystemProgramming.FileOperations
