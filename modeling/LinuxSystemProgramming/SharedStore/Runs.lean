import LinuxSystemProgramming.Lib.Files
import LinuxSystemProgramming.Lib.Transition

/-!
The programs of 13_1 on the object `/shm1`, one complete run after another. A mapping covers whole
pages, and what it has of the last page beyond the object reads as zero; the reader prints up to
the first NUL that it finds in its mapping, and runs off it (`fault`) where there is none.
-/

namespace LinuxSystemProgramming.SharedStore

open CMemory Files Transition

inductive ExitStatus
  | success
  | failure
  deriving DecidableEq

inductive WriterCall
  | shmOpen
  | ftruncate
  | mmap
  | close
  | munmap
  deriving DecidableEq

inductive Printed
  | nothing
  | text (t : List Byte)
  | fault
  deriving DecidableEq

/-- `args` is what follows the name of the program, and `fails` the call that fails. The object is
`none` before it has been created. -/
def writerMain (object : Option (List Byte)) (args : List Text) (fails : Option WriterCall) :
    ExitStatus × Option (List Byte) :=
  match args with
  | [msg] =>
    if fails = some .shmOpen then (.failure, object)
    else
      let opened := object.getD []
      let lenBytes := strlen msg.bytes + 1
      if fails = some .ftruncate then (.failure, some opened)
      else
        let resized := truncate opened lenBytes
        if fails = some .mmap then (.failure, some resized)
        else if fails = some .close then (.failure, some resized)
        else
          let copied := writeAt resized 0 (msg.bytes ++ [0])
          if fails = some .munmap then (.failure, some copied) else (.success, some copied)
  | _ => (.failure, object)

def mapped (pageSize : ℕ) (bytes : List Byte) : List Byte :=
  bytes ++ List.replicate ((pageSize - bytes.length % pageSize) % pageSize) 0

def readerMain (pageSize : ℕ) (object : Option (List Byte)) : Printed :=
  match object with
  | none => .nothing
  | some bytes =>
    if bytes.length = 0 then .nothing
    else if (0 : Byte) ∈ mapped pageSize bytes then .text (cString (mapped pageSize bytes))
    else .fault

def cleanerMain (_ : Option (List Byte)) : Option (List Byte) := none

inductive Run
  | writer (args : List Text) (fails : Option WriterCall)
  | reader
  | cleaner

/-- `messages` records the messages of the writer's runs since the last run of the cleaner. -/
structure Store where
  object : Option (List Byte)
  messages : List (List Byte)

-- A run with any other number of arguments ends with a line about the usage.
def messageOf : List Text → List (List Byte)
  | [msg] => [msg.bytes]
  | _ => []

def Store.next (s : Store) : Run → Store
  | .writer args fails =>
    { object := (writerMain s.object args fails).2, messages := s.messages ++ messageOf args }
  | .reader => s
  | .cleaner => { object := cleanerMain s.object, messages := [] }

def store : System Store Run where
  init s := s = ⟨none, []⟩
  next s r := some (s.next r)

def Store.Faithful (pageSize : ℕ) (s : Store) : Prop :=
  readerMain pageSize s.object = .nothing ∨
    ∃ m ∈ s.messages, readerMain pageSize s.object = .text m

def BeforeCopy (args : List Text) (fails : Option WriterCall) : Prop :=
  ∀ msg, args = [msg] → fails ≠ none ∧ fails ≠ some .munmap

/-- The object has a text that a new length leaves as it is: the length has room for it, and for its
NUL unless the text ends inside a page. -/
def Covers (pageSize : ℕ) (object : Option (List Byte)) (lenBytes : ℕ) : Prop :=
  ∃ bytes, object = some bytes ∧ bytes ≠ [] ∧
    (strlen bytes < lenBytes ∨ strlen bytes = lenBytes ∧ ¬ pageSize ∣ lenBytes)

/-- A run of the writer that fails between its `ftruncate` and its `memcpy` finds such an object. -/
def Undisturbed (pageSize : ℕ) (s : Store) : Run → Prop
  | .writer [msg] (some .mmap) | .writer [msg] (some .close) =>
    Covers pageSize s.object (strlen msg.bytes + 1)
  | _ => True

variable {pageSize : ℕ} {s t : Store} {m : List Byte} {k : ℕ}

theorem cString_zeros (hm : ∀ b ∈ m, b ≠ 0) (k : ℕ) : cString (m ++ List.replicate k 0) = m := by
  cases k with
  | zero => rw [List.replicate_zero, List.append_nil, cString_eq_self hm]
  | succ k => rw [List.replicate_succ, cString_nul, cString_eq_self hm]

theorem mapped_zeros (pageSize : ℕ) (m : List Byte) (k : ℕ) :
    ∃ j, mapped pageSize (m ++ List.replicate k 0) = m ++ List.replicate (k + j) 0 := by
  refine ⟨(pageSize - (m ++ List.replicate k 0).length % pageSize) % pageSize, ?_⟩
  rw [mapped, List.append_assoc, List.replicate_append_replicate]

theorem mapped_inside (hp : 0 < pageSize) (hm : ¬ pageSize ∣ m.length) :
    ∃ j, mapped pageSize m = m ++ List.replicate (j + 1) 0 := by
  have hmod : m.length % pageSize ≠ 0 := fun h => hm (Nat.dvd_of_mod_eq_zero h)
  have hlt := Nat.mod_lt m.length hp
  refine ⟨pageSize - m.length % pageSize - 1, ?_⟩
  rw [mapped, Nat.mod_eq_of_lt (by omega)]
  congr 2
  omega

theorem mapped_whole (hm : pageSize ∣ m.length) : mapped pageSize m = m := by
  rw [mapped, Nat.mod_eq_zero_of_dvd hm, Nat.sub_zero, Nat.mod_self]
  exact List.append_nil _

theorem reader_text (hp : 0 < pageSize) (hm : ∀ b ∈ m, b ≠ 0) (hk : 0 < k ∨ ¬ pageSize ∣ m.length) :
    readerMain pageSize (some (m ++ List.replicate k 0)) = .text m := by
  obtain ⟨j, hj⟩ : ∃ j, mapped pageSize (m ++ List.replicate k 0) = m ++ List.replicate (j + 1) 0 := by
    rcases Nat.eq_zero_or_pos k with rfl | hpos
    · rw [List.replicate_zero, List.append_nil]
      exact mapped_inside hp (hk.resolve_left (lt_irrefl 0))
    · obtain ⟨j, hj⟩ := mapped_zeros pageSize m k
      exact ⟨k + j - 1, by rw [hj, Nat.sub_add_cancel (by omega)]⟩
  have hne : ¬ (m ++ List.replicate k (0 : Byte)).length = 0 := by
    intro hlen
    simp only [List.length_append, List.length_replicate, Nat.add_eq_zero_iff] at hlen
    rcases hk with hk | hk
    · omega
    · exact hk (hlen.1 ▸ dvd_zero pageSize)
  have hmem : (0 : Byte) ∈ m ++ List.replicate (j + 1) 0 := by simp
  rw [readerMain, if_neg hne, hj, if_pos hmem, cString_zeros hm]

theorem reader_fault (hm : ∀ b ∈ m, b ≠ 0) (hd : pageSize ∣ m.length) (hne : m ≠ []) :
    readerMain pageSize (some m) = .fault := by
  have hmem : (0 : Byte) ∉ m := fun h => hm 0 h rfl
  have hlen : ¬ m.length = 0 := mt List.length_eq_zero_iff.mp hne
  rw [readerMain, if_neg hlen, mapped_whole hd, if_neg hmem]

theorem reader_zeros (hp : 0 < pageSize) (n : ℕ) :
    readerMain pageSize (some (List.replicate (n + 1) 0)) = .text [] :=
  reader_text (m := []) hp (by simp) (.inl (Nat.succ_pos n))

theorem reader_cut {n : ℕ} (hp : 0 < pageSize) (hm : ∀ b ∈ m, b ≠ 0) (hn : n < m.length)
    (hpos : 0 < n) : readerMain pageSize (some (m.take n)) ≠ .text m := by
  have hlen : (m.take n).length = n := List.length_take_of_le hn.le
  have htake : ∀ b ∈ m.take n, b ≠ 0 := fun b hb => hm b (List.mem_of_mem_take hb)
  by_cases hd : pageSize ∣ (m.take n).length
  · have hne : m.take n ≠ [] := by
      intro he
      rw [he, List.length_nil] at hlen
      omega
    rw [reader_fault htake hd hne]
    rintro ⟨⟩
  · have ht := reader_text (k := 0) hp htake (.inr hd)
    rw [List.replicate_zero, List.append_nil] at ht
    rw [ht]
    intro he
    have hl := congrArg List.length (Printed.text.inj he)
    omega

inductive Content (pageSize : ℕ) (messages : List (List Byte)) : Option (List Byte) → Prop
  | absent : Content pageSize messages none
  | empty : Content pageSize messages (some [])
  | holds (m : List Byte) (k : ℕ) (hmem : m ∈ messages) (hm : ∀ b ∈ m, b ≠ 0)
      (hk : 0 < k ∨ ¬ pageSize ∣ m.length) :
      Content pageSize messages (some (m ++ List.replicate k 0))

theorem strlen_zeros (hm : ∀ b ∈ m, b ≠ 0) (k : ℕ) : strlen (m ++ List.replicate k 0) = m.length := by
  rw [strlen, cString_zeros hm]

theorem covers_iff {n : ℕ} (hm : ∀ b ∈ m, b ≠ 0) (hk : 0 < k ∨ ¬ pageSize ∣ m.length) :
    Covers pageSize (some (m ++ List.replicate k 0)) n ↔
      m.length < n ∨ m.length = n ∧ ¬ pageSize ∣ n := by
  have hne : m ++ List.replicate k 0 ≠ [] := by
    intro he
    obtain ⟨rfl, hz⟩ := List.append_eq_nil_iff.mp he
    rcases hk with hk | hk
    · rw [List.replicate_eq_nil_iff] at hz
      omega
    · exact hk (dvd_zero pageSize)
  constructor
  · rintro ⟨_, ⟨⟩, -, h⟩
    rwa [strlen_zeros hm] at h
  · intro h
    refine ⟨_, rfl, hne, ?_⟩
    rwa [strlen_zeros hm]

theorem resized_iff {messages : List (List Byte)} {object : Option (List Byte)} {n : ℕ}
    (hp : 0 < pageSize) (h : Content pageSize messages object) :
    readerMain pageSize (some (truncate (object.getD []) (n + 1))) = readerMain pageSize object ↔
      Covers pageSize object (n + 1) := by
  have hzeros : truncate [] (n + 1) = List.replicate (n + 1) 0 := by simp [truncate]
  cases h with
  | absent =>
    constructor
    · intro he
      rw [Option.getD_none, hzeros, reader_zeros hp] at he
      cases he
    · rintro ⟨_, ⟨⟩, -⟩
  | empty =>
    constructor
    · intro he
      rw [Option.getD_some, hzeros, reader_zeros hp] at he
      cases he
    · rintro ⟨_, ⟨⟩, hne, -⟩
      exact absurd rfl hne
  | holds m k hmem hm hk =>
    rw [covers_iff hm hk, reader_text hp hm hk, Option.getD_some]
    rcases lt_trichotomy m.length (n + 1) with hlt | heq | hgt
    · rw [truncate_keep hlt.le, reader_text hp hm (.inl (by omega))]
      exact ⟨fun _ => .inl hlt, fun _ => rfl⟩
    · rw [truncate_keep heq.le, heq, Nat.sub_self]
      by_cases hd : pageSize ∣ n + 1
      · have hne : m ≠ [] := by
          rintro rfl
          cases heq
        rw [List.replicate_zero, List.append_nil, reader_fault hm (heq ▸ hd) hne]
        constructor
        · rintro ⟨⟩
        · rintro (h | ⟨-, h⟩)
          · omega
          · exact absurd hd h
      · rw [reader_text hp hm (.inr (heq ▸ hd))]
        exact ⟨fun _ => .inr ⟨rfl, hd⟩, fun _ => rfl⟩
    · rw [truncate_cut hgt.le]
      constructor
      · intro he
        exact absurd he (reader_cut hp hm hgt (Nat.succ_pos n))
      · rintro (h | ⟨h, -⟩) <;> omega

theorem content_resized {messages : List (List Byte)} {object : Option (List Byte)} {n : ℕ}
    (h : Content pageSize messages object) (hc : Covers pageSize object n) :
    Content pageSize messages (some (truncate (object.getD []) n)) := by
  cases h with
  | absent =>
    obtain ⟨_, ⟨⟩, -⟩ := hc
  | empty =>
    obtain ⟨_, ⟨⟩, hne, -⟩ := hc
    exact absurd rfl hne
  | holds m k hmem hm hk =>
    rcases (covers_iff hm hk).mp hc with hlt | ⟨heq, hd⟩
    · rw [Option.getD_some, truncate_keep hlt.le]
      exact .holds m _ hmem hm (.inl (by omega))
    · rw [Option.getD_some, truncate_keep heq.le]
      exact .holds m _ hmem hm (.inr (heq ▸ hd))

theorem Content.mono {messages more : List (List Byte)} {object : Option (List Byte)}
    (h : Content pageSize messages object) : Content pageSize (messages ++ more) object := by
  cases h with
  | absent => exact .absent
  | empty => exact .empty
  | holds m k hmem hm hk => exact .holds m k (List.mem_append_left _ hmem) hm hk

theorem copy_replaces (object : List Byte) (msg : Text) :
    writeAt (truncate object (strlen msg.bytes + 1)) 0 (msg.bytes ++ [0]) = msg.bytes ++ [0] := by
  apply writeAt_whole
  rw [truncate_length, Text.strlen]
  simp

theorem content_copied {messages : List (List Byte)} (msg : Text) (h : msg.bytes ∈ messages) :
    Content pageSize messages (some (msg.bytes ++ [0])) :=
  .holds msg.bytes 1 h msg.nul_free (.inl Nat.one_pos)

theorem content_writer {messages : List (List Byte)} {object : Option (List Byte)} {msg : Text}
    {fails : Option WriterCall} (h : Content pageSize messages object)
    (hu : Undisturbed pageSize ⟨object, messages⟩ (.writer [msg] fails)) :
    Content pageSize (messages ++ [msg.bytes]) (writerMain object [msg] fails).2 := by
  have hnew : Content pageSize (messages ++ [msg.bytes]) (some (msg.bytes ++ [0])) :=
    content_copied msg (by simp)
  have hcopied : writeAt (truncate (object.getD []) (strlen msg.bytes + 1)) 0 (msg.bytes ++ [0]) =
      msg.bytes ++ [0] := copy_replaces _ msg
  cases fails with
  | none =>
    change Content pageSize _ (some (writeAt _ 0 _))
    rwa [hcopied]
  | some call =>
    cases call with
    | shmOpen => exact h.mono
    | ftruncate =>
      change Content pageSize _ (some (object.getD []))
      cases h with
      | absent => exact .empty
      | empty => exact .empty
      | holds m k hmem hm hk => exact .holds m k (List.mem_append_left _ hmem) hm hk
    | mmap => exact (content_resized h hu).mono
    | close => exact (content_resized h hu).mono
    | munmap =>
      change Content pageSize _ (some (writeAt _ 0 _))
      rwa [hcopied]

theorem content_next {r : Run} (h : Content pageSize s.messages s.object)
    (hu : Undisturbed pageSize s r) : Content pageSize (s.next r).messages (s.next r).object := by
  cases r with
  | reader => exact h
  | cleaner => exact .absent
  | writer args fails =>
    match args with
    | [msg] => exact content_writer h hu
    | [] => exact h.mono
    | _ :: _ :: _ => exact h.mono

theorem content_reachable (h : store.ReachableWhile (Undisturbed pageSize) s) :
    Content pageSize s.messages s.object := by
  apply System.ReachableWhile.induct (I := fun s => Content pageSize s.messages s.object) ?_ ?_ h
  · rintro _ rfl
    exact .absent
  · rintro s r _ _ hs hu ⟨⟩
    exact content_next hs hu

theorem faithful_of_content (hp : 0 < pageSize) (h : Content pageSize s.messages s.object) :
    s.Faithful pageSize := by
  unfold Store.Faithful
  generalize s.object = object at h
  cases h with
  | absent => exact .inl rfl
  | empty => exact .inl rfl
  | holds m k hmem hm hk => exact .inr ⟨m, hmem, reader_text hp hm hk⟩

theorem reader_created (pageSize : ℕ) (object : Option (List Byte)) :
    readerMain pageSize (some (object.getD [])) = readerMain pageSize object := by
  cases object <;> rfl

theorem reader_kept_iff (hp : 0 < pageSize) (h : Content pageSize s.messages s.object)
    {args : List Text} {fails : Option WriterCall} (hb : BeforeCopy args fails) :
    readerMain pageSize (s.next (.writer args fails)).object = readerMain pageSize s.object ↔
      Undisturbed pageSize s (.writer args fails) := by
  match args with
  | [] => exact ⟨fun _ => trivial, fun _ => rfl⟩
  | _ :: _ :: _ => exact ⟨fun _ => trivial, fun _ => rfl⟩
  | [msg] =>
    obtain ⟨hnone, hmunmap⟩ := hb msg rfl
    cases fails with
    | none => exact absurd rfl hnone
    | some call =>
      cases call with
      | shmOpen => exact ⟨fun _ => trivial, fun _ => rfl⟩
      | ftruncate => exact ⟨fun _ => trivial, fun _ => reader_created pageSize s.object⟩
      | mmap => exact resized_iff hp h
      | close => exact resized_iff hp h
      | munmap => exact absurd rfl hmunmap

/-- As long as every run of the writer that fails between its `ftruncate` and its `memcpy` finds an
object that covers its length, the reader prints whole messages, and exactly then a run that fails
before its copy leaves what the reader prints. -/
theorem store_faithful (hp : 0 < pageSize) (h : store.ReachableWhile (Undisturbed pageSize) s) :
    s.Faithful pageSize ∧ ∀ args fails, BeforeCopy args fails →
      (readerMain pageSize (s.next (.writer args fails)).object = readerMain pageSize s.object ↔
        Undisturbed pageSize s (.writer args fails)) := by
  have hc := content_reachable h
  exact ⟨faithful_of_content hp hc, fun args fails hb => reader_kept_iff hp hc hb⟩

def hello : Text := ⟨[104, 101, 108, 108, 111], by simp⟩

theorem hi_nul_free : ∀ b ∈ ([104, 105] : List Byte), b ≠ 0 := by simp

def hi : Text := ⟨[104, 105], hi_nul_free⟩

theorem store_faithful_longer : ∃ s : Store, s.object = some [104, 105, 0, 0, 0, 0] ∧
    s.Faithful 4096 ∧ ∀ args fails, BeforeCopy args fails →
      (readerMain 4096 (s.next (.writer args fails)).object = readerMain 4096 s.object ↔
        Undisturbed 4096 s (.writer args fails)) := by
  have hcovers : Undisturbed 4096 ((⟨none, []⟩ : Store).next (.writer [hi] none))
      (.writer [hello] (some .close)) := ⟨[104, 105, 0], by decide, by decide, by decide⟩
  have hr := (System.ReachableWhile.init rfl : store.ReachableWhile (Undisturbed 4096) ⟨none, []⟩)
  have hfirst : Undisturbed 4096 ⟨none, []⟩ (.writer [hi] none) := trivial
  have hr₁ := System.ReachableWhile.step (.writer [hi] none) hr hfirst rfl
  have hr₂ := System.ReachableWhile.step (.writer [hello] (some .close)) hr₁ hcovers rfl
  exact ⟨_, by decide, store_faithful (by decide) hr₂⟩

theorem store_truncated : ∃ s : Store, store.Reachable s ∧
    readerMain 4096 s.object = .text [104, 101, 108] ∧ ¬ s.Faithful 4096 := by
  have hr := (System.ReachableWhile.init rfl : store.Reachable ⟨none, []⟩)
  have hr₁ := System.Reachable.step (.writer [hello] none) hr rfl
  have hr₂ := System.Reachable.step (.writer [hi] (some .mmap)) hr₁ rfl
  refine ⟨_, hr₂, by decide, ?_⟩
  rintro (he | ⟨m, hm, he⟩)
  · revert he
    decide
  · revert m
    decide

end LinuxSystemProgramming.SharedStore
