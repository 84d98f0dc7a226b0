import LinuxSystemProgramming.Lib.Mutex
import LinuxSystemProgramming.Lib.Transition
import Mathlib.Logic.Function.Basic

/-!
Threads that run straight through their code and meet at one mutex, at flags and condition
variables, and at creation and join. `await f c` is the loop that waits on `c` while `f` is not
set, with the test and the wait as two steps, so that a signal between them can be lost. One thread
awaits each condition, so a signal wakes whoever waits on it.
-/

namespace LinuxSystemProgramming.Threads

open Mutex Transition

inductive Instr (τ φ κ ω : Type*)
  | lock
  | unlock
  | set (f : φ)
  | signal (c : κ)
  | await (f : φ) (c : κ)
  | create (t : τ)
  | join (t : τ)
  | act (w : ω)
  deriving DecidableEq

/-- `mayFail` says which acts end the process when they fail. -/
structure Program (τ φ κ ω : Type*) where
  main : τ
  code : τ → List (Instr τ φ κ ω)
  mayFail : ω → Bool

inductive Mode
  | unborn
  | ready
  | tested
  | waiting
  | woken
  deriving DecidableEq

/-- `trace` has the positions passed, in the order of the run. -/
structure State (τ φ : Type*) where
  mode : τ → Mode
  pc : τ → ℕ
  owner : Option τ
  flag : φ → Bool
  trace : List (τ × ℕ)
  failed : Bool

inductive Action (τ : Type*)
  | run (t : τ)
  | spurious (t : τ)
  | fail (t : τ)
  deriving DecidableEq

variable {τ φ κ ω : Type*}

namespace State

variable [DecidableEq τ]

def advance (s : State τ φ) (t : τ) : State τ φ :=
  { s with pc := Function.update s.pc t (s.pc t + 1), trace := s.trace ++ [(t, s.pc t)] }

def setMode (s : State τ φ) (t : τ) (m : Mode) : State τ φ :=
  { s with mode := Function.update s.mode t m }

def setOwner (s : State τ φ) (o : Option τ) : State τ φ := { s with owner := o }

def setFlag [DecidableEq φ] (s : State τ φ) (f : φ) : State τ φ :=
  { s with flag := Function.update s.flag f true }

end State

namespace Program

variable (P : Program τ φ κ ω) (s : State τ φ) (t : τ)

def instr : Option (Instr τ φ κ ω) := (P.code t)[s.pc t]?

def ended : Prop := s.mode t = .ready ∧ s.pc t = (P.code t).length

instance : Decidable (P.ended s t) := inferInstanceAs (Decidable (_ ∧ _))

def waitsOn [DecidableEq κ] (c : κ) : Bool :=
  match s.mode t, P.instr s t with
  | .waiting, some (.await _ d) => decide (c = d)
  | _, _ => false

def wake [DecidableEq κ] (c : κ) : State τ φ :=
  { s with mode := fun t => if P.waitsOn s t c then .woken else s.mode t }

def initial [DecidableEq τ] : State τ φ where
  mode t := if t = P.main then .ready else .unborn
  pc _ := 0
  owner := none
  flag _ := false
  trace := []
  failed := false

variable [DecidableEq τ] [DecidableEq φ] [DecidableEq κ]

def exec : Option (State τ φ) :=
  match s.mode t, P.instr s t with
  | .ready, some .lock => (acquire s.owner t).map (s.advance t).setOwner
  | .ready, some .unlock => (release s.owner t).map (s.advance t).setOwner
  | .ready, some (.set f) => some ((s.advance t).setFlag f)
  | .ready, some (.signal c) => some ((P.wake s c).advance t)
  | .ready, some (.await f _) => some (if s.flag f then s.advance t else s.setMode t .tested)
  | .tested, some (.await _ _) => (release s.owner t).map (s.setMode t .waiting).setOwner
  | .woken, some (.await _ _) => (acquire s.owner t).map (s.setMode t .ready).setOwner
  | .ready, some (.create u) =>
    if s.mode u = .unborn then some ((s.setMode u .ready).advance t) else none
  | .ready, some (.join u) => if P.ended s u then some (s.advance t) else none
  | .ready, some (.act _) => some (s.advance t)
  | _, _ => none

def fails : Bool :=
  match s.mode t, P.instr s t with
  | .tested, some (.await _ _) => true
  | .ready, some (.act w) => P.mayFail w
  | .ready, some (.set _) | .ready, some (.await _ _) => false
  | .ready, some _ => true
  | _, _ => false

def next : Action τ → Option (State τ φ)
  | .run t => if s.failed then none else P.exec s t
  | .spurious t =>
    if s.failed = false ∧ s.mode t = .waiting then some (s.setMode t .woken) else none
  | .fail t => if s.failed = false ∧ P.fails s t then some { s with failed := true } else none

def system : System (State τ φ) (Action τ) where
  init s := s = P.initial
  next s a := P.next s a

end Program

inductive Step [DecidableEq τ] [DecidableEq φ] [DecidableEq κ] (P : Program τ φ κ ω)
    (s : State τ φ) : Action τ → State τ φ → Prop
  | lock {t} (hm : s.mode t = .ready) (hx : P.instr s t = some .lock) (ho : s.owner = none) :
      Step P s (.run t) ((s.advance t).setOwner (some t))
  | unlock {t} (hm : s.mode t = .ready) (hx : P.instr s t = some .unlock)
      (ho : s.owner = some t) : Step P s (.run t) ((s.advance t).setOwner none)
  | set {t f} (hm : s.mode t = .ready) (hx : P.instr s t = some (.set f)) :
      Step P s (.run t) ((s.advance t).setFlag f)
  | signal {t c} (hm : s.mode t = .ready) (hx : P.instr s t = some (.signal c)) :
      Step P s (.run t) ((P.wake s c).advance t)
  | pass {t f c} (hm : s.mode t = .ready) (hx : P.instr s t = some (.await f c))
      (hf : s.flag f = true) : Step P s (.run t) (s.advance t)
  | test {t f c} (hm : s.mode t = .ready) (hx : P.instr s t = some (.await f c))
      (hf : s.flag f = false) : Step P s (.run t) (s.setMode t .tested)
  | wait {t f c} (hm : s.mode t = .tested) (hx : P.instr s t = some (.await f c))
      (ho : s.owner = some t) : Step P s (.run t) ((s.setMode t .waiting).setOwner none)
  | relock {t f c} (hm : s.mode t = .woken) (hx : P.instr s t = some (.await f c))
      (ho : s.owner = none) : Step P s (.run t) ((s.setMode t .ready).setOwner (some t))
  | create {t u} (hm : s.mode t = .ready) (hx : P.instr s t = some (.create u))
      (hu : s.mode u = .unborn) : Step P s (.run t) ((s.setMode u .ready).advance t)
  | join {t u} (hm : s.mode t = .ready) (hx : P.instr s t = some (.join u))
      (hu : P.ended s u) : Step P s (.run t) (s.advance t)
  | act {t w} (hm : s.mode t = .ready) (hx : P.instr s t = some (.act w)) :
      Step P s (.run t) (s.advance t)
  | spurious {t} (hm : s.mode t = .waiting) : Step P s (.spurious t) (s.setMode t .woken)
  | fail {t} (hf : P.fails s t = true) : Step P s (.fail t) { s with failed := true }

namespace State

variable {s : State τ φ} {t u : τ} {m : Mode} {o : Option τ} {f : φ}

@[simp] theorem setOwner_mode : (s.setOwner o).mode = s.mode := rfl
@[simp] theorem setOwner_pc : (s.setOwner o).pc = s.pc := rfl
@[simp] theorem setOwner_owner : (s.setOwner o).owner = o := rfl
@[simp] theorem setOwner_flag : (s.setOwner o).flag = s.flag := rfl
@[simp] theorem setOwner_trace : (s.setOwner o).trace = s.trace := rfl

section

variable [DecidableEq φ]

@[simp] theorem setFlag_mode : (s.setFlag f).mode = s.mode := rfl
@[simp] theorem setFlag_pc : (s.setFlag f).pc = s.pc := rfl
@[simp] theorem setFlag_owner : (s.setFlag f).owner = s.owner := rfl
@[simp] theorem setFlag_trace : (s.setFlag f).trace = s.trace := rfl

end

variable [DecidableEq τ]

@[simp] theorem advance_mode : (s.advance t).mode = s.mode := rfl
@[simp] theorem advance_owner : (s.advance t).owner = s.owner := rfl
@[simp] theorem advance_flag : (s.advance t).flag = s.flag := rfl
@[simp] theorem advance_trace : (s.advance t).trace = s.trace ++ [(t, s.pc t)] := rfl
@[simp] theorem setMode_pc : (s.setMode t m).pc = s.pc := rfl
@[simp] theorem setMode_owner : (s.setMode t m).owner = s.owner := rfl
@[simp] theorem setMode_flag : (s.setMode t m).flag = s.flag := rfl
@[simp] theorem setMode_trace : (s.setMode t m).trace = s.trace := rfl

@[simp] theorem advance_pc_self : (s.advance t).pc t = s.pc t + 1 := by simp [advance]

theorem advance_pc_of_ne (h : u ≠ t) : (s.advance t).pc u = s.pc u := by simp [advance, h]

@[simp] theorem setMode_mode_self : (s.setMode t m).mode t = m := by simp [setMode]

theorem setMode_mode_of_ne (h : u ≠ t) : (s.setMode t m).mode u = s.mode u := by
  simp [setMode, h]

end State

section

variable [DecidableEq κ] {P : Program τ φ κ ω} {s : State τ φ} {t : τ} {c : κ}

@[simp] theorem wake_pc : (P.wake s c).pc = s.pc := rfl
@[simp] theorem wake_owner : (P.wake s c).owner = s.owner := rfl
@[simp] theorem wake_flag : (P.wake s c).flag = s.flag := rfl
@[simp] theorem wake_trace : (P.wake s c).trace = s.trace := rfl

theorem waitsOn_iff :
    P.waitsOn s t c = true ↔ s.mode t = .waiting ∧ ∃ f, P.instr s t = some (.await f c) := by
  unfold Program.waitsOn
  split
  next f d hm hx => simp [hm, hx, eq_comm]
  next hn =>
    constructor
    · intro h
      cases h
    · rintro ⟨hm, f, hx⟩
      exact (hn f c hm hx).elim

end

variable [DecidableEq τ] [DecidableEq φ] [DecidableEq κ] {P : Program τ φ κ ω} {s s' : State τ φ}

theorem step_of_exec {t : τ} (h : P.exec s t = some s') : Step P s (.run t) s' := by
  unfold Program.exec at h
  split at h
  next hm hx =>
    obtain ⟨o, ho, rfl⟩ := Option.map_eq_some_iff.mp h
    obtain ⟨hn, rfl⟩ := acquire_eq_some.mp ho
    exact .lock hm hx hn
  next hm hx =>
    obtain ⟨o, ho, rfl⟩ := Option.map_eq_some_iff.mp h
    obtain ⟨hn, rfl⟩ := release_eq_some.mp ho
    exact .unlock hm hx hn
  next hm hx => cases h; exact .set hm hx
  next hm hx => cases h; exact .signal hm hx
  next f c hm hx =>
    cases h
    split
    next hf => exact .pass hm hx hf
    next hf => exact .test hm hx (Bool.eq_false_iff.mpr hf)
  next hm hx =>
    obtain ⟨o, ho, rfl⟩ := Option.map_eq_some_iff.mp h
    obtain ⟨hn, rfl⟩ := release_eq_some.mp ho
    exact .wait hm hx hn
  next hm hx =>
    obtain ⟨o, ho, rfl⟩ := Option.map_eq_some_iff.mp h
    obtain ⟨hn, rfl⟩ := acquire_eq_some.mp ho
    exact .relock hm hx hn
  next hm hx =>
    obtain ⟨hu, h⟩ := Option.ite_none_right_eq_some.mp h
    cases h
    exact .create hm hx hu
  next hm hx =>
    obtain ⟨hu, h⟩ := Option.ite_none_right_eq_some.mp h
    cases h
    exact .join hm hx hu
  next hm hx => cases h; exact .act hm hx
  next => cases h

theorem exec_of_step {t : τ} (h : Step P s (.run t) s') : P.exec s t = some s' := by
  cases h with
  | lock hm hx ho => simp [Program.exec, hm, hx, acquire, ho]
  | unlock hm hx ho => simp [Program.exec, hm, hx, release, ho]
  | set hm hx => simp [Program.exec, hm, hx]
  | signal hm hx => simp [Program.exec, hm, hx]
  | pass hm hx hf => simp [Program.exec, hm, hx, hf]
  | test hm hx hf => simp [Program.exec, hm, hx, hf]
  | wait hm hx ho => simp [Program.exec, hm, hx, release, ho]
  | relock hm hx ho => simp [Program.exec, hm, hx, acquire, ho]
  | create hm hx hu => simp [Program.exec, hm, hx, hu]
  | join hm hx hu => simp [Program.exec, hm, hx, hu]
  | act hm hx => simp [Program.exec, hm, hx]

theorem next_iff {a : Action τ} :
    P.next s a = some s' ↔ s.failed = false ∧ Step P s a s' := by
  cases a with
  | run t =>
    constructor
    · intro h
      obtain ⟨hf, h⟩ := Option.ite_none_left_eq_some.mp h
      exact ⟨Bool.eq_false_iff.mpr hf, step_of_exec h⟩
    · rintro ⟨hf, h⟩
      simp [Program.next, hf, exec_of_step h]
  | spurious t =>
    constructor
    · intro h
      obtain ⟨⟨hf, hm⟩, h⟩ := Option.ite_none_right_eq_some.mp h
      cases h
      exact ⟨hf, .spurious hm⟩
    · rintro ⟨hf, h⟩
      cases h with
      | spurious hm => simp [Program.next, hf, hm]
  | fail t =>
    constructor
    · intro h
      obtain ⟨⟨hf, hm⟩, h⟩ := Option.ite_none_right_eq_some.mp h
      cases h
      exact ⟨hf, .fail hm⟩
    · rintro ⟨hf, h⟩
      cases h with
      | fail hm => simp [Program.next, hf, hm]

inductive Move (P : Program τ φ κ ω) (s : State τ φ) (a : Action τ) (s' : State τ φ) (t : τ) : Prop
  | stay (hm : s'.mode t = s.mode t) (hp : s'.pc t = s.pc t)
  | pass {x : Instr τ φ κ ω} (ha : a = .run t) (hx : P.instr s t = some x)
      (hm : s.mode t = .ready) (hm' : s'.mode t = .ready) (hp : s'.pc t = s.pc t + 1)
  | test {f : φ} {c : κ} (ha : a = .run t) (hx : P.instr s t = some (.await f c))
      (hf : s.flag f = false) (hm : s.mode t = .ready) (hm' : s'.mode t = .tested)
      (hp : s'.pc t = s.pc t)
  | wait {f : φ} {c : κ} (ha : a = .run t) (hx : P.instr s t = some (.await f c))
      (hm : s.mode t = .tested) (hm' : s'.mode t = .waiting) (hp : s'.pc t = s.pc t)
  | wake (ha : a = .spurious t ∨ ∃ v f c, a = .run v ∧ P.instr s v = some (.signal c) ∧
        P.instr s t = some (.await f c))
      (hm : s.mode t = .waiting) (hm' : s'.mode t = .woken) (hp : s'.pc t = s.pc t)
  | relock {f : φ} {c : κ} (ha : a = .run t) (hx : P.instr s t = some (.await f c))
      (hm : s.mode t = .woken) (hm' : s'.mode t = .ready) (hp : s'.pc t = s.pc t)
  | birth {v : τ} (ha : a = .run v) (hx : P.instr s v = some (.create t))
      (hm : s.mode t = .unborn) (hm' : s'.mode t = .ready) (hp : s'.pc t = s.pc t)

variable {t u : τ} {x : Instr τ φ κ ω} {a : Action τ}

omit [DecidableEq φ] [DecidableEq κ] in
theorem move_of_mode {m : Mode} (hs : s'.mode = (s.setMode u m).mode ∧ s'.pc = s.pc)
    (h : Move P s a s' u) (t : τ) : Move P s a s' t := by
  by_cases ht : t = u
  · exact ht ▸ h
  · apply Move.stay
    · rw [hs.1, State.setMode_mode_of_ne ht]
    · rw [hs.2]

omit [DecidableEq φ] [DecidableEq κ] in
theorem move_of_pass (hs : s'.mode = s.mode ∧ s'.pc = (s.advance u).pc)
    (hr : s.mode u = .ready) (hx : P.instr s u = some x) (t : τ) : Move P s (.run u) s' t := by
  by_cases ht : t = u
  · subst ht
    exact .pass rfl hx hr (by rw [hs.1, hr]) (by rw [hs.2, State.advance_pc_self])
  · exact .stay (by rw [hs.1]) (by rw [hs.2, State.advance_pc_of_ne ht])

theorem Step.move (h : Step P s a s') (t : τ) : Move P s a s' t := by
  cases h with
  | lock hm hx ho => exact move_of_pass (by constructor <;> rfl) hm hx t
  | unlock hm hx ho => exact move_of_pass (by constructor <;> rfl) hm hx t
  | set hm hx => exact move_of_pass (by constructor <;> rfl) hm hx t
  | pass hm hx hf => exact move_of_pass (by constructor <;> rfl) hm hx t
  | join hm hx hu => exact move_of_pass (by constructor <;> rfl) hm hx t
  | act hm hx => exact move_of_pass (by constructor <;> rfl) hm hx t
  | test hm hx hf =>
    refine move_of_mode (by constructor <;> rfl) ?_ t
    exact .test rfl hx hf hm (State.setMode_mode_self) rfl
  | wait hm hx ho =>
    refine move_of_mode (by constructor <;> rfl) ?_ t
    apply Move.wait rfl hx hm
    · simp
    · rfl
  | relock hm hx ho =>
    refine move_of_mode (by constructor <;> rfl) ?_ t
    apply Move.relock rfl hx hm
    · simp
    · rfl
  | spurious hm =>
    refine move_of_mode (by constructor <;> rfl) ?_ t
    exact .wake (.inl rfl) hm (State.setMode_mode_self) rfl
  | fail hf => exact .stay rfl rfl
  | @signal u c hm hx =>
    by_cases ht : t = u
    · subst ht
      apply Move.pass rfl hx hm
      · simp [Program.wake, waitsOn_iff, hm]
      · simp
    · by_cases hw : P.waitsOn s t c = true
      · obtain ⟨hwait, f, hf⟩ := waitsOn_iff.mp hw
        apply Move.wake (.inr ⟨u, f, c, rfl, hx, hf⟩) hwait
        · simp [Program.wake, hw]
        · simp [State.advance_pc_of_ne ht]
      · apply Move.stay
        · simp [Program.wake, hw]
        · simp [State.advance_pc_of_ne ht]
  | @create v u hm hx hu =>
    have hne : u ≠ v := by
      rintro rfl
      rw [hm] at hu
      cases hu
    by_cases ht : t = v
    · subst ht
      apply Move.pass rfl hx hm
      · rw [State.advance_mode, State.setMode_mode_of_ne hne.symm, hm]
      · simp
    · by_cases htu : t = u
      · subst htu
        apply Move.birth rfl hx hu
        · simp
        · simp [State.advance_pc_of_ne ht]
      · apply Move.stay
        · rw [State.advance_mode, State.setMode_mode_of_ne htu]
        · simp [State.advance_pc_of_ne ht]

inductive Effect (P : Program τ φ κ ω) (s : State τ φ) (a : Action τ) (s' : State τ φ) : Prop
  | none (ht : s'.trace = s.trace) (hp : s'.pc = s.pc) (hf : s'.flag = s.flag)
      (hb : ∀ u, s'.mode u = .unborn ↔ s.mode u = .unborn)
  | pass {t : τ} {x : Instr τ φ κ ω} (ha : a = .run t) (hm : s.mode t = .ready)
      (hx : P.instr s t = some x) (ht : s'.trace = s.trace ++ [(t, s.pc t)])
      (hp : s'.pc = (s.advance t).pc) (hf : ∀ f, s'.flag f = true ↔ s.flag f = true ∨ x = .set f)
      (hb : ∀ u, s'.mode u = .unborn ↔ s.mode u = .unborn ∧ x ≠ .create u)
      (hawait : ∀ f c, x = .await f c → s.flag f = true) (hjoin : ∀ u, x = .join u → P.ended s u)
      (hsignal : ∀ c u, x = .signal c → P.waitsOn s u c = true → s'.mode u = .woken)

omit [DecidableEq φ] [DecidableEq κ] in
theorem setMode_unborn {m : Mode} (hm : s.mode t ≠ .unborn) (hm' : m ≠ .unborn) (u : τ) :
    (s.setMode t m).mode u = .unborn ↔ s.mode u = .unborn := by
  by_cases hu : u = t
  · subst hu
    simp [hm, hm']
  · rw [State.setMode_mode_of_ne hu]

theorem Step.effect (h : Step P s a s') : Effect P s a s' := by
  cases h with
  | lock hm hx ho =>
    exact .pass rfl hm hx rfl rfl (by simp) (by simp) (by simp) (by simp) (by simp)
  | unlock hm hx ho =>
    exact .pass rfl hm hx rfl rfl (by simp) (by simp) (by simp) (by simp) (by simp)
  | @set t f hm hx =>
    refine .pass rfl hm hx rfl rfl (fun g => ?_) (by simp) (by simp) (by simp) (by simp)
    by_cases hg : g = f
    · simp [State.setFlag, hg]
    · simp [State.setFlag, hg, Ne.symm hg]
  | @signal t c hm hx =>
    refine .pass rfl hm hx rfl rfl (by simp) (fun u => ?_) (by simp) (by simp) ?_
    · by_cases hw : P.waitsOn s u c = true
      · simp [Program.wake, hw, (waitsOn_iff.mp hw).1]
      · simp [Program.wake, hw]
    · rintro d u ⟨⟩ hw
      simp [Program.wake, hw]
  | pass hm hx hf =>
    refine .pass rfl hm hx rfl rfl (by simp) (by simp) ?_ (by simp) (by simp)
    rintro g c ⟨⟩
    exact hf
  | @create v u hm hx hu =>
    refine .pass rfl hm hx rfl rfl (by simp) (fun w => ?_) (by simp) (by simp) (by simp)
    by_cases hw : w = u
    · subst hw
      simp
    · simp [State.setMode_mode_of_ne hw, Ne.symm hw]
  | join hm hx hu =>
    refine .pass rfl hm hx rfl rfl (by simp) (by simp) (by simp) ?_ (by simp)
    rintro v ⟨⟩
    exact hu
  | act hm hx =>
    exact .pass rfl hm hx rfl rfl (by simp) (by simp) (by simp) (by simp) (by simp)
  | test hm hx hf => exact .none rfl rfl rfl (setMode_unborn (by simp [hm]) (by simp))
  | wait hm hx ho => exact .none rfl rfl rfl (setMode_unborn (by simp [hm]) (by simp))
  | relock hm hx ho => exact .none rfl rfl rfl (setMode_unborn (by simp [hm]) (by simp))
  | spurious hm => exact .none rfl rfl rfl (setMode_unborn (by simp [hm]) (by simp))
  | fail hf => exact .none rfl rfl rfl (fun u => Iff.rfl)

theorem Step.moves (h : Step P s (.run t) s') : s'.mode t ≠ s.mode t ∨ s'.pc t ≠ s.pc t := by
  cases h with
  | test hm hx hf => simp [hm]
  | wait hm hx ho => simp [hm]
  | relock hm hx ho => simp [hm]
  | lock | unlock | set | signal | pass | create | join | act => right; simp

theorem Step.failed (h : Step P s (.run t) s') : s'.failed = s.failed := by
  cases h <;> rfl

end LinuxSystemProgramming.Threads
