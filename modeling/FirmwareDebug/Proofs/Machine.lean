import FirmwareDebug.Machine
import FirmwareDebug.Proofs.Alike

/-!
# What the machine does with its host

The machine only reaches the state of its host through the host's own functions. So on two hosts that
are alike its runs are alike, and it keeps whatever its host keeps. Every fault that is not the host's
it makes itself: none but the end of the program says that a conditional is open.
-/

namespace FirmwareDebug

open Run

variable {σ τ : Type} {Allowed : Fault → Prop}

/-- All that two hosts do is alike. -/
structure Host.Alike (R : σ → τ → Prop) (Allowed : Fault → Prop) (host : Host σ) (other : Host τ) : Prop where
  readMemory : ∀ address length,
    FirmwareDebug.Alike R Allowed (host.readMemory address length) (other.readMemory address length)
  readRegister : ∀ register,
    FirmwareDebug.Alike R Allowed (host.readRegister register) (other.readRegister register)
  entryValue : ∀ block, FirmwareDebug.Alike R Allowed (host.entryValue block) (other.entryValue block)

/-- Runs of two machines that are alike: related machines with related hosts are left so. -/
def Run.AlikeOn (M : Machine → Machine → Prop) (R : σ → τ → Prop) (Allowed : Fault → Prop) {α : Type}
    (run : Run σ α) (other : Run τ α) : Prop :=
  FirmwareDebug.Alike (fun s t => M s.1 t.1 ∧ R s.2 t.2) Allowed run other

/-- Runs of the machine that are alike: they leave the same machine and related hosts. -/
def Run.Alike (R : σ → τ → Prop) (Allowed : Fault → Prop) {α : Type} (run : Run σ α) (other : Run τ α) : Prop :=
  run.AlikeOn Eq R Allowed other

/--
Related machines look the same to all words but those for the frame base, and stay related through all that words do.
-/
structure Machine.Related (M : Machine → Machine → Prop) : Prop where
  stack_eq : ∀ {m n}, M m n → m.stack = n.stack
  cfa_eq : ∀ {m n}, M m n → m.cfa = n.cfa
  unwinding_eq : ∀ {m n}, M m n → m.unwinding = n.unwinding
  stack : ∀ {m n}, M m n → ∀ stack, M { m with stack } { n with stack }
  kind : ∀ {m n}, M m n → M { m with kind := .value } { n with kind := .value }
  register : ∀ {m n}, M m n → ∀ register, M { m with register := some register } { n with register := some register }
  closePiece : ∀ {m n}, M m n → ∀ size, M (m.closePiece size) (n.closePiece size)
  unwinding : ∀ {m n}, M m n → m.unwinding ≠ none → ∀ unwinding,
    M { m with unwinding := some unwinding } { n with unwinding := some unwinding }

theorem Machine.related_eq : Machine.Related Eq where
  stack_eq h := congrArg _ h
  cfa_eq h := congrArg _ h
  unwinding_eq h := congrArg _ h
  stack h _ := by rw [h]
  kind h := by rw [h]
  register h _ := by rw [h]
  closePiece h _ := by rw [h]
  unwinding h _ _ := by rw [h]

/-- All that a host does keeps an invariant of its state, and fails only as allowed. -/
structure Host.Keeps (Inv : σ → Prop) (Allowed : Fault → Prop) (host : Host σ) : Prop where
  readMemory : ∀ address length, FirmwareDebug.Keeps Inv Allowed (host.readMemory address length)
  readRegister : ∀ register, FirmwareDebug.Keeps Inv Allowed (host.readRegister register)
  entryValue : ∀ block, FirmwareDebug.Keeps Inv Allowed (host.entryValue block)

theorem Host.Keeps.alike {Inv : σ → Prop} {host : Host σ} (h : host.Keeps Inv Allowed) :
    host.Alike (fun s t => s = t ∧ Inv s) Allowed host :=
  ⟨fun address length => (h.readMemory address length).alike, fun register => (h.readRegister register).alike,
    fun block => (h.entryValue block).alike⟩

/-- A run of the machine that keeps an invariant of the host. -/
def Run.Keeps (Inv : σ → Prop) (Allowed : Fault → Prop) {α : Type} (run : Run σ α) : Prop :=
  FirmwareDebug.Keeps (fun s : Machine × σ => Inv s.2) Allowed run

/-- Faults other than the one for an open conditional. -/
def NotOpenIf (e : Fault) : Prop := e ≠ .evaluation .openIf

theorem apply_not_openIf {op : BinaryOp} {second top : UInt32} {obstacle : Obstacle}
    (h : op.apply second top = .error obstacle) : NotOpenIf (.evaluation obstacle) := by
  cases op <;> simp only [BinaryOp.apply, reduceCtorEq] at h
  all_goals
    split at h <;> cases h
    exact nofun

namespace Run

/-! ## One word -/

section

variable {M : Machine → Machine → Prop} {R : σ → τ → Prop}

theorem alike_host {α : Type} {ask : EStateM Fault σ α} {other : EStateM Fault τ α}
    (h : FirmwareDebug.Alike R Allowed ask other) : (Run.host ask).AlikeOn M R Allowed (Run.host other) := by
  rintro ⟨m, s⟩ ⟨n, t⟩ ⟨hmn, hst⟩
  show EndAlike _ Allowed (Run.host ask (m, s)) (Run.host other (n, t))
  unfold Run.host
  obtain ⟨a, s', t', hask, hother, hlast⟩ | ⟨e, s', t', hask, hother, he, hlast⟩ := (h s t hst).cases
  · simp only [hask, hother]
    exact ⟨rfl, hmn, hlast⟩
  · simp only [hask, hother]
    exact ⟨⟨rfl, he⟩, hmn, hlast⟩

theorem alike_machine {α : Type} {f : Machine → Run σ α} {g : Machine → Run τ α}
    (h : ∀ m n, M m n → (f m).AlikeOn M R Allowed (g n)) : (machine >>= f).AlikeOn M R Allowed (machine >>= g) :=
  fun s t hst => h s.1 t.1 hst.1 s t hst

theorem alike_modifyMachine (f : Machine → Machine) (h : ∀ m n, M m n → M (f m) (f n)) :
    (modifyMachine f : Run σ Unit).AlikeOn M R Allowed (modifyMachine f) :=
  .modify fun s t hst => ⟨h s.1 t.1 hst.1, hst.2⟩

variable (related : Machine.Related M)
include related

theorem alike_push (cell : UInt32) : (push cell : Run σ Unit).AlikeOn M R Allowed (push cell) := by
  refine alike_modifyMachine _ fun m n hmn => ?_
  rw [related.stack_eq hmn]
  exact related.stack hmn _

variable (allowed : ∀ e, NotOpenIf e → Allowed e)
include allowed

omit related in
theorem alike_throw {α : Type} {e : Fault} (h : NotOpenIf e) :
    (throw e : Run σ α).AlikeOn M R Allowed (throw e) :=
  .throw (allowed e h)

theorem alike_pop (word : Word) : (pop word : Run σ UInt32).AlikeOn M R Allowed (pop word) := by
  refine alike_machine fun m n hmn => ?_
  rw [← related.stack_eq hmn]
  split
  · exact alike_throw allowed nofun
  · rename_i cell stack hstack
    have hset : (modifyMachine fun m => { m with stack } : Run σ Unit).AlikeOn M R Allowed
        (modifyMachine fun m => { m with stack }) := alike_modifyMachine _ fun m n hmn => related.stack hmn stack
    exact hset.bind fun _ => .pure _

theorem alike_pick (word : Word) (depth : Nat) :
    (pick word depth : Run σ Unit).AlikeOn M R Allowed (pick word depth) := by
  refine alike_machine fun m n hmn => ?_
  rw [← related.stack_eq hmn]
  cases m.stack[depth]? with
  | none => exact alike_throw allowed nofun
  | some cell => exact alike_push related cell

theorem alike_pushOr (e : Fault) (h : NotOpenIf e) (f : UInt32 → UInt32) (cell : Option UInt32) :
    (pushOr e f cell : Run σ Unit).AlikeOn M R Allowed (pushOr e f cell) := by
  cases cell with
  | none => exact alike_throw allowed h
  | some cell => exact alike_push related _

variable {host : Host σ} {other : Host τ}

theorem alike_deref (h : host.Alike R Allowed other) (word : Word) (size : UInt8) :
    (deref host word size).AlikeOn M R Allowed (deref other word size) := by
  refine (alike_pop related allowed word).bind fun address => ?_
  refine (alike_host (h.readMemory address _)).bind fun bytes => ?_
  dsimp only
  split
  · exact (alike_throw (e := .memoryUnavailable _ _) allowed nofun).bind fun _ => alike_push related _
  · exact alike_push related _

theorem alike_step (h : host.Alike R Allowed other) (word : Word)
    (hbase : ∀ offset, word = .frameBase offset → ∀ m n, M m n → m.frameBase = n.frameBase) :
    (step host word).AlikeOn M R Allowed (step other word) := by
  have hpush (cell : UInt32) : (push cell : Run σ Unit).AlikeOn M R Allowed (push cell) := alike_push related cell
  have hpop {α : Type} (f : UInt32 → Run σ α) (g : UInt32 → Run τ α)
      (hf : ∀ cell, (f cell).AlikeOn M R Allowed (g cell)) :
      (pop word >>= f).AlikeOn M R Allowed (pop word >>= g) := (alike_pop related allowed word).bind hf
  cases word with
  | literal value => exact hpush value
  | dup => exact alike_pick related allowed .dup 0
  | drop => exact (alike_pop related allowed .drop).bind fun _ => .pure _
  | dupSecond => exact alike_pick related allowed .dupSecond 1
  | pick depth => exact alike_pick related allowed (.pick depth) depth.toNat
  | swap => exact hpop _ _ fun _ => hpop _ _ fun _ => (hpush _).bind fun _ => hpush _
  | rot =>
    exact hpop _ _ fun _ => hpop _ _ fun _ => hpop _ _ fun _ =>
      (hpush _).bind fun _ => (hpush _).bind fun _ => hpush _
  | deref => exact alike_deref related allowed h .deref 4
  | derefSize size => exact alike_deref related allowed h (.derefSize size) size
  | abs => exact hpop _ _ fun _ => hpush _
  | neg => exact hpop _ _ fun _ => hpush _
  | not => exact hpop _ _ fun _ => hpush _
  | binary op =>
    refine hpop _ _ fun top => hpop _ _ fun second => ?_
    cases hop : op.apply second top with
    | ok cell => exact hpush cell
    | error obstacle => exact alike_throw allowed (apply_not_openIf hop)
  | compare op => exact hpop _ _ fun _ => hpop _ _ fun _ => hpush _
  | zeroEquals => exact hpop _ _ fun _ => hpush _
  | register register =>
    exact alike_modifyMachine (fun m => { m with register := some register }) fun m n hmn => related.register hmn register
  | registerValue register offset =>
    exact (alike_host (h.readRegister register)).bind fun _ => hpush _
  | frameBase offset =>
    refine alike_machine fun m n hmn => ?_
    rw [← hbase offset rfl m n hmn]
    exact alike_pushOr related allowed .frameBaseUnavailable nofun _ m.frameBase
  | callFrameCfa =>
    refine alike_machine fun m n hmn => ?_
    rw [← related.cfa_eq hmn]
    exact alike_pushOr related allowed .cfaUnavailable nofun _ m.cfa
  | stackValue => exact alike_modifyMachine _ fun m n hmn => related.kind hmn
  | implicitValue value => exact (hpush value).bind fun _ => alike_modifyMachine _ fun m n hmn => related.kind hmn
  | piece size =>
    exact alike_modifyMachine (fun m => m.closePiece size) fun m n hmn => related.closePiece hmn size
  | entryValue block => exact (alike_host (h.entryValue block)).bind fun _ => hpush _
  | convert type size signed => exact hpop _ _ fun _ => hpush _
  | unsupported opcode => exact alike_throw allowed nofun
  | ifNonzero | endIf | frame => exact .pure _

end

theorem keeps_of_alike {Inv : σ → Prop} {α : Type} {run : Run σ α}
    (h : run.Alike (fun s t => s = t ∧ Inv s) Allowed run) : run.Keeps Inv Allowed :=
  .of_alike <| h.congr fun s t => by rw [Prod.ext_iff, and_assoc]

section

variable {Inv : σ → Prop} (allowed : ∀ e, NotOpenIf e → Allowed e)
include allowed

theorem keeps_pop (word : Word) : (pop word : Run σ UInt32).Keeps Inv Allowed :=
  keeps_of_alike (alike_pop Machine.related_eq allowed word)

theorem keeps_step {host : Host σ} (h : host.Keeps Inv Allowed) (word : Word) :
    (step host word).Keeps Inv Allowed :=
  keeps_of_alike (alike_step Machine.related_eq allowed h.alike word fun _ _ _ _ => congrArg _)

end

/-! ## Whole programs -/

section

variable {M : Machine → Machine → Prop} {R : σ → τ → Prop} {host : Host σ} {other : Host τ}

theorem run_stepFrame (word : FrameWord) (m : Machine) (s : σ) : stepFrame word (m, s) =
    match m.unwinding with
    | none => .error (.evaluation (.outsideFrameProgram word)) (m, s)
    | some state =>
      match state.step word with
      | .error e => .error e (m, s)
      | .ok none => .ok false (m, s)
      | .ok (some state) => .ok true ({ m with unwinding := some state }, s) := by
  show (match m.unwinding with
    | none => throw (.evaluation (.outsideFrameProgram word))
    | some state => liftExcept (state.step word) >>= _ : Run σ Bool) (m, s) = _
  cases m.unwinding with
  | none => rfl
  | some state =>
    dsimp only
    rw [run_bind]
    rcases state.step word with e | _ | state <;> rfl

theorem alike_stepFrame (related : Machine.Related M) (word : FrameWord) :
    (stepFrame word : Run σ Bool).AlikeOn M R (fun _ => True) (stepFrame word) := by
  rintro ⟨m, s⟩ ⟨n, t⟩ ⟨hmn, hst⟩
  have hunwinding := related.unwinding hmn
  rw [run_stepFrame, run_stepFrame, ← related.unwinding_eq hmn]
  cases hstate : m.unwinding with
  | none => exact ⟨⟨rfl, trivial⟩, hmn, hst⟩
  | some state =>
    dsimp only
    rcases state.step word with e | _ | next
    · exact ⟨⟨rfl, trivial⟩, hmn, hst⟩
    · exact ⟨rfl, hmn, hst⟩
    · exact ⟨rfl, hunwinding (by rw [hstate]; nofun) next, hst⟩

/-- Programs run alike on machines that differ in nothing they look at. -/
theorem alikeOn_words (related : Machine.Related M) (h : host.Alike R (fun _ => True) other) (skipped : Option Nat)
    (program : Program)
    (hbase : ∀ offset, .frameBase offset ∈ program → ∀ m n, M m n → m.frameBase = n.frameBase) :
    (words host skipped program).AlikeOn M R (fun _ => True) (words other skipped program) := by
  have allowed : ∀ e, NotOpenIf e → True := fun _ _ => trivial
  have hrest {word : Word} {rest : Program} (h : ∀ offset, .frameBase offset ∈ word :: rest →
      ∀ m n, M m n → m.frameBase = n.frameBase) offset (hmem : .frameBase offset ∈ rest) :=
    h offset (List.mem_cons_of_mem word hmem)
  fun_induction words host skipped program with
  | case1 => exact .pure _
  | case2 => exact .throw trivial
  | case3 depth rest ih => exact ih (hrest hbase)
  | case4 rest ih => exact ih (hrest hbase)
  | case5 rest depth ih => exact ih (hrest hbase)
  | case6 depth word rest hopen hclose hword ih =>
    rw [words.eq_6 other depth word rest hopen hclose hword]
    exact ih (hrest hbase)
  | case7 rest ih =>
    refine (alike_pop related allowed .ifNonzero).bind fun cell => ?_
    exact ih cell (hrest hbase)
  | case8 word rest ih =>
    refine (alike_stepFrame related word).bind fun goesOn => ?_
    split
    · exact ih (hrest hbase)
    · exact .pure _
  | case9 word rest hopen hword ih =>
    rw [words.eq_9 other word rest hopen hword]
    refine (alike_step related allowed h word fun offset hsame => ?_).bind fun _ => ih (hrest hbase)
    exact hbase offset (hsame ▸ List.mem_cons_self)

theorem alike_words (h : host.Alike R (fun _ => True) other) (skipped : Option Nat) (program : Program) :
    (words host skipped program).Alike R (fun _ => True) (words other skipped program) :=
  alikeOn_words Machine.related_eq h skipped program fun _ _ _ _ => congrArg _

end

end Run

end FirmwareDebug
