import FirmwareDebug.Proofs.Machine

/-!
# Pieces of a location

A program for each piece and a word that closes it stand one behind the other. What a program alone gives
is what its piece becomes: a closed piece leaves a machine that differs from a fresh one in its pieces only,
and no word looks at these.
-/

namespace FirmwareDebug

variable {σ : Type}

/-- What the host answers depends on the question only, whatever its own state is. -/
def Host.AnswersAlone (host : Host σ) : Prop := host.Alike (fun _ _ => True) (fun _ => True) host

namespace Machine

/-- What is known of a machine stays known whatever a word does that closes no piece. -/
structure Kept (Inv : Machine → Prop) : Prop where
  stack : ∀ {m}, Inv m → ∀ stack, Inv { m with stack }
  kind : ∀ {m}, Inv m → Inv { m with kind := .value }
  register : ∀ {m}, Inv m → ∀ register, Inv { m with register := some register }

/-- The machine is not ready for call frame words and has closed no piece. -/
structure Fresh (frameBase cfa : Option UInt32) (m : Machine) : Prop where
  frameBase_eq : m.frameBase = frameBase
  cfa_eq : m.cfa = cfa
  unwinding_eq : m.unwinding = none
  pieces_eq : m.pieces = []

theorem kept_fresh (frameBase cfa : Option UInt32) : Kept (Fresh frameBase cfa) where
  stack := fun ⟨hbase, hcfa, hunwinding, hpieces⟩ _ => ⟨hbase, hcfa, hunwinding, hpieces⟩
  kind := fun ⟨hbase, hcfa, hunwinding, hpieces⟩ => ⟨hbase, hcfa, hunwinding, hpieces⟩
  register := fun ⟨hbase, hcfa, hunwinding, hpieces⟩ _ => ⟨hbase, hcfa, hunwinding, hpieces⟩

/-- The other machine has closed some pieces before. -/
def Later (front : List Piece) (m n : Machine) : Prop := n = { m with pieces := front ++ m.pieces }

theorem Later.closePiece {front : List Piece} {m n : Machine} (h : m.Later front n) (size : UInt32) :
    (m.closePiece size).Later front (n.closePiece size) := by
  subst h
  unfold Later Machine.closePiece
  cases m.register <;> simp [topLocation]

theorem related_later (front : List Piece) : Related (Later front) where
  stack_eq h := by rw [h]
  cfa_eq h := by rw [h]
  unwinding_eq h := by rw [h]
  stack h _ := by rw [h]; rfl
  kind h := by rw [h]; rfl
  register h _ := by rw [h]; rfl
  closePiece h size := h.closePiece size
  unwinding h _ _ := by rw [h]; rfl

theorem closePiece_eq {frameBase cfa : Option UInt32} {m : Machine} (h : m.Fresh frameBase cfa) {size : UInt32}
    (hempty : (m.closePiece size).stack = []) :
    m.closePiece size = { frameBase, cfa, pieces := [(m.location, size)] } := by
  obtain ⟨rfl, rfl, hunwinding, hpieces⟩ := h
  unfold closePiece at hempty ⊢
  unfold location
  cases hregister : m.register <;> simp_all

end Machine

namespace Run

open Machine

variable {host : Host σ} {Inv : Machine → Prop}

/-! ## What words leave alone -/

def KeepsMachine (Inv : Machine → Prop) {α : Type} (run : Run σ α) : Prop :=
  FirmwareDebug.Keeps (fun x : Machine × σ => Inv x.1) (fun _ => True) run

theorem keepsMachine_host {α : Type} (ask : EStateM Fault σ α) : (Run.host ask).KeepsMachine Inv := by
  rintro ⟨m, s⟩ hm
  simp only [Run.host]
  cases ask s with
  | ok a s' => exact hm
  | error e s' => exact ⟨hm, trivial⟩

theorem keepsMachine_machine {α : Type} {f : Machine → Run σ α} (h : ∀ m, (f m).KeepsMachine Inv) :
    (machine >>= f).KeepsMachine Inv := fun x hx => h x.1 x hx

theorem keepsMachine_modify {f : Machine → Machine} (h : ∀ m, Inv m → Inv (f m)) :
    (modifyMachine f : Run σ Unit).KeepsMachine Inv := fun x hx => h x.1 hx

variable (kept : Kept Inv)
include kept

theorem keepsMachine_push (cell : UInt32) : (push cell : Run σ Unit).KeepsMachine Inv :=
  keepsMachine_modify fun _ hm => kept.stack hm _

theorem keepsMachine_pop (word : Word) : (pop word : Run σ UInt32).KeepsMachine Inv := by
  apply keepsMachine_machine
  intro m
  cases m.stack with
  | nil => exact .throw trivial
  | cons cell stack =>
    have hset : (modifyMachine fun m => { m with stack } : Run σ Unit).KeepsMachine Inv :=
      keepsMachine_modify fun _ hm => kept.stack hm _
    exact hset.bind fun _ => .pure cell

theorem keepsMachine_pick (word : Word) (depth : Nat) : (pick word depth : Run σ Unit).KeepsMachine Inv := by
  apply keepsMachine_machine
  intro m
  cases m.stack[depth]? with
  | none => exact .throw trivial
  | some cell => exact keepsMachine_push kept cell

theorem keepsMachine_pushOr (fault : Fault) (f : UInt32 → UInt32) (value : Option UInt32) :
    (pushOr fault f value : Run σ Unit).KeepsMachine Inv := by
  cases value with
  | none => exact .throw trivial
  | some value => exact keepsMachine_push kept _

theorem keepsMachine_deref (word : Word) (size : UInt8) : (deref host word size).KeepsMachine Inv := by
  apply (keepsMachine_pop kept word).bind
  intro address
  apply (keepsMachine_host _).bind
  intro bytes
  dsimp only
  split
  · exact Keeps.bind (.throw trivial) fun _ => keepsMachine_push kept _
  · exact keepsMachine_push kept _

theorem keepsMachine_step {word : Word} (hword : ∀ size, word ≠ .piece size) :
    (step host word).KeepsMachine Inv := by
  have hpush (cell : UInt32) : (push cell : Run σ Unit).KeepsMachine Inv := keepsMachine_push kept cell
  have hpop {α : Type} {f : UInt32 → Run σ α} (hf : ∀ cell, (f cell).KeepsMachine Inv) :
      (pop word >>= f).KeepsMachine Inv := (keepsMachine_pop kept word).bind hf
  have hkind : (modifyMachine fun m => { m with kind := .value } : Run σ Unit).KeepsMachine Inv :=
    keepsMachine_modify fun _ hm => kept.kind hm
  cases word with
  | literal value => exact hpush value
  | dup => exact keepsMachine_pick kept .dup 0
  | drop => exact (keepsMachine_pop kept .drop).bind fun _ => .pure _
  | dupSecond => exact keepsMachine_pick kept .dupSecond 1
  | pick depth => exact keepsMachine_pick kept (.pick depth) depth.toNat
  | swap => exact hpop fun _ => hpop fun _ => (hpush _).bind fun _ => hpush _
  | rot => exact hpop fun _ => hpop fun _ => hpop fun _ => (hpush _).bind fun _ => (hpush _).bind fun _ => hpush _
  | deref => exact keepsMachine_deref kept .deref 4
  | derefSize size => exact keepsMachine_deref kept (.derefSize size) size
  | abs | neg | not | zeroEquals | convert => exact hpop fun _ => hpush _
  | binary op =>
    apply hpop
    intro top
    apply hpop
    intro second
    cases op.apply second top with
    | ok cell => exact hpush cell
    | error obstacle => exact .throw trivial
  | compare op => exact hpop fun _ => hpop fun _ => hpush _
  | register register =>
    exact keepsMachine_modify (f := fun m => { m with register := some register }) fun _ hm => kept.register hm register
  | registerValue register offset => exact (keepsMachine_host _).bind fun _ => hpush _
  | frameBase offset => exact keepsMachine_machine fun m => keepsMachine_pushOr kept _ _ m.frameBase
  | callFrameCfa => exact keepsMachine_machine fun m => keepsMachine_pushOr kept _ _ m.cfa
  | stackValue => exact hkind
  | implicitValue value => exact (hpush value).bind fun _ => hkind
  | piece size => exact absurd rfl (hword size)
  | entryValue block => exact (keepsMachine_host _).bind fun _ => hpush _
  | unsupported opcode => exact .throw trivial
  | ifNonzero | endIf | frame => exact .pure _

/-! ## Programs in a row -/

theorem keepsMachine_words (skipped : Option Nat) {program : Program} (hpiece : ∀ size, .piece size ∉ program)
    (hframe : ∀ word, .frame word ∉ program) : (words host skipped program).KeepsMachine Inv := by
  fun_induction words host skipped program with
  | case1 => exact .pure _
  | case2 => exact .throw trivial
  | case3 _ rest ih | case4 rest ih | case5 rest _ ih | case6 _ _ rest _ _ _ ih =>
    simp only [List.mem_cons, not_or] at hpiece hframe
    exact ih (fun size => (hpiece size).2) fun word => (hframe word).2
  | case7 rest ih =>
    simp only [List.mem_cons, not_or] at hpiece hframe
    exact (keepsMachine_pop kept .ifNonzero).bind fun cell =>
      ih cell (fun size => (hpiece size).2) fun word => (hframe word).2
  | case8 word rest ih => exact absurd List.mem_cons_self (hframe word)
  | case9 word rest hopen hword ih =>
    simp only [List.mem_cons, not_or] at hpiece hframe
    have hstep : (step host word).KeepsMachine Inv := keepsMachine_step kept fun size => Ne.symm (hpiece size).1
    exact hstep.bind fun _ => ih (fun size => (hpiece size).2) fun word => (hframe word).2

omit kept in
theorem words_append {skipped : Option Nat} {front : Program} (hframe : ∀ word, .frame word ∉ front) {x y : Machine × σ}
    (h : words host skipped front x = .ok () y) (rest : Program) :
    words host skipped (front ++ rest) x = words host none rest y := by
  fun_induction words host skipped front generalizing x with
  | case1 =>
    cases h
    rfl
  | case2 => cases h
  | case3 _ front ih | case4 front ih | case5 front _ ih =>
    simp only [List.mem_cons, not_or] at hframe
    rw [List.cons_append, words]
    exact ih (fun word => (hframe word).2) h
  | case6 depth word front hopen hclose hword ih =>
    simp only [List.mem_cons, not_or] at hframe
    rw [List.cons_append, words.eq_6 host depth word _ hopen hclose hword]
    exact ih (fun word => (hframe word).2) h
  | case7 front ih =>
    simp only [List.mem_cons, not_or] at hframe
    obtain ⟨cell, next, hpop, hrest⟩ := ran_of_bind h
    rw [List.cons_append, words, run_bind_of_ok hpop]
    exact ih cell (fun word => (hframe word).2) hrest
  | case8 word front ih => exact absurd List.mem_cons_self (hframe word)
  | case9 word front hopen hword ih =>
    simp only [List.mem_cons, not_or] at hframe
    obtain ⟨_, next, hstep, hrest⟩ := ran_of_bind h
    rw [List.cons_append, words.eq_9 host word _ hopen hword, run_bind_of_ok hstep]
    exact ih (fun word => (hframe word).2) hrest

end Run

/-! ## Pieces -/

open Run

/-- A program and the size of the piece that it is for. -/
abbrev PieceProgram := Program × UInt32

/--
Begun on the machine in some state of the host, the program succeeds and gives the location, and the word
that closes its piece leaves no cell.
-/
structure Host.Gives (host : Host σ) (m : Machine) (part : PieceProgram) (location : Location) : Prop where
  piece_notMem : ∀ size, .piece size ∉ part.1
  frame_notMem : ∀ word, .frame word ∉ part.1
  ran : ∃ s alone s', Run.program host part.1 (m, s) = .ok () (alone, s') ∧ alone.location = location ∧
    (alone.closePiece part.2).stack = []

/-- Each program with the word behind it that closes its piece. -/
def Program.ofPieces (parts : List PieceProgram) : Program := parts.flatMap fun part => part.1 ++ [.piece part.2]

variable {host : Host σ} {frameBase cfa : Option UInt32}

/-- One piece more, whatever pieces stand before it and whatever state the host is in by then. -/
theorem run_piece (hhost : host.AnswersAlone) {part : PieceProgram} {location : Location}
    (h : host.Gives { frameBase, cfa } part location) (front : List Piece) (s : σ) (rest : Program) :
    ∃ t, words host none (part.1 ++ .piece part.2 :: rest) ({ frameBase, cfa, pieces := front }, s) =
      words host none rest ({ frameBase, cfa, pieces := front ++ [(location, part.2)] }, t) := by
  obtain ⟨r, alone, r', hran, rfl, hempty⟩ := h.ran
  unfold Run.program at hran
  have hfresh : alone.Fresh frameBase cfa := by
    have hkeeps : (words host none part.1).KeepsMachine (Machine.Fresh frameBase cfa) :=
      keepsMachine_words (Machine.kept_fresh frameBase cfa) none h.piece_notMem h.frame_notMem
    have hleft := hkeeps ({ frameBase, cfa }, r) ⟨rfl, rfl, rfl, rfl⟩
    rwa [hran] at hleft
  -- with pieces in front of it the program does what it does alone
  have halike := alikeOn_words (Machine.related_later front) hhost none part.1
    (by rintro _ - m _ rfl; rfl) ({ frameBase, cfa }, r) ({ frameBase, cfa, pieces := front }, s)
    ⟨by simp [Machine.Later], trivial⟩
  rw [hran] at halike
  obtain ⟨_, _, ⟨later, t⟩, halone, hrun, hlater, -⟩ | ⟨_, _, _, hfail, -⟩ := halike.cases
  · cases halone
    have hnext := hlater.closePiece part.2
    rw [Machine.closePiece_eq hfresh hempty] at hnext
    refine ⟨t, ?_⟩
    rw [words_append h.frame_notMem hrun]
    show words host none rest (later.closePiece part.2, t) = _
    rw [hnext]
  · cases hfail

theorem run_ofPieces (hhost : host.AnswersAlone) {parts : List PieceProgram} {locations : List Location}
    (h : List.Forall₂ (host.Gives { frameBase, cfa }) parts locations) (front : List Piece) (s : σ) :
    ∃ t, words host none (.ofPieces parts) ({ frameBase, cfa, pieces := front }, s) =
      .ok () ({ frameBase, cfa, pieces := front ++ locations.zip (parts.map Prod.snd) }, t) := by
  induction h generalizing front s with
  | nil =>
    refine ⟨s, ?_⟩
    simp only [Program.ofPieces, List.flatMap_nil, List.zip_nil_left, List.append_nil]
    rfl
  | @cons part location parts locations hpart _ ih =>
    obtain ⟨t, hfirst⟩ := run_piece hhost hpart front s (.ofPieces parts)
    obtain ⟨u, hrest⟩ := ih (front ++ [(location, part.2)]) t
    refine ⟨u, ?_⟩
    simp only [Program.ofPieces, List.flatMap_cons, List.append_assoc, List.singleton_append] at hfirst hrest ⊢
    rw [hfirst, hrest]
    simp

/--
Programs that give locations alone give the composite of these in a row. No register mark, kind of value or
cell gets from one piece to the next, nor out of the last one.
-/
theorem pieces_independent (hhost : host.AnswersAlone) (parts : List PieceProgram) (locations : List Location)
    (h : List.Forall₂ (host.Gives { frameBase, cfa }) parts locations) (s : σ) :
    ∃ m t, Run.program host (.ofPieces parts) ({ frameBase, cfa }, s) = .ok () (m, t) ∧
      m = { frameBase, cfa, pieces := locations.zip (parts.map Prod.snd) } ∧
      (parts ≠ [] → m.location = .composite (locations.zip (parts.map Prod.snd))) := by
  obtain ⟨t, hrun⟩ := run_ofPieces hhost h [] s
  refine ⟨_, t, hrun, rfl, ?_⟩
  intro hparts
  cases h with
  | nil => exact absurd rfl hparts
  | cons hpart hrest => rfl

/-- A host that counts what it is asked. -/
def countingHost : Host Nat where
  readMemory _ length := do
    modify (· + 1)
    return List.replicate length 1
  readRegister number := do
    modify (· + 1)
    return 0x20000000 + number
  entryValue _ := do
    modify (· + 1)
    return 0x55

/-- A register, a value, nothing at all, a place under a condition, and a mark over the kind of a value. -/
def sampleParts : List PieceProgram :=
  [([.register 0], 4), ([.entryValue [0x51], .stackValue], 2), ([], 1),
    ([.registerValue 13 0, .dup, .ifNonzero, .literal 8, .binary .plus, .endIf], 4), ([.stackValue, .register 7], 4),
    ([.frameBase (-8), .deref], 4)]

def sampleLocations : List Location :=
  [.register 0, .constant 0x55, .invalid, .memory 0x20000015, .register 7, .memory 0x01010101]

theorem gives_sample :
    List.Forall₂ (countingHost.Gives { frameBase := some 0x20000200, cfa := none }) sampleParts sampleLocations := by
  refine .cons ?_ (.cons ?_ (.cons ?_ (.cons ?_ (.cons ?_ (.cons ?_ .nil)))))
  all_goals exact ⟨by simp, by simp, 0, _, _, rfl, rfl, rfl⟩

theorem pieces_independent_sample :
    countingHost.AnswersAlone ∧
      List.Forall₂ (countingHost.Gives { frameBase := some 0x20000200, cfa := none }) sampleParts sampleLocations ∧
      ∃ m t, Run.program countingHost (.ofPieces sampleParts) ({ frameBase := some 0x20000200 }, 3) = .ok () (m, t) ∧
        m.location = .composite [(.register 0, 4), (.constant 0x55, 2), (.invalid, 1), (.memory 0x20000015, 4),
          (.register 7, 4), (.memory 0x01010101, 4)] := by
  have hhost : countingHost.AnswersAlone :=
    ⟨fun _ _ _ _ _ => ⟨rfl, trivial⟩, fun _ _ _ _ => ⟨rfl, trivial⟩, fun _ _ _ _ => ⟨rfl, trivial⟩⟩
  obtain ⟨m, t, hrun, -, hlocation⟩ := pieces_independent hhost sampleParts sampleLocations gives_sample 3
  exact ⟨hhost, gives_sample, m, t, hrun, hlocation (by simp [sampleParts])⟩

end FirmwareDebug
