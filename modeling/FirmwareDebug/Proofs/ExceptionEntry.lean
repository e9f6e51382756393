import FirmwareDebug.CallerFrame
import FirmwareDebug.Proofs.LittleEndian
import Mathlib.Data.List.GetD

/-!
# What an exception saves and its return restores

When an exception interrupts a program, the processor saves eight words below the stack pointer, with floating-point
state above them if there is some, and leaves a gap where the stack would not be aligned. A frame that returns from the
exception gets back the registers and the stack pointer that were interrupted, for every stack pointer, also where the
stack wraps around.
-/

namespace FirmwareDebug

/-! ## Words in memory -/

abbrev Memory := UInt32 → UInt8

namespace Memory

/-- The four bytes at an address. -/
def bytesAt (memory : Memory) (address : UInt32) : List UInt8 :=
  [memory address, memory (address + 1), memory (address + 2), memory (address + 3)]

/-- The memory after a word was stored. -/
def store (memory : Memory) (address word : UInt32) : Memory := fun place =>
  (wordBytes word).getD (place - address).toNat (memory place)

/-- The memory after words were stored upwards from an address. -/
def storeAll (memory : Memory) (address : UInt32) : List UInt32 → Memory
  | [] => memory
  | word :: rest => (memory.store address word).storeAll (address + 4) rest

variable {memory : Memory} {address place word : UInt32} {words : List UInt32}

@[simp]
theorem bytesAt_store : (memory.store address word).bytesAt address = wordBytes word := by
  have hplace : ∀ i : UInt32, address + i - address = i := fun i => by rw [UInt32.add_comm, UInt32.add_sub_cancel]
  match hbytes : wordBytes word, length_wordBytes word with
  | [a, b, c, d], _ => simp [bytesAt, store, hbytes, hplace]

theorem store_apart (h : 4 ≤ (place - address).toNat) : memory.store address word place = memory place :=
  List.getD_eq_default _ _ (by rwa [length_wordBytes])

theorem storeAll_apart (hroom : 4 * words.length ≤ 2 ^ 32) (h : 4 * words.length ≤ (place - address).toNat) :
    memory.storeAll address words place = memory place := by
  induction words generalizing memory address with
  | nil => rfl
  | cons word rest ih =>
    rw [List.length_cons] at hroom h
    have hbehind : (place - (address + 4)).toNat = (place - address).toNat - 4 := by
      have hle : 4 ≤ place - address := UInt32.le_iff_toNat_le.mpr (show 4 ≤ _ by omega)
      rw [show place - (address + 4) = place - address - 4 by grind, UInt32.toNat_sub_of_le _ _ hle]
      rfl
    rw [storeAll, ih (by omega) (by omega), store_apart (by omega)]

theorem bytesAt_storeAll (hroom : 4 * words.length ≤ 2 ^ 32) {i : Nat} {word : UInt32} (hword : words[i]? = some word) :
    (memory.storeAll address words).bytesAt (address + 4 * UInt32.ofNat i) = wordBytes word := by
  induction words generalizing memory address i with
  | nil => cases hword
  | cons first rest ih =>
    rw [List.length_cons] at hroom
    cases i with
    | zero =>
      obtain rfl := Option.some.inj hword
      -- What is stored behind a word wraps around no further than to its first byte.
      have hapart : ∀ j : UInt32, j < 4 → ((memory.store address first).storeAll (address + 4) rest) (address + j) =
          memory.store address first (address + j) := by
        intro j hj
        refine storeAll_apart (by omega) ?_
        have hj := UInt32.lt_iff_toNat_lt.mp hj
        rw [show address + j - (address + 4) = j - 4 by grind, UInt32.toNat_sub]
        simp only [UInt32.reduceToNat] at hj ⊢
        omega
      have hfirst := hapart 0 (by decide)
      rw [UInt32.add_zero] at hfirst
      have hstored : (memory.store address first).bytesAt address = wordBytes first := bytesAt_store
      rw [show address + 4 * UInt32.ofNat 0 = address by simp, storeAll, ← hstored, bytesAt, bytesAt, hfirst,
        hapart 1 (by decide), hapart 2 (by decide), hapart 3 (by decide)]
    | succ i =>
      have hrest : ((memory.store address first).storeAll (address + 4) rest).bytesAt
          (address + 4 + 4 * UInt32.ofNat i) = wordBytes word := ih (by omega) hword
      rw [storeAll, ← hrest, UInt32.ofNat_add]
      congr 1
      grind

end Memory

/-! ## Entering and leaving an exception -/

/-- What an exception interrupts: the registers, the status, and floating-point state if it is saved too. -/
structure ExceptionEntry where
  frame : RegisterFrame
  status : UInt32
  floats : Option (Vector UInt32 18)

namespace ExceptionEntry

/-- The stack pointer below the frame that is saved, without a gap. -/
def lowered (entry : ExceptionEntry) : UInt32 := entry.frame.sp - if entry.floats.isSome then 104 else 32

/-- There is a gap of a word above the frame, so that the stack is aligned to eight bytes. -/
def leavesGap (entry : ExceptionEntry) : Bool := entry.lowered.toNat % 8 ≠ 0

def sp (entry : ExceptionEntry) : UInt32 := if entry.leavesGap then entry.lowered - 4 else entry.lowered

/-- The status as it is saved: its bit 9 tells whether there is a gap. -/
def savedStatus (entry : ExceptionEntry) : UInt32 :=
  if entry.leavesGap then entry.status ||| 0x200 else entry.status &&& ~~~0x200

def coreWords (entry : ExceptionEntry) : List UInt32 :=
  [entry.frame.get 0, entry.frame.get 1, entry.frame.get 2, entry.frame.get 3, entry.frame.get 12, entry.frame.lr,
    entry.frame.pc, entry.savedStatus]

def words (entry : ExceptionEntry) : List UInt32 := entry.coreWords ++ (entry.floats.map Vector.toList).getD []

/-- The memory after the frame was saved. -/
def memory (entry : ExceptionEntry) (before : Memory) : Memory := before.storeAll entry.sp entry.words

/--
A frame that returns from the exception: its program counter tells that, with the kind of the frame in bit 4, and the
registers that the processor does not save are as they were.
-/
structure ReturnsTo (handler : RegisterFrame) (entry : ExceptionEntry) : Prop where
  sp_eq : handler.sp = entry.sp
  pc_ge : 0xffffff00 ≤ handler.pc
  kind : handler.pc &&& 0x10 = 0 ↔ entry.floats.isSome
  kept : ∀ i : Fin 16, 4 ≤ i → i ≤ 11 → handler.get i = entry.frame.get i

/-- The target reads the words of the frame out of a memory. -/
def ReadBy (entry : ExceptionEntry) (target : Target) (memory : Memory) : Prop :=
  ∀ i < 8, target.readBytes (entry.sp + 4 * UInt32.ofNat i) 4 = .ok (memory.bytesAt (entry.sp + 4 * UInt32.ofNat i))

variable {entry : ExceptionEntry} {handler frame : RegisterFrame} {target : Target} {before : Memory}

theorem length_words (entry : ExceptionEntry) : entry.words.length ≤ 26 := by
  cases h : entry.floats <;> simp [words, coreWords, h]

theorem sp_aligned (h : entry.frame.sp.toNat % 4 = 0) : entry.sp.toNat % 8 = 0 := by
  have hlowered : entry.lowered.toNat % 4 = 0 := by
    unfold lowered
    rw [UInt32.toNat_sub]
    split <;> simp only [UInt32.reduceToNat] <;> omega
  unfold sp leavesGap
  split
  case isTrue hgap =>
    have hgap := of_decide_eq_true hgap
    rw [UInt32.toNat_sub]
    simp only [UInt32.reduceToNat]
    omega
  case isFalse hgap => simpa using hgap

theorem savedStatus_gap (entry : ExceptionEntry) : entry.savedStatus &&& 0x200 ≠ 0 ↔ entry.leavesGap = true := by
  unfold savedStatus
  split
  case isTrue hgap =>
    refine iff_of_true (fun h => ?_) hgap
    have hbits := congrArg UInt32.toNat h
    rw [UInt32.toNat_and, UInt32.toNat_or, Nat.and_or_distrib_right, UInt32.toNat_zero, Nat.or_eq_zero_iff] at hbits
    exact absurd hbits.2 (by decide)
  case isFalse hgap =>
    refine iff_of_false (not_not.mpr ?_) hgap
    rw [UInt32.and_assoc, show (~~~0x200 &&& 0x200 : UInt32) = 0 from rfl, UInt32.and_zero]

/-- The size that is told by the program counter and the saved status is what the stack pointer was lowered by. -/
theorem sp_add_exceptionFrameSize (h : ReturnsTo handler entry) :
    entry.sp + RegisterFrame.exceptionFrameSize handler.pc entry.savedStatus = entry.frame.sp := by
  simp only [RegisterFrame.exceptionFrameSize, h.kind, savedStatus_gap, sp, lowered]
  cases entry.floats.isSome <;> cases entry.leavesGap <;> simp only [if_true, if_false, Bool.false_eq_true] <;> grind

/-! ## Reading the frame back -/

theorem readWord_saved (hread : entry.ReadBy target (entry.memory before)) {i : Nat} {word : UInt32} (hi : i < 8)
    (hword : entry.words[i]? = some word) : target.readWord (entry.sp + 4 * UInt32.ofNat i) = .ok word := by
  have hlength := entry.length_words
  have hbytes : (entry.memory before).bytesAt (entry.sp + 4 * UInt32.ofNat i) = wordBytes word :=
    Memory.bytesAt_storeAll (by omega) hword
  simp only [Target.readWord, hread i hi, hbytes, bind, Except.bind, length_wordBytes, if_true, wordOfBytes_wordBytes]
  rfl

theorem readWords_of_readWord {address : UInt32} {words : List UInt32}
    (h : ∀ i word, words[i]? = some word → target.readWord (address + 4 * UInt32.ofNat i) = .ok word) :
    target.readWords address words.length = .ok words := by
  induction words generalizing address with
  | nil => rfl
  | cons word rest ih =>
    have hfirst := h 0 word rfl
    rw [show address + 4 * UInt32.ofNat 0 = address by simp] at hfirst
    have hrest : target.readWords (address + 4) rest.length = .ok rest := ih fun i other hother => by
      rw [← h (i + 1) other hother, UInt32.ofNat_add]
      congr 1
      grind
    rw [List.length_cons, Target.readWords, hfirst, hrest]
    rfl

theorem readWords_saved (hread : entry.ReadBy target (entry.memory before)) :
    target.readWords entry.sp 8 = .ok entry.coreWords := by
  show target.readWords entry.sp entry.coreWords.length = .ok entry.coreWords
  refine readWords_of_readWord fun i word hword => ?_
  have hi : i < 8 := (List.getElem?_eq_some_iff.mp hword).choose
  exact readWord_saved hread hi (by rw [words, List.getElem?_append_left hi, hword])

theorem interrupted_coreWords (h : ReturnsTo handler entry) : handler.interrupted entry.coreWords =
    entry.frame.put 15 (entry.frame.pc &&& ~~~1) := by
  have hsp : handler.sp + RegisterFrame.exceptionFrameSize handler.pc entry.savedStatus = entry.frame.get 13 := by
    rw [h.sp_eq, sp_add_exceptionFrameSize h]
    rfl
  have hget : ∀ i : Fin 16, (handler.interrupted entry.coreWords).get i =
      (entry.frame.put 15 (entry.frame.pc &&& ~~~1)).get i := by
    intro i
    simp only [coreWords, RegisterFrame.interrupted, RegisterFrame.get_put, hsp]
    by_cases hkept : 4 ≤ i ∧ i ≤ 11
    · simp (disch := omega) only [if_neg]
      exact h.kept i hkept.1 hkept.2
    · obtain rfl | rfl | rfl | rfl | rfl | rfl | rfl | rfl :
          i = 0 ∨ i = 1 ∨ i = 2 ∨ i = 3 ∨ i = 12 ∨ i = 13 ∨ i = 14 ∨ i = 15 := by omega
      all_goals rfl
  exact Vector.ext fun i hi => hget ⟨i, hi⟩

theorem isExceptionReturn_iff : frame.isExceptionReturn = true ↔ 0xffffff00 ≤ frame.pc := by
  have hlt := frame.pc.toNat_lt
  have hhigh : (frame.pc.toNat &&& 0xffffff00) / 2 ^ 8 = frame.pc.toNat / 2 ^ 8 % 2 ^ 24 := by
    rw [Nat.and_div_two_pow, ← Nat.and_two_pow_sub_one_eq_mod]
  have hlow : (frame.pc.toNat &&& 0xffffff00) % 2 ^ 8 = 0 := by
    rw [Nat.and_mod_two_pow, show 0xffffff00 % 2 ^ 8 = 0 from rfl, Nat.and_zero]
  rw [RegisterFrame.isExceptionReturn, decide_eq_true_iff, ← UInt32.toNat_inj, UInt32.toNat_and,
    UInt32.le_iff_toNat_le]
  simp only [UInt32.reduceToNat]
  omega

theorem callerByException_of_returnsTo (h : ReturnsTo handler entry)
    (hread : entry.ReadBy target (entry.memory before)) :
    handler.callerByException target = .ok (some (entry.frame.put 15 (entry.frame.pc &&& ~~~1))) := by
  rw [RegisterFrame.callerByException, RegisterFrame.callerByExceptionWith, isExceptionReturn_iff.mpr h.pc_ge, h.sp_eq,
    readWords_saved hread]
  show Except.ok (some (handler.interrupted entry.coreWords)) = _
  rw [interrupted_coreWords h]

theorem callerByExceptionWith_of_lt {m : Type → Type} [Monad m] (h : frame.pc < 0xffffff00)
    (readWords : UInt32 → Nat → m (List UInt32)) : frame.callerByExceptionWith readWords = pure none := by
  have hreturn : frame.isExceptionReturn = false := by
    rw [Bool.eq_false_iff, Ne, isExceptionReturn_iff]
    exact UInt32.not_le.mpr h
  rw [RegisterFrame.callerByExceptionWith, hreturn]
  rfl

/--
The frame that an exception saves is aligned. Whoever returns from the exception gets back the registers that were
interrupted, with their stack pointer, and the program counter without its lowest bit, whatever stood in the memory
before. Where the program counter does not stand for a return, there is no such frame and no memory is read: a reader
with a state, which may tell what was read, is left in that state.
-/
theorem callerByException_entry (entry : ExceptionEntry) (handler : RegisterFrame) (target : Target) :
    (entry.frame.sp.toNat % 4 = 0 → entry.sp.toNat % 8 = 0) ∧
    (∀ before, ReturnsTo handler entry → entry.ReadBy target (entry.memory before) →
      handler.callerByException target = .ok (some (entry.frame.put 15 (entry.frame.pc &&& ~~~1)))) ∧
    (handler.pc < 0xffffff00 → handler.callerByException target = .ok none ∧
      ∀ (σ : Type) (readWords : UInt32 → Nat → EStateM Fault σ (List UInt32)) (s : σ),
        handler.callerByExceptionWith readWords s = .ok none s) := by
  refine ⟨sp_aligned, fun _ => callerByException_of_returnsTo, fun h => ⟨callerByExceptionWith_of_lt h _, ?_⟩⟩
  intro σ readWords s
  rw [callerByExceptionWith_of_lt h]
  rfl

/-- A target that reads a whole memory. -/
def targetOf (memory : Memory) : Target where
  readBytes address count := .ok ((List.range count).map fun i => memory (address + UInt32.ofNat i))
  readRegister register := .error (.registerUnavailable register)

theorem readBy_targetOf (entry : ExceptionEntry) (memory : Memory) : entry.ReadBy (targetOf memory) memory := by
  intro i _
  simp [targetOf, Memory.bytesAt, List.range_succ]

/-- A program that used floating-point numbers is interrupted where a gap has to be left. -/
def sampleEntry : ExceptionEntry where
  frame := .ofList [7, 6, 5, 4, 3, 2, 1, 0, 11, 22, 33, 44, 55, 0x20000104, 0x08000203, 0x08000101]
  status := 0x21000000
  floats := some (.replicate 18 0x3f800000)

/-- A reader that keeps the addresses it was asked for. -/
def keepAddress (address : UInt32) (count : Nat) : EStateM Fault (List UInt32) (List UInt32) := do
  modify (address :: ·)
  return .replicate count 0

def sampleHandler : RegisterFrame :=
  .ofList [0, 0, 0, 0, 3, 2, 1, 0, 11, 22, 33, 44, 0, 0x20000098, 0xffffffed, 0xffffffec]

theorem callerByException_sample :
    sampleEntry.frame.sp.toNat % 4 = 0 ∧ sampleEntry.sp.toNat % 8 = 0 ∧ sampleEntry.leavesGap = true ∧
    ReturnsTo sampleHandler sampleEntry ∧
    sampleHandler.callerByException (targetOf (sampleEntry.memory fun _ => 0xa5)) =
      .ok (some (sampleEntry.frame.put 15 0x08000100)) ∧
    sampleEntry.frame.callerByException (targetOf fun _ => 0) = .ok none ∧
    sampleEntry.frame.callerByExceptionWith keepAddress [] = .ok none [] := by
  have hreturns : ReturnsTo sampleHandler sampleEntry :=
    ⟨by decide +kernel, by decide +kernel, by decide +kernel, by decide +kernel⟩
  have hword : sampleEntry.frame.sp.toNat % 4 = 0 := by decide +kernel
  have hrunning : sampleEntry.frame.pc < 0xffffff00 := by decide +kernel
  obtain ⟨haligned, hreturned, -⟩ :=
    callerByException_entry sampleEntry sampleHandler (targetOf (sampleEntry.memory fun _ => 0xa5))
  obtain ⟨-, -, hnone⟩ := callerByException_entry sampleEntry sampleEntry.frame (targetOf fun _ => 0)
  exact ⟨hword, haligned hword, by decide +kernel, hreturns, hreturned _ hreturns (readBy_targetOf _ _),
    (hnone hrunning).1, (hnone hrunning).2 _ keepAddress []⟩

end ExceptionEntry

end FirmwareDebug
