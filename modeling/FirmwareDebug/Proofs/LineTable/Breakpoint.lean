import FirmwareDebug.LineTable.Lookup
import FirmwareDebug.Proofs.Keeps
import Mathlib.Data.List.Pairwise

/-!
# Breakpoints and lines of addresses

The line of an address comes from the first pair of rows that covers it, the addresses of a line from
all pairs that begin a statement of it. Both say the same wherever no two pairs share an address.
-/

namespace FirmwareDebug

/-! ## Sorted numbers -/

theorem mem_eraseReps_loop {x a : UInt32} {rest seen : List UInt32} :
    x ∈ List.eraseRepsBy.loop (· == ·) a rest seen ↔ x ∈ seen ∨ x = a ∨ x ∈ rest := by
  induction rest generalizing a seen with
  | nil => simp [List.eraseRepsBy.loop, or_comm]
  | cons b rest ih =>
    unfold List.eraseRepsBy.loop
    split
    · rename_i hab
      rw [ih, beq_iff_eq.mp hab]
      simp
    · rw [ih]
      simp only [List.mem_cons]
      tauto

theorem mem_eraseReps {x : UInt32} {numbers : List UInt32} : x ∈ numbers.eraseReps ↔ x ∈ numbers := by
  cases numbers with
  | nil => simp [List.eraseReps, List.eraseRepsBy]
  | cons a rest => simp [List.eraseReps, List.eraseRepsBy, mem_eraseReps_loop]

namespace LineTable

theorem mem_sorted {x : UInt32} {numbers : List UInt32} : x ∈ sorted numbers ↔ x ∈ numbers := by
  rw [sorted, mem_eraseReps, List.mem_mergeSort]

/-! ## Files by name -/

/-- The path is the name, or ends in it behind a slash. -/
def EndsIn (name path : String) : Prop := path = name ∨ ∃ front, path = front ++ "/" ++ name

theorem pathMatches_iff {name path : String} : pathMatches name path = true ↔ EndsIn name path := by
  have hsuffix : path.endsWith ("/" ++ name) = true ↔ ∃ front, path = front ++ "/" ++ name := by
    rw [String.endsWith_eq_endsWith_toSlice, String.Slice.endsWith_string_iff]
    constructor
    · rintro ⟨front, hfront⟩
      refine ⟨String.ofList front, ?_⟩
      rw [String.copy_toSlice] at hfront
      simp [← String.toList_inj, ← hfront]
    · rintro ⟨front, rfl⟩
      exact ⟨front.toList, by simp⟩
  simp [pathMatches, EndsIn, hsuffix]

variable {table : LineTable} {name : String} {file line address : UInt32}

def NamesFile (table : LineTable) (name : String) (file : UInt32) : Prop :=
  ∃ path, table.filePath file = some path ∧ EndsIn name path

theorem mem_fileNumbers {header : Header} {entry : FileEntry} (h : header.file? file = some entry) :
    file ∈ header.fileNumbers := by
  simp only [Header.fileNumbers, List.mem_map, List.mem_range]
  unfold Header.file? at h
  split at h
  · rename_i hversion
    obtain ⟨hlt, -⟩ := List.getElem?_eq_some_iff.mp h
    exact ⟨file.toNat, hlt, by simp [hversion]⟩
  · rename_i hversion
    split at h
    · cases h
    · rename_i hzero
      obtain ⟨hlt, -⟩ := List.getElem?_eq_some_iff.mp h
      have hpos : file.toNat ≠ 0 := fun heq => hzero (UInt32.toNat_inj.mp heq)
      refine ⟨file.toNat - 1, hlt, ?_⟩
      rw [if_neg hversion, show 1 + (file.toNat - 1) = file.toNat by omega, UInt32.ofNat_toNat]

theorem mem_matchingFiles : file ∈ table.matchingFiles name ↔ table.NamesFile name file := by
  simp only [matchingFiles, List.mem_filter, Option.any_eq_true, pathMatches_iff, NamesFile]
  refine ⟨fun h => h.2, fun h => ⟨?_, h⟩⟩
  obtain ⟨path, hpath, -⟩ := h
  obtain ⟨entry, hentry, -⟩ := Option.bind_eq_some_iff.mp hpath
  exact mem_fileNumbers hentry

/-! ## The two questions -/

variable {rows : List Row}

theorem decodedPairs_of_rows (h : table.rows = .ok rows) : table.decodedPairs = .ok ⟨rowPairs rows, none⟩ := by
  obtain ⟨⟨items, fault⟩, hdecoded, h⟩ := ok_of_bind h
  cases fault with
  | some e => cases h
  | none =>
    cases h
    unfold decodedPairs
    rw [hdecoded]
    rfl

theorem lineOfAddress_eq (h : table.rows = .ok rows) (address : UInt32) :
    table.lineOfAddress address =
      .ok (((rowPairs rows).find? (covers · address)).map fun pair => .ofRow pair.1 address) := by
  unfold lineOfAddress
  rw [decodedPairs_of_rows h]
  cases hfound : (rowPairs rows).find? (covers · address) with
  | none => simp [bind, Except.bind, hfound, pure, Except.pure]
  | some pair => simp [bind, Except.bind, hfound, pure, Except.pure]

/-- The first row of the pair is a statement of the line, and the pair covers its address. -/
structure Begins (table : LineTable) (name : String) (line : UInt32) (pair : Row × Row) : Prop where
  line_eq : pair.1.line = line
  isStatement : pair.1.isStatement = true
  nonempty : pair.1.address < pair.2.address
  file : table.NamesFile name pair.1.file

theorem begins_iff {pair : Row × Row} :
    begins (table.matchingFiles name) line pair = true ↔ table.Begins name line pair := by
  simp only [begins, Bool.and_eq_true, decide_eq_true_eq, List.contains_iff_mem, mem_matchingFiles]
  exact ⟨fun ⟨⟨⟨hline, hstatement⟩, hlt⟩, hfile⟩ => ⟨hline, hstatement, hlt, hfile⟩,
    fun ⟨hline, hstatement, hlt, hfile⟩ => ⟨⟨⟨hline, hstatement⟩, hlt⟩, hfile⟩⟩

theorem mem_addressesOfLine (h : table.rows = .ok rows) (name : String) (line : UInt32) :
    ∃ addresses, table.addressesOfLine name line = .ok addresses ∧
      ∀ address, address ∈ addresses ↔
        ∃ pair ∈ rowPairs rows, table.Begins name line pair ∧ pair.1.address = address := by
  unfold addressesOfLine
  simp only
  split
  · rename_i hempty
    refine ⟨[], rfl, fun address => ?_⟩
    simp only [List.not_mem_nil, false_iff]
    rintro ⟨pair, -, hbegins, -⟩
    have hmem := mem_matchingFiles.mpr hbegins.file
    rw [List.isEmpty_iff.mp hempty] at hmem
    cases hmem
  · rw [decodedPairs_of_rows h]
    refine ⟨_, rfl, fun address => ?_⟩
    simp only [mem_sorted, List.mem_map, List.mem_filter, begins_iff, and_assoc]

/-- No address belongs to two rows. -/
def NoSharedAddress (rows : List Row) : Prop :=
  (rowPairs rows).Pairwise fun a b => ∀ address, ¬ (covers a address = true ∧ covers b address = true)

theorem find?_covers_eq {pairs : List (Row × Row)} {pair : Row × Row}
    (h : pairs.Pairwise fun a b => ∀ address, ¬ (covers a address = true ∧ covers b address = true))
    (hmem : pair ∈ pairs) (hcovers : covers pair address = true) :
    pairs.find? (covers · address) = some pair := by
  induction h with
  | nil => cases hmem
  | @cons first rest hfirst _ ih =>
    rcases List.mem_cons.mp hmem with rfl | hmem
    · simp [hcovers]
    · have hother : covers first address = false := by
        by_contra hshared
        exact hfirst pair hmem address ⟨by simpa using hshared, hcovers⟩
      simp [hother, ih hmem]

/--
An address whose line is looked up as the exact begin of a line is among the addresses of that line.
Where no two rows share an address, each address of a line is looked up as its exact begin.
-/
theorem breakpoints_inverse (h : table.rows = .ok rows) (name : String) (line : UInt32) :
    ∃ addresses, table.addressesOfLine name line = .ok addresses ∧
      (∀ address found, table.lineOfAddress address = .ok (some found) → found.line = line →
        table.NamesFile name found.file → found.exact = true → address ∈ addresses) ∧
      (NoSharedAddress rows → ∀ address ∈ addresses,
        ∃ found, table.lineOfAddress address = .ok (some found) ∧ found.line = line ∧
          table.NamesFile name found.file ∧ found.exact = true) := by
  obtain ⟨addresses, haddresses, hmem⟩ := mem_addressesOfLine h name line
  refine ⟨addresses, haddresses, ?_, ?_⟩
  · intro address found hfound hline hfile hexact
    rw [lineOfAddress_eq h, Except.ok.injEq, Option.map_eq_some_iff] at hfound
    obtain ⟨pair, hpair, rfl⟩ := hfound
    simp only [LineOfAddress.ofRow, Bool.and_eq_true, decide_eq_true_eq] at hline hfile hexact
    have hcovers := List.find?_some hpair
    simp only [covers, Bool.and_eq_true, decide_eq_true_eq] at hcovers
    have hlt : pair.1.address < pair.2.address := by
      rw [hexact.2]
      exact hcovers.2
    exact (hmem address).mpr
      ⟨pair, List.mem_of_find?_eq_some hpair, ⟨hline, hexact.1, hlt, hfile⟩, hexact.2⟩
  · intro hshared address haddress
    obtain ⟨pair, hpair, hbegins, rfl⟩ := (hmem address).mp haddress
    have hcovers : covers pair pair.1.address = true := by
      simp [covers, hbegins.nonempty]
    rw [lineOfAddress_eq h, find?_covers_eq hshared hpair hcovers]
    exact ⟨_, rfl, hbegins.line_eq, hbegins.file, by simp [LineOfAddress.ofRow, hbegins.isStatement]⟩

theorem noSharedAddress_of_apart
    (h : (rowPairs rows).Pairwise fun a b => a.2.address ≤ b.1.address ∨ b.2.address ≤ a.1.address) :
    NoSharedAddress rows := by
  refine h.imp fun hapart address hshared => ?_
  simp only [covers, Bool.and_eq_true, decide_eq_true_eq] at hshared
  obtain ⟨⟨hfirst, hend⟩, hsecond, hlast⟩ := hshared
  rcases hapart with hle | hle
  · exact UInt32.lt_irrefl _ (UInt32.lt_of_lt_of_le hend (UInt32.le_trans hle hsecond))
  · exact UInt32.lt_irrefl _ (UInt32.lt_of_lt_of_le hlast (UInt32.le_trans hle hfirst))

/-- The rows at 0x1000 belong to lines 1 and 4, what follows is no statement, and a second sequence
begins at 0x2000. -/
def sampleTable : LineTable where
  header :=
    { offset := 0, version := 4, addressSize := 4, minimumInstructionLength := 1, maximumOperations := 1
      defaultIsStatement := true, lineBase := -5, lineRange := 14, opcodeBase := 13
      operandCounts := [0, 1, 1, 1, 1, 0, 0, 0, 1, 0, 0, 1], directories := ["src"]
      files := [⟨"main.c", 1⟩], start := 0, stop := 35 }
  bytes := #[0, 5, 2, 0, 0x10, 0, 0, 1, 3, 3, 1, 2, 4, 6, 1, 2, 4, 0, 1, 1,
    0, 5, 2, 0, 0x20, 0, 0, 3, 3, 1, 2, 2, 0, 1, 1]
  compilationDirectory := some "/build"

theorem rows_sampleTable : sampleTable.rows.toOption = some
    [{ address := 0x1000, isStatement := true }, { address := 0x1000, line := 4, isStatement := true },
      { address := 0x1004, line := 4, isStatement := false },
      { address := 0x1008, line := 4, isStatement := false, endSequence := true },
      { address := 0x2000, line := 4, isStatement := true },
      { address := 0x2002, line := 4, isStatement := true, endSequence := true }] := by
  decide +kernel

theorem breakpoints_sampleTable : ∃ rows, sampleTable.rows = .ok rows ∧ NoSharedAddress rows ∧
    ∃ addresses, sampleTable.addressesOfLine "src/main.c" 4 = .ok addresses ∧
      (∀ address found, sampleTable.lineOfAddress address = .ok (some found) → found.line = 4 →
        sampleTable.NamesFile "src/main.c" found.file → found.exact = true → address ∈ addresses) ∧
      (NoSharedAddress rows → ∀ address ∈ addresses,
        ∃ found, sampleTable.lineOfAddress address = .ok (some found) ∧ found.line = 4 ∧
          sampleTable.NamesFile "src/main.c" found.file ∧ found.exact = true) := by
  have hsample := rows_sampleTable
  cases hrows : sampleTable.rows with
  | error e =>
    rw [hrows] at hsample
    cases hsample
  | ok rows =>
    rw [hrows] at hsample
    cases hsample
    exact ⟨_, rfl, noSharedAddress_of_apart (by decide), breakpoints_inverse hrows "src/main.c" 4⟩

end LineTable

end FirmwareDebug
