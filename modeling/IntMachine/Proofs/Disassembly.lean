import IntMachine.Instruction.Disassembly
import IntMachine.Proofs.Operands
import IntMachine.Proofs.Separators
/-!
# What the text of an instruction says

The one line that an instruction is shown as tells its operation, the values of its operands
and which of them are addresses that are written: `Instruction.readText?` reads all of this
from the text alone (`readText?_disassemble`). It does not tell the address, the word, the
modes and the reads, so instructions with one text differ in these at most.
-/

namespace IntMachine

open Text

/-! ## Mnemonics -/

namespace Opcode

/-- The operation that a mnemonic names. -/
def ofMnemonic? (name : List Char) : Option Opcode := all.find? (·.mnemonic.toList = name)

@[simp] theorem ofMnemonic?_mnemonic (op : Opcode) : ofMnemonic? op.mnemonic.toList = some op := by
  cases op <;> decide

theorem blank_not_mem_mnemonic (op : Opcode) : ' ' ∉ op.mnemonic.toList := by
  cases op <;> decide

end Opcode

namespace Instruction

variable {i : Instruction}

/-! ## Operands -/

/-- Reads the text of an operand. Brackets mark an address that is written. -/
def readOperand? (text : List Char) : Option (Role × Int) :=
  match text with
  | '[' :: rest =>
    if rest.getLast? = some ']' then (readPlain? rest.dropLast).map (.write, ·) else none
  | text => (readPlain? text).map (.read, ·)

theorem readOperand?_of_not_mem {text : List Char} (h : '[' ∉ text) :
    readOperand? text = (readPlain? text).map (.read, ·) := by
  rw [readOperand?]
  rintro rest rfl
  exact h List.mem_cons_self

theorem toList_operandText_write (a : Int) :
    (operandText .write a).toList = '[' :: ((toString a).toList ++ [']']) := by
  have hparts : operandText .write a = "[" ++ toString a ++ "]" := rfl
  rw [hparts, String.toList_append, String.toList_append]
  rfl

/-- **An operand is read back from its text**, with what it is used for. -/
theorem readOperand?_operandText (role : Role) (v : Int) :
    readOperand? (operandText role v).toList = some (role, v) := by
  cases role with
  | read =>
    have hplain : '[' ∉ (toString v).toList := not_mem_toString (by decide) (by decide) v
    rw [operandText, readOperand?_of_not_mem hplain, readPlain?_toString]
    rfl
  | write =>
    rw [toList_operandText_write, readOperand?, if_pos List.getLast?_concat, List.dropLast_concat,
      readPlain?_toString]
    rfl

theorem comma_not_mem_operandText (role : Role) (v : Int) :
    ',' ∉ (operandText role v).toList := by
  have hv : ',' ∉ (toString v).toList := not_mem_toString (by decide) (by decide) v
  cases role with
  | read => exact hv
  | write =>
    rw [toList_operandText_write, List.mem_cons, List.mem_append, not_or, not_or]
    exact ⟨by decide, hv, by decide⟩

/-! ## Whole texts -/

/-- Reads the text of an instruction: the mnemonic in front of the first blank, and the operands
behind it, with what they are used for. -/
def readText? (text : String) : Option (Opcode × List (Role × Int)) :=
  let name := text.toList.takeWhile (· ≠ ' ')
  match Opcode.ofMnemonic? name, text.toList.dropWhile (· ≠ ' ') with
  | some op, [] => some (op, [])
  | some op, _ :: body => ((splitOn [',', ' '] body).mapM readOperand?).map (op, ·)
  | none, _ => none

/-- The operands, each with what it is used for. -/
def places (i : Instruction) : List (Role × Int) := i.opcode.layout.zip i.operands

theorem disassemble_eq (i : Instruction) :
    i.disassemble =
      if i.places = [] then i.opcode.mnemonic
      else i.opcode.mnemonic ++ " " ++
        ", ".intercalate (i.places.map fun place => operandText place.1 place.2) := by
  have hparts : List.zipWith operandText i.opcode.layout i.operands =
      i.places.map fun place => operandText place.1 place.2 := by
    rw [← List.map_uncurry_zip_eq_zipWith, ← places]
    rfl
  rw [disassemble, hparts]
  simp only [List.isEmpty_map, List.isEmpty_iff]

theorem toList_disassemble (h : i.places ≠ []) :
    i.disassemble.toList = i.opcode.mnemonic.toList ++ ' ' ::
      [',', ' '].intercalate (i.places.map fun place => (operandText place.1 place.2).toList) := by
  rw [disassemble_eq, if_neg h, String.toList_append, String.toList_append,
    String.toList_intercalate, List.map_map, List.append_assoc]
  rfl

/-- **Every instruction is read back from its text**, with as many operands as the operation has
places for. -/
theorem readText?_disassemble (i : Instruction) :
    readText? i.disassemble = some (i.opcode, i.places) := by
  -- blanks also stand between operands, but the first one ends the mnemonic
  have hname : ∀ c ∈ i.opcode.mnemonic.toList, decide (c ≠ ' ') = true := by
    intro c hc
    rw [decide_eq_true_eq]
    rintro rfl
    exact i.opcode.blank_not_mem_mnemonic hc
  rcases eq_or_ne i.places [] with hnone | hsome
  · rw [readText?, disassemble_eq, if_pos hnone, hnone, List.takeWhile_eq_self_iff.2 hname,
      List.dropWhile_eq_nil_iff.2 hname, Opcode.ofMnemonic?_mnemonic]
  · have hoperands : (splitOn [',', ' '] ([',', ' '].intercalate
        (i.places.map fun place => (operandText place.1 place.2).toList))).mapM readOperand? =
          some i.places :=
      mapM_splitOn_intercalate (c := ',') (by decide) hsome
        (fun place _ => comma_not_mem_operandText place.1 place.2)
        fun place _ => readOperand?_operandText place.1 place.2
    rw [readText?, toList_disassemble hsome, List.takeWhile_append_of_pos hname,
      List.dropWhile_append_of_pos hname, List.takeWhile_cons_of_neg (by decide),
      List.dropWhile_cons_of_neg (by decide), List.append_nil, Opcode.ofMnemonic?_mnemonic]
    simp only [hoperands, Option.map_some]

/-- A well-formed instruction has an operand for each place. -/
theorem unzip_places (h : i.WellFormed) :
    i.places.map Prod.fst = i.opcode.layout ∧ i.places.map Prod.snd = i.operands := by
  have hlen := h.operands.length_eq
  exact ⟨List.map_fst_zip hlen.le, List.map_snd_zip hlen.ge⟩

/-- **Disassembly is unambiguous.** Instructions that decode, from whatever memories and at
whatever program counters, have the same text exactly if they have the same operation and the
same operands. For the text can be read back, to the operation and to a list of operands that
are the values of the instruction and are marked as read or written as its operation uses
them. -/
theorem disassembly_is_unambiguous {memory memory' : Memory} {pc pc' base base' : Int}
    {i j : Instruction} (hi : memory.decode pc base = .ok i) (hj : memory'.decode pc' base' = .ok j) :
    (i.disassemble = j.disassemble ↔ i.opcode = j.opcode ∧ i.operands = j.operands) ∧
    ∃ places, readText? i.disassemble = some (i.opcode, places) ∧
      places.map Prod.fst = i.opcode.layout ∧ places.map Prod.snd = i.operands := by
  have hiplaces := unzip_places (wellFormed_of_decodeAt hi)
  have hjplaces := unzip_places (wellFormed_of_decodeAt hj)
  refine ⟨⟨fun htext => ?_, ?_⟩, i.places, i.readText?_disassemble, hiplaces⟩
  · have hread : (i.opcode, i.places) = (j.opcode, j.places) := by
      rw [← Option.some_inj, ← readText?_disassemble, ← readText?_disassemble, htext]
    obtain ⟨hop, hplaces⟩ := Prod.mk.inj hread
    exact ⟨hop, by rw [← hiplaces.2, ← hjplaces.2, hplaces]⟩
  · rintro ⟨hop, hoperands⟩
    rw [disassemble, disassemble, hop, hoperands]

/-- An addition of two immediate operands, and one at another address that takes the same
values from memory and writes to the same cell by way of the relative base. -/
theorem two_additions_of_one_text :
    ∃ i j : Instruction,
      (Memory.ofList [1101, 5, -3, 7]).decode 0 = .ok i ∧
      (Memory.ofList [5, -3, 20001, 0, 1, 3]).decode 2 4 = .ok j ∧
      i ≠ j ∧ i.disassemble = "ADD 5, -3, [7]" ∧ i.disassemble = j.disassemble ∧
      readText? i.disassemble = some (.add, [(.read, 5), (.read, -3), (.write, 7)]) := by
  have hi : (Memory.ofList [1101, 5, -3, 7]).decode 0 = .ok ⟨.add, [5, -3, 7], 0, 1101,
      [.immediate, .immediate, .position], [0, 1, 2, 3]⟩ := by
    decide +kernel
  have hj : (Memory.ofList [5, -3, 20001, 0, 1, 3]).decode 2 4 = .ok ⟨.add, [5, -3, 7], 2, 20001,
      [.position, .position, .relative], [2, 3, 4, 5, 0, 1]⟩ := by
    decide +kernel
  obtain ⟨htext, places, hread, hroles, hvalues⟩ := disassembly_is_unambiguous hi hj
  refine ⟨_, _, hi, hj, by decide, by decide +kernel, htext.2 ⟨rfl, rfl⟩, ?_⟩
  rw [hread, List.zip_of_prod hroles hvalues]
  rfl

end Instruction

end IntMachine
