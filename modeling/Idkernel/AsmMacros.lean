import Mathlib.Data.List.Perm.Subperm
import Idkernel.Lines
import Idkernel.SyscallEntry

/-!
# The macros that save and load registers

Three macros make assembler text and a structure out of one list of registers.
The text is assembled line by line and run on a processor; the structure is the
list of its fields, each of them a word.
-/
namespace Idkernel

open X86 Lines

namespace AsmMacros

/-! ## The texts -/

/-- `concat_reverse!([rest] reversed)` -/
def concatReverse : List Str → List Str → Str
  | [], reversed => reversed.flatten
  | first :: rest, reversed => concatReverse rest (first :: reversed)

def stringify : Reg → Str
  | .rax => "rax".toList
  | .rbx => "rbx".toList
  | .rcx => "rcx".toList
  | .rdx => "rdx".toList
  | .rbp => "rbp".toList
  | .rsi => "rsi".toList
  | .rdi => "rdi".toList
  | .rsp => "rsp".toList
  | .r8 => "r8".toList
  | .r9 => "r9".toList
  | .r10 => "r10".toList
  | .r11 => "r11".toList
  | .r12 => "r12".toList
  | .r13 => "r13".toList
  | .r14 => "r14".toList
  | .r15 => "r15".toList

def saveSpecifiedRegs (regs : List Reg) : Str :=
  concatReverse (regs.map fun x => "push ".toList ++ stringify x ++ "\n".toList) []

def loadSpecifiedRegs (regs : List Reg) : Str :=
  (regs.map fun x => "pop ".toList ++ stringify x ++ "\n".toList).flatten

/-- The fields in order, of the size of a word each. -/
def createSpecifiedRegStruct (prex : List Str) (regs : List Reg) : List Str := prex ++ regs.map stringify

/-- `do_with_all_regs!` fixes the list to `allRegs`. -/
def doWithAllRegs {α : Type} (x : List Reg → α) : α := x allRegs

def saveAllRegs (regs : List Reg) : Str := saveSpecifiedRegs regs ++ "pushfq\n".toList

def loadAllRegs (regs : List Reg) : Str := "popfq\n".toList ++ loadSpecifiedRegs regs

def savedRegisters (regs : List Reg) : List Str := createSpecifiedRegStruct ["rflags".toList] regs

/-! ## The assembler -/

inductive Instr where
  | push : Reg → Instr
  | pop : Reg → Instr
  | pushfq
  | popfq
  deriving DecidableEq, Repr

def REGS : List Reg :=
  [.rax, .rbx, .rcx, .rdx, .rbp, .rsi, .rdi, .rsp, .r8, .r9, .r10, .r11, .r12, .r13, .r14, .r15]

def register (name : Str) : Option Reg := REGS.find? fun r => stringify r = name

def instruction (line : Str) : Option Instr :=
  match splitOnce ' ' line with
  | none => if line = "pushfq".toList then some .pushfq else if line = "popfq".toList then some .popfq else none
  | some (mnemonic, operand) =>
    if mnemonic = "push".toList then (register operand).map .push
    else if mnemonic = "pop".toList then (register operand).map .pop else none

def assemble (text : Str) : Option (List Instr) := (lines '\n' text).mapM instruction

def Instr.run : Instr → Cpu → Cpu
  | push r, c => c.push (c.reg r)
  | pop r, c => c.pop r
  | pushfq, c => c.pushfq
  | popfq, c => c.popfq

def runAll (is : List Instr) (c : Cpu) : Cpu := is.foldl (fun c i => i.run c) c

/-- `none` is a text that is refused. -/
def execute (text : Str) (c : Cpu) : Option Cpu := (assemble text).map fun is => runAll is c

/-! ## Words above the stack pointer -/

/-- The address of the field of a number, in a structure the stack pointer refers to. -/
def fieldAddr (c : Cpu) (i : Nat) : UInt64 := c.reg .rsp + .ofNat (8 * i)

def field (c : Cpu) (i : Nat) : UInt64 := word c.memory (fieldAddr c i).toNat

/-- The register a field is called after. -/
def value (c : Cpu) (name : Str) : Option UInt64 :=
  if name = "rflags".toList then some c.rflags else (register name).map c.reg

/-! ## What the texts assemble to -/

def pushLine (x : Reg) : Str := "push ".toList ++ stringify x

def popLine (x : Reg) : Str := "pop ".toList ++ stringify x

section Texts

variable {regs : List Reg}

theorem concatReverse_eq (xs reversed : List Str) :
    concatReverse xs reversed = (xs.reverse ++ reversed).flatten := by
  induction xs generalizing reversed with
  | nil => rfl
  | cons x xs ih => rw [concatReverse, ih, List.reverse_cons, List.append_assoc, List.singleton_append]

theorem saveAllRegs_eq : saveAllRegs regs = terminated '\n' (regs.reverse.map pushLine ++ ["pushfq".toList]) := by
  have hlines : saveSpecifiedRegs regs = terminated '\n' (regs.reverse.map pushLine) := by
    rw [saveSpecifiedRegs, concatReverse_eq, List.append_nil, ← List.map_reverse, terminated, List.flatMap_map,
      List.flatMap_def]
    rfl
  have hlast : "pushfq\n".toList = terminated '\n' ["pushfq".toList] := by decide
  calc saveAllRegs regs
      = terminated '\n' (regs.reverse.map pushLine) ++ "pushfq\n".toList := congrArg (· ++ _) hlines
    _ = terminated '\n' (regs.reverse.map pushLine) ++ terminated '\n' ["pushfq".toList] := congrArg _ hlast
    _ = terminated '\n' (regs.reverse.map pushLine ++ ["pushfq".toList]) := (terminated_append _).symm

theorem loadAllRegs_eq : loadAllRegs regs = terminated '\n' ("popfq".toList :: regs.map popLine) := by
  have hlines : loadSpecifiedRegs regs = terminated '\n' (regs.map popLine) := by
    rw [loadSpecifiedRegs, terminated, List.flatMap_map, List.flatMap_def]
    rfl
  have hfirst : "popfq\n".toList = terminated '\n' ["popfq".toList] := by decide
  calc loadAllRegs regs
      = "popfq\n".toList ++ terminated '\n' (regs.map popLine) := congrArg _ hlines
    _ = terminated '\n' ["popfq".toList] ++ terminated '\n' (regs.map popLine) := congrArg (· ++ _) hfirst
    _ = terminated '\n' ("popfq".toList :: regs.map popLine) := (terminated_append _).symm

theorem newline_notin (x : Reg) : '\n' ∉ pushLine x ∧ '\n' ∉ popLine x := by
  cases x <;> decide

theorem instruction_line (x : Reg) :
    instruction (pushLine x) = some (.push x) ∧ instruction (popLine x) = some (.pop x) := by
  cases x <;> decide

theorem register_stringify (x : Reg) : register (stringify x) = some x ∧ stringify x ≠ "rflags".toList := by
  cases x <;> decide

theorem value_stringify (c : Cpu) (x : Reg) : value c (stringify x) = some (c.reg x) := by
  obtain ⟨hregister, hflags⟩ := register_stringify x
  rw [value, if_neg hflags, hregister, Option.map_some]

theorem value_rflags (c : Cpu) : value c "rflags".toList = some c.rflags := if_pos rfl

theorem assemble_terminated {ls : List Str} (h : ∀ l ∈ ls, '\n' ∉ l) :
    assemble (terminated '\n' ls) = ls.mapM instruction := by
  rw [assemble, lines_terminated h]

theorem assemble_saveAllRegs : assemble (saveAllRegs regs) = some (regs.reverse.map .push ++ [.pushfq]) := by
  have hplain : ∀ l ∈ regs.reverse.map pushLine ++ ["pushfq".toList], '\n' ∉ l := by
    intro l hl
    cases List.mem_append.mp hl with
    | inl hl =>
      obtain ⟨x, _, rfl⟩ := List.mem_map.mp hl
      exact (newline_notin x).1
    | inr hl =>
      rw [List.mem_singleton.mp hl]
      decide
  have hpush : instruction ∘ pushLine = fun x => some (.push x) := funext fun x => (instruction_line x).1
  have hlast : instruction "pushfq".toList = some .pushfq := rfl
  have hpushes : (regs.reverse.map pushLine).mapM instruction = some (regs.reverse.map .push) := by
    rw [List.mapM_map, hpush]
    exact List.mapM_pure
  rw [saveAllRegs_eq, assemble_terminated hplain, List.mapM_append, hpushes, List.mapM_cons, hlast]
  rfl

theorem assemble_loadAllRegs : assemble (loadAllRegs regs) = some (.popfq :: regs.map .pop) := by
  have hplain : ∀ l ∈ "popfq".toList :: regs.map popLine, '\n' ∉ l := by
    intro l hl
    cases List.mem_cons.mp hl with
    | inl hl =>
      rw [hl]
      decide
    | inr hl =>
      obtain ⟨x, _, rfl⟩ := List.mem_map.mp hl
      exact (newline_notin x).2
  have hpop : instruction ∘ popLine = fun x => some (.pop x) := funext fun x => (instruction_line x).2
  have hfirst : instruction "popfq".toList = some .popfq := rfl
  have hpops : (regs.map popLine).mapM instruction = some (regs.map .pop) := by
    rw [List.mapM_map, hpop]
    exact List.mapM_pure
  rw [loadAllRegs_eq, assemble_terminated hplain, List.mapM_cons, hfirst, hpops]
  rfl

end Texts

/-! ## Pushing and popping -/

section Stack

variable {regs : List Reg} {c : Cpu}

theorem runAll_pushes (regs : List Reg) (c : Cpu) : runAll (regs.reverse.map .push) c = c.pushAll regs := by
  induction regs with
  | nil => rfl
  | cons r rs ih =>
    have hrest : (rs.reverse.map Instr.push).foldl (fun c i => i.run c) c = c.pushAll rs := ih
    rw [runAll, List.reverse_cons, List.map_append, List.foldl_append, hrest]
    rfl

theorem runAll_pops (regs : List Reg) (c : Cpu) : runAll (regs.map .pop) c = c.popAll regs := by
  induction regs generalizing c with
  | nil => rfl
  | cons r rs ih => exact ih (c.pop r)

/-- Words a multiple of eight bytes apart do not overlap, also where the addresses wrap around. -/
theorem addresses_apart (a : UInt64) {n : Nat} (h : 8 ≤ n) (h' : n + 8 ≤ 2 ^ 64) :
    (a + .ofNat n).toNat + 8 ≤ a.toNat ∨ a.toNat + 8 ≤ (a + .ofNat n).toNat := by
  have ha := a.toNat_lt
  have hsize : UInt64.size = 2 ^ 64 := rfl
  have hn : (UInt64.ofNat n).toNat = n := UInt64.toNat_ofNat_of_lt' (by omega)
  have hadd : (a + UInt64.ofNat n).toNat = (a.toNat + n) % 2 ^ 64 := by rw [UInt64.toNat_add, hn]
  omega

theorem ofNat_field (i : Nat) : UInt64.ofNat (8 * (i + 1)) = .ofNat (8 * i) + 8 := by
  have hstep : 8 * (i + 1) = 8 * i + 8 := by omega
  rw [hstep, UInt64.ofNat_add]
  rfl

theorem fieldAddr_zero (c : Cpu) : fieldAddr c 0 = c.reg .rsp := UInt64.add_zero _

theorem fieldAddr_push (c : Cpu) (v : UInt64) (i : Nat) : fieldAddr (c.push v) (i + 1) = fieldAddr c i := by
  rw [fieldAddr, fieldAddr, Cpu.push_rsp, ofNat_field]
  grind

theorem fieldAddr_drop (c : Cpu) (i : Nat) : fieldAddr c.drop i = fieldAddr c (i + 1) := by
  rw [fieldAddr, fieldAddr, Cpu.drop_rsp, ofNat_field]
  grind

theorem field_push_zero (c : Cpu) (v : UInt64) : field (c.push v) 0 = v := by
  rw [field, fieldAddr_zero, Cpu.push_rsp, Cpu.push_memory, word_setWord]

/-- A push moves the fields on by one. -/
theorem field_push_succ (c : Cpu) (v : UInt64) {i : Nat} (h : 8 * (i + 1) + 8 ≤ 2 ^ 64) :
    field (c.push v) (i + 1) = field c i := by
  have hat : fieldAddr c i = c.reg .rsp - 8 + .ofNat (8 * (i + 1)) := by
    rw [← fieldAddr_push c v i, fieldAddr, Cpu.push_rsp]
  have hapart := addresses_apart (c.reg .rsp - 8) (n := 8 * (i + 1)) (by omega) h
  rw [field, fieldAddr_push, Cpu.push_memory, field, hat]
  exact word_setWord_apart hapart

theorem field_drop (c : Cpu) (i : Nat) : field c.drop i = field c (i + 1) := by
  rw [field, field, fieldAddr_drop, Cpu.drop_memory]

theorem field_pop {r : Reg} (hr : r ≠ .rsp) (c : Cpu) (i : Nat) : field (c.pop r) i = field c (i + 1) := by
  have hmov : fieldAddr (c.drop.mov r c.top) i = fieldAddr c.drop i := by
    rw [fieldAddr, fieldAddr, Cpu.mov_other _ _ (Ne.symm hr)]
  rw [← field_drop, field, field, ← hmov]
  rfl

theorem field_popfq (c : Cpu) (i : Nat) : field c.popfq i = field c (i + 1) := by
  rw [← field_drop, field, field, fieldAddr, fieldAddr, Cpu.popfq_reg, Cpu.popfq_memory, Cpu.drop_memory]

theorem top_eq (c : Cpu) : c.top = field c 0 := by
  rw [field, fieldAddr_zero]
  rfl

theorem pushAll_reg (regs : List Reg) (c : Cpu) {r : Reg} (hr : r ≠ .rsp) :
    (c.pushAll regs).reg r = c.reg r := by
  induction regs with
  | nil => rfl
  | cons q rs ih => rw [Cpu.pushAll, Cpu.push_other _ _ hr, ih]

theorem pushAll_rsp (regs : List Reg) (c : Cpu) :
    (c.pushAll regs).reg .rsp + .ofNat (8 * regs.length) = c.reg .rsp := by
  induction regs with
  | nil => exact UInt64.add_zero _
  | cons q rs ih =>
    rw [Cpu.pushAll, Cpu.push_rsp, List.length_cons, ofNat_field, ← ih]
    grind

/-- The registers lie at increasing addresses in the order of the list. -/
theorem pushAll_field (hrsp : .rsp ∉ regs) (hlen : 8 * regs.length < 2 ^ 64) (c : Cpu) {i : Nat} {r : Reg}
    (hi : regs[i]? = some r) : field (c.pushAll regs) i = c.reg r := by
  induction regs generalizing i with
  | nil => cases hi
  | cons q rs ih =>
    obtain ⟨hq, hrs⟩ := not_or.mp (fun h => hrsp (List.mem_cons.mpr h))
    rw [List.length_cons] at hlen
    cases i with
    | zero =>
      cases hi
      rw [Cpu.pushAll, field_push_zero, pushAll_reg rs c (Ne.symm hq)]
    | succ i =>
      rw [List.getElem?_cons_succ] at hi
      obtain ⟨hlt, _⟩ := List.getElem?_eq_some_iff.mp hi
      rw [Cpu.pushAll, field_push_succ _ _ (by omega), ih hrs (by omega) hi]

theorem popAll_reg (regs : List Reg) (c : Cpu) {r : Reg} (hr : r ∉ regs) (hrsp : r ≠ .rsp) :
    (c.popAll regs).reg r = c.reg r := by
  induction regs generalizing c with
  | nil => rfl
  | cons q rs ih =>
    obtain ⟨hrq, hrs⟩ := not_or.mp (fun h => hr (List.mem_cons.mpr h))
    rw [Cpu.popAll, ih _ hrs, Cpu.pop, Cpu.mov_other _ _ hrq, Cpu.drop_other _ hrsp]

theorem popAll_rsp (hrsp : .rsp ∉ regs) (c : Cpu) :
    (c.popAll regs).reg .rsp = c.reg .rsp + .ofNat (8 * regs.length) := by
  induction regs generalizing c with
  | nil => exact (UInt64.add_zero _).symm
  | cons q rs ih =>
    obtain ⟨hq, hrs⟩ := not_or.mp (fun h => hrsp (List.mem_cons.mpr h))
    rw [Cpu.popAll, ih hrs, Cpu.pop, Cpu.mov_other _ _ hq, Cpu.drop_rsp, List.length_cons, ofNat_field]
    grind

theorem popAll_field (hrsp : .rsp ∉ regs) (hnodup : regs.Nodup) (c : Cpu) {i : Nat} {r : Reg}
    (hi : regs[i]? = some r) : (c.popAll regs).reg r = field c i := by
  induction regs generalizing c i with
  | nil => cases hi
  | cons q rs ih =>
    obtain ⟨hq, hrs⟩ := not_or.mp (fun h => hrsp (List.mem_cons.mpr h))
    obtain ⟨hnotin, hnodup⟩ := List.nodup_cons.mp hnodup
    cases i with
    | zero =>
      cases hi
      rw [Cpu.popAll, popAll_reg rs _ hnotin (Ne.symm hq), ← top_eq]
      exact Cpu.mov_self ..
    | succ i =>
      rw [List.getElem?_cons_succ] at hi
      rw [Cpu.popAll, ih hrs hnodup _ hi, field_pop (Ne.symm hq)]

end Stack

/-! ## Saving and loading -/

/-- The words above the stack pointer are a structure with these fields, and its values are those of the
registers of the same names. -/
def Agrees (fields : List Str) (stack registers : Cpu) : Prop :=
  ∀ i name, fields[i]? = some name → value registers name = some (field stack i)

/-- Nothing but the flags, the listed registers and the stack pointer is different. -/
structure Unlisted (regs : List Reg) (before after : Cpu) : Prop where
  reg : ∀ r, r ∉ regs → r ≠ .rsp → after.reg r = before.reg r
  memory : after.memory = before.memory
  fs : after.fs = before.fs
  rip : after.rip = before.rip
  cr3 : after.cr3 = before.cr3

section Registers

variable {regs : List Reg}

theorem reg_mem_REGS (r : Reg) : r ∈ REGS := by
  cases r <;> decide

theorem length_regs (hnodup : regs.Nodup) : regs.length ≤ 16 :=
  (List.subperm_of_subset hnodup fun r _ => reg_mem_REGS r).length_le

/-- Fields are the flags and then the registers in the order of the list. -/
theorem savedRegisters_cases {i : Nat} {name : Str} (h : (savedRegisters regs)[i]? = some name) :
    i = 0 ∧ name = "rflags".toList ∨ ∃ j r, i = j + 1 ∧ regs[j]? = some r ∧ name = stringify r := by
  cases i with
  | zero => exact .inl ⟨rfl, (Option.some.inj h).symm⟩
  | succ j =>
    have hname : (regs.map stringify)[j]? = some name := h
    rw [List.getElem?_map, Option.map_eq_some_iff] at hname
    obtain ⟨r, hr, rfl⟩ := hname
    exact .inr ⟨j, r, rfl, hr, rfl⟩

theorem save_agrees (hrsp : .rsp ∉ regs) (hnodup : regs.Nodup) (c : Cpu) :
    Agrees (savedRegisters regs) (c.pushAll regs).pushfq c := by
  have hlen := length_regs hnodup
  intro i name h
  cases savedRegisters_cases h with
  | inl hflags =>
    obtain ⟨rfl, rfl⟩ := hflags
    rw [Cpu.pushfq, field_push_zero, (Cpu.pushAll_rest regs c).1, value_rflags]
  | inr hreg =>
    obtain ⟨j, r, rfl, hr, rfl⟩ := hreg
    obtain ⟨hlt, _⟩ := List.getElem?_eq_some_iff.mp hr
    rw [Cpu.pushfq, field_push_succ _ _ (by omega), pushAll_field hrsp (by omega) c hr, value_stringify]

theorem load_agrees (hrsp : .rsp ∉ regs) (hnodup : regs.Nodup) (c : Cpu) :
    Agrees (savedRegisters regs) c (c.popfq.popAll regs) := by
  intro i name h
  cases savedRegisters_cases h with
  | inl hflags =>
    obtain ⟨rfl, rfl⟩ := hflags
    rw [value_rflags, (Cpu.popAll_rest regs c.popfq).1, Cpu.popfq_rflags, top_eq]
  | inr hreg =>
    obtain ⟨j, r, rfl, hr, rfl⟩ := hreg
    rw [value_stringify, popAll_field hrsp hnodup _ hr, field_popfq]

theorem popAll_outside (regs : List Reg) (c : Cpu) :
    (c.popAll regs).rip = c.rip ∧ (c.popAll regs).cr3 = c.cr3 := by
  induction regs generalizing c with
  | nil => exact ⟨rfl, rfl⟩
  | cons r rs ih => exact ih (c.pop r)

theorem load_unlisted (regs : List Reg) (c : Cpu) : Unlisted regs c (c.popfq.popAll regs) where
  reg r hr hrsp := by rw [popAll_reg regs _ hr hrsp, Cpu.popfq_reg, Cpu.drop_other _ hrsp]
  memory := (Cpu.popAll_rest regs c.popfq).2.2
  fs := (Cpu.popAll_rest regs c.popfq).2.1
  rip := (popAll_outside regs c.popfq).1
  cr3 := (popAll_outside regs c.popfq).2

theorem execute_saveAllRegs (regs : List Reg) (c : Cpu) :
    execute (saveAllRegs regs) c = some (c.pushAll regs).pushfq := by
  rw [execute, assemble_saveAllRegs, Option.map_some, runAll, List.foldl_append]
  exact congrArg some (congrArg Cpu.pushfq (runAll_pushes regs c))

theorem execute_loadAllRegs (regs : List Reg) (c : Cpu) :
    execute (loadAllRegs regs) c = some (c.popfq.popAll regs) := by
  rw [execute, assemble_loadAllRegs, Option.map_some, runAll, List.foldl_cons]
  exact congrArg some (runAll_pops regs c.popfq)

theorem save_load_rsp (hrsp : .rsp ∉ regs) {c modified : Cpu}
    (h : modified.reg .rsp = (c.pushAll regs).pushfq.reg .rsp) :
    (modified.popfq.popAll regs).reg .rsp = c.reg .rsp := by
  have hsaved := pushAll_rsp regs c
  rw [popAll_rsp hrsp, Cpu.popfq_reg, Cpu.drop_rsp, h, Cpu.pushfq, Cpu.push_rsp, UInt64.sub_add_cancel, hsaved]

end Registers

/-- What is saved is the structure, and loading what has become of the structure sets each register to the
field of its name. -/
theorem save_load (regs : List Reg) (hrsp : .rsp ∉ regs) (hnodup : regs.Nodup) (c : Cpu) :
    ∃ saved, execute (saveAllRegs regs) c = some saved ∧ Agrees (savedRegisters regs) saved c ∧
      (∀ r, r ≠ .rsp → saved.reg r = c.reg r) ∧
      ∀ modified : Cpu, modified.reg .rsp = saved.reg .rsp →
        ∃ loaded, execute (loadAllRegs regs) modified = some loaded ∧
          Agrees (savedRegisters regs) modified loaded ∧ loaded.reg .rsp = c.reg .rsp ∧
          Unlisted regs modified loaded := by
  refine ⟨(c.pushAll regs).pushfq, execute_saveAllRegs regs c, save_agrees hrsp hnodup c, fun r hr => ?_,
    fun modified h => ?_⟩
  · rw [Cpu.pushfq, Cpu.push_other _ _ hr, pushAll_reg regs c hr]
  · exact ⟨modified.popfq.popAll regs, execute_loadAllRegs regs modified, load_agrees hrsp hnodup modified,
      save_load_rsp hrsp h, load_unlisted regs modified⟩

/-- A machine whose stack begins at the end of the address space. -/
def emptyStack : Cpu := ⟨fun _ => 0, 0x2, 0, 0, fun _ => 0, fun _ => 0⟩

theorem save_load_two :
    ∃ saved, execute (saveAllRegs [.rdi, .rbx]) emptyStack = some saved ∧
      Agrees (savedRegisters [.rdi, .rbx]) saved emptyStack ∧
      (∀ r, r ≠ .rsp → saved.reg r = emptyStack.reg r) ∧
      ∀ modified : Cpu, modified.reg .rsp = saved.reg .rsp →
        ∃ loaded, execute (loadAllRegs [.rdi, .rbx]) modified = some loaded ∧
          Agrees (savedRegisters [.rdi, .rbx]) modified loaded ∧ loaded.reg .rsp = emptyStack.reg .rsp ∧
          Unlisted [.rdi, .rbx] modified loaded :=
  save_load [.rdi, .rbx] (by decide) (by decide) emptyStack

/-! ## The way into the kernel -/

/-- The texts of the entry routine do what pushing and popping all registers does. -/
theorem execute_allRegs (c : Cpu) :
    execute (doWithAllRegs saveAllRegs) c = some (Idkernel.saveAllRegs c) ∧
      execute (doWithAllRegs loadAllRegs) c = some (Idkernel.loadAllRegs c) :=
  ⟨execute_saveAllRegs allRegs c, execute_loadAllRegs allRegs c⟩

/-- The record of the dispatcher is the structure over all registers. -/
theorem words_allRegs (c : Cpu) :
    (doWithAllRegs savedRegisters).map (value c) = (AllSavedRegisters.ofCpu c).words.map some := rfl

end AsmMacros

end Idkernel
