/-!
The instruction table: 33 opcodes, the byte and the mnemonic of each, and the kind of operand that
follows it. The byte of an opcode is its position in the table.
-/

namespace TagMachine

/-- The opcodes, in the order of their bytes. -/
inductive Opcode
  | nop | push | pop | read | add | sub | mul | div | mod | itostr
  | jmp | lt | gt | eq | jnz | jz
  | inc | dec | shl | shr
  | cpy | swap
  | pushs | pops | reads | strcat | strlen | strtoi | strcmp | instr
  | writefile | readfile
  | halt
  deriving DecidableEq, Repr

/-- What follows an opcode in a program: nothing, a 64-bit number in eight bytes, a program offset
in two, or a length byte and that many bytes. -/
inductive OperandKind
  | none
  | immediate
  | target
  | literal
  deriving DecidableEq, Repr

namespace Opcode

def all : List Opcode :=
  [nop, push, pop, read, add, sub, mul, div, mod, itostr,
    jmp, lt, gt, eq, jnz, jz,
    inc, dec, shl, shr,
    cpy, swap,
    pushs, pops, reads, strcat, strlen, strtoi, strcmp, instr,
    writefile, readfile,
    halt]

def byte : Opcode → UInt8
  | nop => 0 | push => 1 | pop => 2 | read => 3 | add => 4
  | sub => 5 | mul => 6 | div => 7 | mod => 8 | itostr => 9
  | jmp => 10 | lt => 11 | gt => 12 | eq => 13 | jnz => 14
  | jz => 15 | inc => 16 | dec => 17 | shl => 18 | shr => 19
  | cpy => 20 | swap => 21 | pushs => 22 | pops => 23 | reads => 24
  | strcat => 25 | strlen => 26 | strtoi => 27 | strcmp => 28 | instr => 29
  | writefile => 30 | readfile => 31 | halt => 32

/-- The opcode of a byte, if the table reaches that far. -/
def ofByte? (byte : UInt8) : Option Opcode :=
  all[byte.toNat]?

def mnemonic : Opcode → String
  | nop => "nop" | push => "push" | pop => "pop" | read => "read"
  | add => "add" | sub => "sub" | mul => "mul" | div => "div"
  | mod => "mod" | itostr => "itostr"
  | jmp => "jmp" | lt => "lt" | gt => "gt" | eq => "eq"
  | jnz => "jnz" | jz => "jz"
  | inc => "inc" | dec => "dec" | shl => "shl" | shr => "shr"
  | cpy => "cpy" | swap => "swap"
  | pushs => "pushs" | pops => "pops" | reads => "reads"
  | strcat => "strcat" | strlen => "strlen" | strtoi => "strtoi"
  | strcmp => "strcmp" | instr => "instr"
  | writefile => "writefile" | readfile => "readfile"
  | halt => "halt"

def ofMnemonic? (name : String) : Option Opcode :=
  all.find? (·.mnemonic == name)

def operandKind : Opcode → OperandKind
  | push => .immediate
  | jmp | jnz | jz => .target
  | pushs => .literal
  | _ => .none

/-! ## The table agrees with itself -/

@[simp] theorem ofByte?_byte (opcode : Opcode) :
    ofByte? opcode.byte = some opcode := by
  cases opcode <;> rfl

theorem byte_of_ofByte? {byte : UInt8} {opcode : Opcode}
    (found : ofByte? byte = some opcode) :
    opcode.byte = byte := by
  have small : byte.toNat < 33 := by
    have bound := (List.getElem?_eq_some_iff.mp found).1
    simpa [all] using bound
  obtain ⟨position, rfl⟩ : ∃ position : Fin 33, byte = UInt8.ofNat position := by
    exact ⟨⟨byte.toNat, small⟩, by simp⟩
  revert found opcode
  revert position
  decide

theorem ofByte?_eq_none_iff (byte : UInt8) :
    ofByte? byte = none ↔ 33 ≤ byte.toNat := by
  simp [ofByte?, all]

end Opcode

end TagMachine
