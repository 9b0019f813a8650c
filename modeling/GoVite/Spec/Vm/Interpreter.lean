import GoVite.Spec.Verifier.AccountBlock
import Mathlib.Logic.Function.Basic

/-! Jump destination analysis (`vm/destination.go`) and the program counter of the interpreter (`vm/interpreter.go`,
`vm/instructions.go`). `none` stands for an index out of range. -/

namespace GoVite.Vm
open ByteString AccountBlocks

abbrev Bitvec := List (BitVec 8)

namespace Bitvec

def orAt (bits : Bitvec) (i : ℕ) (mask : BitVec 8) : Option Bitvec :=
  bits[i]?.map fun b => bits.set i (b ||| mask)

def setBit (bits : Bitvec) (pos : ℕ) : Option Bitvec := bits.orAt (pos / 8) (0x80#8 >>> (pos % 8))

def set8 (bits : Bitvec) (pos : ℕ) : Option Bitvec := do
  let bits ← bits.orAt (pos / 8) (0xFF#8 >>> (pos % 8))
  bits.orAt (pos / 8 + 1) (~~~(0xFF#8 >>> (pos % 8)))

/-- Whether the position is in a code segment. -/
def codeSegment (bits : Bitvec) (pos : ℕ) : Option Bool :=
  bits[pos / 8]?.map fun b => b &&& (0x80#8 >>> (pos % 8)) = 0

/-- An inner loop of `codeBitmap` that runs `n` times. -/
def setLoop (set : Bitvec → ℕ → Option Bitvec) (width : ℕ) : ℕ → Bitvec → ℕ → Option (Bitvec × ℕ)
  | 0, bits, pc => some (bits, pc)
  | n + 1, bits, pc => do setLoop set width n (← set bits pc) (pc + width)

end Bitvec

/-- A byte of the code, and zeros after it. -/
def getByte (code : Data) (n : ℕ) : ℕ := (code.map Fin.val).getD n 0

def STOP : ℕ := 0x00
def JUMP : ℕ := 0x56
def JUMPI : ℕ := 0x57
def JUMPDEST : ℕ := 0x5b
def PUSH1 : ℕ := 0x60
def PUSH32 : ℕ := 0x7f

/-- The number of argument bytes of an instruction. -/
def pushSize (op : ℕ) : ℕ := if PUSH1 ≤ op ∧ op ≤ PUSH32 then op - PUSH1 + 1 else 0

/-- The loop of `codeBitmap`. Every round moves on, so as many rounds as there are bytes are enough. -/
def codeBitmapLoop (code : Data) : ℕ → Bitvec → ℕ → Option Bitvec
  | 0, bits, pc => if pc < code.length then none else some bits
  | fuel + 1, bits, pc =>
    if pc < code.length then do
      let numbits := pushSize (getByte code pc)
      let (bits, pc) ← Bitvec.setLoop Bitvec.set8 8 (numbits / 8) bits (pc + 1)
      let (bits, pc) ← Bitvec.setLoop Bitvec.setBit 1 (numbits % 8) bits pc
      codeBitmapLoop code fuel bits pc
    else some bits

def codeBitmap (code : Data) : Option Bitvec :=
  codeBitmapLoop code code.length (.replicate (code.length / 8 + 1 + 4) 0) 0

abbrev Destinations := Address → Option Bitvec

/-- The bitmap of the code, analysed at the first use. -/
def Destinations.bitmap (d : Destinations) (addr : Address) (code : Data) : Option (Bitvec × Destinations) :=
  match d addr with
  | some m => some (m, d)
  | none => (codeBitmap code).map fun m => (m, Function.update d addr (some m))

/-- Whether code has a JUMPDEST at `dest`. -/
def Destinations.has (d : Destinations) (addr : Address) (code : Data) (dest : ℕ) : Option (Bool × Destinations) :=
  let udest := dest % 2 ^ 64
  if 63 ≤ dest.size ∨ code.length ≤ udest then some (false, d)
  else do
    let (m, d) ← d.bitmap addr code
    if getByte code udest = JUMPDEST then (m.codeSegment udest).map (·, d) else some (false, d)

structure Contract where
  code : Data
  codeAddr : Address

def Contract.getOp (c : Contract) (n : ℕ) : ℕ := getByte c.code n

/-- The state of `runLoop`; memory, quota and database are left out. -/
structure Machine where
  pc : ℕ
  stack : List ℕ
  jumpdests : Destinations

def rightPadBytes (slice : Data) (l : ℕ) : Data := slice ++ writeBE (l - slice.length) 0

def makePush (size : ℕ) (c : Contract) (m : Machine) : Machine :=
  let startMin := min (m.pc + 1) c.code.length
  let endMin := min (startMin + size) c.code.length
  let integer := readBE (rightPadBytes ((c.code.take endMin).drop startMin) size)
  { m with pc := m.pc + size, stack := integer :: m.stack }

/-- `pc++` at the end of a round. -/
def Machine.next (m : Machine) : Machine := { m with pc := m.pc + 1 }

/-- A round of `runLoop` that is not the last. The other instructions may do anything to the stack; none of them writes
the program counter, and of those that halt only STOP, which stands past the end of the code, is told apart. -/
inductive Round (c : Contract) : Machine → Machine → Prop
  | jump {pc pos stack d d'} : c.getOp pc = JUMP → d.has c.codeAddr c.code pos = some (true, d') →
      Round c ⟨pc, pos :: stack, d⟩ ⟨pos % 2 ^ 64, stack, d'⟩
  | jumpi {pc pos cond stack d d'} : c.getOp pc = JUMPI → cond ≠ 0 →
      d.has c.codeAddr c.code pos = some (true, d') → Round c ⟨pc, pos :: cond :: stack, d⟩ ⟨pos % 2 ^ 64, stack, d'⟩
  | jumpiNot {pc pos stack d} : c.getOp pc = JUMPI → Round c ⟨pc, pos :: 0 :: stack, d⟩ ⟨pc + 1, stack, d⟩
  | push {m} : PUSH1 ≤ c.getOp m.pc ∧ c.getOp m.pc ≤ PUSH32 → Round c m (makePush (pushSize (c.getOp m.pc)) c m).next
  | other {m stack} : c.getOp m.pc ≠ STOP → c.getOp m.pc ≠ JUMP → c.getOp m.pc ≠ JUMPI →
      ¬(PUSH1 ≤ c.getOp m.pc ∧ c.getOp m.pc ≤ PUSH32) → Round c m { m with stack }.next

end GoVite.Vm
