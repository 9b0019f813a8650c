import GoVite.Spec.Vm.Interpreter
import Mathlib.Data.List.GetD
import Mathlib.Logic.Relation
import Mathlib.Order.Interval.Set.LinearOrder

/-! Execution never enters push data: the bitmap marks the argument bytes a linear scan finds, and the program counter
moves from instruction to instruction of the same scan. -/

namespace GoVite.Vm
open ByteString AccountBlocks Bitvec List Relation Option Set

/-- How many argument bytes are still to come at a position of the scan from 0. -/
def pending (code : Data) : ℕ → ℕ
  | 0 => 0
  | p + 1 =>
    match pending code p with
    | 0 => pushSize (getByte code p)
    | n + 1 => n

theorem pushSize_le (op : ℕ) : pushSize op ≤ 32 := by
  unfold pushSize PUSH1 PUSH32
  split_ifs <;> omega

variable {code : Data} {pc : ℕ}

theorem getByte_past (hpc : code.length ≤ pc) : getByte code pc = STOP := getD_eq_default _ _ (by simpa using hpc)

theorem pending_data (h : pending code pc = 0) {i : ℕ} (hi : i ≤ pushSize (getByte code pc)) :
    pending code (pc + 1 + i) = pushSize (getByte code pc) - i := by
  induction i with
  | zero => simp [pending, h]
  | succ i ih =>
    rw [← add_assoc, pending]
    split <;> omega

theorem pending_next (h : pending code pc = 0) : pending code (pc + 1 + pushSize (getByte code pc)) = 0 := by
  rw [pending_data h le_rfl, Nat.sub_self]

theorem pending_past (hpc : code.length ≤ pc) (h : pending code pc = 0) (i : ℕ) : pending code (pc + i) = 0 := by
  induction i with
  | zero => exact h
  | succ i ih =>
    rw [← add_assoc, pending, ih, getByte_past (by omega)]
    rfl

variable {bits : Bitvec} {n q : ℕ} {S : Set ℕ}

/-- The vector has `n` bytes and marks the positions in `S`. -/
structure Shows (bits : Bitvec) (n : ℕ) (S : Set ℕ) : Prop where
  length : bits.length = n
  clear : ∀ p < 8 * n, bits.codeSegment p = some true ↔ p ∉ S

theorem Shows.orAt (h : Shows bits n S) {i : ℕ} (hi : i < n) (mask : BitVec 8) :
    ∃ bits', bits.orAt i mask = some bits' ∧
      Shows bits' n (S ∪ {p | p / 8 = i ∧ mask &&& (0x80#8 >>> (p % 8)) ≠ 0}) := by
  rw [← h.length] at hi
  refine ⟨bits.set i (bits[i] ||| mask), by simp [Bitvec.orAt, hi], by simp [h.length], fun p hp => ?_⟩
  rw [mem_union, not_or, ← h.clear p hp]
  unfold codeSegment
  by_cases hi' : p / 8 = i
  · subst hi'
    simp [hi, BitVec.and_or_distrib_right]
  · simp [hi', Ne.symm hi']

theorem bit_mask : ∀ i < 8, ∀ j < 8, (0x80#8 >>> i) &&& (0x80#8 >>> j) ≠ 0 ↔ i = j := by decide

theorem low_mask : ∀ i < 8, ∀ j < 8, (0xFF#8 >>> i) &&& (0x80#8 >>> j) ≠ 0 ↔ i ≤ j := by decide

theorem high_mask : ∀ i < 8, ∀ j < 8, ~~~(0xFF#8 >>> i) &&& (0x80#8 >>> j) ≠ 0 ↔ j < i := by decide

theorem Shows.setBit (h : Shows bits n S) (hq : q + 1 < 8 * n) :
    ∃ bits', bits.setBit q = some bits' ∧ Shows bits' n (S ∪ Set.Ico q (q + 1)) := by
  obtain ⟨bits', heq, h'⟩ := h.orAt (i := q / 8) (by omega) (0x80#8 >>> (q % 8))
  refine ⟨bits', heq, ?_⟩
  convert h' using 2
  ext p
  rw [mem_ofPred_eq, bit_mask _ (q.mod_lt (by decide)) _ (p.mod_lt (by decide)), mem_Ico]
  omega

theorem Shows.set8 (h : Shows bits n S) (hq : q + 8 < 8 * n) :
    ∃ bits', bits.set8 q = some bits' ∧ Shows bits' n (S ∪ Set.Ico q (q + 8)) := by
  obtain ⟨mid, heq, hmid⟩ := h.orAt (i := q / 8) (by omega) (0xFF#8 >>> (q % 8))
  obtain ⟨bits', heq', h'⟩ := hmid.orAt (i := q / 8 + 1) (by omega) (~~~(0xFF#8 >>> (q % 8)))
  refine ⟨bits', by rw [Bitvec.set8, heq]; exact heq', ?_⟩
  rw [union_assoc] at h'
  convert h' using 2
  ext p
  rw [mem_union, mem_ofPred_eq, mem_ofPred_eq, low_mask _ (q.mod_lt (by decide)) _ (p.mod_lt (by decide)),
    high_mask _ (q.mod_lt (by decide)) _ (p.mod_lt (by decide)), mem_Ico]
  omega

theorem Shows.setLoop {set : Bitvec → ℕ → Option Bitvec} {width : ℕ}
    (hset : ∀ {bits S q}, Shows bits n S → q + width < 8 * n →
      ∃ bits', set bits q = some bits' ∧ Shows bits' n (S ∪ Set.Ico q (q + width)))
    (h : Shows bits n S) {k : ℕ} (hq : q + width * k < 8 * n) :
    ∃ bits', setLoop set width k bits q = some (bits', q + width * k) ∧
      Shows bits' n (S ∪ Set.Ico q (q + width * k)) := by
  induction k generalizing bits S q with
  | zero => exact ⟨bits, rfl, by simpa using h⟩
  | succ k ih =>
    rw [Nat.mul_succ] at hq
    obtain ⟨mid, heq, hmid⟩ := hset h (q := q) (by omega)
    obtain ⟨bits', heq', h'⟩ := ih hmid (q := q + width) (by omega)
    rw [add_assoc, add_comm width] at heq' h'
    rw [union_assoc, Set.Ico_union_Ico_eq_Ico (by omega) (by omega)] at h'
    exact ⟨bits', by rw [Bitvec.setLoop, heq]; exact heq', h'⟩

/-- The positions before `pc` that hold arguments. -/
def dataBefore (code : Data) (pc : ℕ) : Set ℕ := {p | p < pc ∧ pending code p ≠ 0}

theorem dataBefore_next (h : pending code pc = 0) :
    dataBefore code (pc + 1 + pushSize (getByte code pc)) =
      dataBefore code pc ∪ Set.Ico (pc + 1) (pc + 1 + pushSize (getByte code pc)) := by
  ext p
  rw [mem_union, mem_Ico]
  constructor
  · rintro ⟨hlt, hp⟩
    have hne : p ≠ pc := fun heq => hp (heq ▸ h)
    by_cases hbefore : p < pc
    · exact .inl ⟨hbefore, hp⟩
    · exact .inr (by omega)
  · rintro (⟨hlt, hp⟩ | hin)
    · exact ⟨by omega, hp⟩
    · obtain ⟨i, rfl⟩ := Nat.exists_eq_add_of_le hin.1
      exact ⟨hin.2, by rw [pending_data h (by omega)]; omega⟩

theorem dataBefore_end (hpc : code.length ≤ pc) (h : pending code pc = 0) :
    dataBefore code pc = {p | pending code p ≠ 0} := by
  ext p
  refine and_iff_right_of_imp fun hp => ?_
  by_contra hlt
  obtain ⟨i, rfl⟩ := Nat.exists_eq_add_of_le (not_lt.1 hlt)
  exact hp (pending_past hpc h i)

theorem codeBitmapLoop_shows {fuel : ℕ} (hfuel : code.length ≤ pc + fuel) (hpc : pending code pc = 0)
    (h : Shows bits (code.length / 8 + 5) (dataBefore code pc)) :
    ∃ bits', codeBitmapLoop code fuel bits pc = some bits' ∧
      Shows bits' (code.length / 8 + 5) {p | pending code p ≠ 0} := by
  induction fuel generalizing bits pc with
  | zero => exact ⟨bits, if_neg hfuel.not_gt, dataBefore_end hfuel hpc ▸ h⟩
  | succ fuel ih =>
    by_cases hlt : pc < code.length
    · have hle := pushSize_le (getByte code pc)
      have hnext := pending_next hpc
      have hdata := dataBefore_next hpc
      generalize hk : pushSize (getByte code pc) = k at *
      have hend : pc + 1 + 8 * (k / 8) + 1 * (k % 8) = pc + 1 + k := by omega
      obtain ⟨mid, heq, hmid⟩ := h.setLoop Shows.set8 (k := k / 8) (q := pc + 1) (by omega)
      obtain ⟨mid', heq', hmid'⟩ := hmid.setLoop Shows.setBit (k := k % 8) (q := pc + 1 + 8 * (k / 8)) (by omega)
      rw [union_assoc, Set.Ico_union_Ico_eq_Ico (by omega) (by omega), hend, ← hdata] at hmid'
      obtain ⟨bits', heq'', h'⟩ := ih (by omega) hnext hmid'
      refine ⟨bits', ?_, h'⟩
      rw [codeBitmapLoop, if_pos hlt]
      simp only [hk, bind_eq_bind, heq, heq', hend, bind_some, heq'']
    · exact ⟨bits, if_neg hlt, dataBefore_end (not_lt.1 hlt) hpc ▸ h⟩

/-- The bitmap of a code shows its scan. -/
structure Bitmap (code : Data) (bits : Bitvec) : Prop where
  computed : codeBitmap code = some bits
  length : code.length < 8 * bits.length
  codeSegment : ∀ p < 8 * bits.length, bits.codeSegment p = some (decide (pending code p = 0))

theorem exists_bitmap (code : Data) : ∃ bits, Bitmap code bits := by
  have hempty : Shows (replicate (code.length / 8 + 1 + 4) 0) (code.length / 8 + 5) (dataBefore code 0) := by
    refine ⟨length_replicate, fun p hp => ?_⟩
    simp [codeSegment, dataBefore, show p / 8 < code.length / 8 + 1 + 4 by omega]
  obtain ⟨bits, heq, h⟩ := codeBitmapLoop_shows (Nat.le_add_left ..) rfl hempty
  refine ⟨bits, heq, by rw [h.length]; omega, fun p hp => ?_⟩
  have hclear := h.clear p (h.length ▸ hp)
  unfold Bitvec.codeSegment at hclear ⊢
  simp_all [show p / 8 < bits.length by omega]

variable {d d' : Destinations} {addr : Address} (dest : ℕ)

/-- A cached bitmap is the one of the code. -/
def Cached (bits : Bitvec) (d : Destinations) (addr : Address) : Prop := ∀ m, d addr = some m → m = bits

theorem bitmap_eq (h : Bitmap code bits) (hd : Cached bits d addr) :
    ∃ d', d.bitmap addr code = some (bits, d') ∧ Cached bits d' addr := by
  unfold Destinations.bitmap
  cases hm : d addr with
  | some m => exact ⟨d, by rw [hd m hm], hd⟩
  | none =>
    refine ⟨_, by rw [h.computed]; rfl, fun m hm => ?_⟩
    simpa using hm.symm

/-- Destinations that do not fit into 62 bits are refused. -/
theorem has_eq (h : Bitmap code bits) (hd : Cached bits d addr) :
    ∃ d', d.has addr code dest = some (decide (dest < 2 ^ 62 ∧ dest < code.length ∧ getByte code dest = JUMPDEST ∧
      pending code dest = 0), d') ∧ Cached bits d' addr := by
  have hsize : 63 ≤ dest.size ↔ ¬dest < 2 ^ 62 := by rw [← Nat.size_le]; omega
  unfold Destinations.has
  by_cases hdest : dest < 2 ^ 62 ∧ dest < code.length
  · obtain ⟨d', heq, hd'⟩ := bitmap_eq h hd
    refine ⟨d', ?_, hd'⟩
    have hseg := h.codeSegment dest (hdest.2.trans h.length)
    rw [Nat.mod_eq_of_lt (by omega), if_neg (by omega), heq]
    by_cases hop : getByte code dest = JUMPDEST <;>
      simp only [hop, hseg, hdest.1, hdest.2, bind_eq_bind, bind_some, map_some, if_true, if_false,
        true_and, false_and, decide_false]
  · refine ⟨d, ?_, hd⟩
    rw [if_pos (by omega)]
    simp; omega

variable {c : Contract} {m m' : Machine}

/-- The program counter is at an instruction and far from overflow. -/
structure Inv (c : Contract) (bits : Bitvec) (m : Machine) : Prop where
  pending : pending c.code m.pc = 0
  bounded : m.pc ≤ c.code.length + 32
  cached : Cached bits m.jumpdests c.codeAddr

theorem Inv.jump (hb : Bitmap c.code bits) (hd : Cached bits d c.codeAddr)
    (hhas : d.has c.codeAddr c.code dest = some (true, d')) (stack : List ℕ) :
    Inv c bits ⟨dest % 2 ^ 64, stack, d'⟩ := by
  obtain ⟨d'', heq, hd''⟩ := has_eq dest hb hd
  obtain ⟨hdest, rfl⟩ := Prod.mk.inj (mem_unique heq hhas)
  obtain ⟨h62, hlt, -, hzero⟩ := of_decide_eq_true hdest
  rw [Nat.mod_eq_of_lt (by omega)]
  exact ⟨hzero, by dsimp only; omega, hd''⟩

theorem pc_lt_length (hop : c.getOp m.pc ≠ STOP) : m.pc < c.code.length := by
  by_contra hpc
  exact hop (getByte_past (not_lt.1 hpc))

theorem Inv.round (hb : Bitmap c.code bits) (h : Inv c bits m) (hround : Round c m m') : Inv c bits m' := by
  have hnext : Vm.pending c.code (m.pc + 1 + pushSize (c.getOp m.pc)) = 0 := pending_next h.pending
  have hlt := pc_lt_length (c := c) (m := m)
  cases hround with
  | jump _ hhas => exact .jump _ hb h.cached hhas _
  | jumpi _ _ hhas => exact .jump _ hb h.cached hhas _
  | jumpiNot hop =>
    rw [hop] at hnext hlt
    exact ⟨hnext, (hlt (by decide)).trans (Nat.lt_add_of_pos_right (by decide)), h.cached⟩
  | push hpush =>
    have hle := pushSize_le (c.getOp m.pc)
    have hstop : c.getOp m.pc ≠ STOP := fun h => by
      rw [h] at hpush
      exact absurd hpush.1 (by decide)
    rw [add_right_comm] at hnext
    exact ⟨hnext, by have := hlt hstop; simp only [Machine.next, makePush]; omega, h.cached⟩
  | other hstop _ _ hpush =>
    rw [pushSize, if_neg hpush] at hnext
    exact ⟨hnext, (hlt hstop).trans (Nat.lt_add_of_pos_right (by decide)), h.cached⟩

/-- The bitmap shows the scan, valid destinations are its JUMPDEST instructions, and the program counter keeps to its
instructions until it leaves the code. -/
theorem runLoop_avoids_pushData (c : Contract) (hlen : c.code.length ≤ 2 ^ 62) :
    ∃ bits, Bitmap c.code bits ∧
      (∀ (d : Destinations) (dest : ℕ), Cached bits d c.codeAddr → ∃ d', d.has c.codeAddr c.code dest =
        some (decide (dest < c.code.length ∧ getByte c.code dest = JUMPDEST ∧ pending c.code dest = 0), d')) ∧
      ∀ m, ReflTransGen (Round c) ⟨0, [], fun _ => none⟩ m → m.pc ≤ c.code.length + 32 ∧
        (m.pc < c.code.length → bits.codeSegment m.pc = some true) := by
  obtain ⟨bits, hb⟩ := exists_bitmap c.code
  refine ⟨bits, hb, fun d dest hd => ?_, fun m hrun => ?_⟩
  · obtain ⟨d', hhas, -⟩ := has_eq dest hb hd
    refine ⟨d', hhas.trans ?_⟩
    congr 3
    exact propext (and_iff_right_of_imp fun h => h.1.trans_le hlen)
  · have hinv : Inv c bits m := by
      induction hrun with
      | refl => exact ⟨rfl, Nat.zero_le _, nofun⟩
      | tail _ hround ih => exact ih.round hb hround
    refine ⟨hinv.bounded, fun hpc => ?_⟩
    rw [hb.codeSegment _ (hpc.trans hb.length), hinv.pending]
    rfl

/-- The argument of a PUSH1 is no destination, although it is a JUMPDEST byte. -/
theorem runLoop_avoids_pushData_hidden : ∃ bits, codeBitmap [0x60, 0x5b, 0x5b] = some bits ∧
    bits.codeSegment 1 = some false ∧
    ∃ d', Destinations.has (fun _ => none) zeroAddress [0x60, 0x5b, 0x5b] 1 = some (false, d') := by
  obtain ⟨bits, hb, hhas, -⟩ := runLoop_avoids_pushData ⟨[0x60, 0x5b, 0x5b], zeroAddress⟩ (by decide)
  exact ⟨bits, hb.computed, hb.codeSegment 1 (Nat.lt_trans (by decide) hb.length), hhas (fun _ => none) 1 nofun⟩

end GoVite.Vm
