import Mathlib.Data.List.Lex
import Mathlib.Order.Fin.Basic
import Mathlib.Tactic.Ring

/-! Fixed-length byte strings under the lexicographic order of a key-value database. The big-endian reading is an order
embedding into the naturals. -/

namespace ByteString
open List

abbrev Byte := Fin 256

/-- The big-endian value of a byte list. -/
def readBE : List Byte → ℕ
  | [] => 0
  | b :: bs => b * 256 ^ bs.length + readBE bs

/-- The `k` low bytes of `n`, highest first. -/
def writeBE : ℕ → ℕ → List Byte
  | 0, _ => []
  | k + 1, n => Fin.ofNat 256 (n / 256 ^ k) :: writeBE k n

variable (l : List Byte)

theorem readBE_lt : readBE l < 256 ^ l.length := by
  induction l with
  | nil => simp [readBE]
  | cons b bs ih =>
    have hb : (b : ℕ) + 1 ≤ 256 := b.isLt
    calc b * 256 ^ bs.length + readBE bs < (b + 1) * 256 ^ bs.length := by rw [add_one_mul]; omega
      _ ≤ 256 * 256 ^ bs.length := Nat.mul_le_mul_right _ hb
      _ = 256 ^ (b :: bs).length := by rw [length_cons, pow_succ, mul_comm]

@[simp] theorem length_writeBE (k n : ℕ) : (writeBE k n).length = k := by
  induction k with
  | zero => rfl
  | succ k ih => simp [writeBE, ih]

/-- Writing keeps the value modulo the capacity of the field. -/
theorem readBE_writeBE (k n : ℕ) : readBE (writeBE k n) = n % 256 ^ k := by
  induction k with
  | zero => simp [writeBE, readBE, Nat.mod_one]
  | succ k ih =>
    rw [writeBE, readBE, length_writeBE, ih, Fin.val_ofNat, Nat.mod_pow_succ]
    ring

theorem readBE_append (a b : List Byte) : readBE (a ++ b) = readBE a * 256 ^ b.length + readBE b := by
  induction a with
  | nil => simp [readBE]
  | cons x a ih =>
    rw [cons_append, readBE, readBE, ih, length_append]
    ring

/-- On byte strings of one length the lexicographic order is the order of the values. -/
theorem lt_iff_readBE_lt {a b : List Byte} (h : a.length = b.length) : a < b ↔ readBE a < readBE b := by
  induction a generalizing b with
  | nil =>
    obtain rfl := length_eq_zero_iff.1 h.symm
    simp
  | cons x a ih =>
    obtain _ | ⟨y, b⟩ := b
    · simp at h
    have hl : a.length = b.length := by simpa using h
    have ha : readBE a < 256 ^ b.length := hl ▸ readBE_lt a
    have hb := readBE_lt b
    rw [cons_lt_cons_iff, ih hl, readBE, readBE, hl]
    constructor
    · rintro (hxy | ⟨rfl, hab⟩)
      · have hmul : ((x : ℕ) + 1) * 256 ^ b.length ≤ y * 256 ^ b.length := Nat.mul_le_mul_right _ hxy
        rw [add_one_mul] at hmul
        omega
      · omega
    · intro hlt
      rcases lt_trichotomy x y with hxy | rfl | hxy
      · exact Or.inl hxy
      · exact Or.inr ⟨rfl, by omega⟩
      · have hmul : ((y : ℕ) + 1) * 256 ^ b.length ≤ x * 256 ^ b.length := Nat.mul_le_mul_right _ hxy
        rw [add_one_mul] at hmul
        omega

theorem readBE_injective {a b : List Byte} (h : a.length = b.length) (hv : readBE a = readBE b) : a = b := by
  rcases lt_trichotomy a b with hlt | heq | hlt
  · exact absurd hv ((lt_iff_readBE_lt h).1 hlt).ne
  · exact heq
  · exact absurd hv ((lt_iff_readBE_lt h.symm).1 hlt).ne'

theorem writeBE_readBE : writeBE l.length (readBE l) = l :=
  readBE_injective (length_writeBE _ _) (by rw [readBE_writeBE, Nat.mod_eq_of_lt (readBE_lt l)])

/-- The bytes with every bit flipped. -/
def notBytes (l : List Byte) : List Byte := l.map Fin.rev

theorem readBE_notBytes : readBE (notBytes l) + readBE l + 1 = 256 ^ l.length := by
  induction l with
  | nil => rfl
  | cons b bs ih =>
    have hb : ((Fin.rev b : Byte) : ℕ) + b + 1 = 256 := by rw [Fin.val_rev]; omega
    have hlen : (bs.map Fin.rev).length = bs.length := length_map _
    simp only [notBytes, map_cons, readBE, hlen] at ih ⊢
    calc _ = (((Fin.rev b : Byte) : ℕ) + b) * 256 ^ bs.length + (readBE (bs.map Fin.rev) + readBE bs + 1) := by ring
      _ = (((Fin.rev b : Byte) : ℕ) + b + 1) * 256 ^ bs.length := by rw [ih, add_one_mul]
      _ = 256 ^ bs.length * 256 := by rw [hb, mul_comm]

/-- Byte strings of length `n`, ordered lexicographically. -/
structure Bytes (n : ℕ) where
  toList : List Byte
  length_eq : toList.length = n
  deriving DecidableEq, Repr

namespace Bytes
variable {n m : ℕ}

theorem toList_injective : Function.Injective (toList : Bytes n → List Byte) := by
  rintro ⟨a, ha⟩ ⟨b, hb⟩ h
  cases h
  rfl

instance : LinearOrder (Bytes n) := LinearOrder.lift' toList toList_injective

/-- The big-endian value. -/
def val (b : Bytes n) : ℕ := readBE b.toList

def ofNat (n v : ℕ) : Bytes n := ⟨writeBE n v, length_writeBE n v⟩

def append (a : Bytes n) (b : Bytes m) : Bytes (n + m) :=
  ⟨a.toList ++ b.toList, by rw [List.length_append, a.length_eq, b.length_eq]⟩

def not (b : Bytes n) : Bytes n := ⟨notBytes b.toList, (List.length_map _).trans b.length_eq⟩

variable (a : Bytes n) (b : Bytes n)

theorem val_lt : b.val < 256 ^ n := by
  have h := readBE_lt b.toList
  rwa [b.length_eq] at h

theorem lt_iff_val_lt (a b : Bytes n) : a < b ↔ a.val < b.val :=
  lt_iff_readBE_lt (a.length_eq.trans b.length_eq.symm)

theorem val_injective : Function.Injective (val : Bytes n → ℕ) := fun a b h =>
  toList_injective (readBE_injective (a.length_eq.trans b.length_eq.symm) h)

@[simp] theorem val_ofNat (n v : ℕ) : (ofNat n v).val = v % 256 ^ n := readBE_writeBE n v

theorem val_append (b : Bytes m) : (a.append b).val = a.val * 256 ^ m + b.val := by
  rw [val, append, readBE_append, b.length_eq]
  rfl

theorem val_not : b.not.val + b.val + 1 = 256 ^ n := by
  have h := readBE_notBytes b.toList
  rwa [b.length_eq] at h

@[simp] theorem not_not : b.not.not = b := val_injective (by
  have h := b.val_not
  have h' := b.not.val_not
  omega)

/-- Flipping every bit reverses the order. -/
theorem not_lt_not (a b : Bytes n) : a.not < b.not ↔ b < a := by
  have ha := a.val_not
  have hb := b.val_not
  rw [lt_iff_val_lt, lt_iff_val_lt]
  omega

/-- A composed key is compared by its first part, then by its second. -/
theorem append_lt_append (a a' : Bytes n) (b b' : Bytes m) : a.append b < a'.append b' ↔ a < a' ∨ a = a' ∧ b < b' := by
  have hb := b.val_lt
  have hb' := b'.val_lt
  rw [lt_iff_val_lt, lt_iff_val_lt, lt_iff_val_lt, val_append, val_append]
  constructor
  · intro h
    rcases lt_trichotomy a.val a'.val with hlt | heq | hgt
    · exact Or.inl hlt
    · refine Or.inr ⟨val_injective heq, ?_⟩
      rw [heq] at h
      omega
    · have hmul : (a'.val + 1) * 256 ^ m ≤ a.val * 256 ^ m := Nat.mul_le_mul_right _ hgt
      rw [add_one_mul] at hmul
      omega
  · rintro (hlt | ⟨rfl, hlt⟩)
    · have hmul : (a.val + 1) * 256 ^ m ≤ a'.val * 256 ^ m := Nat.mul_le_mul_right _ hlt
      rw [add_one_mul] at hmul
      omega
    · omega

theorem append_inj {a a' : Bytes n} {b b' : Bytes m} : a.append b = a'.append b' ↔ a = a' ∧ b = b' := by
  constructor
  · intro h
    have hlist : a.toList ++ b.toList = a'.toList ++ b'.toList := congrArg toList h
    obtain ⟨h1, h2⟩ := List.append_inj hlist (a.length_eq.trans a'.length_eq.symm)
    exact ⟨toList_injective h1, toList_injective h2⟩
  · rintro ⟨rfl, rfl⟩
    rfl

def left (b : Bytes (n + m)) : Bytes n := ⟨b.toList.take n, by rw [List.length_take, b.length_eq]; omega⟩

/-- The bytes after the first `n`. -/
def right (b : Bytes (n + m)) : Bytes m := ⟨b.toList.drop n, by rw [List.length_drop, b.length_eq]; omega⟩

@[simp] theorem left_append (b : Bytes m) : (a.append b).left = a :=
  toList_injective (take_left' a.length_eq)

@[simp] theorem right_append (b : Bytes m) : (a.append b).right = b :=
  toList_injective (drop_left' a.length_eq)

@[simp] theorem append_left_right (b : Bytes (n + m)) : b.left.append b.right = b :=
  toList_injective (take_append_drop n b.toList)

end Bytes
end ByteString
