import GoVite.Spec.Net.Neighbors
import Mathlib.Order.MinMax
import Mathlib.Order.Nat

/-! A random id has the distance it is made for, so a lookup for a bucket aims at that bucket. -/

namespace GoVite.Net
open List BitVec

theorem leadingBits_eq {x : BitVec 8} {k fuel : ℕ} (hk : k < fuel) (hzeros : ∀ j < k, x.getMsbD j = false)
    (hone : x.getMsbD k = true) : leadingBits fuel x = k := by
  induction fuel generalizing x k with
  | zero => omega
  | succ fuel ih =>
    rw [leadingBits, BitVec.msb]
    cases k with
    | zero => rw [if_pos hone]
    | succ k =>
      rw [hzeros 0 k.succ_pos, if_neg Bool.false_ne_true, ih (k := k) (by omega)]
      · intro j hj
        simpa using hzeros (j + 1) (by omega)
      · simpa using hone

theorem commonBits_self (l : List (BitVec 8)) : commonBits l l = 8 * l.length := by
  induction l with
  | nil => rfl
  | cons x l ih =>
    rw [commonBits, if_pos rfl, ih, length_cons]
    omega

/-- The first byte that differs decides. -/
theorem commonBits_eq {a b : List (BitVec 8)} {x y : BitVec 8} {i : ℕ} (ha : a[i]? = some x) (hb : b[i]? = some y)
    (hfirst : ∀ j < i, a[j]? = b[j]?) (hne : x ≠ y) : commonBits a b = leadingBits 8 (x ^^^ y) + 8 * i := by
  induction i generalizing a b with
  | zero =>
    obtain ⟨a', rfl⟩ : ∃ a', a = x :: a' := by cases a <;> simp_all
    obtain ⟨b', rfl⟩ : ∃ b', b = y :: b' := by cases b <;> simp_all
    simp [commonBits, hne]
  | succ i ih =>
    cases a with
    | nil => cases ha
    | cons p a =>
      cases b with
      | nil => cases hb
      | cons q b =>
        obtain rfl : p = q := by simpa using hfirst 0 i.succ_pos
        rw [commonBits, if_pos rfl, ih ha hb fun j hj => by simpa using hfirst (j + 1) (by omega)]
        omega

section
variable (a b : BitVec 8)

theorem diffBit_pos : ∀ (bit : Fin 8) (a : BitVec 8), 0 < a <<< bit.val >>> 7 <<< (7 - bit.val) ↔ a.getMsbD bit.val := by
  decide +kernel

theorem mask_eq : ∀ bit : Fin 8, 255 - 1#8 <<< (7 - bit.val) = ~~~(1#8 <<< (7 - bit.val)) := by decide

variable {j : ℕ} {bit : Fin 8}

theorem getMsbD_diffByte (hj : j ≤ bit) : (diffByte a b bit).getMsbD j = (a.getMsbD j ^^ decide (j = bit)) := by
  simp only [diffByte, diffBit_pos, mask_eq]
  rcases hj.lt_or_eq with h | rfl
  · have hin : j + (8 - bit) < 8 ∧ j < 8 := by omega
    have hne : ¬j + (7 - bit) = 7 := by omega
    split_ifs <;> simp [h, h.ne, hin, hne]
  · have heq : bit + (7 - bit.val) = 7 := by omega
    split_ifs with h <;> simp [h, heq]

theorem getMsbD_xor_diffByte (hj : j ≤ bit) : (a ^^^ diffByte a b bit).getMsbD j = decide (j = bit) := by
  rw [getMsbD_xor, getMsbD_diffByte a b hj]
  cases a.getMsbD j <;> simp

theorem leadingBits_diffByte (bit : Fin 8) : leadingBits 8 (a ^^^ diffByte a b bit) = bit := by
  refine leadingBits_eq bit.isLt (fun j hj => ?_) ?_
  · rw [getMsbD_xor_diffByte a b hj.le, decide_eq_false hj.ne]
  · rw [getMsbD_xor_diffByte a b le_rfl, decide_eq_true rfl]

theorem ne_diffByte (bit : Fin 8) : a ≠ diffByte a b bit := fun h => by
  have hbit : (a ^^^ diffByte a b bit).getMsbD bit = true := by simp [getMsbD_xor_diffByte a b le_rfl]
  rw [← h, BitVec.xor_self] at hbit
  simp at hbit

end

theorem distance_randFromDistance (id random : NodeID) (d : ℕ) : distance id (randFromDistance id d random) = min d 256 := by
  obtain ⟨n, hn, hd⟩ : ∃ n ≤ 256, (256 - if 256 ≤ d then 256 else d) = n ∧ min d 256 = 256 - n := by
    refine ⟨_, Nat.sub_le _ _, rfl, ?_⟩
    split_ifs <;> omega
  rw [distance, randFromDistance, hd.1, hd.2, commonNBits]
  split_ifs with h
  · simp [commonBits_self, h]
  · have hbyt : n / 8 < 32 := by omega
    let bit : Fin 8 := ⟨n % 8, n.mod_lt (by decide)⟩
    rw [commonBits_eq (i := n / 8) (x := id[n / 8]) (y := diffByte id[n / 8] random[n / 8] bit) ?_ ?_ ?_
      (ne_diffByte _ _ bit), leadingBits_diffByte]
    · dsimp only [bit]
      omega
    · simp [hbyt]
    · simp [hbyt, bit]
    · intro j hj
      have hj32 : j < 32 := by omega
      simp [hj32, hj]

namespace Table
variable (tab : Table)

theorem bucketIndex_lt (id : NodeID) : tab.bucketIndex id < 32 := by
  have hle : distance tab.id id ≤ 256 := Nat.sub_le _ _
  unfold bucketIndex minDistance
  split_ifs <;> omega

/-- Random ids have the distance asked for, every id has a bucket, and what is looked for to fill a bucket falls
into it. -/
theorem lookup_aims (random : NodeID) :
    (∀ d, distance tab.id (randFromDistance tab.id d random) = min d 256) ∧
    (∀ id, (tab.getBucket id).isSome = true) ∧
    ∀ perm i, tab.subTreeToFind perm = i + minDistance →
      tab.bucketIndex (randFromDistance tab.id (tab.subTreeToFind perm) random) = i ∧
      tab.getBucket (randFromDistance tab.id (tab.subTreeToFind perm) random) = tab.buckets[i]? := by
  refine ⟨distance_randFromDistance tab.id random, fun id => ?_, fun perm i h => ?_⟩
  · simp [getBucket, tab.bucketIndex_lt id]
  · have hle : i < 32 := by
      unfold subTreeToFind at h
      split at h
      · rename_i i' _
        omega
      · unfold minDistance at h
        omega
    have hindex : tab.bucketIndex (randFromDistance tab.id (tab.subTreeToFind perm) random) = i := by
      rw [h, bucketIndex, distance_randFromDistance]
      unfold minDistance
      rw [min_eq_left (by omega), if_neg (by omega), Nat.add_sub_cancel]
    exact ⟨hindex, by rw [getBucket, hindex]⟩

end Table

end GoVite.Net
