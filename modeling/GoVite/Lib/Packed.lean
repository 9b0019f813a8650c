import GoVite.Lib.Bytes

/-! Byte strings of one length packed one after the other: reading the list back, and taking an element out of the bytes. -/

namespace Packed
open ByteString List Nat
variable {n : ℕ} {l l' : List (Bytes n)}

def pack (l : List (Bytes n)) : List Byte := l.flatMap Bytes.toList

/-- The `n` bytes with index `i`. -/
def record (n : ℕ) (b : List Byte) (i : ℕ) : List Byte := (b.drop (i * n)).take n

/-- All elements, as far as they are complete. -/
def records (n : ℕ) (b : List Byte) : List (List Byte) := (List.range (b.length / n)).map (record n b)

/-- The bytes without the first element equal to `x`. -/
def remove (n : ℕ) (b x : List Byte) : List Byte :=
  match (List.range (b.length / n)).find? fun i => record n b i = x with
  | some i => b.take (i * n) ++ b.drop ((i + 1) * n)
  | none => b

@[simp] theorem pack_nil : pack ([] : List (Bytes n)) = [] := rfl

theorem pack_cons (x : Bytes n) (l : List (Bytes n)) : pack (x :: l) = x.toList ++ pack l := rfl

theorem pack_append (l l' : List (Bytes n)) : pack (l ++ l') = pack l ++ pack l' := flatMap_append

theorem length_pack (l : List (Bytes n)) : (pack l).length = l.length * n := by
  induction l with
  | nil => simp
  | cons x l ih => rw [pack_cons, length_append, ih, x.length_eq, length_cons, succ_mul, add_comm]

theorem pack_injective (hn : 0 < n) (h : pack l = pack l') : l = l' := by
  have hlen := congrArg List.length h
  rw [length_pack, length_pack] at hlen
  replace hlen := eq_of_mul_eq_mul_right hn hlen
  induction l generalizing l' with
  | nil => exact (eq_nil_of_length_eq_zero hlen.symm).symm
  | cons x l ih =>
    obtain _ | ⟨x', l'⟩ := l'
    · simp at hlen
    obtain ⟨hhead, htail⟩ := append_inj h (x.length_eq.trans x'.length_eq.symm)
    rw [Bytes.toList_injective hhead, ih htail (by simpa using hlen)]

theorem record_zero (x : Bytes n) (l : List (Bytes n)) : record n (pack (x :: l)) 0 = x.toList := by
  rw [record, zero_mul, drop_zero, pack_cons, take_left' x.length_eq]

theorem record_succ (x : Bytes n) (l : List (Bytes n)) (i : ℕ) : record n (pack (x :: l)) (i + 1) = record n (pack l) i := by
  rw [record, record, pack_cons, succ_mul, add_comm, ← drop_drop, drop_left' x.length_eq]

theorem range_pack (hn : 0 < n) (x : Bytes n) (l : List (Bytes n)) :
    List.range ((pack (x :: l)).length / n) = 0 :: (List.range ((pack l).length / n)).map Nat.succ := by
  rw [length_pack, length_pack, Nat.mul_div_cancel _ hn, Nat.mul_div_cancel _ hn, length_cons,
    range_succ_eq_map]

theorem records_pack (hn : 0 < n) (l : List (Bytes n)) : records n (pack l) = l.map Bytes.toList := by
  induction l with
  | nil => simp [records]
  | cons x l ih =>
    rw [records, range_pack hn, map_cons, record_zero, map_map, map_cons, ← ih]
    refine congrArg _ (map_congr_left fun i _ => ?_)
    exact record_succ x l i

theorem remove_pack (hn : 0 < n) (l : List (Bytes n)) (x : Bytes n) : remove n (pack l) x.toList = pack (l.erase x) := by
  induction l with
  | nil => simp [remove]
  | cons y l ih =>
    rw [remove, range_pack hn]
    by_cases hy : y = x
    · subst hy
      rw [find?_cons_of_pos (by simp [record_zero]), erase_cons_head]
      simp only [zero_mul, take_zero, zero_add, one_mul, nil_append]
      rw [pack_cons, drop_left' y.length_eq]
    · have hne : y.toList ≠ x.toList := fun h => hy (Bytes.toList_injective h)
      rw [find?_cons_of_neg (by simp [record_zero, hne]), find?_map, erase_cons_tail (by simp [hy]),
        pack_cons y (l.erase x), ← ih, remove]
      have hcomp : ((fun i => decide (record n (pack (y :: l)) i = x.toList)) ∘ succ) =
          fun i => decide (record n (pack l) i = x.toList) := by
        funext i
        simp [record_succ]
      rw [hcomp]
      cases (List.range ((pack l).length / n)).find? fun i => decide (record n (pack l) i = x.toList) with
      | none => rfl
      | some i =>
        simp only [Option.map_some]
        rw [pack_cons, show (i + 1 + 1) * n = n + (i + 1) * n by ring]
        rw [take_append, drop_append]
        simp [take_of_length_le, y.length_eq, succ_mul]

end Packed
