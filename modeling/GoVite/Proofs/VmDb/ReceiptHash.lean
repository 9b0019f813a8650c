import GoVite.Spec.VmDb.Unsaved

/-! What the receipt hash says about the writes: it fixes the bytes of all keys and values together, not where one ends
and the next begins. -/

namespace GoVite.VmDb
open KeyStore AccountBlocks Function List

def write (w : Data → Option Data) : Call → Data → Option Data
  | .setValue key value => update w key (some value)
  | .getStorage => w

/-- The value each key was last set to. -/
def writes (calls : List Call) : Data → Option Data := calls.foldl write fun _ => none

/-- The lengths of the keys and values, in key order. -/
def lengths (kvList : List (Data × Data)) : List (ℕ × ℕ) := kvList.map fun kv => (kv.1.length, kv.2.length)

theorem eq_of_lengths {a b : List (Data × Data)} (hl : lengths a = lengths b) (h : hashSource a = hashSource b) :
    a = b := by
  induction a generalizing b with
  | nil => exact (map_eq_nil_iff.1 hl.symm).symm
  | cons x a ih =>
    obtain _ | ⟨y, b⟩ := b
    · cases hl
    obtain ⟨hxy, hl⟩ := cons.inj hl
    obtain ⟨hk, hv⟩ := Prod.mk.inj hxy
    obtain ⟨hhead, hrest⟩ := append_inj h (by rw [length_append, length_append, hk, hv])
    obtain ⟨hkey, hvalue⟩ := append_inj hhead hk
    rw [ih hl hrest, Prod.ext hkey hvalue]

/-- The database holds `w`, and the cache shows the database unless it is marked dirty. -/
structure Holds (u : Unsaved) (w : Data → Option Data) : Prop where
  get : ∀ k, u.storage.get? k = w k
  cache : u.storageDirty = false → u.storageCache = u.storage.entries

variable {u : Unsaved} {w : Data → Option Data}

theorem Holds.getStorage (h : Holds u w) : u.getStorage.1 = u.storage.entries ∧ Holds u.getStorage.2 w := by
  unfold Unsaved.getStorage
  split_ifs with hd
  · exact ⟨rfl, h.get, fun _ => rfl⟩
  · exact ⟨h.cache (Bool.eq_false_iff.2 hd), h⟩

theorem Holds.call (h : Holds u w) (c : Call) : Holds (u.call c) (write w c) := by
  cases c with
  | setValue key value =>
    refine ⟨fun k => ?_, nofun⟩
    rw [Unsaved.call, Unsaved.setValue, write, update_apply, ← h.get k]
    convert u.storage.get?_set key k value
  | getStorage => exact h.getStorage.2

theorem holds_foldl (h : Holds u w) (calls : List Call) : Holds (calls.foldl Unsaved.call u) (calls.foldl write w) := by
  induction calls generalizing u w with
  | nil => exact h
  | cons c calls ih => exact ih (h.call c)

variable (Hash256 : Data → Hash) (calls calls' : List Call)

theorem holds_run : Holds (run calls) (writes calls) := holds_foldl ⟨fun _ => rfl, fun _ => rfl⟩ calls

def kvList : List (Data × Data) := (run calls).getStorage.1

theorem kvList_eq_iff : kvList calls = kvList calls' ↔ writes calls = writes calls' := by
  have h := holds_run calls
  have h' := holds_run calls'
  rw [kvList, kvList, h.getStorage.1, h'.getStorage.1]
  constructor
  · intro he
    funext k
    rw [← h.get, ← h'.get, Store.get?, Store.get?, he]
  · intro hw
    refine congrArg Store.entries (Store.ext_get? fun k => ?_)
    rw [h.get, h'.get, hw]

/-- Two sequences of writes have the same bytes, cut differently into keys and values. -/
def Recut : Prop := kvList calls ≠ [] ∧ kvList calls' ≠ [] ∧
  hashSource (kvList calls) = hashSource (kvList calls') ∧ lengths (kvList calls) ≠ lengths (kvList calls')

/-- Nothing is written in one sequence, and the writes of the other hash to zero. -/
def HashedToZero : Prop :=
  kvList calls = [] ∧ kvList calls' ≠ [] ∧ Hash256 (hashSource (kvList calls')) = zeroHash

theorem receiptHash_eq : receiptHash Hash256 calls =
    if kvList calls = [] then zeroHash else Hash256 (hashSource (kvList calls)) := by
  unfold receiptHash Unsaved.getReceiptHash kvList
  simp only [Nat.le_zero, length_eq_zero_iff]

theorem receiptHash_commits_iff
    (hinj : Hash256 (hashSource (kvList calls)) = Hash256 (hashSource (kvList calls')) →
      hashSource (kvList calls) = hashSource (kvList calls')) :
    (receiptHash Hash256 calls = receiptHash Hash256 calls' ↔ writes calls = writes calls') ↔
      ¬Recut calls calls' ∧ ¬HashedToZero Hash256 calls calls' ∧ ¬HashedToZero Hash256 calls' calls := by
  rw [← kvList_eq_iff, receiptHash_eq, receiptHash_eq]
  constructor
  · intro h
    refine ⟨?_, ?_, ?_⟩
    · rintro ⟨hne, hne', hsource, hl⟩
      rw [if_neg hne, if_neg hne', hsource] at h
      exact hl (congrArg lengths (h.1 rfl))
    · rintro ⟨he, hne', hz⟩
      rw [if_pos he, if_neg hne', hz] at h
      exact hne' ((h.1 rfl).symm.trans he)
    · rintro ⟨he, hne, hz⟩
      rw [if_pos he, if_neg hne, hz] at h
      exact hne ((h.1 rfl).trans he)
  · rintro ⟨hcut, hz, hz'⟩
    refine ⟨fun h => ?_, fun h => by rw [h]⟩
    split_ifs at h with he he' he'
    · rw [he, he']
    · exact absurd ⟨he, he', h.symm⟩ hz
    · exact absurd ⟨he', he, h⟩ hz'
    · exact eq_of_lengths (by_contra fun hl => hcut ⟨he, he', hinj h, hl⟩) (hinj h)

/-- One sequence sets a one-byte key to one byte, the other deletes the key of both bytes; no hash function tells them
apart. -/
theorem receiptHash_recut :
    (receiptHash · [.setValue [1] [2]]) = (receiptHash · [.setValue [1, 2] []]) ∧
      writes [.setValue [1] [2]] ≠ writes [.setValue [1, 2] []] := by
  refine ⟨rfl, fun h => ?_⟩
  have hkey := congrFun h [1]
  simp [writes, write] at hkey

theorem receiptHash_commits_iff_swapped :
    receiptHash (fun d => .ofNat 32 (ByteString.readBE d)) [.setValue [1] [2], .setValue [3] []] =
        receiptHash (fun d => .ofNat 32 (ByteString.readBE d)) [.setValue [3] [], .setValue [1] [2]] ↔
      writes [.setValue [1] [2], .setValue [3] []] = writes [.setValue [3] [], .setValue [1] [2]] := by
  refine (receiptHash_commits_iff _ _ _ ?_).2 ⟨?_, ?_, ?_⟩
  · exact fun _ => rfl
  · exact fun h => h.2.2.2 rfl
  · exact fun h => nomatch h.1
  · exact fun h => nomatch h.1

end GoVite.VmDb
