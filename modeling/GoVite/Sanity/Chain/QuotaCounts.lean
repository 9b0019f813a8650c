import GoVite.Spec.Chain.QuotaList

/-! What the counters of the quota list count: while the totals fit a uint64, adding, taking off and summing up are
those of the naturals. -/

namespace GoVite.ChainCache
open KeyStore List Store QuotaInfo

namespace QuotaInfo

variable {a b : QuotaInfo}

@[ext] theorem ext_counters (h₁ : a.blockCount = b.blockCount) (h₂ : a.quotaTotal = b.quotaTotal)
    (h₃ : a.quotaUsedTotal = b.quotaUsedTotal) : a = b := by
  cases a
  cases b
  simp_all

instance : Zero QuotaInfo := ⟨zero⟩
instance : Add QuotaInfo :=
  ⟨fun a b => ⟨a.blockCount + b.blockCount, a.quotaTotal + b.quotaTotal, a.quotaUsedTotal + b.quotaUsedTotal⟩⟩

@[simp] theorem blockCount_zero : (0 : QuotaInfo).blockCount = 0 := rfl
@[simp] theorem quotaTotal_zero : (0 : QuotaInfo).quotaTotal = 0 := rfl
@[simp] theorem quotaUsedTotal_zero : (0 : QuotaInfo).quotaUsedTotal = 0 := rfl
@[simp] theorem blockCount_add (a b : QuotaInfo) : (a + b).blockCount = a.blockCount + b.blockCount := rfl
@[simp] theorem quotaTotal_add (a b : QuotaInfo) : (a + b).quotaTotal = a.quotaTotal + b.quotaTotal := rfl
@[simp] theorem quotaUsedTotal_add (a b : QuotaInfo) : (a + b).quotaUsedTotal = a.quotaUsedTotal + b.quotaUsedTotal :=
  rfl

instance : AddCancelCommMonoid QuotaInfo where
  add_assoc a b c := by ext <;> simp [Nat.add_assoc]
  zero_add a := by ext <;> simp
  add_zero a := by ext <;> simp
  add_comm a b := by ext <;> simp [Nat.add_comm]
  nsmul := nsmulRec
  add_left_cancel a b c h := by
    have h₁ := congrArg blockCount h
    have h₂ := congrArg quotaTotal h
    have h₃ := congrArg quotaUsedTotal h
    simp only [blockCount_add, quotaTotal_add, quotaUsedTotal_add] at h₁ h₂ h₃
    ext <;> omega

/-- Each counter is the value of a uint64. -/
def Fits (q : QuotaInfo) : Prop := q.blockCount < uint64 ∧ q.quotaTotal < uint64 ∧ q.quotaUsedTotal < uint64

theorem Fits.left (h : (a + b).Fits) : a.Fits := by
  simp only [Fits, blockCount_add, quotaTotal_add, quotaUsedTotal_add] at h ⊢
  omega

theorem Fits.right (h : (a + b).Fits) : b.Fits := by
  rw [add_comm] at h
  exact h.left

theorem plus_eq (h : (a + b).Fits) : a.plus b = a + b := by
  obtain ⟨h₁, h₂, h₃⟩ := h
  ext
  · exact Nat.mod_eq_of_lt h₁
  · exact Nat.mod_eq_of_lt h₂
  · exact Nat.mod_eq_of_lt h₃

variable {x y : ℕ}

theorem wrap_sub (h : x < uint64) : (x + y + uint64 - y) % uint64 = x := by
  rw [show x + y + uint64 - y = x + uint64 by omega, Nat.add_mod_right, Nat.mod_eq_of_lt h]

/-- Taking off a part never wraps. -/
theorem debit_add {wrapped : Bool} (h : a.Fits) : debit (a + b, wrapped) b = (a, wrapped) := by
  obtain ⟨h₁, h₂, h₃⟩ := h
  have hminus : (a + b).minus b = a := by
    ext
    · exact wrap_sub h₁
    · exact wrap_sub h₂
    · exact wrap_sub h₃
  have hcovers : (a + b).covers b = true := by simp [covers]
  simp only [debit, hminus, hcovers, Bool.not_true, Bool.or_false]

variable {qs : List QuotaInfo}

theorem foldl_plus (h : (a + qs.sum).Fits) : qs.foldl plus a = a + qs.sum := by
  induction qs generalizing a with
  | nil => simp
  | cons q qs ih =>
    rw [sum_cons, ← add_assoc] at h ⊢
    rw [foldl_cons, plus_eq h.left, ih h]

theorem foldl_debit (h : (a + qs.sum).Fits) (wrapped : Bool) : qs.foldl debit (a + qs.sum, wrapped) = (a, wrapped) := by
  induction qs generalizing a with
  | nil => simp
  | cons q qs ih =>
    have hsum : a + (q :: qs).sum = a + qs.sum + q := by rw [sum_cons, add_comm q, add_assoc]
    rw [hsum] at h ⊢
    rw [foldl_cons, debit_add h.left, ih h.left]

end QuotaInfo

def total (blocks : List AccountBlock) : QuotaInfo := (blocks.map AccountBlock.info).sum

def owned (addr : Address) (blocks : List AccountBlock) : List AccountBlock :=
  blocks.filter fun b => b.accountAddress = addr

@[simp] theorem total_nil : total [] = 0 := rfl

@[simp] theorem total_append (bs bs' : List AccountBlock) : total (bs ++ bs') = total bs + total bs' := by
  simp [total]

@[simp] theorem total_cons (b : AccountBlock) (bs : List AccountBlock) : total (b :: bs) = b.info + total bs := by
  simp [total]

@[simp] theorem blockCount_total (bs : List AccountBlock) : (total bs).blockCount = bs.length := by
  induction bs with
  | nil => rfl
  | cons b bs ih =>
    rw [total_cons, blockCount_add, ih, Nat.add_comm]
    rfl

variable {bs bs' : List AccountBlock}

theorem total_perm (h : bs.Perm bs') : total bs = total bs' := (h.map _).sum_eq

theorem fits_of_subperm (h : bs.Subperm bs') (hf : (total bs').Fits) : (total bs).Fits := by
  obtain ⟨mid, hmid, hsub⟩ := h
  obtain ⟨rest, hrest⟩ := hsub.exists_perm_append
  rw [total_perm hrest, total_append, total_perm hmid] at hf
  exact hf.left

theorem fits_owned (addr : Address) (h : (total bs).Fits) : (total (owned addr bs)).Fits :=
  fits_of_subperm filter_sublist.subperm h

variable {bss bss' : List (List AccountBlock)}

/-- The totals of a part of a list of chunks fit if those of the whole do. -/
theorem fits_of_sublist (h : bss.Sublist bss') (hf : (total bss'.flatten).Fits) :
    (total bss.flatten).Fits := fits_of_subperm h.flatten.subperm hf

theorem fits_of_mem (h : bs ∈ bss) (hf : (total bss.flatten).Fits) : (total bs).Fits := by
  have := fits_of_sublist (singleton_sublist.2 h) hf
  simpa using this

namespace QuotaMap

theorem ofBlocks_concat (bs : List AccountBlock) (b : AccountBlock) :
    ofBlocks (bs ++ [b]) = (ofBlocks bs).add b.accountAddress b.quota b.quotaUsed := by simp [ofBlocks]

theorem get?_ofBlocks (h : (total bs).Fits) (addr : Address) :
    (ofBlocks bs).get? addr = if owned addr bs = [] then none else some (total (owned addr bs)) := by
  induction bs using List.reverseRecOn with
  | nil => simp [ofBlocks, owned, Store.get?, Store.empty]
  | append_singleton bs b ih =>
    rw [total_append] at h
    rw [ofBlocks_concat, add, get?_set]
    by_cases ha : addr = b.accountAddress
    · -- the entry of the address before the block
      have hprev : (ofBlocks bs).getD addr .zero = total (owned addr bs) := by
        rw [Store.getD, ih h.left]
        split_ifs with hnil
        · rw [hnil]
          rfl
        · rfl
      have howned : owned addr (bs ++ [b]) = owned addr bs ++ [b] := by simp [owned, ha]
      have hfits : (total (owned addr (bs ++ [b]))).Fits := fits_owned addr (by rw [total_append]; exact h)
      rw [howned, total_append] at hfits
      rw [if_pos ha, ← ha, hprev, howned, if_neg (by simp)]
      have hinfo : total [b] = ⟨1, b.quota, b.quotaUsed⟩ := by simp [AccountBlock.info]
      rw [hinfo] at hfits
      rw [total_append, hinfo, plus_eq hfits]
    · have howned : owned addr (bs ++ [b]) = owned addr bs := by
        simp [owned, Ne.symm ha]
      rw [if_neg ha, howned, ih h.left]

theorem getD_ofBlocks (h : (total bs).Fits) (addr : Address) :
    (ofBlocks bs).getD addr .zero = total (owned addr bs) := by
  rw [Store.getD, get?_ofBlocks h]
  split_ifs with hnil
  · rw [hnil]
    rfl
  · rfl

theorem ofBlocks_perm (hp : bs.Perm bs') (h : (total bs).Fits) : ofBlocks bs = ofBlocks bs' := by
  refine ext_get? fun addr => ?_
  have howned : (owned addr bs).Perm (owned addr bs') := hp.filter _
  have hnil : owned addr bs = [] ↔ owned addr bs' = [] := by
    rw [← length_eq_zero_iff, howned.length_eq, length_eq_zero_iff]
  rw [get?_ofBlocks h, get?_ofBlocks (total_perm hp ▸ h), total_perm howned]
  simp only [hnil]

variable {b : AccountBlock}

/-- Taking back a block gives the map of the others. -/
theorem sub_ofBlocks (h : (total (b :: bs)).Fits) :
    (ofBlocks (b :: bs)).sub b.accountAddress 1 b.quota b.quotaUsed = (ofBlocks bs, false) := by
  have hbs : (total bs).Fits := by
    exact h.right
  have hself : owned b.accountAddress (b :: bs) = b :: owned b.accountAddress bs := by simp [owned]
  have hother : ∀ addr, addr ≠ b.accountAddress → owned addr (b :: bs) = owned addr bs := fun addr ha => by
    simp [owned, Ne.symm ha]
  have hget := get?_ofBlocks h b.accountAddress
  rw [hself, if_neg (by simp)] at hget
  rw [sub, hget]
  dsimp only
  by_cases hlast : owned b.accountAddress bs = []
  · have hone : (total (b :: owned b.accountAddress bs)).blockCount ≤ 1 := by
      rw [hlast]
      exact Nat.le_refl 1
    rw [if_pos hone, Prod.mk.injEq]
    refine ⟨ext_get? fun addr => ?_, rfl⟩
    rw [get?_erase, get?_ofBlocks hbs]
    split_ifs with ha hnil hnil
    · rfl
    · exact absurd (ha ▸ hlast) hnil
    · rw [get?_ofBlocks h, hother addr ha, if_pos hnil]
    · rw [get?_ofBlocks h, hother addr ha, if_neg hnil]
  · have hmore : ¬ (total (b :: owned b.accountAddress bs)).blockCount ≤ 1 := by
      have := length_pos_iff.2 hlast
      rw [blockCount_total, length_cons]
      omega
    have hdebit : debit (total (b :: owned b.accountAddress bs), false) ⟨1, b.quota, b.quotaUsed⟩ =
        (total (owned b.accountAddress bs), false) := by
      rw [total_cons, add_comm]
      exact debit_add (fits_owned _ hbs)
    rw [if_neg hmore, hdebit, Prod.mk.injEq]
    refine ⟨ext_get? fun addr => ?_, rfl⟩
    rw [get?_set, get?_ofBlocks hbs]
    split_ifs with ha hnil hnil
    · exact absurd (ha ▸ hnil) hlast
    · rw [ha]
    · rw [get?_ofBlocks h, hother addr ha, if_pos hnil]
    · rw [get?_ofBlocks h, hother addr ha, if_neg hnil]

theorem sub_of_mem (hb : b ∈ bs) (h : (total bs).Fits) :
    (ofBlocks bs).sub b.accountAddress 1 b.quota b.quotaUsed = (ofBlocks (bs.erase b), false) := by
  have hp := perm_cons_erase hb
  rw [ofBlocks_perm hp h]
  exact sub_ofBlocks (total_perm hp ▸ h)

theorem sum_values_ofBlocks (h : (total bs).Fits) : (ofBlocks bs).values.sum = total bs := by
  have hvalues : ∀ m : QuotaMap, m.values.sum = m.sum fun _ q => q := fun m => rfl
  induction bs using List.reverseRecOn with
  | nil => rfl
  | append_singleton bs b ih =>
    have hb := fits_owned b.accountAddress h
    have howned : owned b.accountAddress (bs ++ [b]) = owned b.accountAddress bs ++ [b] := by simp [owned]
    have hinfo : total [b] = ⟨1, b.quota, b.quotaUsed⟩ := by simp [AccountBlock.info]
    rw [howned, total_append, hinfo] at hb
    rw [total_append] at h
    rw [hvalues] at ih ⊢
    have hset := sum_set_getD (ofBlocks bs) b.accountAddress
      (((ofBlocks bs).getD b.accountAddress .zero).plus ⟨1, b.quota, b.quotaUsed⟩) .zero (fun _ q => q) rfl
    rw [← add, ← ofBlocks_concat, getD_ofBlocks h.left, plus_eq hb, ih h.left, ← hinfo] at hset
    rw [total_append]
    refine add_right_cancel (b := total (owned b.accountAddress bs)) ?_
    rw [hset, add_assoc, add_comm (total [b])]

theorem aggregate_ofBlocks (h : (total bs).Fits) : (ofBlocks bs).aggregate = total bs := by
  have hsum := sum_values_ofBlocks h
  have hfold : (ofBlocks bs).aggregate = 0 + (ofBlocks bs).values.sum :=
    foldl_plus (a := 0) (by rwa [hsum, zero_add])
  rw [hfold, hsum, zero_add]

theorem keys_ofBlocks (h : (total bs).Fits) : (ofBlocks bs).keys = [] ↔ bs = [] := by
  constructor
  · intro hk
    cases bs with
    | nil => rfl
    | cons b bs =>
      have hget : (ofBlocks (b :: bs)).get? b.accountAddress = none := get?_eq_none_iff.2 (by rw [hk]; simp)
      rw [get?_ofBlocks h, if_neg (by simp [owned])] at hget
      cases hget
  · rintro rfl
    rfl

end QuotaMap

end GoVite.ChainCache
