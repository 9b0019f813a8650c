import GoVite.Spec.Verifier.AccountBlock
import GoVite.Lib.Except
import GoVite.Lib.Packed

/-! The parts of the bytes an account block's hash is taken of, none of which is marked, and what each says about the
block. -/

namespace GoVite.AccountBlocks
open ByteString List Option

/-! Padded numbers -/

theorem length_leftPadBytes (slice : Data) (l : ℕ) : (leftPadBytes slice l).length = max l slice.length := by
  unfold leftPadBytes
  split_ifs with h
  · omega
  · rw [length_append, length_writeBE]
    omega

theorem leftPadBytes_injective {s s' : Data} {l : ℕ} (hlen : s.length = s'.length)
    (h : leftPadBytes s l = leftPadBytes s' l) : s = s' := by
  unfold leftPadBytes at h
  rw [hlen] at h
  split_ifs at h with hl
  · exact h
  · exact append_cancel_left h

theorem readBE_zeros_append (k : ℕ) (b : Data) : readBE (writeBE k 0 ++ b) = readBE b := by
  rw [readBE_append, readBE_writeBE, Nat.zero_mod, Nat.zero_mul, Nat.zero_add]

theorem lt_pow_of_size_le {n l : ℕ} (h : n.size ≤ 8 * l) : n < 256 ^ l := by
  rw [show (256 : ℕ) = 2 ^ 8 by norm_num, ← pow_mul]
  exact Nat.size_le.1 h

/-- A number that fits is written with all the bytes of its field. -/
theorem leftPadBytes_bigBytes {n : ℤ} {l : ℕ} (h : n.natAbs.size ≤ 8 * l) :
    leftPadBytes (bigBytes n) l = writeBE l n.natAbs := by
  have hown : n.natAbs < 256 ^ ((n.natAbs.size + 7) / 8) := lt_pow_of_size_le (by omega)
  have hvalue : readBE (bigBytes n) = n.natAbs := by
    rw [bigBytes, readBE_writeBE, Nat.mod_eq_of_lt hown]
  have hlen : (leftPadBytes (bigBytes n) l).length = l := by
    rw [length_leftPadBytes, bigBytes, length_writeBE]
    omega
  refine readBE_injective (by rw [hlen, length_writeBE]) ?_
  rw [readBE_writeBE, Nat.mod_eq_of_lt (lt_pow_of_size_le h), leftPadBytes]
  split_ifs
  · exact hvalue
  · rw [readBE_zeros_append, hvalue]

theorem writeBE_injective {k n m : ℕ} (hn : n < 256 ^ k) (hm : m < 256 ^ k) (h : writeBE k n = writeBE k m) : n = m := by
  have hread := congrArg readBE h
  rwa [readBE_writeBE, readBE_writeBE, Nat.mod_eq_of_lt hn, Nat.mod_eq_of_lt hm] at hread

/-- A number that a field of 32 bytes holds. -/
def FitsField (n : Option ℤ) : Prop := 0 ≤ n.getD 0 ∧ (n.getD 0).natAbs.size ≤ 256

theorem FitsField.eq {n m : Option ℤ} (hn : FitsField n) (hm : FitsField m)
    (h : writeBE 32 (n.getD 0).natAbs = writeBE 32 (m.getD 0).natAbs) : n.getD 0 = m.getD 0 := by
  have habs := writeBE_injective (lt_pow_of_size_le hn.2) (lt_pow_of_size_le hm.2) h
  have hn0 := hn.1
  have hm0 := hm.1
  omega

theorem fitsField_of_zero {n : Option ℤ} (h : n.getD 0 = 0) : FitsField n := by
  refine ⟨h.ge, ?_⟩
  rw [h]
  simp

/-! The parts of a block's bytes -/

namespace AccountBlock
variable {Hash256 : Data → Hash} {a b : AccountBlock}

theorem hashSourceFee_eq (h : FitsField b.fee) : b.hashSourceFee = writeBE 32 (b.fee.getD 0).natAbs := by
  have hfit := h.2
  unfold hashSourceFee
  cases hfee : b.fee with
  | none => simp [leftPadBytes]
  | some fee =>
    rw [hfee] at hfit
    exact leftPadBytes_bigBytes hfit

theorem length_hashSourceData : (b.hashSourceData Hash256).length = if b.data = [] then 0 else 32 := by
  unfold hashSourceData
  split_ifs
  · rfl
  · exact (Hash256 b.data).length_eq

theorem length_hashSourceLogHash : b.hashSourceLogHash.length = if b.logHash = none then 0 else 32 := by
  unfold hashSourceLogHash
  cases h : b.logHash with
  | none => rfl
  | some logHash => simpa using logHash.length_eq

theorem sendHashes_eq_pack (sends : List AccountBlock) :
    sends.flatMap (·.hash.toList) = Packed.pack (sends.map (·.hash)) := (flatMap_map ..).symm

theorem length_sendHashes (sends : List AccountBlock) : (sends.flatMap (·.hash.toList)).length = 32 * sends.length := by
  rw [sendHashes_eq_pack, Packed.length_pack, length_map, Nat.mul_comm]

theorem length_hashSourceBody {body : Data} (hfit : FitsField b.amount) (h : b.hashSourceBody = some body) :
    body.length = if b.isSendBlock then 63 else 32 := by
  unfold hashSourceBody at h
  split_ifs at h ⊢ with hsend
  · obtain ⟨amount, hamount, rfl⟩ := map_eq_some_iff.1 h
    have hsize : amount.natAbs.size ≤ 256 := by simpa [hamount] using hfit.2
    rw [length_append, length_append, leftPadBytes_bigBytes hsize, length_writeBE, b.toAddress.length_eq,
      b.tokenId.length_eq]
  · obtain rfl := Option.some.inj h
    exact b.fromBlockHash.length_eq

/-- The length of the bytes leaves the remainder 5 for a send and 6 for another block, apart from what is appended. -/
theorem length_hashSource {extra source : Data} (hamount : FitsField b.amount) (hfee : FitsField b.fee)
    (hnonce : b.nonce.length ≤ 8) (h : b.hashSource Hash256 extra = some source) :
    source.length % 32 = ((if b.isSendBlock then 5 else 6) + extra.length) % 32 := by
  obtain ⟨body, hbody, rfl⟩ := map_eq_some_iff.1 h
  have hbodyLen := length_hashSourceBody hamount hbody
  simp only [length_cons, length_append, b.prevHash.length_eq, length_writeBE, b.accountAddress.length_eq,
    hbodyLen, length_hashSourceData, hashSourceFee_eq hfee, length_hashSourceLogHash, length_leftPadBytes,
    length_sendHashes]
  split_ifs <;> omega

/-! What equal bytes say -/

/-- Both blocks have data, a log hash or a nonce, or neither has. -/
structure SameShape (a b : AccountBlock) : Prop where
  data : a.data = [] ↔ b.data = []
  logHash : a.logHash = none ↔ b.logHash = none
  nonce : a.nonce = [] ↔ b.nonce = []

/-- The fields a hash is said to fix, where nil is zero. -/
structure SameContent (a b : AccountBlock) : Prop where
  blockType : a.blockType = b.blockType
  prevHash : a.prevHash = b.prevHash
  height : a.height = b.height
  accountAddress : a.accountAddress = b.accountAddress
  toAddress : a.toAddress = b.toAddress
  amount : a.amount.getD 0 = b.amount.getD 0
  tokenId : a.tokenId = b.tokenId
  fromBlockHash : a.fromBlockHash = b.fromBlockHash
  data : a.data = b.data
  fee : a.fee.getD 0 = b.fee.getD 0
  logHash : a.logHash = b.logHash
  nonce : a.nonce = b.nonce
  sendHashes : a.sendBlockList.map (·.hash) = b.sendBlockList.map (·.hash)

theorem SameContent.sameShape (h : SameContent a b) : SameShape a b :=
  ⟨by rw [h.data], by rw [h.logHash], by rw [h.nonce]⟩

theorem hashSourceBody_send_injective {body : Data} (hsend : a.isSendBlock) (hsend' : b.isSendBlock)
    (hfit : FitsField a.amount) (hfit' : FitsField b.amount) (h : a.hashSourceBody = some body)
    (h' : b.hashSourceBody = some body) :
    a.toAddress = b.toAddress ∧ a.amount.getD 0 = b.amount.getD 0 ∧ a.tokenId = b.tokenId := by
  rw [hashSourceBody, if_pos hsend] at h
  rw [hashSourceBody, if_pos hsend'] at h'
  obtain ⟨n, hn, rfl⟩ := map_eq_some_iff.1 h
  obtain ⟨m, hm, hbody⟩ := map_eq_some_iff.1 h'
  have hnsize : n.natAbs.size ≤ 256 := by simpa [hn] using hfit.2
  have hmsize : m.natAbs.size ≤ 256 := by simpa [hm] using hfit'.2
  rw [leftPadBytes_bigBytes (l := 32) hnsize, leftPadBytes_bigBytes hmsize] at hbody
  obtain ⟨hto, hrest⟩ := append_inj hbody (b.toAddress.length_eq.trans a.toAddress.length_eq.symm)
  obtain ⟨hamount, htoken⟩ := append_inj hrest (by rw [length_writeBE, length_writeBE])
  refine ⟨Bytes.toList_injective hto.symm, ?_, Bytes.toList_injective htoken.symm⟩
  refine hfit.eq hfit' ?_
  rw [hn, hm]
  exact hamount.symm

theorem hashSourceData_injective (hinj : Hash256 a.data = Hash256 b.data → a.data = b.data)
    (hshape : a.data = [] ↔ b.data = []) (h : a.hashSourceData Hash256 = b.hashSourceData Hash256) : a.data = b.data := by
  by_cases ha : a.data = []
  · rw [ha, hshape.1 ha]
  · rw [hashSourceData, hashSourceData, if_neg ha, if_neg (mt hshape.2 ha)] at h
    exact hinj (Bytes.toList_injective h)

theorem hashSourceLogHash_injective (hshape : a.logHash = none ↔ b.logHash = none)
    (h : a.hashSourceLogHash = b.hashSourceLogHash) : a.logHash = b.logHash := by
  unfold hashSourceLogHash at h
  cases ha : a.logHash with
  | none => exact (hshape.1 ha).symm
  | some l =>
    cases hb : b.logHash with
    | none => exact absurd (hshape.2 hb) (by simp [ha])
    | some m =>
      rw [ha, hb] at h
      exact congrArg some (Bytes.toList_injective h)

end AccountBlock

end GoVite.AccountBlocks
