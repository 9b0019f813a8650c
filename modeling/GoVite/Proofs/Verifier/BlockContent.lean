import GoVite.Sanity.Verifier.HashSource

/-! What the hash of an account block fixes. Data, log hash and nonce are left out of the hashed bytes, with no mark, if
there is none, so that bytes of one block can be read as those of another. -/

namespace GoVite.AccountBlocks
open ByteString List Option Bytes ExceptRules

section
variable (Hash256 : Data → Hash) (checkPowNonce : ℤ → Data → Hash → Bool)

/-- A block that passes `verifyHash` and the integrity and nonce checks of `verifySelf`. -/
structure Passes (b : AccountBlock) : Prop where
  hash : verifyHash Hash256 b = .ok ()
  integrity : ∃ checked, verifyIntegrity b = .ok checked
  nonce : verifyNonce Hash256 checkPowNonce b = .ok ()

/-- No two different strings of the lists have one hash. A hash of 32 bytes is not injective on all strings. -/
def NoCollision (xs ys : List Data) : Prop := ∀ x ∈ xs, ∀ y ∈ ys, Hash256 x = Hash256 y → x = y

/-- The strings that are hashed for a block's hash. -/
def AccountBlock.hashed (b : AccountBlock) : List Data := b.data :: (b.hashSource Hash256 []).toList

/-- The string that is hashed for a send's hash. -/
def AccountBlock.sendHashed (b host : AccountBlock) (index : ℕ) : List Data :=
  (b.hashSource Hash256 (host.sendExtraBytes index)).toList

end

variable {Hash256 : Data → Hash} {checkPowNonce : ℤ → Data → Hash → Bool} {a b : AccountBlock}

/-! What the checks say -/

theorem not_out_of_bounds {n : Option ℤ} (h : ¬ (n.getD 0 < 0 ∨ 256 < (n.getD 0).natAbs.size)) : FitsField n := by
  push Not at h
  exact h

variable {checked : AccountBlock}

theorem verifySendBlockIntegrity_ok (h : verifySendBlockIntegrity b = .ok checked) :
    FitsField b.amount ∧ FitsField b.fee ∧ b.fromBlockHash = zeroHash := by
  obtain ⟨-, h⟩ := guard_ok h
  obtain ⟨hamount, h⟩ := guard_ok h
  obtain ⟨hfee, h⟩ := guard_ok h
  obtain ⟨hfrom, -⟩ := guard_ok h
  exact ⟨not_out_of_bounds hamount, not_out_of_bounds hfee, not_not.1 hfrom⟩

theorem verifyReceiveBlockIntegrity_ok (h : verifyReceiveBlockIntegrity b = .ok checked) :
    b.tokenId = zeroTokenId ∧ b.amount.getD 0 = 0 ∧ b.fee.getD 0 = 0 ∧ b.toAddress = zeroAddress := by
  obtain ⟨htoken, h⟩ := guard_ok h
  obtain ⟨hamount, h⟩ := guard_ok h
  obtain ⟨hfee, h⟩ := guard_ok h
  obtain ⟨hto, -⟩ := guard_ok h
  exact ⟨not_not.1 htoken, not_not.1 hamount, not_not.1 hfee, not_not.1 hto⟩

namespace Passes

theorem fits (h : Passes Hash256 checkPowNonce b) : FitsField b.amount ∧ FitsField b.fee := by
  obtain ⟨checked, hok⟩ := h.integrity
  unfold verifyIntegrity at hok
  split_ifs at hok
  · obtain ⟨hamount, hfee, -⟩ := verifySendBlockIntegrity_ok hok
    exact ⟨hamount, hfee⟩
  · obtain ⟨-, hamount, hfee, -⟩ := verifyReceiveBlockIntegrity_ok hok
    exact ⟨fitsField_of_zero hamount, fitsField_of_zero hfee⟩

theorem nonce_length (h : Passes Hash256 checkPowNonce b) : b.nonce = [] ∨ b.nonce.length = 8 := by
  by_cases hne : b.nonce ≠ []
  · right
    have hnonce := h.nonce
    rw [verifyNonce, if_pos hne] at hnonce
    obtain ⟨-, hnonce⟩ := guard_ok hnonce
    cases hd : b.difficulty with
    | none => simp [hd] at hnonce
    | some difficulty =>
      rw [hd] at hnonce
      obtain ⟨hlen, -⟩ := guard_ok hnonce
      exact not_not.1 hlen
  · exact Or.inl (not_not.1 hne)

theorem source (h : Passes Hash256 checkPowNonce b) :
    ∃ source, b.hashSource Hash256 [] = some source ∧ Hash256 source = b.hash := by
  have hhash := h.hash
  unfold verifyHash at hhash
  cases hc : b.computeHash Hash256 with
  | none => simp [hc] at hhash
  | some computed =>
    rw [hc] at hhash
    obtain ⟨-, hhash⟩ := guard_ok hhash
    obtain ⟨heq, -⟩ := guard_ok hhash
    obtain ⟨source, hsource, rfl⟩ := map_eq_some_iff.1 hc
    exact ⟨source, hsource, not_not.1 heq⟩

/-- The fields only blocks of the other kind have are zero. -/
theorem other_kind (ha : Passes Hash256 checkPowNonce a) (hb : Passes Hash256 checkPowNonce b)
    (hkind : a.isSendBlock = b.isSendBlock) :
    (a.isSendBlock → a.fromBlockHash = b.fromBlockHash) ∧
    (¬ a.isSendBlock → a.tokenId = b.tokenId ∧ a.amount.getD 0 = b.amount.getD 0 ∧ a.toAddress = b.toAddress) := by
  obtain ⟨checkedA, hA⟩ := ha.integrity
  obtain ⟨checkedB, hB⟩ := hb.integrity
  unfold verifyIntegrity at hA hB
  constructor
  · intro hsend
    rw [if_pos hsend] at hA
    rw [if_pos (hkind ▸ hsend)] at hB
    rw [(verifySendBlockIntegrity_ok hA).2.2, (verifySendBlockIntegrity_ok hB).2.2]
  · intro hreceive
    rw [if_neg hreceive] at hA
    rw [if_neg (hkind ▸ hreceive)] at hB
    obtain ⟨htoken, hamount, -, hto⟩ := verifyReceiveBlockIntegrity_ok hA
    obtain ⟨htoken', hamount', -, hto'⟩ := verifyReceiveBlockIntegrity_ok hB
    exact ⟨htoken.trans htoken'.symm, hamount.trans hamount'.symm, hto.trans hto'.symm⟩

end Passes

/-! Equal hashes -/

open AccountBlock

theorem height_eq_of_writeBE {n m : UInt64} (h : writeBE 8 n.toNat = writeBE 8 m.toNat) : n = m :=
  UInt64.toNat_inj.1 (writeBE_injective n.toNat_lt m.toNat_lt h)

theorem body_injective {body : Data} (ha : Passes Hash256 checkPowNonce a) (hb : Passes Hash256 checkPowNonce b)
    (hkind : a.isSendBlock = b.isSendBlock) (h : a.hashSourceBody = some body) (h' : b.hashSourceBody = some body) :
    a.toAddress = b.toAddress ∧ a.amount.getD 0 = b.amount.getD 0 ∧ a.tokenId = b.tokenId ∧
      a.fromBlockHash = b.fromBlockHash := by
  obtain ⟨hsendSame, hreceiveSame⟩ := ha.other_kind hb hkind
  by_cases hsend : a.isSendBlock
  · obtain ⟨hto, hamount, htoken⟩ := hashSourceBody_send_injective hsend (hkind ▸ hsend) ha.fits.1 hb.fits.1 h h'
    exact ⟨hto, hamount, htoken, hsendSame hsend⟩
  · obtain ⟨htoken, hamount, hto⟩ := hreceiveSame hsend
    rw [hashSourceBody, if_neg hsend] at h
    rw [hashSourceBody, if_neg (hkind ▸ hsend)] at h'
    exact ⟨hto, hamount, htoken, toList_injective (Option.some.inj (h.trans h'.symm))⟩

variable {source : Data}

/-- Bytes of blocks with the same parts are read back part by part. -/
theorem sameContent_of_source (ha : Passes Hash256 checkPowNonce a) (hb : Passes Hash256 checkPowNonce b)
    (hshape : SameShape a b) (hdata : Hash256 a.data = Hash256 b.data → a.data = b.data)
    (h : a.hashSource Hash256 [] = some source) (h' : b.hashSource Hash256 [] = some source) : SameContent a b := by
  obtain ⟨body, hbody, rfl⟩ := map_eq_some_iff.1 h
  obtain ⟨body', hbody', hparts⟩ := map_eq_some_iff.1 h'
  obtain ⟨htype, hparts⟩ := List.cons.inj hparts
  have hkind : a.isSendBlock = b.isSendBlock := by rw [isSendBlock, isSendBlock, htype]
  have hbodyLen : body'.length = body.length := by
    rw [length_hashSourceBody hb.fits.1 hbody', length_hashSourceBody ha.fits.1 hbody, hkind]
  have hnonceLen : a.nonce.length = b.nonce.length := by
    rcases ha.nonce_length with hna | hna <;> rcases hb.nonce_length with hnb | hnb
    · rw [hna, hnb]
    · rw [hna, hshape.nonce.1 hna]
    · rw [hnb, hshape.nonce.2 hnb]
    · rw [hna, hnb]
  obtain ⟨hprev, hparts⟩ := append_inj hparts (b.prevHash.length_eq.trans a.prevHash.length_eq.symm)
  obtain ⟨hheight, hparts⟩ := append_inj hparts (by rw [length_writeBE, length_writeBE])
  obtain ⟨haddr, hparts⟩ := append_inj hparts (b.accountAddress.length_eq.trans a.accountAddress.length_eq.symm)
  obtain ⟨hbodyEq, hparts⟩ := append_inj hparts hbodyLen
  obtain ⟨hdataEq, hparts⟩ := append_inj hparts (by
    simp only [length_hashSourceData, hshape.data])
  obtain ⟨hfeeEq, hparts⟩ := append_inj hparts (by
    rw [hashSourceFee_eq ha.fits.2, hashSourceFee_eq hb.fits.2, length_writeBE, length_writeBE])
  obtain ⟨hlogEq, hparts⟩ := append_inj hparts (by
    simp only [length_hashSourceLogHash, hshape.logHash])
  obtain ⟨hnonceEq, hparts⟩ := append_inj hparts (by
    rw [length_leftPadBytes, length_leftPadBytes, hnonceLen])
  obtain ⟨hto, hamount, htoken, hfrom⟩ := body_injective ha hb hkind hbody (hbodyEq ▸ hbody')
  rw [append_nil, append_nil] at hparts
  rw [hashSourceFee_eq ha.fits.2, hashSourceFee_eq hb.fits.2] at hfeeEq
  exact {
    blockType := htype.symm
    prevHash := toList_injective hprev.symm
    height := height_eq_of_writeBE hheight.symm
    accountAddress := toList_injective haddr.symm
    toAddress := hto
    amount := hamount
    tokenId := htoken
    fromBlockHash := hfrom
    data := hashSourceData_injective hdata hshape.data hdataEq.symm
    fee := ha.fits.2.eq hb.fits.2 hfeeEq.symm
    logHash := hashSourceLogHash_injective hshape.logHash hlogEq.symm
    nonce := leftPadBytes_injective hnonceLen hnonceEq.symm
    sendHashes := by
      rw [sendHashes_eq_pack, sendHashes_eq_pack] at hparts
      exact Packed.pack_injective (by decide) hparts.symm }

theorem sameContent_of_hash (ha : Passes Hash256 checkPowNonce a) (hb : Passes Hash256 checkPowNonce b)
    (hfree : NoCollision Hash256 (a.hashed Hash256) (b.hashed Hash256)) (hhash : a.hash = b.hash)
    (hshape : SameShape a b) : SameContent a b := by
  obtain ⟨sourceA, hsourceA, hA⟩ := ha.source
  obtain ⟨sourceB, hsourceB, hB⟩ := hb.source
  have hdata := hfree a.data (by simp [hashed]) b.data (by simp [hashed])
  have hsource := hfree sourceA (by simp [hashed, hsourceA]) sourceB (by simp [hashed, hsourceB])
    (hA.trans (hhash.trans hB.symm))
  exact sameContent_of_source ha hb hshape hdata (hsource ▸ hsourceA) hsourceB

/-! Hashes of sends -/

@[simp] theorem length_sendExtraBytes (host : AccountBlock) (index : ℕ) : (host.sendExtraBytes index).length = 41 := by
  rw [sendExtraBytes, length_append, length_append, host.prevHash.length_eq, length_writeBE, length_writeBE]

variable {host y x : AccountBlock} {index : ℕ} {h : Hash}

theorem computeHash_ne_computeSendHash
    (hx : Passes Hash256 checkPowNonce x) (hy : verifySendBlockIntegrity y = .ok checked) (hnonce : y.nonce.length ≤ 8)
    (hfree : NoCollision Hash256 (x.hashed Hash256) (y.sendHashed Hash256 host index))
    (hxh : x.computeHash Hash256 = some h) : y.computeSendHash Hash256 host index ≠ some h := by
  intro hyh
  obtain ⟨sx, hsx, hhx⟩ := map_eq_some_iff.1 hxh
  obtain ⟨sy, hsy, hhy⟩ := map_eq_some_iff.1 hyh
  have heq : sx = sy := hfree sx (by simp [hashed, hsx]) sy (by simp [sendHashed, hsy]) (hhx.trans hhy.symm)
  have hxnonce : x.nonce.length ≤ 8 := by
    rcases hx.nonce_length with hn | hn <;> simp [hn]
  obtain ⟨hamount, hfee, -⟩ := verifySendBlockIntegrity_ok hy
  have hlenx := length_hashSource hx.fits.1 hx.fits.2 hxnonce hsx
  have hleny := length_hashSource hamount hfee hnonce hsy
  rw [heq] at hlenx
  rw [hlenx] at hleny
  split_ifs at hleny <;> simp at hleny

variable {host' : AccountBlock} {index' : ℕ}

theorem sendExtraBytes_injective (hi : index < 256) (hi' : index' < 256)
    (h : host.sendExtraBytes index = host'.sendExtraBytes index') :
    host.prevHash = host'.prevHash ∧ host.height = host'.height ∧ index = index' := by
  obtain ⟨hprev, hrest⟩ := append_inj h (host.prevHash.length_eq.trans host'.prevHash.length_eq.symm)
  obtain ⟨hheight, hindex⟩ := append_inj hrest (by rw [length_writeBE, length_writeBE])
  exact ⟨toList_injective hprev, height_eq_of_writeBE hheight, writeBE_injective hi hi' hindex⟩

theorem hashSource_extra (b : AccountBlock) {extra : Data} (h : b.hashSource Hash256 extra = some source) :
    extra <:+ source := by
  obtain ⟨body, -, rfl⟩ := map_eq_some_iff.1 h
  refine ⟨b.blockType :: (b.prevHash.toList ++ (writeBE 8 b.height.toNat ++ (b.accountAddress.toList ++ (body ++
    (b.hashSourceData Hash256 ++ (b.hashSourceFee ++ (b.hashSourceLogHash ++ (leftPadBytes b.nonce 8 ++
      b.sendBlockList.flatMap (·.hash.toList))))))))), ?_⟩
  simp only [cons_append, append_assoc]

/-- Two send hashes that agree are of sends at one place of one account chain position. -/
theorem computeSendHash_place {y' : AccountBlock} (hi : index < 256) (hi' : index' < 256)
    (hfree : NoCollision Hash256 (y.sendHashed Hash256 host index) (y'.sendHashed Hash256 host' index'))
    (hy : y.computeSendHash Hash256 host index = some h) (hy' : y'.computeSendHash Hash256 host' index' = some h) :
    host.prevHash = host'.prevHash ∧ host.height = host'.height ∧ index = index' := by
  obtain ⟨s, hs, hh⟩ := map_eq_some_iff.1 hy
  obtain ⟨s', hs', hh'⟩ := map_eq_some_iff.1 hy'
  obtain rfl : s = s' := hfree s (by simp [sendHashed, hs]) s' (by simp [sendHashed, hs']) (hh.trans hh'.symm)
  have hsuffix := suffix_of_suffix_length_le (hashSource_extra y hs) (hashSource_extra y' hs') (by simp)
  exact sendExtraBytes_injective hi hi' (hsuffix.eq_of_length (by simp))

/-- Blocks of equal hash have equal content exactly if both or neither have data, a log hash and a nonce; a hash of a send
whose nonce is not too long is not a hash of a block; and a hash of a send fixes the place of its host and its index. -/
theorem hash_fixes_content (Hash256 : Data → Hash) (checkPowNonce : ℤ → Data → Hash → Bool) :
    (∀ a b, Passes Hash256 checkPowNonce a → Passes Hash256 checkPowNonce b →
      NoCollision Hash256 (a.hashed Hash256) (b.hashed Hash256) → a.hash = b.hash →
      (SameContent a b ↔ SameShape a b)) ∧
    (∀ (x y host checked : AccountBlock) (index : ℕ) (h : Hash), Passes Hash256 checkPowNonce x → verifySendBlockIntegrity y = .ok checked →
      y.nonce.length ≤ 8 → NoCollision Hash256 (x.hashed Hash256) (y.sendHashed Hash256 host index) →
      x.computeHash Hash256 = some h → y.computeSendHash Hash256 host index ≠ some h) ∧
    (∀ (y y' host host' : AccountBlock) (index index' : ℕ) (h : Hash), index < 256 → index' < 256 →
      NoCollision Hash256 (y.sendHashed Hash256 host index) (y'.sendHashed Hash256 host' index') →
      y.computeSendHash Hash256 host index = some h → y'.computeSendHash Hash256 host' index' = some h →
      host.prevHash = host'.prevHash ∧ host.height = host'.height ∧ index = index') := by
  refine ⟨fun a b ha hb hfree hhash => ⟨SameContent.sameShape, sameContent_of_hash ha hb hfree hhash⟩, ?_, ?_⟩
  · intro x y host checked index h hx hy hnonce hfree hxh
    exact computeHash_ne_computeSendHash hx hy hnonce hfree hxh
  · intro y y' host host' index index' h hi hi' hfree hy hy'
    exact computeSendHash_place hi hi' hfree hy hy'

/-! Blocks that share a hash -/

def userSend (data : Data) (fee : ℤ) (logHash : Option Hash) (nonce : Data) (sends : List AccountBlock) : AccountBlock where
  blockType := ⟨2, by decide⟩
  hash := zeroHash
  prevHash := zeroHash
  height := 2
  accountAddress := zeroAddress
  publicKey := []
  toAddress := zeroAddress
  amount := some 0
  tokenId := zeroTokenId
  fromBlockHash := zeroHash
  data := data
  fee := some fee
  logHash := logHash
  difficulty := none
  nonce := nonce
  sendBlockList := sends
  signature := []

def contractReceive (fromBlockHash : Hash) : AccountBlock where
  blockType := ⟨4, by decide⟩
  hash := zeroHash
  prevHash := zeroHash
  height := 1
  accountAddress := Bytes.ofNat 21 1
  publicKey := []
  toAddress := zeroAddress
  amount := none
  tokenId := zeroTokenId
  fromBlockHash := fromBlockHash
  data := []
  fee := none
  logHash := none
  difficulty := none
  nonce := []
  sendBlockList := []
  signature := []

/-- The second of two sends whose hashes are the end of other bytes. -/
def hashSend (hash : Hash) : AccountBlock := { userSend [] 0 none [] [] with hash := hash }

def AccountBlock.withHash (Hash256 : Data → Hash) (b : AccountBlock) : AccountBlock :=
  { b with hash := (b.computeHash Hash256).getD zeroHash }

theorem computeHash_withHash (Hash256 : Data → Hash) (b : AccountBlock) :
    (b.withHash Hash256).computeHash Hash256 = b.computeHash Hash256 := rfl

theorem verifyHash_withHash (hne : ∀ x, Hash256 x ≠ zeroHash) (h : b.hashSource Hash256 [] = some source)
    (hsends : !isContractAddr b.accountAddress ∨ b.isSendBlock ∨ b.sendBlockList = []) :
    verifyHash Hash256 (b.withHash Hash256) = .ok () := by
  have hhash : b.computeHash Hash256 = some (Hash256 source) := by rw [computeHash, h, map_some]
  have hown : (b.withHash Hash256).hash = Hash256 source := by rw [withHash, hhash, getD_some]
  unfold verifyHash
  rw [computeHash_withHash, hhash]
  dsimp only
  rw [if_neg (hown ▸ hne source), if_neg (not_not.2 hown.symm)]
  exact if_pos hsends

theorem verifySendBlockIntegrity_user (hamount : b.amount = some 0) (hfee : FitsField b.fee)
    (hfrom : b.fromBlockHash = zeroHash) (haddr : isContractAddr b.accountAddress = false) (hheight : 1 < b.height.toNat) :
    ∃ checked, verifySendBlockIntegrity b = .ok checked := by
  unfold verifySendBlockIntegrity
  rw [hamount, if_neg (by simp), if_neg (by simp), if_neg (by rw [not_or, not_lt, not_lt]; exact hfee),
    if_neg (not_not.2 hfrom), if_neg (by simp [haddr]), if_neg (by omega)]
  exact ⟨_, rfl⟩

theorem passes_userSend (hne : ∀ x, Hash256 x ≠ zeroHash) {fee : ℤ} (hfee : FitsField (some fee)) (data : Data)
    (logHash : Option Hash) (sends : List AccountBlock) :
    Passes Hash256 checkPowNonce ((userSend data fee logHash [] sends).withHash Hash256) := by
  refine ⟨verifyHash_withHash hne rfl (Or.inr (Or.inl rfl)), ?_, rfl⟩
  rw [verifyIntegrity, if_pos (by rfl)]
  exact verifySendBlockIntegrity_user rfl hfee rfl (show isContractAddr zeroAddress = false by decide)
    (show 1 < (2 : UInt64).toNat by decide)

theorem passes_contractReceive (hne : ∀ x, Hash256 x ≠ zeroHash) (fromBlockHash : Hash) :
    Passes Hash256 checkPowNonce ((contractReceive fromBlockHash).withHash Hash256) :=
  ⟨verifyHash_withHash hne rfl (Or.inr (Or.inr rfl)), ⟨_, rfl⟩, rfl⟩

theorem fitsField_hash (hash : Hash) : FitsField (some (readBE hash.toList : ℤ)) := by
  refine ⟨by simp, ?_⟩
  have hlt := readBE_lt hash.toList
  rw [hash.length_eq] at hlt
  exact Nat.size_le.2 hlt

/-- The hash of the data can be read as a fee and the fee as a log hash. -/
theorem data_read_as_fee (Hash256 : Data → Hash) {data : Data} (hdata : data ≠ []) :
    ((userSend data 0 none [] []).withHash Hash256).hash =
      ((userSend [] (readBE (Hash256 data).toList) (some zeroHash) [] []).withHash Hash256).hash := by
  have hfee : (userSend [] (readBE (Hash256 data).toList) (some zeroHash) [] []).hashSourceFee = (Hash256 data).toList := by
    have hread := writeBE_readBE (Hash256 data).toList
    rw [(Hash256 data).length_eq] at hread
    exact (hashSourceFee_eq (fitsField_hash _)).trans hread
  have hdataPart : (userSend data 0 none [] []).hashSourceData Hash256 = (Hash256 data).toList := if_neg hdata
  have hzero : (userSend data 0 none [] []).hashSourceFee = zeroHash.toList := hashSourceFee_eq (fitsField_of_zero rfl)
  simp only [withHash, computeHash, hashSource]
  rw [hfee, hdataPart]
  rfl

/-- The nonce of a contract's send is not checked: one of 31 bytes makes its bytes those of a block with two sends. -/
theorem sendHash_read_as_hash (Hash256 : Data → Hash) :
    (userSend [] 0 none [] [hashSend zeroHash, hashSend (ofNat 32 256)]).computeHash Hash256 =
      (userSend [] 0 none (writeBE 31 0) []).computeSendHash Hash256 ((contractReceive zeroHash).withHash Hash256) 0 := by
  have htail : leftPadBytes [] 8 ++ ([hashSend zeroHash, hashSend (ofNat 32 256)].flatMap (·.hash.toList) ++ []) =
      leftPadBytes (writeBE 31 0) 8 ++ ([] ++ (contractReceive zeroHash).sendExtraBytes 0) := by
    decide +kernel
  refine congrArg (Option.map Hash256) ?_
  show some (_ :: (_ ++ (_ ++ (_ ++ (_ ++ (_ ++ (_ ++ (_ ++ (leftPadBytes [] 8 ++
    ([hashSend zeroHash, hashSend (ofNat 32 256)].flatMap (·.hash.toList) ++ [])))))))))) = _
  rw [htail]
  rfl

/-- A stand-in for the hash that tells short strings of different lengths apart. -/
def lengthHash (data : Data) : Hash := Bytes.ofNat 32 (data.length % 1000 + 1)

theorem lengthHash_ne (data : Data) : lengthHash data ≠ zeroHash := by
  intro h
  have hval := congrArg val h
  rw [lengthHash, zeroHash, val_ofNat, val_ofNat] at hval
  omega

/-- Two copies of a send, signed by different keys. -/
theorem hash_fixes_content_copies :
    let a := (userSend (writeBE 1 1) 0 none [] []).withHash lengthHash
    let b := { a with publicKey := writeBE 1 7 }
    a.hash = b.hash ∧ SameContent a b := by
  intro a b
  have ha : Passes lengthHash (fun _ _ _ => true) a := passes_userSend lengthHash_ne (fitsField_of_zero rfl) _ _ _
  have hintegrity : ∃ checked, verifyIntegrity b = .ok checked := by
    rw [verifyIntegrity, if_pos (by rfl)]
    exact verifySendBlockIntegrity_user rfl (fitsField_of_zero rfl) rfl (by decide) (by decide)
  have hb : Passes lengthHash (fun _ _ _ => true) b := ⟨ha.hash, hintegrity, ha.nonce⟩
  have hfree : NoCollision lengthHash (a.hashed lengthHash) (b.hashed lengthHash) := by
    unfold NoCollision
    decide +kernel
  exact ⟨rfl, ((hash_fixes_content lengthHash fun _ _ _ => true).1 a b ha hb hfree rfl).2 ⟨Iff.rfl, Iff.rfl, Iff.rfl⟩⟩

/-- Whatever hash is used, it does not fix the content of a block, a send hash can be that of a block, and different hosts
give a send one hash. -/
theorem hash_leaves_content : ¬ ∃ (Hash256 : Data → Hash) (checkPowNonce : ℤ → Data → Hash → Bool),
    (∀ x, Hash256 x ≠ zeroHash) ∧
    ((∀ a b, Passes Hash256 checkPowNonce a → Passes Hash256 checkPowNonce b → a.hash = b.hash → SameContent a b) ∨
    (∀ x y host checked : AccountBlock, Passes Hash256 checkPowNonce x → verifySendBlockIntegrity y = .ok checked →
      Passes Hash256 checkPowNonce host → x.computeHash Hash256 ≠ y.computeSendHash Hash256 host 0) ∨
    (∀ y host host' : AccountBlock, Passes Hash256 checkPowNonce host → Passes Hash256 checkPowNonce host' →
      host.fromBlockHash ≠ host'.fromBlockHash →
      y.computeSendHash Hash256 host 0 ≠ y.computeSendHash Hash256 host' 0)) := by
  rintro ⟨Hash256, checkPowNonce, hne, hcontent | hsend | hhost⟩
  · have hdata : writeBE 1 1 ≠ [] := by simp [writeBE]
    have hsame := hcontent _ _ (passes_userSend hne (fitsField_of_zero rfl) (writeBE 1 1) none [])
      (passes_userSend hne (fitsField_hash _) [] (some zeroHash) []) (data_read_as_fee Hash256 hdata)
    exact hdata hsame.data
  · obtain ⟨checked, hchecked⟩ := verifySendBlockIntegrity_user (b := userSend [] 0 none (writeBE 31 0) []) rfl
      (fitsField_of_zero rfl) rfl (by decide) (by decide)
    exact hsend _ _ _ checked (passes_userSend hne (fitsField_of_zero rfl) [] none _) hchecked
      (passes_contractReceive hne zeroHash) (sendHash_read_as_hash Hash256)
  · refine hhost (userSend [] 0 none [] []) _ _ (passes_contractReceive hne zeroHash)
      (passes_contractReceive hne (ofNat 32 1)) ?_ rfl
    show zeroHash ≠ ofNat 32 1
    decide

end GoVite.AccountBlocks
