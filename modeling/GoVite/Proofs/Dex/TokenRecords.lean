import GoVite.Sanity.Dex.Market
import GoVite.Spec.Dex.TokenRequests

/-! Token records under concurrent requests. Each answer of the asset contract builds a record anew, so that a token
without a record may have one request under way at a time, markets apart. -/

namespace GoVite.Dex
open KeyStore ExceptRules SwapRemove List Store Except TokenRequest NewMarketAction TokenInfo

namespace TokenDesk

/-- A request that has to wait is alone under way for its token, markets of one token apart, and a transfer
was asked for by the owner that the asset contract answers. -/
def Proper (s : TokenDesk) : TokenAction → Prop
  | .openNewMarket _ param => s.fund.tokenInfos.get? param.tradeToken = none →
      ∀ r ∈ s.underWay, r.token = param.tradeToken → r.bid = .newMarket
  | .newQuoteToken _ token _ => s.fund.tokenInfos.get? token = none → ∀ r ∈ s.underWay, r.token ≠ token
  | .transferTokenOwnership _ token _ => s.fund.tokenInfos.get? token = none → ∀ r ∈ s.underWay, r.token ≠ token
  | .answer i exist decimals owner => ∀ r, s.underWay[i]? = some r → r.bid = .transferOwner → exist = true →
      mayTransfer s.fund (r.answer exist decimals owner) r.sender = true

def ProperRun (A : Arith) (reader : ConsensusReader) : TokenDesk → List TokenAction → Prop
  | _, [] => True
  | s, a :: actions => s.Proper a ∧ ProperRun A reader (s.step A reader a) actions

structure Fresh (s : TokenDesk) : Prop where
  underWay : s.underWay = []
  newMarkets : s.fund.pendingNewMarkets = []
  setQuotes : s.fund.pendingSetQuotes = []
  transfers : s.fund.pendingTransferTokenOwners = []
  fees : FeesStored s.fund

/-- Every record stays, keeps its quote token type, and its owner changes only by that owner's transfer. -/
def RecordsKept (s : TokenDesk) (a : TokenAction) (s' : TokenDesk) : Prop :=
  ∀ token info, s.fund.tokenInfos.get? token = some info → ∃ info', s'.fund.tokenInfos.get? token = some info'
    ∧ (∀ q, info.quoteTokenType = some q → info'.quoteTokenType = some q)
    ∧ (info'.owner = info.owner ∨ a = .transferTokenOwnership info.owner token info'.owner)

/-- Once no request of a kind is under way, none of the kind waits. -/
structure NoneStuck (s : TokenDesk) : Prop where
  newMarkets : (∀ r ∈ s.underWay, r.bid ≠ .newMarket) → s.fund.pendingNewMarkets = []
  setQuotes : (∀ r ∈ s.underWay, r.bid ≠ .setQuote) → s.fund.pendingSetQuotes = []
  transfers : (∀ r ∈ s.underWay, r.bid ≠ .transferOwner) → s.fund.pendingTransferTokenOwners = []

/-- A transfer of a token's owner is carried out: at once if the token has a record, and otherwise with the
asset contract's answer; that of VITE also for its initial owner. -/
def TransfersSucceed (A : Arith) (reader : ConsensusReader) (s : TokenDesk) : Prop :=
  (∀ token info newOwner, s.fund.tokenInfos.get? token = some info →
    ((s.step A reader (.transferTokenOwnership info.owner token newOwner)).fund.tokenInfos.get? token).map owner
      = some newOwner) ∧
  ∀ i r decimals holder, s.underWay[i]? = some r → r.bid = .transferOwner →
    r.sender = holder ∨ r.token = viteTokenId ∧ r.sender = initViteTokenOwner ∧ s.fund.viteOwnerInitiated = false →
    ((s.step A reader (.answer i true decimals holder)).fund.tokenInfos.get? r.token).map owner = some r.newOwner

end TokenDesk

/-- Two requests that may be under way together. -/
def Compatible (r r' : TokenRequest) : Prop := r.token = r'.token → r.bid = .newMarket ∧ r'.bid = .newMarket

theorem Compatible.symm {r r' : TokenRequest} (h : Compatible r r') : Compatible r' r := fun he => (h he.symm).symm

def TokenRequest.transfer (r : TokenRequest) : TransferTokenOwnerAction := ⟨r.token, r.sender, r.newOwner⟩

/-- The records, the three lists of waiting requests and the requests under way. -/
structure TokenInv (T : Store TokenId TokenInfo) (M : List NewMarketAction) (Q : List SetQuoteTokenAction)
    (X : List TransferTokenOwnerAction) (U : List TokenRequest) : Prop where
  compatible : U.Pairwise Compatible
  recorded : ∀ token info, T.get? token = some info →
    (∀ action ∈ M, action.tradeToken ≠ token) ∧ ∀ r ∈ U, r.token = token → r.bid = .newMarket
  tokens : (M.map tradeToken).Nodup
  quoteTokens : ∀ action ∈ M, action.quoteTokens ≠ []
  waiting : ∀ action ∈ M, ∃ r ∈ U, r.token = action.tradeToken ∧ r.bid = .newMarket
  setQuotes : (Q.map SetQuoteTokenAction.token).Perm ((U.filter fun r => r.bid = .setQuote).map token)
  transfers : X.Perm ((U.filter fun r => r.bid = .transferOwner).map transfer)

open TokenInv

variable {q t : TokenId}

/-- The markets that wait after another one joins them: no token is listed twice. -/
theorem addQuoteToken_ok {M M' : List NewMarketAction} (h : addQuoteToken t q M = .ok M') :
    (M'.map tradeToken = M.map tradeToken
      ∨ M'.map tradeToken = M.map tradeToken ++ [t] ∧ t ∉ M.map tradeToken)
    ∧ ((∀ action ∈ M, action.quoteTokens ≠ []) → ∀ action ∈ M', action.quoteTokens ≠ []) := by
  induction M generalizing M' with
  | nil =>
    cases h
    exact ⟨.inr ⟨rfl, by simp⟩, by simp⟩
  | cons action M ih =>
    rw [addQuoteToken] at h
    by_cases htoken : action.tradeToken = t
    · rw [if_pos htoken] at h
      obtain ⟨-, h⟩ := guard_ok h
      cases h
      exact ⟨.inl rfl, by simp⟩
    · rw [if_neg htoken] at h
      obtain ⟨M₁, hM₁, rfl⟩ := map_ok h
      obtain ⟨hmap, hquotes⟩ := ih hM₁
      refine ⟨?_, fun hall => ?_⟩
      · obtain hsame | ⟨hnew, hnot⟩ := hmap
        · exact .inl (by simp [hsame])
        · have hne : t ≠ action.tradeToken := fun he => htoken he.symm
          exact .inr ⟨by simp [hnew], by simpa [hne] using hnot⟩
      · rw [forall_mem_cons] at hall ⊢
        exact ⟨hall.1, hquotes hall.2⟩

variable {α : Type} {token : TokenId}

theorem filterPending_ok {tokenOf : α → TokenId} {pendings rest : List α} {action : α}
    (h : filterPending tokenOf pendings token = .ok (action, rest)) : pendings.Perm (action :: rest) ∧ tokenOf action = token := by
  unfold filterPending at h
  split at h
  · cases h
  · rename_i r htake
    cases h
    exact ⟨takeFirst_perm htake, by simpa using takeFirst_sat htake⟩

theorem filterPending_error {tokenOf : α → TokenId} {pendings : List α} {e : DexError}
    (h : filterPending tokenOf pendings token = .error e) : ∀ action ∈ pendings, tokenOf action ≠ token := by
  unfold filterPending at h
  split at h
  · rename_i htake
    simpa using takeFirst_eq_none.1 htake
  · cases h

theorem filterPending_found {tokenOf : α → TokenId} {pendings : List α} (hwaits : token ∈ pendings.map tokenOf) :
    ∃ action rest, filterPending tokenOf pendings token = .ok (action, rest) ∧ pendings.Perm (action :: rest)
      ∧ tokenOf action = token := by
  obtain ⟨action, haction, htoken⟩ := mem_map.1 hwaits
  cases h : filterPending tokenOf pendings token with
  | error e => exact absurd htoken (filterPending_error h action haction)
  | ok r => exact ⟨r.1, r.2, rfl, filterPending_ok h⟩

variable {action : NewMarketAction}

namespace TokenInv
variable {T T' : Store TokenId TokenInfo} {M M' : List NewMarketAction} {Q Q' : List SetQuoteTokenAction}
  {X X' : List TransferTokenOwnerAction} {U U' : List TokenRequest} {r r' : TokenRequest}

section Request

variable (h : TokenInv T M Q X U)
include h

/-- A request about a token without a record joins those under way. -/
theorem recorded_append (hnone : T.get? r.token = none) {info : TokenInfo}
    (hget : T.get? token = some info) : ∀ r' ∈ U ++ [r], r'.token = token → r'.bid = .newMarket := by
  refine forall_mem_concat.2 ⟨(h.recorded token info hget).2, fun htoken => ?_⟩
  rw [← htoken, hnone] at hget
  cases hget

theorem compatible_append (hr : ∀ r' ∈ U, Compatible r' r) : (U ++ [r]).Pairwise Compatible :=
  pairwise_concat.2 ⟨h.compatible, hr⟩

theorem waiting_append : ∀ action ∈ M, ∃ r' ∈ U ++ [r], r'.token = action.tradeToken ∧ r'.bid = .newMarket := by
  intro action haction
  obtain ⟨r', hr', hmatch⟩ := h.waiting action haction
  exact ⟨r', mem_append_left _ hr', hmatch⟩

theorem newMarket (hbid : r.bid = .newMarket) (hnone : T.get? r.token = none)
    (hU : ∀ r' ∈ U, r'.token = r.token → r'.bid = .newMarket) (hadd : addQuoteToken r.token q M = .ok M') :
    TokenInv T M' Q X (U ++ [r]) := by
  obtain ⟨hmap, hquotes⟩ := addQuoteToken_ok hadd
  have hmem : ∀ action ∈ M', action.tradeToken = r.token ∨ ∃ old ∈ M, old.tradeToken = action.tradeToken := by
    intro action haction
    have hin : action.tradeToken ∈ M'.map tradeToken := mem_map_of_mem haction
    obtain hsame | ⟨hnew, -⟩ := hmap
    · rw [hsame] at hin
      exact .inr (mem_map.1 hin)
    · rw [hnew, mem_append, mem_singleton] at hin
      exact hin.symm.imp id mem_map.1
  refine ⟨h.compatible_append fun r' hr' he => ⟨hU r' hr' he, hbid⟩, ?_, ?_, hquotes h.quoteTokens, ?_, ?_, ?_⟩
  · intro token info hget
    refine ⟨fun action haction => ?_, h.recorded_append hnone hget⟩
    obtain heq | ⟨old, hold, heq⟩ := hmem action haction
    · intro htoken
      rw [← htoken, heq, hnone] at hget
      cases hget
    · rw [← heq]
      exact (h.recorded token info hget).1 old hold
  · obtain hsame | ⟨hnew, hnot⟩ := hmap
    · rw [hsame]
      exact h.tokens
    · rw [hnew, ← concat_eq_append]
      exact h.tokens.concat hnot
  · intro action haction
    obtain heq | ⟨old, hold, heq⟩ := hmem action haction
    · exact ⟨r, by simp, heq.symm, hbid⟩
    · rw [← heq]
      exact h.waiting_append old hold
  · simpa [hbid] using h.setQuotes
  · simpa [hbid] using h.transfers

theorem setQuote (hbid : r.bid = .setQuote) (hnone : T.get? r.token = none)
    (hU : ∀ r' ∈ U, r'.token ≠ r.token) {quoteTokenType : QuoteTokenType} :
    TokenInv T M (Q ++ [⟨r.token, quoteTokenType⟩]) X (U ++ [r]) := by
  refine ⟨h.compatible_append fun r' hr' he => absurd he (hU r' hr'),
    fun token info hget => ⟨(h.recorded token info hget).1, h.recorded_append hnone hget⟩,
    h.tokens, h.quoteTokens, h.waiting_append, ?_, ?_⟩
  · simpa [hbid] using h.setQuotes.append_right [r.token]
  · simpa [hbid] using h.transfers

theorem transferOwner (hbid : r.bid = .transferOwner) (hnone : T.get? r.token = none)
    (hU : ∀ r' ∈ U, r'.token ≠ r.token) : TokenInv T M Q (X ++ [r.transfer]) (U ++ [r]) := by
  refine ⟨h.compatible_append fun r' hr' he => absurd he (hU r' hr'),
    fun token info hget => ⟨(h.recorded token info hget).1, h.recorded_append hnone hget⟩,
    h.tokens, h.quoteTokens, h.waiting_append, ?_, ?_⟩
  · simpa [hbid] using h.setQuotes
  · simpa [hbid] using h.transfers.append_right [r.transfer]

theorem record {info info' : TokenInfo} (hget : T.get? token = some info) : TokenInv (T.set token info') M Q X U := by
  exact ⟨h.compatible, forall_set (h.recorded token info hget) h.recorded, h.tokens, h.quoteTokens, h.waiting, h.setQuotes,
    h.transfers⟩

end Request

section Answer
variable (hperm : U.Perm (r :: U'))
include hperm

theorem mem_rest (hr' : r' ∈ U) (hne : r' ≠ r) : r' ∈ U' := (mem_cons.1 (hperm.mem_iff.1 hr')).resolve_left hne

theorem rest_mem (hr' : r' ∈ U') : r' ∈ U := hperm.mem_iff.2 (mem_cons_of_mem r hr')

variable {bid : GetTokenFor}

theorem filter_rest (hbid : r.bid ≠ bid) : (U.filter fun r => r.bid = bid).Perm (U'.filter fun r => r.bid = bid) := by
  have := hperm.filter fun r => decide (r.bid = bid)
  rwa [filter_cons_of_neg (by simpa using hbid)] at this

theorem filter_self (hbid : r.bid = bid) :
    (U.filter fun r => r.bid = bid).Perm (r :: U'.filter fun r => r.bid = bid) := by
  have := hperm.filter fun r => decide (r.bid = bid)
  rwa [filter_cons_of_pos (by simpa using hbid)] at this

variable (h : TokenInv T M Q X U)
include h

theorem rest : (∀ r' ∈ U', Compatible r r') ∧ U'.Pairwise Compatible :=
  pairwise_cons.1 ((hperm.pairwise_iff fun hc => Compatible.symm hc).1 h.compatible)

/-- Apart from markets a request is the only one about its token. -/
theorem no_market (hbid : r.bid ≠ .newMarket) : ∀ action ∈ M, action ∈ M ∧ action.tradeToken ≠ r.token := by
  intro action haction
  refine ⟨haction, fun htoken => ?_⟩
  obtain ⟨r', hr', htoken', hbid'⟩ := h.waiting action haction
  have hne : r' ≠ r := fun he => hbid (he ▸ hbid')
  exact hbid ((rest hperm h).1 r' (mem_rest hperm hr' hne) (htoken'.trans htoken).symm).1

/-- The token of an answered request other than for a market has no record. -/
theorem no_record (hbid : r.bid ≠ .newMarket) : T.get? r.token = none := by
  cases hget : T.get? r.token with
  | none => rfl
  | some info => exact absurd ((h.recorded r.token info hget).2 r (hperm.mem_iff.2 mem_cons_self) rfl) hbid

theorem setQuotes_rest (hbid : r.bid ≠ .setQuote) :
    (Q.map SetQuoteTokenAction.token).Perm ((U'.filter fun r => r.bid = .setQuote).map TokenRequest.token) :=
  h.setQuotes.trans ((filter_rest hperm hbid).map _)

theorem transfers_rest (hbid : r.bid ≠ .transferOwner) :
    X.Perm ((U'.filter fun r => r.bid = .transferOwner).map transfer) :=
  h.transfers.trans ((filter_rest hperm hbid).map _)

/-- The transfer that waits for a token is the one under way. -/
theorem transfer_eq (hbid : r.bid = .transferOwner) {action : TransferTokenOwnerAction} (haction : action ∈ X)
    (htoken : action.token = r.token) : action = r.transfer := by
  obtain ⟨r', hr', rfl⟩ := mem_map.1 (h.transfers.mem_iff.1 haction)
  obtain ⟨hmem, hbid'⟩ := mem_filter.1 hr'
  by_contra hne
  have hrest := mem_rest hperm hmem fun he => hne (he ▸ rfl)
  have := ((rest hperm h).1 r' hrest htoken.symm).1
  rw [hbid] at this
  cases this

variable (hT' : ∀ t info, T'.get? t = some info → t = r.token ∨ ∃ old, T.get? t = some old)
include hT'

/-- After an answer at most the token of its request got a record, and the markets of other tokens still wait. -/
theorem answered (hM' : ∀ action ∈ M', action ∈ M ∧ action.tradeToken ≠ r.token) (htokens : (M'.map tradeToken).Nodup)
    (hQ : (Q'.map SetQuoteTokenAction.token).Perm ((U'.filter fun r => r.bid = .setQuote).map TokenRequest.token))
    (hX : X'.Perm ((U'.filter fun r => r.bid = .transferOwner).map TokenRequest.transfer)) :
    TokenInv T' M' Q' X' U' := by
  refine ⟨(rest hperm h).2, fun t info hget => ?_, htokens, fun action ha => h.quoteTokens action (hM' action ha).1,
    fun action haction => ?_, hQ, hX⟩
  · obtain rfl | ⟨old, hold⟩ := hT' t info hget
    · exact ⟨fun action haction => (hM' action haction).2, fun r' hr' htoken => ((rest hperm h).1 r' hr' htoken.symm).2⟩
    · obtain ⟨hmarkets, hrequests⟩ := h.recorded t old hold
      exact ⟨fun action haction => hmarkets action (hM' action haction).1,
        fun r' hr' => hrequests r' (rest_mem hperm hr')⟩
  · obtain ⟨hmem, hne⟩ := hM' action haction
    obtain ⟨r', hr', hmatch⟩ := h.waiting action hmem
    exact ⟨r', mem_rest hperm hr' fun he => hne (he ▸ hmatch.1.symm), hmatch⟩

theorem answerMarket (hbid : r.bid = .newMarket) (hM : M.Perm (action :: M')) (htoken : action.tradeToken = r.token) :
    TokenInv T' M' Q X U' := by
  have hnodup : (action.tradeToken :: M'.map tradeToken).Nodup :=
    (hM.map tradeToken).nodup_iff.1 h.tokens
  have hM' : ∀ action' ∈ M', action' ∈ M ∧ action'.tradeToken ≠ r.token := by
    intro action' haction'
    refine ⟨hM.mem_iff.2 (mem_cons_of_mem _ haction'), fun he => (nodup_cons.1 hnodup).1 ?_⟩
    rw [htoken, ← he]
    exact mem_map_of_mem haction'
  exact answered hperm h hT' hM' (nodup_cons.1 hnodup).2 (setQuotes_rest hperm h (by simp [hbid]))
    (transfers_rest hperm h (by simp [hbid]))

theorem answerQuote (hbid : r.bid = .setQuote) {action : SetQuoteTokenAction} (hQ : Q.Perm (action :: Q'))
    (htoken : action.token = r.token) : TokenInv T' M Q' X U' := by
  refine answered hperm h hT' (no_market hperm h (by simp [hbid])) h.tokens ?_ (transfers_rest hperm h (by simp [hbid]))
  have hleft : (Q.map SetQuoteTokenAction.token).Perm (r.token :: Q'.map SetQuoteTokenAction.token) := by
    rw [← htoken]
    exact hQ.map _
  have hright := (filter_self hperm hbid).map TokenRequest.token
  exact ((hleft.symm.trans h.setQuotes).trans hright).cons_inv

theorem answerTransfer (hbid : r.bid = .transferOwner) {action : TransferTokenOwnerAction} (hX : X.Perm (action :: X'))
    (htoken : action.token = r.token) : TokenInv T' M Q X' U' := by
  refine answered hperm h hT' (no_market hperm h (by simp [hbid])) h.tokens (setQuotes_rest hperm h (by simp [hbid])) ?_
  rw [transfer_eq hperm h hbid (hX.mem_iff.2 mem_cons_self) htoken] at hX
  have hright := (filter_self hperm hbid).map TokenRequest.transfer
  exact ((hX.symm.trans h.transfers).trans hright).cons_inv

omit hT' in
/-- A second answer for markets of a token finds none of them waiting. -/
theorem ignoreMarket (hbid : r.bid = .newMarket) (hnone : ∀ action ∈ M, action.tradeToken ≠ r.token) :
    TokenInv T M Q X U' :=
  answered hperm h (fun t info hget => .inr ⟨info, hget⟩) (fun action ha => ⟨ha, hnone action ha⟩) h.tokens
    (setQuotes_rest hperm h (by simp [hbid])) (transfers_rest hperm h (by simp [hbid]))

end Answer

end TokenInv

variable {quoteTokenType : ℕ} {reader : ConsensusReader} {A : Arith} {r : FundDb × List MarketCall} {sender : Address}
  {db : FundDb}

section Requests
variable {newOwner : Address}

theorem requestsOf_newMarketCalls (db : FundDb) (mi : MarketInfo) : TokenDesk.requestsOf sender newOwner (newMarketCalls db mi) = [] := by
  unfold newMarketCalls
  split_ifs <;> rfl

/-- A new market is dealt with at once, or waits because its trade token has no record. -/
theorem methodOpenNewMarket_cases (newOwner : Address) {param : ParamOpenNewMarket} (h : methodOpenNewMarket A db reader sender param = .ok r) :
    TokensKept db r.1 ∧ TokenDesk.requestsOf sender newOwner r.2 = [] ∨
    ∃ mi M', db.tokenInfos.get? param.tradeToken = none ∧ db.dexTimestamp ≠ 0
      ∧ addQuoteToken param.tradeToken param.quoteToken db.pendingNewMarkets = .ok M'
      ∧ r = ({ saveMarketInfo db mi param.tradeToken param.quoteToken with pendingNewMarkets := M' },
        [.getTokenInfo param.tradeToken .newMarket]) := by
  obtain ⟨-, h⟩ := guard_ok h
  obtain ⟨-, h⟩ := guard_ok h
  obtain ⟨mi, hrender, h⟩ := bind_ok h
  split at h
  · refine .inl ⟨onNewMarketValid_kept h, ?_⟩
    obtain rfl | ⟨reduced, settled, -, -, -, rfl⟩ := onNewMarketValid_cases h
    · rfl
    · exact requestsOf_newMarketCalls _ _
  · rename_i hvalid
    obtain ⟨db', hadd, h⟩ := bind_ok h
    obtain ⟨M', hM', hadd⟩ := bind_ok hadd
    cases hadd
    cases h
    refine .inr ⟨mi, M', ?_, ?_, hM', rfl⟩
    · have hval := (renderMarketInfo_ok hrender).2.1
      cases hget : db.tokenInfos.get? param.tradeToken with
      | none => rfl
      | some info => simp [hget, hval] at hvalid
    · exact (renderMarketInfo_ok hrender).2.2 rfl

end Requests

variable {new : TokenInfo} {a : TokenAction}

namespace TokenDesk
variable {s s' : TokenDesk}

structure Inv (s : TokenDesk) : Prop where
  tokens : TokenInv s.fund.tokenInfos s.fund.pendingNewMarkets s.fund.pendingSetQuotes
    s.fund.pendingTransferTokenOwners s.underWay
  clock : s.fund.pendingNewMarkets ≠ [] → s.fund.dexTimestamp ≠ 0
  fees : FeesStored s.fund

theorem Inv.kept (h : Inv s) {fund : FundDb} (hkept : TokensKept s.fund fund) : Inv ⟨fund, s.underWay⟩ := by
  refine ⟨?_, ?_, hkept.feesStored h.fees⟩
  · rw [hkept.tokenInfos, hkept.pendingNewMarkets, hkept.pendingSetQuotes, hkept.pendingTransferTokenOwners]
    exact h.tokens
  · rw [hkept.pendingNewMarkets, hkept.dexTimestamp]
    exact h.clock

theorem recordsKept_of_eq (h : s'.fund.tokenInfos = s.fund.tokenInfos) : RecordsKept s a s' := by
  intro token info hget
  exact ⟨info, by rw [h, hget], fun q hq => hq, .inl rfl⟩

theorem recordsKept_set (h : s'.fund.tokenInfos = s.fund.tokenInfos.set token new)
    (hnew : ∀ info, s.fund.tokenInfos.get? token = some info →
      (∀ q, info.quoteTokenType = some q → new.quoteTokenType = some q)
        ∧ (new.owner = info.owner ∨ a = .transferTokenOwnership info.owner token new.owner)) : RecordsKept s a s' := by
  intro t info hget
  rw [h, get?_set]
  split_ifs with ht
  · subst ht
    exact ⟨new, rfl, hnew info hget⟩
  · exact ⟨info, hget, fun q hq => hq, .inl rfl⟩

/-- What a step does to the invariant and the records. -/
def Keeps (A : Arith) (reader : ConsensusReader) (s : TokenDesk) (a : TokenAction) : Prop :=
  Inv (s.step A reader a) ∧ RecordsKept s a (s.step A reader a)

theorem Inv.openNewMarket (h : Inv s) {param : ParamOpenNewMarket} (hproper : s.Proper (.openNewMarket sender param)) :
    Keeps A reader s (.openNewMarket sender param) := by
  simp only [Keeps, step, requested]
  cases hr : methodOpenNewMarket A s.fund reader sender param with
  | error e => exact ⟨h, recordsKept_of_eq rfl⟩
  | ok r =>
    obtain ⟨hkept, hcalls⟩ | ⟨mi, M', hnone, htime, hadd, rfl⟩ := methodOpenNewMarket_cases 0 hr
    · dsimp only
      rw [hcalls, append_nil]
      exact ⟨h.kept hkept, recordsKept_of_eq hkept.tokenInfos⟩
    · refine ⟨⟨?_, fun _ => htime, h.fees⟩, recordsKept_of_eq rfl⟩
      exact h.tokens.newMarket rfl hnone (hproper hnone) hadd

theorem Inv.newQuoteToken (h : Inv s) (hproper : s.Proper (.newQuoteToken sender token quoteTokenType)) :
    Keeps A reader s (.newQuoteToken sender token quoteTokenType) := by
  simp only [Keeps, step, requested]
  cases hr : methodNewQuoteToken s.fund sender token quoteTokenType with
  | error e => exact ⟨h, recordsKept_of_eq rfl⟩
  | ok r =>
    obtain ⟨-, hr⟩ := guard_ok hr
    split at hr
    · cases hr
    · split at hr
      · rename_i hnone
        cases hr
        refine ⟨⟨?_, h.clock, h.fees⟩, recordsKept_of_eq rfl⟩
        exact h.tokens.setQuote (r := ⟨token, .setQuote, sender, 0⟩) rfl hnone (hproper hnone)
      · rename_i info hget
        obtain ⟨htype, hr⟩ := guard_ok hr
        cases hr
        simp only [requestsOf, append_nil]
        refine ⟨⟨h.tokens.record hget, h.clock, h.fees⟩, recordsKept_set rfl fun info' hget' => ?_⟩
        obtain rfl := Option.mem_unique hget hget'
        exact ⟨fun q hq => by simp [hq] at htype, .inl rfl⟩

theorem Inv.transferTokenOwnership (h : Inv s) {newOwner : Address}
    (hproper : s.Proper (.transferTokenOwnership sender token newOwner)) :
    Keeps A reader s (.transferTokenOwnership sender token newOwner) := by
  simp only [Keeps, step, requested]
  cases hr : methodTransferTokenOwnership s.fund sender token newOwner with
  | error e => exact ⟨h, recordsKept_of_eq rfl⟩
  | ok r =>
    unfold methodTransferTokenOwnership at hr
    split at hr
    · rename_i hnone
      cases hr
      refine ⟨⟨?_, h.clock, h.fees⟩, recordsKept_of_eq rfl⟩
      exact h.tokens.transferOwner (r := ⟨token, .transferOwner, sender, newOwner⟩) rfl hnone (hproper hnone)
    · rename_i info hget
      split_ifs at hr with howner
      cases hr
      simp only [requestsOf, append_nil]
      refine ⟨⟨h.tokens.record hget, h.clock, h.fees⟩, recordsKept_set rfl fun info' hget' => ?_⟩
      obtain rfl := Option.mem_unique hget hget'
      exact ⟨fun q hq => hq, .inr (by rw [howner])⟩

end TokenDesk

section Answers
variable {param : ParamGetTokenInfoCallback}

theorem saveTokenInfo_answered (db : FundDb) (param : ParamGetTokenInfoCallback) (token : TokenId) (info : TokenInfo) :
    saveTokenInfo (newTokenInfoFromCallback db param).1 token info = { db with
      viteOwnerInitiated := (newTokenInfoFromCallback db param).1.viteOwnerInitiated
      tokenInfos := db.tokenInfos.set token info } := by
  unfold saveTokenInfo
  rw [newTokenInfoFromCallback_frame]

def answeredDb (db : FundDb) (param : ParamGetTokenInfoCallback) : FundDb :=
  saveTokenInfo (newTokenInfoFromCallback db param).1 param.tokenId (newTokenInfoFromCallback db param).2

theorem answeredDb_eq (db : FundDb) (param : ParamGetTokenInfoCallback) : answeredDb db param = { db with
    viteOwnerInitiated := (newTokenInfoFromCallback db param).1.viteOwnerInitiated
    tokenInfos := db.tokenInfos.set param.tokenId (newTokenInfoFromCallback db param).2 } :=
  saveTokenInfo_answered db param _ _

theorem onNewMarketSuccess_ok (h : onNewMarketGetTokenInfoSuccess A db reader param = .ok r) : ∃ action M',
    filterPending tradeToken db.pendingNewMarkets param.tokenId = .ok (action, M')
      ∧ TokensKept { answeredDb db param with pendingNewMarkets := M' } r.1 := by
  obtain ⟨filtered, hfilter, h⟩ := bind_ok h
  obtain ⟨action, hpending, hfiltered⟩ := filterPendingNewMarkets_ok hfilter
  refine ⟨action, filtered.1.pendingNewMarkets, ?_, ?_⟩
  · have hsame : (answeredDb db param).pendingNewMarkets = db.pendingNewMarkets := by rw [answeredDb_eq]
    rw [← hsame]
    exact hpending
  · have hkept : TokensKept filtered.1 r.1 := foldlM_inv (fun _ r => TokensKept filtered.1 r.1)
      (fun _ _ _ _ hr hstep => hr.trans (validatePending_kept hstep)) h (.refl _)
    rw [hfiltered] at hkept
    exact hkept

theorem filterPendingNewMarkets_found {M' : List NewMarketAction}
    (hfilter : filterPending tradeToken db.pendingNewMarkets token = .ok (action, M')) (hquotes : action.quoteTokens ≠ []) :
    filterPendingNewMarkets db token = .ok ({ db with pendingNewMarkets := M' }, action.quoteTokens) := by
  rw [filterPendingNewMarkets, hfilter]
  exact if_neg hquotes

theorem onNewMarketSuccess_total {M' : List NewMarketAction}
    (hfilter : filterPending tradeToken db.pendingNewMarkets param.tokenId = .ok (action, M'))
    (hquotes : action.quoteTokens ≠ []) (hfees : FeesStored db) (htime : db.dexTimestamp ≠ 0) :
    ∃ r, onNewMarketGetTokenInfoSuccess A db reader param = .ok r := by
  have hframe := answeredDb_eq db param
  have hsame : (answeredDb db param).pendingNewMarkets = db.pendingNewMarkets := by rw [hframe]
  rw [← hsame] at hfilter
  have hfiltered := filterPendingNewMarkets_found hfilter hquotes
  have hstep : ∀ (quoteToken : TokenId) (rest : List TokenId) (r : FundDb × List MarketCall),
      FeesStored r.1 ∧ r.1.dexTimestamp ≠ 0 → ∃ r', validatePending A reader param.tokenId
        (newTokenInfoFromCallback db param).2 r quoteToken = .ok r' ∧ FeesStored r'.1 ∧ r'.1.dexTimestamp ≠ 0 := by
    rintro quoteToken rest r ⟨hfees, htime⟩
    have htotal : ∃ r', validatePending A reader param.tokenId (newTokenInfoFromCallback db param).2 r quoteToken = .ok r' :=
      validatePending_total hfees htime
    obtain ⟨r', hr'⟩ := htotal
    have hkept := validatePending_kept hr'
    exact ⟨r', hr', hkept.feesStored hfees, by rw [hkept.dexTimestamp]; exact htime⟩
  have hstart : FeesStored { answeredDb db param with pendingNewMarkets := M' } ∧ (answeredDb db param).dexTimestamp ≠ 0 := by
    rw [hframe]
    exact ⟨hfees, htime⟩
  obtain ⟨r, hr, -⟩ := foldlM_total (fun _ (r : FundDb × List MarketCall) => FeesStored r.1 ∧ r.1.dexTimestamp ≠ 0)
    hstep (b := ({ answeredDb db param with pendingNewMarkets := M' }, [])) hstart
  exact bind_total hfiltered ⟨r, hr⟩

end Answers

namespace TokenDesk
variable {s : TokenDesk} {request : TokenRequest} {U' : List TokenRequest} {exist : Bool} {decimals : ℤ}
  {owner : Address}

theorem get?_set_or {T : Store TokenId TokenInfo} :
    ∀ t info, (T.set token new).get? t = some info → t = token ∨ ∃ old, T.get? t = some old := by
  exact forall_set (.inl rfl) fun t info hget => .inr ⟨info, hget⟩

/-- A record written for a token that has none keeps the others. -/
theorem recordsKept_new {s' : TokenDesk} (token : TokenId)
    (h : s'.fund.tokenInfos = s.fund.tokenInfos.set token new) (hnone : s.fund.tokenInfos.get? token = none) : RecordsKept s a s' :=
  recordsKept_set h fun info hget => by
    rw [hnone] at hget
    cases hget

section Callback
variable (h : Inv s) (hperm : s.underWay.Perm (request :: U'))
include h hperm

theorem Inv.answer_newMarket (hbid : request.bid = .newMarket) :
    (∀ r, methodGetTokenInfoCallback A s.fund reader (request.answer exist decimals owner) = .ok r →
      Inv ⟨r.1, U'⟩ ∧ RecordsKept s a ⟨r.1, U'⟩) ∧
    ∀ e, methodGetTokenInfoCallback A s.fund reader (request.answer exist decimals owner) = .error e → Inv ⟨s.fund, U'⟩ := by
  cases hfilter : filterPending tradeToken s.fund.pendingNewMarkets request.token with
  | error e =>
    -- nothing waits: the answer is refused
    have hnone := filterPending_error hfilter
    have hinv : Inv ⟨s.fund, U'⟩ := ⟨ignoreMarket hperm h.tokens hbid hnone, h.clock, h.fees⟩
    refine ⟨fun r hr => ?_, fun _ _ => hinv⟩
    exfalso
    cases exist with
    | true =>
      simp only [answer, hbid] at hr
      obtain ⟨action, M', hfilter', -⟩ := onNewMarketSuccess_ok hr
      rw [hfilter] at hfilter'
      cases hfilter'
    | false =>
      simp only [answer, hbid] at hr
      obtain ⟨db', hdb', -⟩ := map_ok hr
      obtain ⟨filtered, hfiltered, -⟩ := bind_ok hdb'
      obtain ⟨action, hpending, -⟩ := filterPendingNewMarkets_ok hfiltered
      rw [hfilter] at hpending
      cases hpending
  | ok x =>
    obtain ⟨action, M'⟩ := x
    obtain ⟨hM, htoken⟩ := filterPending_ok hfilter
    have hmem : action ∈ s.fund.pendingNewMarkets := hM.mem_iff.2 mem_cons_self
    have hquotes := h.tokens.quoteTokens action hmem
    have htime : s.fund.dexTimestamp ≠ 0 := h.clock (ne_nil_of_mem hmem)
    have hnone : s.fund.tokenInfos.get? request.token = none := by
      cases hget : s.fund.tokenInfos.get? request.token with
      | none => rfl
      | some info => exact absurd htoken ((h.tokens.recorded _ info hget).1 action hmem)
    cases exist with
    | true =>
      set param := request.answer true decimals owner with hparam
      have hcallback : methodGetTokenInfoCallback A s.fund reader param = onNewMarketGetTokenInfoSuccess A s.fund reader param := by
        simp [methodGetTokenInfoCallback, hparam, answer, hbid]
      rw [hcallback]
      refine ⟨fun r hr => ?_, fun e he => ?_⟩
      · obtain ⟨action', M₁, hfilter', hkept⟩ := onNewMarketSuccess_ok hr
        obtain ⟨rfl, rfl⟩ := Prod.mk.inj (ok.inj (hfilter.symm.trans hfilter'))
        rw [answeredDb_eq] at hkept
        have hbefore : Inv ⟨{ s.fund with
            viteOwnerInitiated := (newTokenInfoFromCallback s.fund param).1.viteOwnerInitiated
            tokenInfos := s.fund.tokenInfos.set param.tokenId (newTokenInfoFromCallback s.fund param).2
            pendingNewMarkets := M' }, U'⟩ :=
          ⟨answerMarket hperm h.tokens get?_set_or hbid hM htoken, fun _ => htime, h.fees⟩
        exact ⟨hbefore.kept hkept, recordsKept_new param.tokenId hkept.tokenInfos hnone⟩
      · have htotal : ∃ r, onNewMarketGetTokenInfoSuccess A s.fund reader param = .ok r :=
          onNewMarketSuccess_total hfilter hquotes h.fees htime
        obtain ⟨r, hr⟩ := htotal
        rw [hr] at he
        cases he
    | false =>
      have hfiltered := filterPendingNewMarkets_found hfilter hquotes
      have hcallback : methodGetTokenInfoCallback A s.fund reader (request.answer false decimals owner) =
          .ok (action.quoteTokens.foldl (dropPending request.token) { s.fund with pendingNewMarkets := M' }, []) := by
        simp [methodGetTokenInfoCallback, answer, hbid, onNewMarketGetTokenInfoFailed, hfiltered, Except.map,
          bind, Except.bind]
      rw [hcallback]
      refine ⟨fun r hr => ?_, fun e he => nomatch he⟩
      obtain rfl := ok.inj hr
      have hbefore : Inv ⟨{ s.fund with pendingNewMarkets := M' }, U'⟩ :=
        ⟨answerMarket hperm h.tokens (fun t info hget => .inr ⟨info, hget⟩) hbid hM htoken, fun _ => htime, h.fees⟩
      have hkept : TokensKept { s.fund with pendingNewMarkets := M' }
          (action.quoteTokens.foldl (dropPending request.token) { s.fund with pendingNewMarkets := M' }) := by
        generalize ({ s.fund with pendingNewMarkets := M' } : FundDb) = db
        induction action.quoteTokens generalizing db with
        | nil => exact .refl _
        | cons token tokens ih => exact (dropPending_kept token).trans (ih _)
      exact ⟨hbefore.kept hkept, recordsKept_of_eq hkept.tokenInfos⟩

theorem Inv.answer_setQuote (hbid : request.bid = .setQuote) : ∃ r,
    methodGetTokenInfoCallback A s.fund reader (request.answer exist decimals owner) = .ok r ∧
      Inv ⟨r.1, U'⟩ ∧ RecordsKept s a ⟨r.1, U'⟩ := by
  have hwaits : request.token ∈ s.fund.pendingSetQuotes.map SetQuoteTokenAction.token := by
    rw [h.tokens.setQuotes.mem_iff]
    exact mem_map_of_mem ((filter_self hperm hbid).mem_iff.2 mem_cons_self)
  obtain ⟨x, Q', hfilter, hQ, hx⟩ := filterPending_found hwaits
  have hfiltered : filterPendingSetQuotes s.fund request.token = .ok ({ s.fund with pendingSetQuotes := Q' }, x) := by
    rw [filterPendingSetQuotes, hfilter]
    rfl
  have hnone : s.fund.tokenInfos.get? request.token = none := no_record hperm h.tokens (by simp [hbid])
  cases exist with
  | false =>
    refine ⟨({ s.fund with pendingSetQuotes := Q' }, []), ?_, ⟨?_, h.clock, h.fees⟩, recordsKept_of_eq rfl⟩
    · simp [methodGetTokenInfoCallback, answer, hbid, hfiltered, Except.map]
    · exact answerQuote hperm h.tokens (fun t info hget => .inr ⟨info, hget⟩) hbid hQ hx
  | true =>
    set param := request.answer true decimals owner with hparam
    set answered := newTokenInfoFromCallback { s.fund with pendingSetQuotes := Q' } param with hanswered
    set new : TokenInfo := { answered.2 with quoteTokenType := some x.quoteTokenType }
    have hdb : saveTokenInfo answered.1 request.token new = _ := saveTokenInfo_answered _ param request.token new
    refine ⟨(saveTokenInfo answered.1 request.token new, []), ?_, ?_, recordsKept_new request.token (by rw [hdb]) hnone⟩
    · have hcallback : methodGetTokenInfoCallback A s.fund reader param = (onSetQuoteGetTokenInfoSuccess s.fund param).map (·, []) := by
        simp [methodGetTokenInfoCallback, hparam, answer, hbid]
      have hf : filterPendingSetQuotes s.fund param.tokenId = _ := hfiltered
      rw [hcallback, onSetQuoteGetTokenInfoSuccess, hf]
      rfl
    · rw [hdb]
      exact ⟨answerQuote hperm h.tokens get?_set_or hbid hQ hx, h.clock, h.fees⟩

theorem Inv.answer_transfer (hbid : request.bid = .transferOwner)
    (hmay : exist = true → mayTransfer s.fund (request.answer exist decimals owner) request.sender = true) : ∃ r,
    methodGetTokenInfoCallback A s.fund reader (request.answer exist decimals owner) = .ok r ∧
      Inv ⟨r.1, U'⟩ ∧ RecordsKept s a ⟨r.1, U'⟩ ∧
      (exist = true → (r.1.tokenInfos.get? request.token).map TokenInfo.owner = some request.newOwner) := by
  have hwaits : request.transfer ∈ s.fund.pendingTransferTokenOwners := by
    rw [h.tokens.transfers.mem_iff]
    exact mem_map_of_mem ((filter_self hperm hbid).mem_iff.2 mem_cons_self)
  obtain ⟨x, X', hfilter, hX, hx⟩ := filterPending_found (mem_map_of_mem hwaits)
  have hxr : x = request.transfer := transfer_eq hperm h.tokens hbid (hX.mem_iff.2 mem_cons_self) hx
  have hfiltered : filterPendingTransferTokenOwners s.fund request.token =
      .ok ({ s.fund with pendingTransferTokenOwners := X' }, request.transfer) := by
    rw [← hxr]
    change (filterPending TransferTokenOwnerAction.token s.fund.pendingTransferTokenOwners request.transfer.token >>= _) = _
    rw [hfilter]
    rfl
  have hnone : s.fund.tokenInfos.get? request.token = none := no_record hperm h.tokens (by simp [hbid])
  cases exist with
  | false =>
    refine ⟨({ s.fund with pendingTransferTokenOwners := X' }, []), ?_, ⟨?_, h.clock, h.fees⟩, recordsKept_of_eq rfl,
      fun he => nomatch he⟩
    · simp [methodGetTokenInfoCallback, answer, hbid, hfiltered, Except.map]
    · exact answerTransfer hperm h.tokens (fun t info hget => .inr ⟨info, hget⟩) hbid hX hx
  | true =>
    set param := request.answer true decimals owner with hparam
    set answered := newTokenInfoFromCallback { s.fund with pendingTransferTokenOwners := X' } param with hanswered
    set new : TokenInfo := { answered.2 with owner := request.newOwner } with hnew
    have hdb : saveTokenInfo answered.1 request.token new = _ := saveTokenInfo_answered _ param request.token new
    have hmay' : mayTransfer { s.fund with pendingTransferTokenOwners := X' } param request.sender = true := hmay rfl
    refine ⟨(saveTokenInfo answered.1 request.token new, []), ?_, ?_, recordsKept_new request.token (by rw [hdb]) hnone, fun _ => ?_⟩
    · have hcallback : methodGetTokenInfoCallback A s.fund reader param =
          (onTransferOwnerGetTokenInfoSuccess s.fund param).map (·, []) := by
        simp [methodGetTokenInfoCallback, hparam, answer, hbid]
      have hsuccess : onTransferOwnerGetTokenInfoSuccess s.fund param = .ok (saveTokenInfo answered.1 request.token new) := by
        have hf : filterPendingTransferTokenOwners s.fund param.tokenId = _ := hfiltered
        rw [onTransferOwnerGetTokenInfoSuccess, hf]
        exact if_pos hmay'
      rw [hcallback, hsuccess]
      rfl
    · rw [hdb]
      exact ⟨answerTransfer hperm h.tokens get?_set_or hbid hX hx, h.clock, h.fees⟩
    · rw [hdb]
      simp [hnew]

end Callback

theorem underWay_perm {i : ℕ} (hi : s.underWay[i]? = some request) : s.underWay.Perm (request :: s.underWay.eraseIdx i) := by
  obtain ⟨hlt, hget⟩ := List.getElem?_eq_some_iff.1 hi
  have hperm := getElem_cons_eraseIdx_perm hlt
  rw [hget] at hperm
  exact hperm.symm

theorem Inv.answer (h : Inv s) {i : ℕ} (hproper : s.Proper (.answer i exist decimals owner)) :
    Keeps A reader s (.answer i exist decimals owner) := by
  simp only [Keeps, step]
  cases hi : s.underWay[i]? with
  | none => exact ⟨h, recordsKept_of_eq rfl⟩
  | some request =>
    have hperm := underWay_perm hi
    dsimp only
    cases hbid : request.bid with
    | newMarket =>
      obtain ⟨hok, herror⟩ := h.answer_newMarket hperm hbid
      cases hr : methodGetTokenInfoCallback A s.fund reader (request.answer exist decimals owner) with
      | ok r => exact hok r hr
      | error e => exact ⟨herror e hr, recordsKept_of_eq rfl⟩
    | setQuote =>
      obtain ⟨r, hr, hinv, hkept⟩ := h.answer_setQuote hperm hbid
      rw [hr]
      exact ⟨hinv, hkept⟩
    | transferOwner =>
      obtain ⟨r, hr, hinv, hkept, -⟩ := h.answer_transfer hperm hbid (hproper request hi hbid)
      rw [hr]
      exact ⟨hinv, hkept⟩

theorem Inv.step (h : Inv s) (hproper : s.Proper a) : Keeps A reader s a := by
  cases a with
  | openNewMarket sender param => exact h.openNewMarket hproper
  | newQuoteToken sender token quoteTokenType => exact h.newQuoteToken hproper
  | transferTokenOwnership sender token newOwner => exact h.transferTokenOwnership hproper
  | answer i exist decimals owner => exact h.answer hproper

theorem Inv.run (h : Inv s) {actions : List TokenAction} (hproper : ProperRun A reader s actions) :
    Inv (s.run A reader actions) := by
  induction actions generalizing s with
  | nil => exact h
  | cons a actions ih => exact ih (h.step hproper.1).1 hproper.2

theorem Fresh.inv (h : s.Fresh) : Inv s := by
  refine ⟨?_, fun hne => absurd h.newMarkets hne, h.fees⟩
  rw [h.newMarkets, h.setQuotes, h.transfers, h.underWay]
  refine ⟨.nil, ?_, by simp, by simp, by simp, .nil, .nil⟩
  intro token info _
  simp

theorem Inv.noneStuck (h : Inv s) : NoneStuck s := by
  have hempty : ∀ {bid : GetTokenFor}, (∀ r ∈ s.underWay, r.bid ≠ bid) → s.underWay.filter (fun r => r.bid = bid) = [] := by
    intro bid hbid
    rw [filter_eq_nil_iff]
    intro r hr
    simpa using hbid r hr
  refine ⟨fun hbid => ?_, fun hbid => ?_, fun hbid => ?_⟩
  · rw [eq_nil_iff_forall_not_mem]
    intro action haction
    obtain ⟨r, hr, -, hnew⟩ := h.tokens.waiting action haction
    exact hbid r hr hnew
  · have hperm := h.tokens.setQuotes
    rw [hempty hbid] at hperm
    exact map_eq_nil_iff.1 hperm.eq_nil
  · have hperm := h.tokens.transfers
    rw [hempty hbid] at hperm
    exact hperm.eq_nil

theorem Inv.transfersSucceed (h : Inv s) : TransfersSucceed A reader s := by
  refine ⟨fun token info newOwner hget => ?_, fun i r decimals holder hi hbid hholder => ?_⟩
  · have hmethod : methodTransferTokenOwnership s.fund info.owner token newOwner =
        .ok (saveTokenInfo s.fund token { info with owner := newOwner }, []) := by
      rw [methodTransferTokenOwnership, hget]
      exact if_pos rfl
    simp only [TokenDesk.step, hmethod, requested, saveTokenInfo, get?_set_self, Option.map_some]
  · have hmay : true = true → mayTransfer s.fund (r.answer true decimals holder) r.sender = true := fun _ => by
      simpa [mayTransfer, TokenRequest.answer, and_assoc] using hholder
    have hanswer : ∃ res, methodGetTokenInfoCallback A s.fund reader (r.answer true decimals holder) = .ok res
        ∧ (res.1.tokenInfos.get? r.token).map TokenInfo.owner = some r.newOwner :=
      (h.answer_transfer (a := .answer i true decimals holder) (underWay_perm hi) hbid hmay).imp
        fun res hres => ⟨hres.1, hres.2.2.2 rfl⟩
    obtain ⟨res, hres, howner⟩ := hanswer
    simp only [TokenDesk.step, hi, hres]
    exact howner

end TokenDesk

/-- In a run whose requests wait alone for their tokens every record survives each step, nothing waits once
its answers are in, and a transfer of the owner is carried out. -/
theorem token_records_survive {A : Arith} {reader : ConsensusReader} {s : TokenDesk} {actions : List TokenAction}
    (hfresh : s.Fresh) (hproper : s.ProperRun A reader actions) :
    (∀ a, (s.run A reader actions).Proper a →
      TokenDesk.RecordsKept (s.run A reader actions) a ((s.run A reader actions).step A reader a))
      ∧ (s.run A reader actions).NoneStuck ∧ (s.run A reader actions).TransfersSucceed A reader := by
  have hinv := hfresh.inv.run hproper
  exact ⟨fun a ha => (hinv.step ha).2, hinv.noneStuck, hinv.transfersSucceed⟩

section Sample

/-- Token 7 is a quote token; tokens 8 and 9 have no record. -/
def sampleTokens : TokenDesk where
  fund :=
    { heightPoint := ⟨12⟩
      dexTimestamp := 1600000000
      tokenInfos := Store.empty.set 7 { decimals := 18, owner := 3, quoteTokenType := some .vite } }

theorem sampleTokens_fresh : sampleTokens.Fresh := ⟨rfl, rfl, rfl, rfl, fun h => absurd h (by decide)⟩

/-- User 1 transfers token 8 to user 2, and the asset contract names user 1 as its owner. -/
def sampleTransfer : List TokenAction := [.transferTokenOwnership 1 8 2, .answer 0 true 18 1]

theorem token_records_survive_transfer : (sampleTokens.run goArith (.daily 0) sampleTransfer).NoneStuck
    ∧ ((sampleTokens.run goArith (.daily 0) sampleTransfer).fund.tokenInfos.get? 8).map owner = some 2 := by
  have hproper : sampleTokens.ProperRun goArith (.daily 0) sampleTransfer := by
    refine ⟨fun _ r hr => ?_, fun r hr _ _ => ?_, trivial⟩
    · cases hr
    · obtain rfl : r = ⟨8, .transferOwner, 1, 2⟩ := (Option.some.inj hr).symm
      rfl
  exact ⟨(token_records_survive sampleTokens_fresh hproper).2.1, by decide +kernel⟩

/-- The administrator makes token 8 a quote token while user 1 opens a market of it; both wait. -/
def sampleOverlap : List TokenAction :=
  [.newQuoteToken initOwner 8 3, .openNewMarket 1 ⟨8, 7⟩, .answer 0 true 18 1]

/-- The answer for the market builds the record anew and the token is no quote token any more. -/
theorem token_records_overwritten : sampleTokens.Fresh ∧
    ¬TokenDesk.RecordsKept (sampleTokens.run goArith (.daily 0) sampleOverlap) (.answer 0 true 18 1)
      ((sampleTokens.run goArith (.daily 0) sampleOverlap).step goArith (.daily 0) (.answer 0 true 18 1)) := by
  refine ⟨sampleTokens_fresh, fun h => ?_⟩
  obtain ⟨info', hget, htype, -⟩ := h 8 { decimals := 18, owner := 1, quoteTokenType := some .btc } (by decide +kernel)
  have hnone : (((sampleTokens.run goArith (.daily 0) sampleOverlap).step goArith (.daily 0)
      (.answer 0 true 18 1)).fund.tokenInfos.get? 8).map quoteTokenType = some none := by decide +kernel
  rw [hget, Option.map_some, htype .btc rfl] at hnone
  cases hnone

end Sample

end GoVite.Dex
