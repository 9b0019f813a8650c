import GoVite.Spec.Dex.Market

/-! Requests about tokens and the asset contract, which answers each once, at any later time and in any order; an answer
that is refused is gone. -/

namespace GoVite.Dex
open KeyStore

/-- A request under way to the asset contract, with the user it comes from and, for a transfer, the new owner. -/
structure TokenRequest where
  token : TokenId
  bid : GetTokenFor
  sender : Address
  newOwner : Address := 0
  deriving DecidableEq, Repr

/-- The asset contract's answer to a request. -/
def TokenRequest.answer (request : TokenRequest) (exist : Bool) (decimals : ℤ) (owner : Address) :
    ParamGetTokenInfoCallback :=
  ⟨request.token, request.bid, exist, decimals, owner⟩

structure TokenDesk where
  fund : FundDb
  underWay : List TokenRequest := []

inductive TokenAction
  | openNewMarket (sender : Address) (param : ParamOpenNewMarket)
  | newQuoteToken (sender : Address) (token : TokenId) (quoteTokenType : ℕ)
  | transferTokenOwnership (sender : Address) (token : TokenId) (newOwner : Address)
  | answer (i : ℕ) (exist : Bool) (decimals : ℤ) (owner : Address)
  deriving DecidableEq, Repr

namespace TokenDesk

def requestsOf (sender newOwner : Address) : List MarketCall → List TokenRequest
  | [] => []
  | .getTokenInfo token bid :: calls => ⟨token, bid, sender, newOwner⟩ :: requestsOf sender newOwner calls
  | .syncNewMarket _ :: calls => requestsOf sender newOwner calls
  | .burn _ :: calls => requestsOf sender newOwner calls

def requested (s : TokenDesk) (sender newOwner : Address) (res : Except DexError (FundDb × List MarketCall)) : TokenDesk :=
  match res with
  | .ok r => ⟨r.1, s.underWay ++ requestsOf sender newOwner r.2⟩
  | .error _ => s

def step (A : Arith) (reader : ConsensusReader) (s : TokenDesk) : TokenAction → TokenDesk
  | .openNewMarket sender param => s.requested sender 0 (methodOpenNewMarket A s.fund reader sender param)
  | .newQuoteToken sender token quoteTokenType => s.requested sender 0 (methodNewQuoteToken s.fund sender token quoteTokenType)
  | .transferTokenOwnership sender token newOwner =>
    s.requested sender newOwner (methodTransferTokenOwnership s.fund sender token newOwner)
  | .answer i exist decimals owner =>
    match s.underWay[i]? with
    | none => s
    | some request =>
      match methodGetTokenInfoCallback A s.fund reader (request.answer exist decimals owner) with
      | .ok r => ⟨r.1, s.underWay.eraseIdx i⟩
      | .error _ => ⟨s.fund, s.underWay.eraseIdx i⟩

def run (A : Arith) (reader : ConsensusReader) (s : TokenDesk) (actions : List TokenAction) : TokenDesk :=
  actions.foldl (step A reader) s

end TokenDesk
end GoVite.Dex
