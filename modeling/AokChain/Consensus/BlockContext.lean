import AokChain.Consensus.ConnectProperties

/-!
# What the checks of a block read of the node

`CheckBlock` and `ContextualCheckBlock` are meant to judge a block by itself
and its ancestors.  `CheckTransaction` inside them reads the active tip through
the deployment switches (`AreTokensDeployed`, `AreTokensP2SHDeployed`,
`AreTokensIPFSDeployed`, `AreGovernanceDeployed`, each of
`chainActive.Height()`) and through the token cache `GetCurrentTokenCache`
gives its issuance checks.  With the issuance checks held fixed, contexts that
agree on the switches give every block the same verdict; the issuance checks
themselves read the context only through the IPFS switch
(`issuanceChecksOf_sameSwitches`).  Where the switches disagree, so can the
verdict, and a failure of `CheckTransaction` reaches `AcceptBlock` as one that
marks the block permanently invalid.
-/

namespace AokChain

/-- Two contexts in which the checks of a block see the same chain parameters
and deployment switches. -/
structure SameSwitches (ctx ctx' : TxContext) : Prop where
  params : ctx.params = ctx'.params
  reindex : ctx.fReindex = ctx'.fReindex
  tokens : ctx.tokensDeployed = ctx'.tokensDeployed
  tokensP2SH : ctx.tokensP2SHDeployed = ctx'.tokensP2SHDeployed
  ipfs : ctx.tokensIPFSDeployed = ctx'.tokensIPFSDeployed
  governance : ctx.governanceDeployed = ctx'.governanceDeployed

section SameSwitches

variable {ctx ctx' : TxContext}

theorem checkTokenOutput_sameSwitches (h : SameSwitches ctx ctx') (fTokenCache : Bool) (txout : CTxOut) :
    checkTokenOutput ctx fTokenCache txout = checkTokenOutput ctx' fTokenCache txout := by
  simp only [checkTokenOutput, h.tokens, h.tokensP2SH, h.reindex]

theorem checkOutputsFrom_sameSwitches (h : SameSwitches ctx ctx') (tx : CTransaction) (fTokenCache : Bool) :
    ∀ (nValueOut : CAmount) (vout : List CTxOut),
      checkOutputsFrom ctx tx fTokenCache nValueOut vout = checkOutputsFrom ctx' tx fTokenCache nValueOut vout
  | _, [] => rfl
  | nValueOut, txout :: vout => by
    simp only [checkOutputsFrom, h.governance, checkTokenOutput_sameSwitches h,
      checkOutputsFrom_sameSwitches h tx fTokenCache _ vout]

theorem checkTransaction_sameSwitches (h : SameSwitches ctx ctx') (tx : CTransaction)
    (tokenCache : Option IssuanceChecks) (fCheckDuplicateInputs : Bool) :
    checkTransaction ctx tx tokenCache fCheckDuplicateInputs =
      checkTransaction ctx' tx tokenCache fCheckDuplicateInputs := by
  simp only [checkTransaction, checkOutputsFrom_sameSwitches h, h.tokens]

/-- `AcceptBlock`'s checks of a block, given the same issuance checks, read the
tip only through the switches. -/
theorem acceptBlockChecks_sameSwitches (h : SameSwitches ctx ctx') (env : BlockEnv)
    (tokenCache : Option IssuanceChecks) (block : CBlock) (nHeight : Int) :
    acceptBlockChecks env ctx tokenCache block nHeight = acceptBlockChecks env ctx' tokenCache block nHeight := by
  simp only [acceptBlockChecks, checkBlock, checkBlockHeader, checkBlockTransactions,
    checkTransaction_sameSwitches h, h.params]

end SameSwitches

/-- A proof-of-stake block at the governance height whose coin stake pays the
owner's offline-staking script. -/
def offlineStakeBlock : CBlock :=
  fixtureBlock [posCoinbase, spendTx [kernelOut] [emptyOut, ⟨1000 * COIN, offlineScript⟩]] [1]

set_option maxRecDepth 10000 in
/-- The same block at the same height, arriving while the tip is one block
lower, is marked permanently invalid: the governance switch is still off. -/
theorem offlineStakeBlock_verdict_follows_tip :
    acceptBlockMarksInvalid (acceptingEnv acceptAll).block (tipNode 871498).tx passIssuance offlineStakeBlock
        871500 = true ∧
      rejectReason (acceptBlockChecks (acceptingEnv acceptAll).block (tipNode 871498).tx passIssuance
        offlineStakeBlock 871500) = some "offline-staking-not-enabled" ∧
      acceptBlockMarksInvalid (acceptingEnv acceptAll).block (tipNode 871499).tx passIssuance offlineStakeBlock
        871500 = false :=
  ⟨by decide, by decide, by decide⟩

end AokChain
