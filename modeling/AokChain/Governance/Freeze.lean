import AokChain.Script.Standard
import AokChain.Consensus.ConnectProperties

/-!
# Frozen scripts and frozen addresses

The governance freezes a script, and `CheckTxInputs` looks up the script of
each spent coin exactly.  The RPCs speak of addresses: `checkfreeze` asks about
the script `GetScriptForDestination` gives an address, `freezelist` names each
frozen script by `ExtractDestination`.  A freeze stops the coins of its own
script and leaves every other spend as it was, while the scripts that
`ExtractDestination` maps to one address are many: the pay-to-key script of
the key, token scripts and time-locked scripts paying the address.
-/

namespace AokChain
open Serial

section FreezeFixtures

/-- A compressed public key. -/
def stakeKey : Bytes := 2 :: List.replicate 32 5

def keyAddress : CTxDestination := .keyID (Crypto.truncating.hash160 stakeKey)

/-- The governance after the freeze of the key's address. -/
def addressFrozen : CGovernance := (CGovernance.empty.freezeScript (getScriptForDestination keyAddress)).2

def keyOut : COutPoint := ⟨31, 0⟩

def keyHashOut : COutPoint := ⟨32, 0⟩

def lockedOut : COutPoint := ⟨33, 0⟩

def keyTokenOut : COutPoint := ⟨34, 0⟩

/-- Coins of 10 COIN paying the address in four script forms: to the key, to
its hash, to its hash after a lock time, and a token transfer to its hash. -/
def addressView : CCoinsMap :=
  viewOf [(keyOut, Coin.make ⟨10 * COIN, payToPubKey stakeKey⟩ 871000 false false 0),
    (keyHashOut, Coin.make ⟨10 * COIN, getScriptForDestination keyAddress⟩ 871000 false false 0),
    (lockedOut, Coin.make ⟨10 * COIN, payToPubKeyHashLocked 871000 (Crypto.truncating.hash160 stakeKey)⟩
      871000 false false 0),
    (keyTokenOut, Coin.make ⟨0, CTokenTransfer.constructTransaction ⟨[65, 66, 67], 1, 0⟩
      (getScriptForDestination keyAddress)⟩ 871000 false false 0)]

def spendOf (prevout : COutPoint) : CTransaction := spendTx [prevout] [⟨0, stakerScript⟩]

end FreezeFixtures

section CanSend

variable (params : ConsensusParams) (tx : CTransaction) (inputs : CCoinsMap) (nSpendHeight : Int)

/-- The input loop passes only coins the governance lets move. -/
theorem checkInputsFrom_canSend {governance : CGovernance} :
    ∀ {nValueIn : CAmount} {vin : List CTxIn} {nValueIn' : CAmount},
      checkInputsFrom params governance tx inputs nSpendHeight nValueIn vin = .ok nValueIn' →
        ∀ txin ∈ vin, governance.canSend (inputs.accessCoin txin.prevout).out.scriptPubKey = true
  | _, [], _, _ => by simp
  | _, txin :: _, _, h => by
    obtain ⟨hsend, -, -, hrest⟩ := checkInputsFrom_cons_eq_ok params governance h
    intro txin' hmem
    rcases List.mem_cons.mp hmem with rfl | hmem
    · exact hsend
    · exact checkInputsFrom_canSend hrest txin' hmem

/-- `CheckTxInputs` refuses every spend of a coin of a frozen script. -/
theorem checkTxInputs_frozen {governance : CGovernance} {script : CScript}
    (hfrozen : governance.canSend script = false)
    (hspent : ∃ txin ∈ tx.vin, (inputs.accessCoin txin.prevout).out.scriptPubKey = script) (txfee : CAmount) :
    checkTxInputs params governance tx inputs nSpendHeight ≠ .ok txfee := by
  intro h
  unfold checkTxInputs at h
  obtain ⟨_, -, h⟩ := Except.bind_eq_ok.mp h
  obtain ⟨_, hloop, -⟩ := Except.bind_eq_ok.mp h
  obtain ⟨txin, hmem, hscript⟩ := hspent
  have hsend := checkInputsFrom_canSend params tx inputs nSpendHeight hloop txin hmem
  rw [hscript, hfrozen] at hsend
  exact Bool.false_ne_true hsend

/-- The input loop reads the governance only through `CanSend` of the spent
scripts. -/
theorem checkInputsFrom_congr {governance governance' : CGovernance} :
    ∀ (nValueIn : CAmount) (vin : List CTxIn),
      (∀ txin ∈ vin, governance.canSend (inputs.accessCoin txin.prevout).out.scriptPubKey =
        governance'.canSend (inputs.accessCoin txin.prevout).out.scriptPubKey) →
      checkInputsFrom params governance tx inputs nSpendHeight nValueIn vin =
        checkInputsFrom params governance' tx inputs nSpendHeight nValueIn vin
  | _, [], _ => rfl
  | nValueIn, txin :: vin, h => by
    have hrest := checkInputsFrom_congr (nValueIn + (inputs.accessCoin txin.prevout).out.nValue) vin
      fun txin' hmem => h txin' (List.mem_cons_of_mem _ hmem)
    simp only [checkInputsFrom, h txin List.mem_cons_self, hrest]

/-- Freezing a script leaves every spend of coins of other scripts as it was. -/
theorem checkTxInputs_freezeScript_other {governance : CGovernance} {script : CScript}
    (hother : ∀ txin ∈ tx.vin, (inputs.accessCoin txin.prevout).out.scriptPubKey ≠ script) :
    checkTxInputs params (governance.freezeScript script).2 tx inputs nSpendHeight =
      checkTxInputs params governance tx inputs nSpendHeight := by
  have hloop := checkInputsFrom_congr params tx inputs nSpendHeight 0 tx.vin
    fun txin hmem => CGovernance.canSend_freezeScript_ne governance (hother txin hmem)
  simp only [checkTxInputs, hloop]

end CanSend

/-- Freezing the address of a key, as `checkfreeze` reads it, leaves the
spends of the key's pay-to-key coins as they were, though `ExtractDestination`
maps their script to that address. -/
theorem freezeAddress_misses_payToPubKey (C : Crypto) (params : ConsensusParams) (governance : CGovernance)
    {pubkey : Bytes} (hlen : pubkey.length = 33) (hvalid : pubKeyIsValid pubkey = true)
    (htoken : byteAt pubkey 24 ≠ OP_TOKEN_SCRIPT) {tx : CTransaction} {inputs : CCoinsMap}
    (hspent : ∀ txin ∈ tx.vin, (inputs.accessCoin txin.prevout).out.scriptPubKey = payToPubKey pubkey)
    (nSpendHeight : Int) :
    extractDestination C (payToPubKey pubkey) = some (.keyID (C.hash160 pubkey)) ∧
      checkTxInputs params (governance.freezeScript (getScriptForDestination (.keyID (C.hash160 pubkey)))).2
          tx inputs nSpendHeight =
        checkTxInputs params governance tx inputs nSpendHeight := by
  refine ⟨extractDestination_payToPubKey C hlen hvalid htoken, ?_⟩
  -- the two scripts differ in length: a 33-byte push against a 20-byte one
  have hne : payToPubKey pubkey ≠ payToPubKeyHash (C.hash160 pubkey) := by
    intro h
    have hl := congrArg List.length h
    simp [payToPubKey, payToPubKeyHash, pushData, hlen, C.hash160_length, OP_PUSHDATA1] at hl
  apply checkTxInputs_freezeScript_other
  intro txin hmem
  rw [hspent txin hmem]
  exact hne

/-- With the key's address frozen, the coins to the key, to its hash after a
lock time and of a token to its hash all pass `CheckTxInputs`, though each
pays the frozen address; only the coin of the address's own script is refused. -/
theorem frozenAddress_coins_spend :
    (addressFrozen.canSend (getScriptForDestination keyAddress) = false ∧
      extractDestination Crypto.truncating (payToPubKey stakeKey) = some keyAddress ∧
        checkTxInputs mainConsensus addressFrozen (spendOf keyOut) addressView 871600 =
          checkTxInputs mainConsensus CGovernance.empty (spendOf keyOut) addressView 871600) ∧
      (checkTxInputs mainConsensus addressFrozen (spendOf keyOut) addressView 871600).toBool = true ∧
      (extractDestination Crypto.truncating (addressView.accessCoin lockedOut).out.scriptPubKey = some keyAddress ∧
        (checkTxInputs mainConsensus addressFrozen (spendOf lockedOut) addressView 871600).toBool = true) ∧
      (extractDestination Crypto.truncating (addressView.accessCoin keyTokenOut).out.scriptPubKey =
          some keyAddress ∧
        (checkTxInputs mainConsensus addressFrozen (spendOf keyTokenOut) addressView 871600).toBool = true) ∧
      rejectReason (checkTxInputs mainConsensus addressFrozen (spendOf keyHashOut) addressView 871600) =
        some "bad-txns-address-frozen" :=
  ⟨⟨by decide, freezeAddress_misses_payToPubKey Crypto.truncating mainConsensus CGovernance.empty
      (by decide) (by decide) (by decide) (by decide) 871600⟩,
    by decide, ⟨by decide, by decide⟩, ⟨by decide, by decide⟩,
    by decide⟩

end AokChain
