import Phoenixcoin.Program.CoinBaseHeight

/-!
# What the height in the coinbase decides

`AcceptBlock` compares as many bytes as the height needs, but the script may end before. It does so
only where the whole script is a beginning of the height; a script of two bytes, which
`CheckTransaction` lets pass, can be one from height 128 on.

`GetBlockHeight` reads the length and the bytes of a pushed number and knows no opcodes, so the
heights that have one are unknown to it. These are heights of Scrypt blocks, and so is none.
-/

set_option autoImplicit false

namespace Phoenixcoin.Analysis

open Program List

/-! ## The comparison -/

/-- From position `i` on the comparison is one with the rest of the script, as long as the script
does not end before the height. -/
theorem stdEqual_inside (beyond : ℕ → UInt8) (script : CScript) (i : ℕ) (expect : CScript)
    (h : ¬ (script.drop i <+: expect ∧ script.drop i ≠ expect)) :
    (∀ k ∈ (stdEqual (byteAt beyond script) i expect).1, k < script.length) ∧
      ((stdEqual (byteAt beyond script) i expect).2 = true ↔ expect <+: script.drop i) := by
  induction expect generalizing i with
  | nil => simp [stdEqual]
  | cons b expect ih =>
    have hlt : i < script.length := by
      by_contra hge
      apply h
      rw [drop_eq_nil_of_le (not_lt.mp hge)]
      simp
    have hread : byteAt beyond script i = script[i] := by
      simp [byteAt, getD_eq_getElem?_getD, hlt]
    rw [drop_eq_getElem_cons hlt] at h ⊢
    unfold stdEqual
    by_cases hbyte : b = script[i]
    · have hrest := ih (i + 1) (by
        rintro ⟨hbegin, hne⟩
        rw [hbyte] at h
        apply h
        exact ⟨cons_prefix_cons.mpr ⟨rfl, hbegin⟩, fun heq => hne (List.cons.inj heq).2⟩)
      rw [hread, if_pos hbyte]
      simp only [mem_cons, forall_eq_or_imp, hbyte, cons_prefix_cons, true_and]
      exact ⟨⟨hlt, hrest.1⟩, hrest.2⟩
    · rw [hread, cons_prefix_cons]
      simpa [hbyte] using hlt

/-- Where the rest of the script is a proper beginning of the height, its end is passed. -/
theorem stdEqual_beyond (beyond : ℕ → UInt8) (script : CScript) (i : ℕ) (expect : CScript)
    (hi : i ≤ script.length) (h : script.drop i <+: expect) (hne : script.drop i ≠ expect) :
    script.length ∈ (stdEqual (byteAt beyond script) i expect).1 := by
  induction expect generalizing i with
  | nil => exact absurd (prefix_nil.mp h) hne
  | cons b expect ih =>
    unfold stdEqual
    rcases Nat.eq_or_lt_of_le hi with rfl | hlt
    · split <;> simp
    · have hread : byteAt beyond script i = script[i] := by
        simp [byteAt, getD_eq_getElem?_getD, hlt]
      rw [drop_eq_getElem_cons hlt] at h hne
      obtain ⟨hbyte, hrest⟩ := cons_prefix_cons.mp h
      have hmem := ih (i + 1) hlt hrest (fun heq => hne (by rw [hbyte, heq]))
      rw [hread, if_pos hbyte.symm]
      exact mem_cons_of_mem _ hmem

namespace ShortCoinBase

/-- A coinbase with a script of two bytes. -/
def coinBase : CTransaction :=
  { vin := [⟨⟨0, uintMax⟩, [2, 200], uintMax⟩], vout := [⟨50 * COIN, []⟩] }

def block : CBlock where
  nVersion := 2
  hashPrevBlock := 0
  hashMerkleRoot := 0
  nTime := nSwitchV2 + 1
  nBits := 0
  nNonce := 0
  vtx := [coinBase]

end ShortCoinBase

/-! ## The proof-of-work profile -/

variable {n h : ℕ} {suffix : CScript}

theorem lt_mpiSize (h : n ≠ 0) : n < 256 ^ mpiSize n := by
  have hlog : n < 2 ^ (n.log2 + 1) := Nat.lt_log2_self
  have hpow : 2 ^ (n.log2 + 1) ≤ 2 ^ (8 * mpiSize n) := by
    apply Nat.pow_le_pow_right (by decide)
    rw [mpiSize, if_neg h]
    omega
  rw [show (256 : ℕ) = 2 ^ 8 by rfl, ← pow_mul]
  omega

theorem mpiSize_le_three (h : n < 2 ^ 23) : mpiSize n ≤ 3 := by
  unfold mpiSize
  split_ifs with hzero
  · omega
  · have hlog : n.log2 < 23 := (Nat.log2_lt hzero).mpr h
    omega

theorem pushInt64_of_large (hlarge : h = 0 ∨ 17 ≤ h) (hbound : h < 2 ^ 23) :
    pushInt64 h = UInt8.ofNat (mpiSize h) :: toLittleEndian (mpiSize h) h := by
  have hsize := mpiSize_le_three hbound
  rw [pushInt64, if_neg (by omega), if_neg (by omega), Int.natAbs_natCast, getvch, pushData,
    length_toLittleEndian, if_pos (by omega)]

/-- `GetBlockHeight` by the script of the coinbase. -/
theorem getBlockHeight_eq {block : CBlock} {scount : UInt8} {bytes : valtype}
    (h : block.coinBaseScript = scount :: bytes) :
    block.GetBlockHeight =
      if scount < 4 ∧ scount.toNat ≤ bytes.length then
        (ofLittleEndian (bytes.take scount.toNat) : ℤ)
      else -1 := by
  unfold CBlock.coinBaseScript at h
  unfold CBlock.GetBlockHeight
  match hvtx : block.vtx with
  | [] => simp [hvtx] at h
  | tx :: _ =>
    match hvin : tx.vin with
    | [] => simp [hvtx, hvin] at h
    | txin :: _ =>
      have hscript : txin.scriptSig = scount :: bytes := by simpa [hvtx, hvin] using h
      simp [hvin, hscript]

theorem getBlockHeight_of_large {block : CBlock} (hlarge : h = 0 ∨ 17 ≤ h) (hbound : h < 2 ^ 23)
    (hscript : block.coinBaseScript = pushInt64 h ++ suffix) : block.GetBlockHeight = h := by
  have hsize := mpiSize_le_three hbound
  have hcount : (UInt8.ofNat (mpiSize h)).toNat = mpiSize h :=
    UInt8.toNat_ofNat_of_lt' (by simp [UInt8.size]; omega)
  rw [pushInt64_of_large hlarge hbound, cons_append] at hscript
  rw [getBlockHeight_eq hscript, if_pos, hcount, take_left' (length_toLittleEndian _ _)]
  · rcases hlarge with rfl | hlarge
    · rfl
    · rw [ofLittleEndian_toLittleEndian (lt_mpiSize (by omega))]
  · rw [UInt8.lt_iff_toNat_lt, length_append, length_toLittleEndian]
    exact ⟨by simp; omega, by omega⟩

theorem getBlockHeight_of_opcode {block : CBlock} (hsmall : 1 ≤ h ∧ h ≤ 16)
    (hscript : block.coinBaseScript = pushInt64 h ++ suffix) :
    block.GetBlockHeight = -1 := by
  have hpush : pushInt64 h = [UInt8.ofNat (h + 0x50)] := by
    rw [pushInt64, if_pos (Or.inr (by omega))]
    congr 2
  rw [hpush] at hscript
  rw [getBlockHeight_eq hscript, if_neg]
  rintro ⟨hlt, -⟩
  rw [UInt8.lt_iff_toNat_lt, UInt8.toNat_ofNat_of_lt' (by simp [UInt8.size]; omega)] at hlt
  have hfour : (4 : UInt8).toNat = 4 := rfl
  omega

/-- The miner pushes the same bytes, though it has the height as an `unsigned int`. -/
theorem incrementExtraNonce_height {env : ChainEnv} {pindexPrev : CBlockIndex}
    {state state' : MinerState} {tx : CTransaction} {txs : List CTransaction} {txin : CTxIn}
    {vin : List CTxIn} (hvtx : state.block.vtx = tx :: txs) (hvin : tx.vin = txin :: vin)
    (h : incrementExtraNonce env pindexPrev state = some state') :
    pushInt64 (pindexPrev.nHeight + 1 : ℕ) <+: state'.block.coinBaseScript := by
  obtain ⟨-, -, h⟩ := Option.bind_eq_some_iff.mp h
  cases h
  rw [CBlock.coinBaseScript, CBlock.setCoinBaseScript, hvtx, modifyHead_cons, hvin, ← pushUint64_eq]
  apply List.IsPrefix.trans (prefix_append _ _)
  exact prefix_append _ _

/-- The profile of a block whose coinbase begins with its height is that of the height, and the
height is read exactly unless it has an opcode. The miner pushes the same bytes. -/
theorem powProfile_of_height {block : CBlock} {h : ℕ} {suffix : CScript} (hbound : h < 2 ^ 23)
    (hscript : block.coinBaseScript = pushInt64 h ++ suffix) :
    (∀ fTestNet, heightProfile fTestNet block.GetBlockHeight = heightProfile fTestNet h) ∧
      (∀ fTestNet nNeoScryptOptions,
        (if fTestNet then nTestnetSwitchV2 else nSwitchV2) ≤ block.nTime →
        block.powProfile fTestNet nNeoScryptOptions =
          heightProfile fTestNet h ||| nNeoScryptOptions) ∧
      (h = 0 ∨ 17 ≤ h → block.GetBlockHeight = h) ∧
      pushUint64 h = pushInt64 h ∧
      ∀ env pindexPrev state state' tx txs txin vin, pindexPrev.nHeight + 1 = h →
        state.block.vtx = tx :: txs → tx.vin = txin :: vin →
        incrementExtraNonce env pindexPrev state = some state' →
        pushInt64 h <+: state'.block.coinBaseScript := by
  have hprofile (fTestNet : Bool) :
      heightProfile fTestNet block.GetBlockHeight = heightProfile fTestNet h := by
    by_cases hlarge : h = 0 ∨ 17 ≤ h
    · rw [getBlockHeight_of_large hlarge hbound hscript]
    · rw [getBlockHeight_of_opcode (by omega) hscript]
      unfold heightProfile nTestnetForkTwo nForkFive
      split_ifs <;> omega
  refine ⟨hprofile, ?_, fun hlarge => getBlockHeight_of_large hlarge hbound hscript,
    pushUint64_eq h, ?_⟩
  · intro fTestNet nNeoScryptOptions hswitch
    rw [CBlock.powProfile, if_neg (not_lt.mpr hswitch), hprofile]
  · intro env pindexPrev state state' tx txs txin vin hheight hvtx hvin hincrement
    rw [← hheight]
    exact incrementExtraNonce_height hvtx hvin hincrement

/-- A block of the first NeoScrypt height. -/
def forkFiveBlock : CBlock :=
  ShortCoinBase.block.setCoinBaseScript [3, 0x80, 0x1a, 6, 1, 7]

theorem powProfile_forkFiveBlock :
    (∀ fTestNet, heightProfile fTestNet forkFiveBlock.GetBlockHeight =
      heightProfile fTestNet (400000 : ℕ)) ∧
    forkFiveBlock.GetBlockHeight = (400000 : ℕ) := by
  have h := @powProfile_of_height forkFiveBlock 400000 [1, 7] (by decide) (by decide)
  exact ⟨h.1, h.2.2.1 (by decide)⟩

end Phoenixcoin.Analysis
