import Mathlib.Data.List.GetD
import Phoenixcoin.Lib.Windows
import Phoenixcoin.Program.HybridMessage

/-!
# The container of a signed message

Each reader is described by the stretch of the buffer that it takes, so `ParseHybridMessage`
accepts a buffer with some fields just when the buffer is their container. The components of a
signature have the sizes that it asks for.
-/

set_option autoImplicit false

namespace Phoenixcoin.Analysis

open Lib Program List Option

variable {buf bs vchSig : valtype} {off off' len size : ℕ} {fields : HybridMessage}

/-! ## Readers -/

theorem ReadBytes_eq_some :
    ReadBytes buf off len = some (bs, off') ↔ bs.length = len ∧ Spans buf off bs off' := by
  unfold ReadBytes
  constructor
  · intro h
    split at h
    · cases h
    · next hfits =>
      obtain ⟨rfl, rfl⟩ := Prod.mk.inj (Option.some.inj h)
      have hlength : ((buf.drop off).take len).length = len := by
        rw [length_take, length_drop]
        omega
      refine ⟨hlength, ?_, ?_, ?_⟩
      · rw [hlength]
      · omega
      · rw [hlength]
  · rintro ⟨rfl, hend, hle, htake⟩
    have hfits : ¬(bs.length > buf.length ∨ off + bs.length > buf.length) := by omega
    rw [if_neg hfits, htake, hend]

theorem length_PutU16BE (v : ℕ) : (PutU16BE v).length = 2 := rfl

theorem toNat_PutU16BE {v : ℕ} (hv : v < 2 ^ 16) :
    (UInt8.ofNat (v / 2 ^ 8)).toNat * 2 ^ 8 + (UInt8.ofNat v).toNat = v := by
  simp only [UInt8.toNat_ofNat']
  omega

theorem PutU16BE_toNat (high low : UInt8) :
    PutU16BE (high.toNat * 2 ^ 8 + low.toNat) = [high, low] := by
  have hlow := low.toNat_lt
  have hdiv : (high.toNat * 2 ^ 8 + low.toNat) / 2 ^ 8 = high.toNat := by omega
  rw [PutU16BE, hdiv]
  simp only [List.cons.injEq, and_true]
  constructor
  · exact UInt8.ofNat_toNat
  · apply UInt8.toNat_inj.mp
    rw [UInt8.toNat_ofNat']
    omega

/-- The two bytes at an offset. -/
theorem take_two (hle : off + 2 ≤ buf.length) :
    (buf.drop off).take 2 = [buf.getD off 0, buf.getD (off + 1) 0] := by
  have hfirst : off < buf.length := by omega
  have hsecond : off + 1 < buf.length := by omega
  rw [drop_eq_getElem_cons hfirst, drop_eq_getElem_cons hsecond, take_succ_cons,
    take_succ_cons, take_zero, getD_eq_getElem _ _ hfirst, getD_eq_getElem _ _ hsecond]

theorem GetU16BE_eq_some :
    GetU16BE buf off = some (len, off') ↔ len < 2 ^ 16 ∧ Spans buf off (PutU16BE len) off' := by
  unfold GetU16BE
  constructor
  · intro h
    split at h
    · cases h
    · next hfits =>
      obtain ⟨rfl, rfl⟩ := Prod.mk.inj (Option.some.inj h)
      have hhigh := (buf.getD off 0).toNat_lt
      have hlow := (buf.getD (off + 1) 0).toNat_lt
      refine ⟨by omega, rfl, by omega, ?_⟩
      rw [PutU16BE_toNat]
      exact take_two (by omega)
  · rintro ⟨hlt, hend, hle, htake⟩
    rw [length_PutU16BE] at hend htake
    have hfits : ¬off + 2 > buf.length := by omega
    rw [take_two (by omega)] at htake
    obtain ⟨hhigh, hlow⟩ : buf.getD off 0 = UInt8.ofNat (len / 2 ^ 8) ∧
        buf.getD (off + 1) 0 = UInt8.ofNat len := by simpa [PutU16BE] using htake
    rw [if_neg hfits, hhigh, hlow, toNat_PutU16BE hlt, hend]

theorem readSized_eq_some (hsize : size < 2 ^ 16) :
    readSized buf off size = some (bs, off') ↔
      bs.length = size ∧ Spans buf off (PutU16BE size ++ bs) off' := by
  unfold readSized
  simp only [bind_eq_bind, bind_eq_some_iff, Prod.exists]
  constructor
  · rintro ⟨len, mid, hlen, hread⟩
    split at hread
    · cases hread
    · next heq =>
      obtain rfl : len = size := not_not.mp heq
      obtain ⟨hlength, hbytes⟩ := ReadBytes_eq_some.mp hread
      exact ⟨hlength, (GetU16BE_eq_some.mp hlen).2.append hbytes⟩
  · rintro ⟨hlength, hspans⟩
    obtain ⟨hhead, hbytes⟩ := hspans.split
    refine ⟨size, _, GetU16BE_eq_some.mpr ⟨hsize, hhead⟩, ?_⟩
    rw [if_neg (not_not.mpr rfl)]
    exact ReadBytes_eq_some.mpr ⟨hlength, hbytes⟩

/-! ## The parser -/

/-- The sizes that the parser asks for. -/
structure WellSized (fields : HybridMessage) : Prop where
  compact : fields.vchEcdsaCompact.length = 65
  ecdsaPub : fields.vchEcdsaPub.length = ECDSA_PUBKEY_SIZE
  mldsaPub : fields.vchMldsaPub.length = ML_DSA_65_PUBKEY_SIZE
  mldsaSig : fields.vchMldsaSig.length = ML_DSA_65_SIG_SIZE - 1

theorem length_header : (HYBRID_SIG_MAGIC ++ [HYBRID_SIG_VERSION]).length = 4 + 1 := rfl

theorem spans_header :
    Spans vchSig 0 (HYBRID_SIG_MAGIC ++ [HYBRID_SIG_VERSION]) (4 + 1) ↔
      4 + 1 ≤ vchSig.length ∧ vchSig.take 4 = HYBRID_SIG_MAGIC ∧
        vchSig.getD 4 0 = HYBRID_SIG_VERSION := by
  rw [Spans, length_header, drop_zero]
  constructor
  · rintro ⟨-, hle, htake⟩
    have hlt : 4 < vchSig.length := by omega
    rw [take_add_one, getElem?_eq_getElem hlt] at htake
    obtain ⟨hmagic, hversion⟩ := append_inj' htake rfl
    refine ⟨hle, hmagic, ?_⟩
    rw [getD_eq_getElem _ _ hlt]
    simpa using hversion
  · rintro ⟨hle, hmagic, hversion⟩
    have hlt : 4 < vchSig.length := by omega
    rw [getD_eq_getElem _ _ hlt] at hversion
    refine ⟨rfl, hle, ?_⟩
    rw [take_add_one, getElem?_eq_getElem hlt, hmagic, hversion]
    rfl

theorem parseContainer_eq_some :
    parseContainer vchSig = some fields ↔ WellSized fields ∧ vchSig = fields.container := by
  have hpubSize : ML_DSA_65_PUBKEY_SIZE < 2 ^ 16 := by decide
  have hsigSize : ML_DSA_65_SIG_SIZE - 1 < 2 ^ 16 := by decide
  unfold parseContainer
  constructor
  · intro h
    split at h
    · cases h
    · next hlength =>
      split at h
      · cases h
      · next hmagic =>
        split at h
        · cases h
        · next hversion =>
          have hheader := spans_header.mpr ⟨by omega, not_not.mp hmagic, not_not.mp hversion⟩
          simp only [bind_eq_bind, bind_eq_some_iff, Prod.exists] at h
          obtain ⟨compact, off₁, hcompact, ecdsaPub, off₂, hecdsaPub, mldsaPub, off₃, hmldsaPub,
            mldsaSig, off₄, hmldsaSig, h⟩ := h
          split at h
          · cases h
          · next hend =>
            obtain rfl : off₄ = vchSig.length := not_not.mp hend
            obtain ⟨hlen₁, hspans₁⟩ := ReadBytes_eq_some.mp hcompact
            obtain ⟨hlen₂, hspans₂⟩ := ReadBytes_eq_some.mp hecdsaPub
            obtain ⟨hlen₃, hspans₃⟩ := (readSized_eq_some hpubSize).mp hmldsaPub
            obtain ⟨hlen₄, hspans₄⟩ := (readSized_eq_some hsigSize).mp hmldsaSig
            obtain rfl := Option.some.inj h
            refine ⟨⟨hlen₁, hlen₂, hlen₃, hlen₄⟩, ?_⟩
            have hall := spans_all.mp
              ((((hheader.append hspans₁).append hspans₂).append hspans₃).append hspans₄)
            unfold HybridMessage.container
            rw [hlen₃, hlen₄, append_assoc _ _ mldsaSig, append_assoc _ _ mldsaPub]
            exact hall
  · rintro ⟨hsized, heq⟩
    have hall := spans_all.mpr heq
    unfold HybridMessage.container at hall
    rw [append_assoc _ _ fields.vchMldsaSig, append_assoc _ _ fields.vchMldsaPub,
      hsized.mldsaPub, hsized.mldsaSig] at hall
    obtain ⟨hall, hmldsaSig⟩ := hall.split
    obtain ⟨hall, hmldsaPub⟩ := hall.split
    obtain ⟨hall, hecdsaPub⟩ := hall.split
    obtain ⟨hheader, hcompact⟩ := hall.split
    rw [length_header] at hheader
    obtain ⟨hlength, hmagic, hversion⟩ := spans_header.mp hheader
    rw [if_neg (by omega), if_neg (not_not.mpr hmagic), if_neg (not_not.mpr hversion)]
    simp only [bind_eq_bind, bind_eq_some_iff, Prod.exists]
    refine ⟨_, _, ReadBytes_eq_some.mpr ⟨hsized.compact, hcompact⟩,
      _, _, ReadBytes_eq_some.mpr ⟨hsized.ecdsaPub, hecdsaPub⟩,
      _, _, (readSized_eq_some hpubSize).mpr ⟨hsized.mldsaPub, hmldsaPub⟩,
      _, _, (readSized_eq_some hsigSize).mpr ⟨hsized.mldsaSig, hmldsaSig⟩, ?_⟩
    rw [if_neg (not_not.mpr rfl)]

/-! ## The signer -/

variable (C : MessageCrypto)

theorem length_SignCompact {key : CKey} {hash : uint256} (h : SignCompact C key hash = some vchSig)
    :
    vchSig.length = 65 := by
  unfold SignCompact at h
  split at h
  · cases h
  · obtain ⟨⟨recid, sig64⟩, hsign, rfl⟩ := map_eq_some_iff.mp h
    rw [length_cons, C.length_signRecoverable _ _ _ _ hsign]

theorem signedFields_sized {hk : CHybridKey} {strMessage : List UInt8}
    (h : signedFields C hk strMessage = some fields) : WellSized fields := by
  unfold signedFields at h
  split at h
  · cases h
  · simp only [bind_eq_bind, bind_eq_some_iff] at h
    obtain ⟨mldsaSigner, -, secpKey, -, compact, hcompact, mldsaSig, hmldsaSig, h⟩ := h
    split at h
    · cases h
    · next hsizes =>
      obtain ⟨hecdsaPub, hmldsaPub⟩ := not_or.mp hsizes
      obtain rfl := Option.some.inj h
      exact {
        compact := length_SignCompact C hcompact
        ecdsaPub := not_not.mp hecdsaPub
        mldsaPub := not_not.mp hmldsaPub
        mldsaSig := C.length_DigestSign _ _ _ hmldsaSig }

/-- Parsing what was signed gives the signed components, whatever is accepted is the container of
what is returned, and a rejected container leaves the outputs alone. -/
theorem ParseHybridMessage_exact :
    (∀ (hk : CHybridKey) (strMessage : List UInt8) (fields outputs : HybridMessage),
      signedFields C hk strMessage = some fields →
        ∃ vchSig, SignHybridMessage C hk strMessage = some vchSig ∧
          ParseHybridMessage vchSig outputs = (true, fields)) ∧
    (∀ (vchSig : valtype) (outputs fields : HybridMessage),
      ParseHybridMessage vchSig outputs = (true, fields) → vchSig = fields.container) ∧
    ∀ (vchSig : valtype) (outputs fields : HybridMessage),
      ParseHybridMessage vchSig outputs = (false, fields) → fields = outputs := by
  refine ⟨?_, ?_, ?_⟩
  · intro hk strMessage fields outputs h
    have hparse : parseContainer fields.container = some fields :=
      parseContainer_eq_some.mpr ⟨signedFields_sized C h, rfl⟩
    refine ⟨fields.container, ?_, ?_⟩
    · rw [SignHybridMessage, h, map_some]
    · rw [ParseHybridMessage, hparse]
  · intro vchSig outputs fields h
    unfold ParseHybridMessage at h
    split at h
    · cases h
    · next fields' hparse =>
      obtain ⟨-, rfl⟩ := Prod.mk.inj h
      exact (parseContainer_eq_some.mp hparse).2
  · intro vchSig outputs fields h
    unfold ParseHybridMessage at h
    split at h
    · exact (Prod.mk.inj h).2.symm
    · cases h

/-- Signers that meet the laws and are easy to compute. -/
def exampleSigners : MessageCrypto where
  toKeyCrypto := exampleCrypto
  signRecoverable secret _ := some (1, secret ++ secret.map fun b => b + 1) |>.filter fun sig =>
    sig.2.length = 64
  DigestSign _ msg := some ((msg ++ List.replicate 3309 0).take 3309)
  length_signRecoverable secret _ recid sig64 h := by simpa using (filter_eq_some_iff.mp h).2
  length_DigestSign _ msg sig h := by
    obtain rfl := Option.some.inj h
    rw [length_take, length_append, length_replicate]
    omega

def exampleSigningKey : CHybridKey where
  secpPriv := List.replicate 32 1
  secpPub := 2 :: List.replicate 32 1
  mldsaAlg := MLDSA_ALG
  mldsaSigner := some (List.replicate 1952 3)
  nCreateTime := 1

def noFields : HybridMessage := ⟨[], [], [], []⟩

theorem signedFields_example :
    ∃ fields, signedFields exampleSigners exampleSigningKey [0x68, 0x69] = some fields := by
  apply isSome_iff_exists.mp
  decide +kernel

theorem ParseHybridMessage_example :
    (∃ fields, ∃ vchSig,
      SignHybridMessage exampleSigners exampleSigningKey [0x68, 0x69] = some vchSig ∧
        ParseHybridMessage vchSig noFields = (true, fields) ∧ vchSig = fields.container) ∧
      ∃ outputs, ParseHybridMessage HYBRID_SIG_MAGIC noFields = (false, outputs) ∧
        outputs = noFields := by
  obtain ⟨hsigned, haccepted, hrejected⟩ := ParseHybridMessage_exact exampleSigners
  constructor
  · obtain ⟨fields, hfields⟩ := signedFields_example
    obtain ⟨vchSig, hsign, hparse⟩ := hsigned _ _ _ noFields hfields
    exact ⟨fields, vchSig, hsign, hparse, haccepted _ _ _ hparse⟩
  · exact ⟨_, rfl, hrejected HYBRID_SIG_MAGIC noFields _ rfl⟩

end Phoenixcoin.Analysis
