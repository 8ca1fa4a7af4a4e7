import Mathlib.Data.Nat.Digits.Lemmas
import Phoenixcoin.Analysis.Migrating
import Phoenixcoin.Program.RecordKeys

/-!
# Records that LMDB does not take

LMDB takes keys of up to 511 bytes. Names of accounts and watch-only scripts stand in the keys of
records, and they can be longer. A record with such a key is written with Berkeley DB and refused
by LMDB, and one of them in `wallet.dat` makes the migration fail.
-/

set_option autoImplicit false

namespace Phoenixcoin.Analysis

open Lib Lib.Crash Lib.KeyValue Program List WalletRecordKey CLMDBTransaction
open Program.StoreProg

/-! ## The lengths of keys -/

theorem length_write_string (str : List UInt8) :
    (stringCodec.write str).length = getSizeOfCompactSize str.length + str.length := by
  rw [← length_WriteCompactSize]
  exact length_append

theorem length_write_ucharVector (vch : List UInt8) :
    (ucharVector.write vch).length = getSizeOfCompactSize vch.length + vch.length := by
  rw [← length_WriteCompactSize]
  exact length_append

/-- 25 bytes are below `58 ^ 35`, and they have at most 25 zeros in front. -/
theorem length_EncodeBase58 {vch : valtype} (h : vch.length = 25) :
    (EncodeBase58 vch).length ≤ 60 := by
  have hdigits : (Nat.digits 58 (ofLittleEndian vch.reverse)).length ≤ 35 := by
    have hlt := ofLittleEndian_lt vch.reverse
    rw [length_reverse, h] at hlt
    apply (Nat.digits_length_le_iff (by decide) _).mpr
    exact hlt.trans (by norm_num)
  have hzeros := (List.takeWhile_prefix (· = 0) (l := vch)).length_le
  unfold EncodeBase58
  simp only [length_reverse, length_append, length_map]
  omega

theorem length_addressText (C : KeyCrypto) (fTestNet : Bool) (address : CTxDestination) :
    (addressText C fTestNet address).length ≤ 60 := by
  cases address <;>
  · apply length_EncodeBase58
    simp

/-- The names and scripts that leave the key short enough for LMDB. -/
def KeyFits : WalletRecordKey → Prop
  | .watch dest => dest.length ≤ 502
  | .acc strAccount => strAccount.length ≤ 504
  | .acentry strAccount _ => strAccount.length ≤ 492
  | _ => True

theorem length_strType (key : WalletRecordKey) :
    2 ≤ key.strType.toUTF8.toList.length ∧ key.strType.toUTF8.toList.length ≤ 12 := by
  cases key <;> (simp only [strType]; with_unfolding_all decide)

section

variable (C : KeyCrypto) (fTestNet : Bool)
include C fTestNet

theorem length_argument {key : WalletRecordKey}
    (hwatch : ∀ dest, key ≠ .watch dest) (hacc : ∀ strAccount, key ≠ .acc strAccount)
    (hacentry : ∀ strAccount n, key ≠ .acentry strAccount n) :
    (key.argument C fTestNet).length ≤ 100 := by
  cases key with
  | name address =>
    have h := length_addressText C fTestNet address
    simp only [argument, length_write_string, getSizeOfCompactSize]
    split_ifs <;> omega
  | watch dest => exact absurd rfl (hwatch dest)
  | acc strAccount => exact absurd rfl (hacc strAccount)
  | acentry strAccount n => exact absurd rfl (hacentry strAccount n)
  | keymeta vchPubKey | key vchPubKey | ckey vchPubKey =>
    have h := vchPubKey.length_le
    simp only [argument, length_write_ucharVector, getSizeOfCompactSize]
    split_ifs <;> omega
  | pool nPool =>
    show (toTwosComplement 8 nPool).length ≤ 100
    rw [toTwosComplement, length_toLittleEndian]
    decide
  | addrIncoming =>
    simp only [argument]
    decide
  | _ => simp [argument]

variable (key : WalletRecordKey)

theorem length_bytes : (key.bytes C fTestNet).length =
      1 + key.strType.toUTF8.toList.length + (key.argument C fTestNet).length := by
  have htype := length_strType key
  rw [bytes, length_append, length_write_string, getSizeOfCompactSize,
    if_pos (by omega)]

theorem length_bytes_le_iff : (key.bytes C fTestNet).length ≤ mdbMaxKeySize ↔ KeyFits key := by
  have htype := length_strType key
  rw [length_bytes, mdbMaxKeySize]
  by_cases hnamed : (∃ dest, key = .watch dest) ∨ (∃ strAccount, key = .acc strAccount) ∨
      ∃ strAccount n, key = .acentry strAccount n
  · have hwatch : "watch".toUTF8.toList.length = 5 := by with_unfolding_all decide
    have hacc : "acc".toUTF8.toList.length = 3 := by with_unfolding_all decide
    have hacentry : "acentry".toUTF8.toList.length = 7 := by with_unfolding_all decide
    rcases hnamed with ⟨dest, rfl⟩ | ⟨strAccount, rfl⟩ | ⟨strAccount, n, rfl⟩
    · simp only [strType, argument, hwatch,
        length_write_ucharVector, getSizeOfCompactSize, KeyFits]
      split_ifs <;> omega
    · simp only [strType, argument, hacc, length_write_string,
        getSizeOfCompactSize, KeyFits]
      split_ifs <;> omega
    · simp only [strType, argument, hacentry, length_append,
        length_write_string, length_toLittleEndian, getSizeOfCompactSize, KeyFits]
      split_ifs <;> omega
  · rw [not_or, not_or] at hnamed
    have hshort := length_argument C fTestNet
      (fun dest h => hnamed.1 ⟨dest, h⟩) (fun strAccount h => hnamed.2.1 ⟨strAccount, h⟩)
      fun strAccount n h => hnamed.2.2 ⟨strAccount, n, h⟩
    have hfits : KeyFits key := by
      cases key with
      | watch dest => exact absurd ⟨dest, rfl⟩ hnamed.1
      | acc strAccount => exact absurd ⟨strAccount, rfl⟩ hnamed.2.1
      | acentry strAccount n => exact absurd ⟨strAccount, n, rfl⟩ hnamed.2.2
      | _ => trivial
    exact iff_of_true (by omega) hfits

theorem canPut_iff :
    mdbPutAccepts (key.bytes C fTestNet) ↔ KeyFits key := by
  rw [← length_bytes_le_iff C fTestNet, mdbPutAccepts, Bool.and_eq_true, decide_eq_true_iff,
    decide_eq_true_iff, length_bytes]
  omega

end

/-! ## One write -/

/-- LMDB carries out every call and has room. -/
def Smooth (outcomes : ℕ → MdbOutcome) : Prop := ∀ n, outcomes n = .success

variable {outcomes : ℕ → MdbOutcome} {txn : CLMDBTransaction} {base working : DbContents}

section

variable (h : Writing txn base working) (hsmooth : Smooth outcomes)
include h hsmooth

theorem write_smooth (key : CDBKey) (value : CDBValue) (fOverwrite : Bool) :
    (txn.write outcomes key value fOverwrite).1 =
      (put lmdbRule key value fOverwrite working).isSome := by
  have htxn : txn.txn = some ⟨working, false, false⟩ := by
    rw [h.active.txn, h.notReadOnly]
  unfold write mutate
  rw [if_neg (by simp [htxn, h.notReadOnly]), mutateLoop, htxn]
  dsimp only
  rw [Mutation.call, hsmooth]
  by_cases hkey : mdbPutAccepts key
  · by_cases hexists : ¬ fOverwrite ∧ key ∈ working
    · rw [put_exists hexists]
      simp [mdbPut, hkey, hexists, Mutation.applied]
    · rw [put_applied hkey hexists]
      simp only [mdbPut, hkey, not_true_eq_false, Bool.false_eq_true, if_false]
      rw [if_neg hexists]
      simp [Mutation.applied]
  · rw [put_refused (Bool.not_eq_true _ ▸ hkey)]
    simp [mdbPut, hkey, Mutation.applied]

theorem read_write_smooth {key : CDBKey} (hkey : mdbPutAccepts key) (value : CDBValue) :
    (txn.write outcomes key value true).1 = true ∧
      Writing (txn.write outcomes key value true).2 base (working.insert key value) ∧
      (txn.write outcomes key value true).2.read key = some value := by
  have hwritten : (txn.write outcomes key value true).1 = true := by
    rw [write_smooth h hsmooth, put_applied hkey (by simp)]
    rfl
  have hafter := write_writing h outcomes key value hwritten
  refine ⟨hwritten, hafter, ?_⟩
  have hget : mdbGetAccepts key := by
    exact (Bool.and_eq_true_iff.mp hkey).1
  rw [CLMDBTransaction.read, hafter.active.txn]
  simp [mdbGet, hget]

theorem commit_smooth : (txn.commit outcomes).1 = true := by
  have htxn : txn.txn = some ⟨working, false, false⟩ := by
    rw [h.active.txn, h.notReadOnly]
  unfold CLMDBTransaction.commit CLMDBTransaction.commitRetry
  rw [htxn]
  dsimp only
  have hfirst : (txn.commitTxn outcomes ⟨working, false, false⟩).1 = .success := by
    rw [CLMDBTransaction.commitTxn, hsmooth]
    rfl
  rw [hfirst, commitLoop_of_ne (by decide)]

end

/-! ## The migration -/

/-- An operation succeeds, and LMDB carries out the calls in it. -/
def SmoothStep (c : StepOutcome) : Prop := c.ending = .success ∧ Smooth c.mdb

variable {files : StoreFiles} {crash : StoreFiles → Prop}

theorem cursorFails_smooth {post : Bool → StoreFiles → Prop} (h : post false files) :
    wp SmoothStep cursorFails post crash files := by
  have hallowed : wp (Allowed false) cursorFails post crash files := by
    apply cursorFails_wp
    · intro fails hno
      rw [hno rfl]
      exact h
    · simp
  exact wp_allowed hallowed fun c hc => Or.inr hc.1

theorem writeTxn_smooth {key : CDBKey} {value : CDBValue}
    {post : Bool × CLMDBTransaction → StoreFiles → Prop}
    (h : ∀ outcomes, Smooth outcomes → post (txn.write outcomes key value true) files) :
    wp SmoothStep (writeTxn txn key value true) post crash files := by
  refine wp_act fun c hc => ?_
  rw [hc.1]
  exact h c.mdb hc.2

/-- The copy loop goes through if and only if LMDB takes every key. -/
theorem copyWalletRecords_smooth (records : List Record) {nRecords : ℕ}
    (h : Writing txn base working) :
    wp SmoothStep (copyWalletRecords records txn nRecords) (fun copied files' => files' = files ∧
      (copied.1 = true ↔ ∀ record ∈ records, mdbPutAccepts record.1) ∧
      (copied.1 = true → Writing copied.2.1 base (insertAll records working) ∧
        copied.2.2 = nRecords + records.length)) crash files := by
  induction records generalizing txn working nRecords with
  | nil => exact wp_bind (cursorFails_smooth (wp_pure ⟨rfl, by simp, fun _ => ⟨h, rfl⟩⟩))
  | cons record records ih =>
    obtain ⟨key, value⟩ := record
    refine wp_bind (cursorFails_smooth (wp_ite (by simp) fun _ => ?_))
    refine wp_bind (writeTxn_smooth fun outcomes hsmooth => ?_)
    by_cases hkey : mdbPutAccepts key
    · obtain ⟨hwritten, hafter, hread⟩ := read_write_smooth h hsmooth hkey value
      generalize txn.write outcomes key value true = written at hwritten hafter hread
      refine wp_ite (fun hnot => absurd hnot ?_) fun _ => ?_
      · simp only [hread, not_not]
        simpa using hwritten
      · refine wp_mono (ih hafter) ?_ fun _ => id
        rintro copied files' ⟨rfl, hiff, hcopied⟩
        refine ⟨rfl, by simp [hiff, hkey], fun hok => ?_⟩
        obtain ⟨hwriting, hcount⟩ := hcopied hok
        exact ⟨hwriting, by rw [length_cons]; omega⟩
    · have hrefused : (txn.write outcomes key value true).1 = false := by
        rw [write_smooth h hsmooth, put_refused (by simpa [lmdbRule] using hkey)]
        rfl
      generalize txn.write outcomes key value true = written at hrefused
      obtain ⟨fWritten, txn'⟩ := written
      have hfalse : fWritten = false := hrefused
      subst hfalse
      refine wp_ite (fun _ => wp_pure ⟨rfl, ?_, by simp⟩) fun hnot => (hnot (by simp)).elim
      simp [hkey]

def AtRecord (it : CLMDBIterator) (i : ℕ) : Prop :=
  it.cursor = some (some i) ∧ it.valid = true ∧ it.fError = false ∧ i < it.records.length

theorem countStored_smooth (fuel : ℕ) {it : CLMDBIterator} {i nStored : ℕ} (h : AtRecord it i)
    (hfuel : it.records.length ≤ fuel + i) :
    wp SmoothStep (countStored (fuel + 1) it nStored) (fun counted files' => files' = files ∧
      counted.1.fError = false ∧ counted.2 = nStored + (it.records.length - i)) crash files := by
  induction fuel generalizing it i nStored with
  | zero => exact absurd h.2.2.2 (by omega)
  | succ fuel ih =>
    obtain ⟨hcursor, hvalid, herror, hlt⟩ := h
    refine wp_ite (fun _ => wp_bind (cursorFails_smooth ?_))
      fun hnot => absurd (by simp [CLMDBIterator.isValid, hvalid, hcursor]) hnot
    have hnext : it.next false = it.get false .next := by
      simp [CLMDBIterator.next, hcursor, hvalid]
    rw [hnext]
    by_cases hmore : i + 1 < it.records.length
    · have hget : it.get false .next =
          { it with cursor := some (some (i + 1)), valid := true } := by
        simp [CLMDBIterator.get, hcursor, CursorGet.target, hmore]
      rw [hget]
      refine wp_mono (ih ⟨rfl, rfl, herror, hmore⟩ (by dsimp only; omega)) ?_ fun _ => id
      rintro counted files' ⟨rfl, herror', hcount⟩
      exact ⟨rfl, herror', by rw [hcount]; dsimp only; omega⟩
    · have hget : it.get false .next = { it with valid := false } := by
        simp [CLMDBIterator.get, hcursor, CursorGet.target, hmore]
      rw [hget]
      refine wp_ite (by simp [CLMDBIterator.isValid]) fun _ => wp_pure ⟨rfl, herror, ?_⟩
      omega

theorem verifyCount_smooth (h : Writing txn base working) (hne : sortedRecords working ≠ []) :
    wp SmoothStep (verifyCount txn (sortedRecords working).length)
      (fun ok files' => files' = files ∧ ok = true) crash files := by
  have hpos : 0 < (sortedRecords working).length := length_pos_of_ne_nil hne
  refine wp_bind (wp_bind (cursorFails_smooth (wp_pure ?_)))
  refine wp_bind (cursorFails_smooth ?_)
  rw [h.active.txn]
  have hfirst : (CLMDBIterator.create false working).seekToFirst false =
      ⟨sortedRecords working, some (some 0), true, false⟩ := by
    simp [CLMDBIterator.create, CLMDBIterator.seekToFirst, CLMDBIterator.get, CursorGet.target,
      hpos]
  simp only [Option.elim_some, hfirst]
  refine wp_seq (countStored_smooth _ ⟨rfl, rfl, rfl, hpos⟩ (by simp)) ?_
  rintro ⟨it, nStored⟩ _ ⟨rfl, herror, hcount⟩
  dsimp only at herror hcount
  refine wp_pure ⟨rfl, ?_⟩
  simp [herror, hcount]

theorem migrateWalletToLMDB_smooth (crash : StoreFiles → Prop) {source : DbContents}
    {sizes : MapSizes}
    (hsource : files.bdbFile = some source) (hne : source ≠ ∅) (henv : files.env = some sizes)
    (hempty : files.contents = ∅) :
    wp SmoothStep migrateWalletToLMDB
      (fun ok _ => ok = true ↔ ∀ key ∈ source, mdbPutAccepts key) crash files := by
  have hkeys : (∀ record ∈ sortedRecords source, mdbPutAccepts record.1) ↔
      ∀ key ∈ source, mdbPutAccepts key := by
    constructor
    · intro h key hkey
      obtain ⟨value, hvalue⟩ := Finmap.mem_iff.mp hkey
      exact h (key, value) (mem_sortedRecords.mpr hvalue)
    · intro h record hrecord
      exact h record.1 (Finmap.mem_iff.mpr ⟨_, mem_sortedRecords.mp hrecord⟩)
  have hrecords : sortedRecords source ≠ [] := by
    obtain ⟨key, hkey⟩ := Table.exists_mem_of_ne_empty hne
    obtain ⟨value, hvalue⟩ := Finmap.mem_iff.mp hkey
    exact ne_nil_of_mem (mem_sortedRecords.mpr hvalue : (key, value) ∈ _)
  have hsuccess : ∀ c, SmoothStep c → Allowed false c := fun c hc => Or.inr hc.1
  refine wp_bind (wp_look ?_)
  rw [hsource]
  refine wp_bind (wp_allowed (call_wp ?_ (by simp) (by simp)) hsuccess)
  refine wp_bind (wp_allowed (call_wp ?_ (by simp) (by simp)) hsuccess)
  refine wp_bind (wp_allowed (beginTransaction_wp henv ?_ (by simp) (by simp)) hsuccess)
  have hwriting := beginTransaction_writing files sizes
  rw [hempty] at hwriting
  refine wp_seq (copyWalletRecords_smooth _ hwriting) ?_
  rintro ⟨fSuccess, txn, nRecords⟩ files' ⟨rfl, hiff, hcopied⟩
  rw [hkeys] at hiff
  cases fSuccess with
  | false =>
    refine wp_ite (fun hboth => absurd hboth.1 (by simp)) fun _ => wp_bind (wp_pure ?_)
    have hno : ¬ ∀ key ∈ source, mdbPutAccepts key := fun hall => by simpa using hiff.mpr hall
    refine wp_ite (fun _ => wp_pure ?_) fun _ => wp_ite (fun _ => wp_pure ?_) (by simp)
    · exact iff_of_false (by simp) hno
    · exact iff_of_false (by simp) hno
  | true =>
    obtain ⟨hafter, hcount⟩ := hcopied rfl
    have hall := hiff.mp rfl
    rw [insertAll_sortedRecords (Or.inl rfl)] at hafter
    rw [Nat.zero_add] at hcount
    subst hcount
    have hpos : 0 < (sortedRecords source).length := length_pos_of_ne_nil hrecords
    refine wp_ite (fun _ => wp_bind ?_) fun hnot => absurd ⟨rfl, hpos⟩ hnot
    refine wp_mono (verifyCount_smooth hafter hrecords) ?_ fun _ => id
    rintro ok files' ⟨rfl, rfl⟩
    refine wp_ite (fun hzero => absurd hzero hpos.ne') fun _ => wp_ite (by simp) fun _ => ?_
    refine wp_act fun c hc => ?_
    rw [hc.1]
    exact iff_of_true (commit_smooth hafter hc.2) hall

/-! ## Both engines -/

/-- A `wallet.dat`: records under keys that the wallet builds. -/
structure WalletDat (C : KeyCrypto) (fTestNet : Bool) where
  records : DbContents
  ne_empty : records ≠ ∅
  built : ∀ bytes ∈ records, ∃ key : WalletRecordKey, key.bytes C fTestNet = bytes

/-- Both engines take the same writes under a key if and only if the name or the script in it is
short enough, and a wallet migrates if and only if all its keys are. -/
theorem engines_agree_iff (C : KeyCrypto) (fTestNet : Bool) :
    (∀ key : WalletRecordKey,
      (∀ outcomes txn base working value fOverwrite, Smooth outcomes → Writing txn base working →
        (txn.write outcomes (key.bytes C fTestNet) value fOverwrite).1 =
          (bdbPut (key.bytes C fTestNet) value fOverwrite working).isSome) ↔ KeyFits key) ∧
    ∀ (wallet : WalletDat C fTestNet) (files : StoreFiles) (choices : ℕ → StepOutcome) (n : ℕ),
      files.bdbFile = some wallet.records → files.env.isSome → files.contents = ∅ →
      (∀ k, SmoothStep (choices k)) →
        ((migrateWalletToLMDB choices n files).1 = some true ↔
          ∀ key : WalletRecordKey, key.bytes C fTestNet ∈ wallet.records → KeyFits key) := by
  constructor
  · intro key
    rw [← canPut_iff C fTestNet]
    constructor
    · intro hsame
      by_contra hkey
      have hbegin := beginTransaction_writing ⟨fun _ => none, none, none, none, none, none⟩
        ⟨0, 0, false⟩
      have hwrite := hsame (fun _ => .success) _ _ _ [] true (fun _ => rfl) hbegin
      rw [write_smooth hbegin fun _ => rfl, put_refused (by simpa [lmdbRule] using hkey)] at hwrite
      simp [bdbPut] at hwrite
    · intro hkey outcomes txn base working value fOverwrite hsmooth h
      rw [write_smooth h hsmooth]
      unfold put bdbPut lmdbRule
      simp [hkey]
  · intro wallet files choices n hsource henv hempty hsmooth
    obtain ⟨sizes, hsizes⟩ := Option.isSome_iff_exists.mp henv
    have hends := migrateWalletToLMDB_smooth (fun _ => False) hsource wallet.ne_empty hsizes
      hempty choices n hsmooth
    have hkeys : (∀ bytes ∈ wallet.records, mdbPutAccepts bytes) ↔
        ∀ key : WalletRecordKey, key.bytes C fTestNet ∈ wallet.records → KeyFits key := by
      constructor
      · intro h key hkey
        exact (canPut_iff C fTestNet key).mp (h _ hkey)
      · intro h bytes hbytes
        obtain ⟨key, rfl⟩ := wallet.built bytes hbytes
        exact (canPut_iff C fTestNet key).mpr (h key hbytes)
    rw [← hkeys]
    rcases hrun : migrateWalletToLMDB choices n files with ⟨_ | ok, n', files'⟩
    · rw [hrun] at hends
      exact hends.elim
    · rw [hrun] at hends
      rw [Option.some.injEq]
      exact hends

def shortAccount : WalletRecordKey := .acc [97]

/-- A wallet with one record, of an account with a short name. -/
def shortWallet : WalletDat exampleCrypto false where
  records := Finmap.singleton (shortAccount.bytes exampleCrypto false) [1]
  ne_empty h :=
    Finmap.notMem_empty (h ▸
      (Finmap.mem_singleton (shortAccount.bytes exampleCrypto false) _ _).mpr rfl)
  built _ hbytes := ⟨shortAccount, ((Finmap.mem_singleton _ _ _).mp hbytes).symm⟩

/-- Both engines take the record with the short name, and its wallet migrates. -/
theorem engines_agree_shortAccount :
    ((beginTransaction (lmdbEnv ⟨fun _ => none, none, none, none, none, none⟩
        ⟨0, 0, false⟩) false).write (fun _ => .success) (shortAccount.bytes exampleCrypto false)
        [1] true).1 = true ∧
      (migrateWalletToLMDB (fun _ => ⟨.success, false, false, 0, ∅, fun _ => .success, 0⟩) 0
        ⟨fun _ => none, none, none, some shortWallet.records, some ⟨0, 0, false⟩, none⟩).1 =
        some true := by
  obtain ⟨hwrite, hmigrate⟩ := engines_agree_iff exampleCrypto false
  have hfits : KeyFits shortAccount := by
    show [97].length ≤ 504
    decide
  constructor
  · rw [(hwrite shortAccount).mpr hfits (fun _ => .success) _ _ _ [1] true (fun _ => rfl)
      (beginTransaction_writing _ _)]
    simp [bdbPut]
  · refine (hmigrate shortWallet _ _ 0 rfl rfl rfl fun _ => ⟨rfl, fun _ => rfl⟩).mpr ?_
    intro key hkey
    have hbytes : key.bytes exampleCrypto false = shortAccount.bytes exampleCrypto false :=
      (Finmap.mem_singleton _ _ _).mp hkey
    rw [← canPut_iff exampleCrypto false, hbytes, canPut_iff]
    exact hfits

def longAccount : WalletRecordKey := .acc (List.replicate 600 97)

theorem longAccount_refused :
    (bdbPut (longAccount.bytes exampleCrypto false) [] true ∅).isSome ∧
      ((beginTransaction (lmdbEnv ⟨fun _ => none, none, none, none, none, none⟩
        ⟨0, 0, false⟩) false).write (fun _ => .success) (longAccount.bytes exampleCrypto false) []
        true).1 = false := by
  refine ⟨by simp [bdbPut], ?_⟩
  have hlong : ¬ mdbPutAccepts (longAccount.bytes exampleCrypto false) := by
    rw [canPut_iff]
    show ¬ (List.replicate 600 97).length ≤ 504
    rw [length_replicate]
    decide
  rw [write_smooth (beginTransaction_writing _ _) fun _ => rfl,
    put_refused (by simpa [lmdbRule] using hlong)]
  rfl

end Phoenixcoin.Analysis
