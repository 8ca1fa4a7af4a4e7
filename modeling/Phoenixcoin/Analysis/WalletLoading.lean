import Phoenixcoin.Program.WalletLoad

/-!
# Which transactions a loaded wallet holds

A transaction record whose value is decoded without an exception leaves a checked and bound
transaction in `mapWallet`, or no entry at all. One whose decoder throws leaves an entry that is
not bound. So the entry of a hash is sound exactly if the last record of this hash does not
throw.
-/

set_option autoImplicit false

namespace Phoenixcoin.Analysis

open Lib Program List Option WalletLoadEnv CWalletTxRecord

variable {σ : Type} {E : WalletLoadEnv σ}

/-- An entry of `mapWallet` that is what its key says, passes `CheckTransaction` and is bound. -/
def SoundTx (E : WalletLoadEnv σ) (hash : uint256) (wtx : CWalletTx) : Prop :=
  E.GetHash wtx.toCTransaction = hash ∧ wtx.checkTransaction = true ∧ wtx.fBound = true

/-- The hash of a transaction record, `none` for a record of another type. -/
def txKey (record : DbRecord) : Option uint256 :=
  match unserialize stringCodec (.ofBytes record.1) with
  | none => none
  | some (strType, ssKey) =>
    if strType = strTx then (unserialize uint256Codec ssKey).map Prod.fst else none

def ValueThrows (record : DbRecord) : Prop :=
  unserialize codec (.ofBytes record.2) = none

/-! ## One record -/

variable {ssValue : CDataStream} {state : LoadState σ}

theorem upgradeTx_toCTransaction {wtx wtx' : CWalletTx} {fUpgrade : Bool}
    (h : upgradeTx wtx ssValue = some (wtx', fUpgrade)) :
    wtx'.toCTransaction = wtx.toCTransaction ∧ wtx'.fBound = wtx.fBound := by
  unfold upgradeTx at h
  split at h
  · split at h
    · split at h
      · cases h
      · cases h
        exact ⟨rfl, rfl⟩
    · cases h
      exact ⟨rfl, rfl⟩
  · cases h
    exact ⟨rfl, rfl⟩

/-- What `readTx` makes of the entry of the record's hash. -/
inductive ReadTxEntry (E : WalletLoadEnv σ) (hash : uint256) (ssValue : CDataStream)
    (state state' : LoadState σ) : Prop where
  | thrown (wtx : CWalletTx) (hthrow : unserialize codec ssValue = none)
      (hmap : state'.mapWallet = state.mapWallet.insert hash { wtx with fBound := false })
  | loaded (wtx : CWalletTx) (hdecode : unserialize codec ssValue ≠ none)
      (hsound : SoundTx E hash wtx) (hmap : state'.mapWallet = state.mapWallet.insert hash wtx)
  | erased (hdecode : unserialize codec ssValue ≠ none)
      (hmap : state'.mapWallet = state.mapWallet.erase hash)

theorem readTx_entry {state : LoadState σ} {ssKey ssKey' ssValue : CDataStream} {hash : uint256}
    (hkey : unserialize uint256Codec ssKey = some (hash, ssKey')) :
    ReadTxEntry E hash ssValue state (E.readTx state ssKey ssValue).2 := by
  rw [readTx, hkey]
  cases hvalue : unserialize codec ssValue with
  | none => exact .thrown _ hvalue rfl
  | some r =>
    obtain ⟨record, ssValue'⟩ := r
    have hdecode : unserialize codec ssValue ≠ none := by
      rw [hvalue]
      exact some_ne_none _
    dsimp only
    split
    · next hcheck =>
      have hsound : SoundTx E hash { CWalletTx.ofRecord record with fBound := true } :=
        ⟨hcheck.2, hcheck.1, rfl⟩
      split
      · exact .loaded _ hdecode hsound rfl
      · next wtx fUpgrade hupgrade =>
        obtain ⟨htx, hbound⟩ := upgradeTx_toCTransaction hupgrade
        refine .loaded wtx hdecode ⟨?_, ?_, hbound⟩ rfl
        · rw [htx]
          exact hcheck.2
        · rw [htx]
          exact hcheck.1
    · exact .erased hdecode rfl

/-- A record changes `mapWallet` at most at its own hash. -/
theorem loadRecord_cases (state : LoadState σ) (record : DbRecord) :
    (txKey record = none ∧ (E.loadRecord state record).mapWallet = state.mapWallet) ∨
      ∃ hash, txKey record = some hash ∧
        ReadTxEntry E hash (.ofBytes record.2) state (E.loadRecord state record) := by
  have hmap : (E.loadRecord state record).mapWallet =
      (E.ReadKeyValue state (.ofBytes record.1) (.ofBytes record.2)).2.2.mapWallet := by
    unfold loadRecord
    dsimp only
    split
    · rfl
    · split <;> rfl
  unfold ReadKeyValue at hmap
  unfold txKey
  cases htype : unserialize stringCodec (.ofBytes record.1) with
  | none =>
    rw [htype] at hmap
    exact Or.inl ⟨rfl, hmap⟩
  | some r =>
    obtain ⟨strType, ssKey⟩ := r
    rw [htype] at hmap
    dsimp only at hmap ⊢
    by_cases htx : strType = strTx
    · rw [if_pos htx] at hmap
      rw [if_pos htx]
      dsimp only at hmap
      cases hkey : unserialize uint256Codec ssKey with
      | none =>
        refine Or.inl ⟨rfl, ?_⟩
        rw [hmap]
        rw [readTx, hkey]
      | some q =>
        obtain ⟨hash, ssKey'⟩ := q
        have hentry := @readTx_entry σ E state _ _ (.ofBytes record.2) _ hkey
        refine Or.inr ⟨hash, rfl, ?_⟩
        cases hentry with
        | thrown wtx hthrow h =>
          rw [h] at hmap
          exact .thrown wtx hthrow hmap
        | loaded wtx hdecode hsound h =>
          rw [h] at hmap
          exact .loaded wtx hdecode hsound hmap
        | erased hdecode h =>
          rw [h] at hmap
          exact .erased hdecode hmap
    · rw [if_neg htx] at hmap
      rw [if_neg htx]
      exact Or.inl ⟨rfl, hmap⟩

def SoundAt (E : WalletLoadEnv σ) (mapWallet : MapWallet) (hash : uint256) : Prop :=
  ∀ wtx, mapWallet[hash]? = some wtx → SoundTx E hash wtx

theorem ReadTxEntry.soundAt_iff {hash : uint256} {state' : LoadState σ}
    (h : ReadTxEntry E hash ssValue state state') :
    SoundAt E state'.mapWallet hash ↔ unserialize codec ssValue ≠ none := by
  unfold SoundAt
  cases h with
  | thrown wtx hthrow hmap =>
    rw [hmap, Std.TreeMap.getElem?_insert_self]
    constructor
    · intro hsound
      have hbound := (hsound _ rfl).2.2
      simp at hbound
    · exact fun hdecode => absurd hthrow hdecode
  | loaded wtx hdecode hsound hmap =>
    rw [hmap, Std.TreeMap.getElem?_insert_self]
    constructor
    · exact fun _ => hdecode
    · rintro - _ ⟨⟩
      exact hsound
  | erased hdecode hmap =>
    rw [hmap, Std.TreeMap.getElem?_erase_self]
    exact ⟨fun _ => hdecode, fun _ _ h => by cases h⟩

theorem ReadTxEntry.getElem?_of_ne {hash hash' : uint256} {ssValue : CDataStream}
    {state state' : LoadState σ} (h : ReadTxEntry E hash ssValue state state')
    (hne : hash ≠ hash') : state'.mapWallet[hash']? = state.mapWallet[hash']? := by
  have hcompare : compare hash hash' ≠ .eq := fun h => hne (Std.compare_eq_iff_eq.mp h)
  cases h with
  | thrown wtx hthrow hmap => rw [hmap, Std.TreeMap.getElem?_insert, if_neg hcompare]
  | loaded wtx hdecode hsound hmap => rw [hmap, Std.TreeMap.getElem?_insert, if_neg hcompare]
  | erased hdecode hmap => rw [hmap, Std.TreeMap.getElem?_erase, if_neg hcompare]

/-! ## All records -/

variable (records : List DbRecord)

def LastDecodes (hash : uint256) : Prop :=
  ∀ record ∈ (records.filter fun record => txKey record = some hash).getLast?, ¬ ValueThrows record

theorem lastDecodes_concat {records : List DbRecord} {record : DbRecord} {hash : uint256} :
    LastDecodes (records ++ [record]) hash ↔
      if txKey record = some hash then ¬ ValueThrows record else LastDecodes records hash := by
  unfold LastDecodes
  rw [filter_append]
  by_cases h : txKey record = some hash
  · rw [if_pos h, filter_cons_of_pos (by simpa using h), filter_nil]
    simp
  · rw [if_neg h, filter_cons_of_neg (by simpa using h), filter_nil, append_nil]

theorem foldl_loadRecord_soundAt (state : LoadState σ) (hash : uint256)
    (hstart : SoundAt E state.mapWallet hash) :
    SoundAt E (records.foldl E.loadRecord state).mapWallet hash ↔ LastDecodes records hash := by
  induction records using List.reverseRecOn with
  | nil =>
    constructor
    · intro _ record h
      simp at h
    · exact fun _ => hstart
  | append_singleton records record ih =>
    rw [foldl_append, foldl_cons, foldl_nil, lastDecodes_concat]
    generalize records.foldl E.loadRecord state = next at ih ⊢
    rcases @loadRecord_cases σ E next record with ⟨hkey, hmap⟩ | ⟨hash', hkey, hentry⟩
    · rw [hmap, hkey]
      exact ih
    · by_cases heq : hash' = hash
      · subst heq
        rw [if_pos hkey]
        exact hentry.soundAt_iff
      · rw [if_neg (by rw [hkey]; simpa using heq), ← ih]
        unfold SoundAt
        rw [hentry.getElem?_of_ne heq]

/-! ## After the scan -/

def NoRecordFailed (state : LoadState σ) : Prop :=
  state.result = .DB_LOAD_OK ∧ state.fNoncriticalErrors = false

def UpgradesPresent (state : LoadState σ) : Prop :=
  ∀ hash ∈ state.vWalletUpgrade, hash ∈ state.mapWallet

theorem readTx_upgradesPresent {ssKey : CDataStream} (hstate : UpgradesPresent state)
    (hok : (E.readTx state ssKey ssValue).1 = true) :
    UpgradesPresent (E.readTx state ssKey ssValue).2 := by
  unfold readTx at hok ⊢
  cases hkey : unserialize uint256Codec ssKey with
  | none => simp [hkey] at hok
  | some q =>
    obtain ⟨hash, ssKey'⟩ := q
    rw [hkey] at hok
    cases hvalue : unserialize codec ssValue with
    | none => simp [hvalue] at hok
    | some r =>
      obtain ⟨record, ssValue'⟩ := r
      rw [hvalue] at hok
      dsimp only at hok ⊢
      by_cases hcheck : record.checkTransaction ∧ E.GetHash record.toCTransaction = hash
      · rw [if_pos hcheck] at hok ⊢
        generalize { CWalletTx.ofRecord record with fBound := true } = wtx at hok ⊢
        cases hupgrade : upgradeTx wtx ssValue' with
        | none => simp [hupgrade] at hok
        | some u =>
          obtain ⟨wtx', fUpgrade⟩ := u
          intro hash' hmem
          rw [Std.TreeMap.mem_insert]
          have hcases : hash' ∈ state.vWalletUpgrade ∨ hash' = hash := by
            change hash' ∈ (if fUpgrade then state.vWalletUpgrade ++ [hash]
              else state.vWalletUpgrade) at hmem
            split at hmem
            · simpa using hmem
            · exact Or.inl hmem
          rcases hcases with hold | rfl
          · exact Or.inr (hstate hash' hold)
          · exact Or.inl Std.ReflCmp.compare_self
      · rw [if_neg hcheck] at hok
        simp at hok

theorem readTx_flags (state : LoadState σ) (ssKey ssValue : CDataStream) :
    (E.readTx state ssKey ssValue).2.result = state.result ∧
      (E.readTx state ssKey ssValue).2.fNoncriticalErrors = state.fNoncriticalErrors := by
  unfold readTx
  split
  · exact ⟨rfl, rfl⟩
  · split
    · exact ⟨rfl, rfl⟩
    · split
      · dsimp only
        split <;> exact ⟨rfl, rfl⟩
      · exact ⟨rfl, rfl⟩

theorem loadRecord_upgradesPresent {record : DbRecord}
    (hstate : NoRecordFailed state → UpgradesPresent state) :
    NoRecordFailed (E.loadRecord state record) → UpgradesPresent (E.loadRecord state record) := by
  intro hnext
  have hok : (E.ReadKeyValue state (.ofBytes record.1) (.ofBytes record.2)).1 = true := by
    by_contra hfail
    rw [loadRecord, NoRecordFailed, if_neg hfail] at hnext
    split at hnext
    · simp at hnext
    · simp at hnext
  have heq : E.loadRecord state record =
      (E.ReadKeyValue state (.ofBytes record.1) (.ofBytes record.2)).2.2 := by
    rw [loadRecord, if_pos hok]
  rw [heq] at hnext ⊢
  unfold ReadKeyValue at hok hnext ⊢
  cases htype : unserialize stringCodec (.ofBytes record.1) with
  | none => simp [htype] at hok
  | some r =>
    obtain ⟨strType, ssKey⟩ := r
    rw [htype] at hok hnext
    dsimp only at hok hnext ⊢
    by_cases htx : strType = strTx
    · rw [if_pos htx] at hok hnext ⊢
      dsimp only at hok hnext ⊢
      obtain ⟨hresult, herrors⟩ := @readTx_flags σ E state ssKey (.ofBytes record.2)
      obtain ⟨hresult', herrors'⟩ := hnext
      rw [hresult] at hresult'
      rw [herrors] at herrors'
      exact readTx_upgradesPresent (hstate ⟨hresult', herrors'⟩) hok
    · rw [if_neg htx] at hnext ⊢
      exact hstate hnext

theorem foldl_loadRecord_upgradesPresent (state : LoadState σ)
    (hstate : NoRecordFailed state → UpgradesPresent state) :
    NoRecordFailed (records.foldl E.loadRecord state) →
      UpgradesPresent (records.foldl E.loadRecord state) := by
  induction records generalizing state with
  | nil => exact hstate
  | cons record records ih => exact ih _ (loadRecord_upgradesPresent hstate)

theorem foldl_insertIfNew {hashes : List uint256} {mapWallet : MapWallet}
    (h : ∀ hash ∈ hashes, hash ∈ mapWallet) (hash' : uint256) :
    (hashes.foldl (fun mapWallet hash => mapWallet.insertIfNew hash CWalletTx.null)
      mapWallet)[hash']? = mapWallet[hash']? := by
  induction hashes generalizing mapWallet with
  | nil => rfl
  | cons hash hashes ih =>
    have hmem := h hash mem_cons_self
    rw [foldl_cons, ih]
    · rw [Std.TreeMap.getElem?_insertIfNew, if_neg (fun hnew => hnew.2 hmem)]
    · intro k hk
      rw [Std.TreeMap.mem_insertIfNew]
      exact Or.inr (h k (mem_cons_of_mem _ hk))

theorem finishLoad_soundAt (h : UpgradesPresent state) (hash : uint256) :
    SoundAt E (E.finishLoad state).2.mapWallet hash ↔ SoundAt E state.mapWallet hash := by
  unfold finishLoad
  split
  · unfold SoundAt
    rw [Std.TreeMap.getElem?_map, foldl_insertIfNew h]
    cases state.mapWallet[hash]? with
    | none => simp
    | some wtx =>
      simp only [map_some, Option.some.injEq, forall_eq']
      exact Iff.rfl
  · unfold SoundAt
    rw [foldl_insertIfNew h]

/-! ## The loaded wallet -/

/-- The records that `LoadWallet` gets to see. -/
def scannedRecords (db : WalletDatabase) : List DbRecord :=
  if db.nMinVersion.any fun nMinVersion => nMinVersion > CLIENT_VERSION.1 then []
  else (db.scan.map Prod.fst).getD []

/-- All entries of the loaded wallet are sound exactly if the last record of every transaction
that the scan delivers decodes without an exception. -/
theorem loadWallet_sound_iff (E : WalletLoadEnv σ) (db : WalletDatabase) (other : σ) :
    (∀ hash wtx, (E.LoadWallet db other).2.mapWallet[hash]? = some wtx → SoundTx E hash wtx) ↔
      ∀ hash, LastDecodes (scannedRecords db) hash := by
  have hempty : ∀ hash, SoundAt E ∅ hash := by
    intro hash wtx h
    cases h
  have hnil : ∀ hash, LastDecodes [] hash := by
    intro hash record h
    simp at h
  show (∀ hash, SoundAt E (E.LoadWallet db other).2.mapWallet hash) ↔ _
  apply forall_congr'
  intro hash
  unfold LoadWallet scannedRecords
  split
  · exact ⟨fun _ => hnil hash, fun _ => hempty hash⟩
  · cases hscan : db.scan with
    | none => exact ⟨fun _ => hnil hash, fun _ => hempty hash⟩
    | some r =>
      obtain ⟨records, scanEnd⟩ := r
      dsimp only [map_some, getD_some]
      have hrun := @foldl_loadRecord_soundAt σ E records
        ⟨∅, [], false, other, .DB_LOAD_OK, false⟩ hash (hempty hash)
      have hupgrades := @foldl_loadRecord_upgradesPresent σ E records
        ⟨∅, [], false, other, .DB_LOAD_OK, false⟩ (fun _ hash h => by cases h)
      generalize records.foldl E.loadRecord _ = state at hrun hupgrades ⊢
      by_cases hresult : scanResult state scanEnd ≠ .DB_LOAD_OK
      · rw [if_pos hresult]
        exact hrun
      · rw [if_neg hresult, finishLoad_soundAt (hupgrades ?_) hash]
        · exact hrun
        · rw [scanResult, not_not] at hresult
          split at hresult
          · cases hresult
          · split at hresult
            · cases hresult
            · next hflags =>
              refine ⟨hresult, ?_⟩
              by_contra herrors
              exact hflags ⟨Bool.eq_true_of_not_eq_false herrors, hresult⟩

/-- A digest for sample records, and a decoder that leaves what it was given. -/
def sampleLoadEnv : WalletLoadEnv Unit where
  Hash _ := 0
  partialTx wtx _ := wtx
  readOther _ _ _ fAnyUnordered other := (true, fAnyUnordered, other)
  orderPos _ _ := 0
  reorderResult := .DB_LOAD_OK

/-- A record of the transaction with hash 0 whose count of inputs is larger than `MAX_SIZE`. -/
def oversizedRecord : DbRecord :=
  (0x02 :: strTx ++ List.replicate 32 0, [1, 0, 0, 0, 0xFE, 0xFF, 0xFF, 0xFF, 0xFF])

/-- The wallet is loaded with the entry that the failing decoder left behind. -/
theorem loadWallet_unsound : ¬ ∀ hash wtx, (sampleLoadEnv.LoadWallet
      ⟨none, some ([oversizedRecord], .finished)⟩ ()).2.mapWallet[hash]? = some wtx →
        SoundTx sampleLoadEnv hash wtx := by
  intro h
  have hentry : (sampleLoadEnv.LoadWallet ⟨none, some ([oversizedRecord], .finished)⟩
      ()).2.mapWallet[(0 : uint256)]? = some CWalletTx.null := by with_unfolding_all decide
  have hbound : CWalletTx.null.fBound = true := (h 0 _ hentry).2.2
  cases hbound

end Phoenixcoin.Analysis
