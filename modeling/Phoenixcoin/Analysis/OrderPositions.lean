import Phoenixcoin.Program.EntryRecords

/-!
# Order positions of old wallets

`ReorderTransactions` numbers the items without a position in the order of their times and shifts
the positions behind them. Entries of accounts with a name stay as they are, a number that a
transaction gets is not written, and a position is shifted by how many of the new numbers it reached
before the shift. The order comes out right exactly if none of this matters in any round, which is
the case if every position reaches the numbers that are given before it.
-/

set_option autoImplicit false

namespace Phoenixcoin.Analysis

open Lib Program List

/-! ## What is asked of the positions -/

/-- Two items with their new positions: the positions differ, go with the times, and lie as the old
ones did. -/
structure Ordered (x y : OrderItem × ℤ) : Prop where
  distinct : x.2 ≠ y.2
  later : x.1.nTime < y.1.nTime → x.2 < y.2
  earlier : y.1.nTime < x.1.nTime → y.2 < x.2
  kept : x.1.nOrderPos ≠ -1 → y.1.nOrderPos ≠ -1 →
    (x.1.nOrderPos < y.1.nOrderPos → x.2 < y.2) ∧ (y.1.nOrderPos < x.1.nOrderPos → y.2 < x.2)

/-- Old positions are not set, or differ and go with the times. -/
def OldPlaced (x y : OrderItem) : Prop :=
  x.nOrderPos ≠ -1 → y.nOrderPos ≠ -1 → x.nOrderPos ≠ y.nOrderPos ∧
    (x.nTime < y.nTime → x.nOrderPos < y.nOrderPos) ∧
      (y.nTime < x.nTime → y.nOrderPos < x.nOrderPos)

/-- The entries that `ListAccountCreditDebit` does not list. -/
def unlisted (w : OrderWallet) : List OrderItem :=
  w.acentries.filter fun entry =>
    match entry.id with
    | .acentry strAccount _ => ¬ strAccount = []
    | .tx _ => true

def placedItems (others : List OrderItem) (state : ReorderState) : List (OrderItem × ℤ) :=
  state.items ++ others.map fun entry => (entry, entry.nOrderPos)

/-- The positions are consistent, in memory and in the database. -/
structure Reordered (others : List OrderItem) (state : ReorderState) : Prop where
  ordered : (placedItems others state).Pairwise Ordered
  range : ∀ x ∈ placedItems others state, 0 ≤ x.2 ∧ x.2 < state.nOrderPosNext
  stored : ∀ x ∈ placedItems others state, state.db.lookup x.1.id = some x.2

/-- A wallet with its database before the call. -/
structure Reorderable (w : OrderWallet) (db : Table ItemId ℤ) : Prop where
  ids_nodup : ((w.mapWallet ++ w.acentries).map OrderItem.id).Nodup
  placed : (w.mapWallet ++ w.acentries).Pairwise OldPlaced
  stored : ∀ item ∈ w.mapWallet ++ w.acentries, db.lookup item.id = some item.nOrderPos

/-! ## One round -/

def shift (nOrderPosOffsets : List ℤ) (nOrderPos : ℤ) : ℤ :=
  (nOrderPosOffsets.filter fun nOffsetStart => nOrderPos ≥ nOffsetStart).length

def newPos (state : ReorderState) (item : OrderItem) : ℤ :=
  if item.nOrderPos = -1 then state.nOrderPosNext
  else item.nOrderPos + shift state.nOrderPosOffsets item.nOrderPos

/-- A round goes well. An item without a position is an entry, and the next number fits the entries
that are not listed. An item with a position that did not reach the number of an earlier item passes
it by the shift, and passes no entry that is not listed. -/
def RoundOk (others : List OrderItem) (state : ReorderState) (item : OrderItem) : Prop :=
  if item.nOrderPos = -1 then
    (∃ strAccount nEntryNo, item.id = .acentry strAccount nEntryNo) ∧
      ∀ entry ∈ others, state.nOrderPosNext ≠ entry.nOrderPos ∧
        (item.nTime < entry.nTime → state.nOrderPosNext < entry.nOrderPos) ∧
          (entry.nTime < item.nTime → entry.nOrderPos < state.nOrderPosNext)
  else
    0 ≤ item.nOrderPos ∧
      (∀ x ∈ state.items, x.1.nOrderPos = -1 → item.nOrderPos < x.2 →
        x.2 < newPos state item ∨ x.1.nTime = item.nTime ∧ x.2 ≠ newPos state item) ∧
      ∀ entry ∈ others, item.nOrderPos < entry.nOrderPos → newPos state item < entry.nOrderPos

theorem reorderItem_spec {writes : ItemId → Bool} {state state' : ReorderState} {item : OrderItem}
    (hnext : 0 ≤ state.nOrderPosNext) (hstored : state.db.lookup item.id = some item.nOrderPos)
    (h : reorderItem writes state item = some state') :
    state'.items = state.items ++ [(item, newPos state item)] ∧
    state'.nOrderPosNext = max state.nOrderPosNext (newPos state item + 1) ∧
    state'.nOrderPosOffsets = (if item.nOrderPos = -1 then
      state.nOrderPosOffsets ++ [state.nOrderPosNext] else state.nOrderPosOffsets) ∧
    (∀ id, id ≠ item.id → state'.db.lookup id = state.db.lookup id) ∧
    (state'.db.lookup item.id = some (newPos state item) ↔
      (item.nOrderPos = -1 → ∃ strAccount nEntryNo, item.id = .acentry strAccount nEntryNo)) := by
  unfold reorderItem at h
  by_cases hunset : item.nOrderPos = -1
  · have hnew : newPos state item = state.nOrderPosNext := if_pos hunset
    have hmax : state.nOrderPosNext + 1 = max state.nOrderPosNext (state.nOrderPosNext + 1) := by
      omega
    rw [if_pos hunset] at h
    obtain ⟨_, hnext', h⟩ := Option.bind_eq_some_iff.mp h
    cases int64_eq_some hnext'
    rw [hnew, if_pos hunset]
    dsimp only at h
    split at h
    · next hash hid =>
      cases h
      refine ⟨rfl, hmax, rfl, fun _ _ => rfl, ?_⟩
      rw [hstored, hunset, hid, Option.some.injEq]
      constructor
      · omega
      · intro hentry
        obtain ⟨_, _, heq⟩ := hentry rfl
        cases heq
    · next strAccount nEntryNo hid =>
      split_ifs at h
      cases h
      refine ⟨rfl, hmax, rfl, fun id hne => Finmap.lookup_insert_of_ne _ hne, ?_⟩
      rw [Finmap.lookup_insert]
      exact iff_of_true rfl fun _ => ⟨_, _, hid⟩
  · have hnew : newPos state item = item.nOrderPos + shift state.nOrderPosOffsets item.nOrderPos :=
      if_neg hunset
    rw [if_neg hunset] at h
    rw [if_neg hunset]
    obtain ⟨_, hpos, h⟩ := Option.bind_eq_some_iff.mp h
    cases int64_eq_some hpos
    obtain ⟨_, hend, h⟩ := Option.bind_eq_some_iff.mp h
    cases int64_eq_some hend
    split_ifs at h with hshift hwrite
    · cases h
      have hsame : newPos state item = item.nOrderPos := by
        rw [hnew, shift, hshift, add_zero]
      refine ⟨by rw [hnew]; rfl, by rw [hnew]; rfl, rfl, fun _ _ => rfl, ?_⟩
      rw [hstored, hsame]
      exact iff_of_true rfl fun heq => absurd heq hunset
    · cases h
      refine ⟨by rw [hnew]; rfl, by rw [hnew]; rfl, rfl,
        fun id hne => Finmap.lookup_insert_of_ne _ hne, ?_⟩
      rw [hnew, Finmap.lookup_insert]
      exact iff_of_true rfl fun heq => absurd heq hunset

/-! ## All rounds -/

section Rounds

variable {L others : List OrderItem}

/-- What every round finds: the items so far and the rest are the sorted items, the rest is in the
database as it was, and the numbers of the offsets are those of the items without a position. -/
structure RoundsOk (L others : List OrderItem) (state : ReorderState) (rest : List OrderItem) :
    Prop where
  whole : state.items.map Prod.fst ++ rest = L
  rest_stored : ∀ item ∈ rest ++ others, state.db.lookup item.id = some item.nOrderPos
  next_nonneg : 0 ≤ state.nOrderPosNext
  next_gt : ∀ x ∈ state.items, x.2 < state.nOrderPosNext
  offsets : state.nOrderPosOffsets = (state.items.filter fun x => x.1.nOrderPos = -1).map Prod.snd
  shifted : ∀ x ∈ state.items, x.1.nOrderPos ≠ -1 →
    x.2 = x.1.nOrderPos + shift state.nOrderPosOffsets x.1.nOrderPos

/-- The items so far are placed well among themselves and beside the other entries. -/
structure SoFar (others : List OrderItem) (state : ReorderState) : Prop where
  ordered : state.items.Pairwise Ordered
  nonneg : ∀ x ∈ state.items, 0 ≤ x.2
  beside : ∀ x ∈ state.items, ∀ entry ∈ others, Ordered x (entry, entry.nOrderPos)
  stored : ∀ x ∈ state.items, state.db.lookup x.1.id = some x.2

theorem shift_nonneg (offsets : List ℤ) (nOrderPos : ℤ) : 0 ≤ shift offsets nOrderPos :=
  Int.natCast_nonneg _

theorem shift_mono (offsets : List ℤ) {p q : ℤ} (h : p ≤ q) :
    shift offsets p ≤ shift offsets q := by
  unfold shift
  rw [Int.ofNat_le, ← countP_eq_length_filter, ← countP_eq_length_filter]
  refine countP_mono_left fun o _ ho => ?_
  simp only [decide_eq_true_eq] at ho ⊢
  omega

variable {o p : ℤ} {offsets : List ℤ} {state' : ReorderState} {writes : ItemId → Bool}

theorem shift_pos (ho : o ∈ offsets) (h : o ≤ p) : 1 ≤ shift offsets p := by
  unfold shift
  have hmem : o ∈ offsets.filter fun nOffsetStart => p ≥ nOffsetStart :=
    mem_filter.mpr ⟨ho, decide_eq_true h⟩
  have hpos := length_pos_of_mem hmem
  omega

theorem shift_append (h : p < o) : shift (offsets ++ [o]) p = shift offsets p := by
  have hnot : ¬ p ≥ o := by omega
  simp [shift, filter_append, hnot]

variable {item : OrderItem} {rest : List OrderItem} {state : ReorderState}

/-- A round keeps what every round finds. -/
theorem RoundsOk.step (hids : ((L ++ others).map OrderItem.id).Nodup)
    (hok : RoundsOk L others state (item :: rest)) (h : reorderItem writes state item = some state')
    :
    RoundsOk L others state' rest := by
  obtain ⟨hitems, hnext, hoffsets, hother, -⟩ :=
    reorderItem_spec hok.next_nonneg (hok.rest_stored item (by simp)) h
  have hnonneg := hok.next_nonneg
  refine ⟨?_, ?_, ?_, ?_, ?_, ?_⟩
  · rw [hitems, ← hok.whole]
    simp
  · intro other hmem
    have hne : other.id ≠ item.id := by
      rw [← hok.whole, append_assoc, map_append] at hids
      have hnodup := (nodup_append.mp hids).2.1
      rw [cons_append, map_cons, nodup_cons] at hnodup
      exact fun heq => hnodup.1 (heq ▸ mem_map_of_mem hmem)
    rw [hother _ hne]
    exact hok.rest_stored other (mem_cons_of_mem _ hmem)
  · omega
  · intro x hx
    rw [hitems] at hx
    rcases mem_append.mp hx with hx | hx
    · have hlt := hok.next_gt x hx
      omega
    · rw [mem_singleton.mp hx]
      omega
  · rw [hoffsets, hitems, hok.offsets]
    by_cases hunset : item.nOrderPos = -1
    · simp [hunset, newPos]
    · simp [hunset]
  · intro x hx hset
    rw [hitems] at hx
    rcases mem_append.mp hx with hx | hx
    · have hshifted := hok.shifted x hx hset
      have hlt := hok.next_gt x hx
      have hge := shift_nonneg state.nOrderPosOffsets x.1.nOrderPos
      rw [hoffsets]
      split_ifs
      · rwa [shift_append (by omega)]
      · exact hshifted
    · obtain rfl := mem_singleton.mp hx
      rw [hoffsets, if_neg hset]
      exact if_neg hset

/-- An item beside the earlier ones. -/
theorem RoundsOk.ordered_iff (hsorted : L.Pairwise fun x y => x.nTime ≤ y.nTime)
    (hplaced : L.Pairwise OldPlaced) (hok : RoundsOk L others state (item :: rest)) :
    (∀ x ∈ state.items, Ordered x (item, newPos state item)) ↔ (item.nOrderPos ≠ -1 →
      ∀ x ∈ state.items, x.1.nOrderPos = -1 → item.nOrderPos < x.2 →
        x.2 < newPos state item ∨ x.1.nTime = item.nTime ∧ x.2 ≠ newPos state item) := by
  have hbefore : ∀ x ∈ state.items, x.1.nTime ≤ item.nTime ∧ OldPlaced x.1 item := by
    intro x hx
    rw [← hok.whole] at hsorted hplaced
    exact ⟨(pairwise_append.mp hsorted).2.2 _ (mem_map_of_mem hx) _ mem_cons_self,
      (pairwise_append.mp hplaced).2.2 _ (mem_map_of_mem hx) _ mem_cons_self⟩
  constructor
  · intro hordered _ x hx hunset hlt
    obtain ⟨hdistinct, hlater, -, -⟩ := hordered x hx
    obtain ⟨htime, -⟩ := hbefore x hx
    rcases htime.lt_or_eq with hlt | heq
    · exact Or.inl (hlater hlt)
    · exact Or.inr ⟨heq, hdistinct⟩
  · intro hround x hx
    obtain ⟨htime, hold⟩ := hbefore x hx
    have hnext := hok.next_gt x hx
    unfold newPos at hround ⊢
    by_cases hset : item.nOrderPos = -1
    · rw [if_pos hset]
      refine ⟨?_, fun _ => hnext, ?_, fun _ hne => absurd hset hne⟩ <;> dsimp only <;> omega
    · by_cases hunset : x.1.nOrderPos = -1
      · have hpassed : x.2 ≤ item.nOrderPos → 1 ≤ shift state.nOrderPosOffsets item.nOrderPos := by
          refine shift_pos ?_
          rw [hok.offsets]
          exact mem_map_of_mem (mem_filter.mpr ⟨hx, decide_eq_true hunset⟩)
        have hitem := hround hset x hx hunset
        refine ⟨?_, ?_, ?_, fun hne => absurd hunset hne⟩ <;> dsimp only <;> omega
      · obtain ⟨hne, hlater, hearlier⟩ := hold hunset hset
        have hshifted := hok.shifted x hx hunset
        have hmono := @shift_mono state.nOrderPosOffsets x.1.nOrderPos item.nOrderPos
        have hmono' := @shift_mono state.nOrderPosOffsets item.nOrderPos x.1.nOrderPos
        refine ⟨?_, ?_, ?_, fun _ _ => ⟨?_, ?_⟩⟩ <;> dsimp only <;> omega

/-- An item beside an entry that is not listed. -/
theorem ordered_entry_iff {state : ReorderState} {item entry : OrderItem}
    (hplaced : OldPlaced item entry) (hentry : 0 ≤ entry.nOrderPos) :
    Ordered (item, newPos state item) (entry, entry.nOrderPos) ↔
      if item.nOrderPos = -1 then state.nOrderPosNext ≠ entry.nOrderPos ∧
        (item.nTime < entry.nTime → state.nOrderPosNext < entry.nOrderPos) ∧
          (entry.nTime < item.nTime → entry.nOrderPos < state.nOrderPosNext)
      else item.nOrderPos < entry.nOrderPos → newPos state item < entry.nOrderPos := by
  have hge := shift_nonneg state.nOrderPosOffsets item.nOrderPos
  unfold newPos
  split_ifs with hset
  · constructor
    · rintro ⟨hdistinct, hlater, hearlier, -⟩
      exact ⟨hdistinct, hlater, hearlier⟩
    · rintro ⟨hdistinct, hlater, hearlier⟩
      exact ⟨hdistinct, hlater, hearlier, fun hne => absurd hset hne⟩
  · obtain ⟨hne, hlater, hearlier⟩ := hplaced hset (by omega)
    constructor
    · rintro ⟨-, -, -, hkept⟩
      exact (hkept hset (by dsimp only; omega)).1
    · intro hround
      refine ⟨?_, ?_, ?_, fun _ _ => ⟨?_, ?_⟩⟩ <;> dsimp only <;> omega

theorem SoFar.step_iff (hids : ((L ++ others).map OrderItem.id).Nodup)
    (hsorted : L.Pairwise fun x y => x.nTime ≤ y.nTime) (hplaced : (L ++ others).Pairwise OldPlaced)
    (hothers : ∀ entry ∈ others, 0 ≤ entry.nOrderPos) (hok : RoundsOk L others state (item :: rest))
    (h : reorderItem writes state item = some state') :
    SoFar others state' ↔ SoFar others state ∧ RoundOk others state item := by
  obtain ⟨hitems, -, -, hother, hstored⟩ :=
    reorderItem_spec hok.next_nonneg (hok.rest_stored item (by simp)) h
  have hordered := hok.ordered_iff hsorted (pairwise_append.mp hplaced).1
  have hmem : item ∈ L := by
    rw [← hok.whole]
    simp
  have hbeside := forall₂_congr fun (entry : OrderItem) (hentry : entry ∈ others) =>
    @ordered_entry_iff state _ _ ((pairwise_append.mp hplaced).2.2 item hmem entry hentry)
      (hothers entry hentry)
  have hsame : ∀ x ∈ state.items, state'.db.lookup x.1.id = state.db.lookup x.1.id := by
    intro x hx
    refine hother _ fun heq => ?_
    rw [← hok.whole, append_assoc, map_append] at hids
    refine (nodup_append.mp hids).2.2 x.1.id ?_ item.id ?_ heq
    · exact mem_map_of_mem (mem_map_of_mem hx)
    · simp
  have hsofar : SoFar others state' ↔ SoFar others state ∧
      (∀ x ∈ state.items, Ordered x (item, newPos state item)) ∧ 0 ≤ newPos state item ∧
      (∀ entry ∈ others, Ordered (item, newPos state item) (entry, entry.nOrderPos)) ∧
      state'.db.lookup item.id = some (newPos state item) := by
    have hdb : (∀ x ∈ state.items, state'.db.lookup x.1.id = some x.2) ↔
        ∀ x ∈ state.items, state.db.lookup x.1.id = some x.2 :=
      forall₂_congr fun x hx => by rw [hsame x hx]
    constructor
    · rintro ⟨hall, hnonneg, hall', hstored⟩
      rw [hitems, pairwise_append] at hall
      rw [hitems] at hnonneg hall' hstored
      rw [forall_mem_append, forall_mem_singleton] at hnonneg hall' hstored
      exact ⟨⟨hall.1, hnonneg.1, hall'.1, hdb.mp hstored.1⟩,
        fun x hx => hall.2.2 x hx _ (mem_singleton_self _), hnonneg.2, hall'.2, hstored.2⟩
    · rintro ⟨⟨hall, hnonneg, hall', hstored⟩, hnew⟩
      refine ⟨?_, ?_, ?_, ?_⟩ <;> rw [hitems]
      · exact pairwise_append.mpr ⟨hall, pairwise_singleton _ _, fun x hx y hy =>
          mem_singleton.mp hy ▸ hnew.1 x hx⟩
      · exact forall_mem_append.mpr ⟨hnonneg, forall_mem_singleton.mpr hnew.2.1⟩
      · exact forall_mem_append.mpr ⟨hall', forall_mem_singleton.mpr hnew.2.2.1⟩
      · exact forall_mem_append.mpr
          ⟨hdb.mpr hstored, forall_mem_singleton.mpr hnew.2.2.2⟩
  rw [hsofar, hordered, hbeside, hstored]
  refine and_congr_right fun hgood => ?_
  unfold RoundOk
  by_cases hset : item.nOrderPos = -1
  · have hnonneg : 0 ≤ newPos state item := by
      rw [newPos, if_pos hset]
      exact hok.next_nonneg
    simp [hset, hnonneg, and_comm]
  · have hnonneg : 0 ≤ newPos state item ↔ 0 ≤ item.nOrderPos := by
      have hge := shift_nonneg state.nOrderPosOffsets item.nOrderPos
      rw [newPos]
      refine ⟨fun hnew => ?_, fun hold => by omega⟩
      by_contra hneg
      -- no offset is negative, so a negative position is not shifted
      have hnone : state.nOrderPosOffsets.filter (fun o => item.nOrderPos ≥ o) = [] := by
        rw [filter_eq_nil_iff, hok.offsets]
        intro o ho
        obtain ⟨x, hx, rfl⟩ := mem_map.mp ho
        have hx := hgood.nonneg x (mem_of_mem_filter hx)
        rw [decide_eq_true_eq]
        omega
      rw [shift, hnone] at hnew
      simp at hnew
      omega
    simp [hset, hnonneg, and_left_comm]

/-! ## The whole call -/

theorem OldPlaced.symm {x y : OrderItem} (h : OldPlaced x y) : OldPlaced y x := by
  intro hy hx
  obtain ⟨hne, hlater, hearlier⟩ := h hx hy
  exact ⟨hne.symm, hearlier, hlater⟩

end Rounds

theorem perm_txByTime (w : OrderWallet) :
    (w.txByTime ++ unlisted w).Perm (w.mapWallet ++ w.acentries) := by
  refine ((perm_insertionSort _ _).append_right _).trans ?_
  rw [append_assoc]
  refine Perm.append_left _ ?_
  have hsplit := filter_append_perm (fun entry : OrderItem => match entry.id with
    | .acentry strAccount _ => decide (strAccount = [])
    | .tx _ => false) w.acentries
  refine Perm.trans (Perm.append_left _ ?_) hsplit
  refine Perm.of_eq (filter_congr fun entry _ => ?_)
  cases entry.id <;> simp

theorem Reorderable.nodup {w : OrderWallet} {db : Table ItemId ℤ} (hw : Reorderable w db) :
    ((w.txByTime ++ unlisted w).map OrderItem.id).Nodup :=
  ((perm_txByTime w).map _).nodup_iff.mpr hw.ids_nodup

theorem Reorderable.roundsOk {w : OrderWallet} {db : Table ItemId ℤ} (hw : Reorderable w db) :
    RoundsOk w.txByTime (unlisted w) ⟨0, [], [], db⟩ w.txByTime where
  whole := rfl
  rest_stored item hitem := hw.stored item ((perm_txByTime w).mem_iff.mp hitem)
  next_nonneg := le_rfl
  next_gt := by simp
  offsets := rfl
  shifted := by simp

/-- The new positions are consistent exactly if all rounds go well and the entries that are not
listed have positions below the next one. -/
theorem reorderTransactions_iff (writes : ItemId → Bool) {w : OrderWallet} {db : Table ItemId ℤ}
    (hw : Reorderable w db) {final : ReorderState}
    (h : ReorderTransactions writes w db = some final) :
    Reordered (unlisted w) final ↔
      (∀ entry ∈ unlisted w, 0 ≤ entry.nOrderPos ∧ entry.nOrderPos < final.nOrderPosNext) ∧
      ∀ before item after, w.txByTime = before ++ item :: after →
        ∀ state, before.foldlM (reorderItem writes) ⟨0, [], [], db⟩ = some state →
          RoundOk (unlisted w) state item := by
  have hperm := perm_txByTime w
  have hids := hw.nodup
  have hplaced : (w.txByTime ++ unlisted w).Pairwise OldPlaced :=
    (hperm.pairwise_iff OldPlaced.symm).mpr hw.placed
  have hsorted : w.txByTime.Pairwise fun x y => x.nTime ≤ y.nTime :=
    pairwise_insertionSort _ _
  have hstart := hw.roundsOk
  have hempty : SoFar (unlisted w) ⟨0, [], [], db⟩ :=
    ⟨Pairwise.nil, by simp, by simp, by simp⟩
  have hend : RoundsOk w.txByTime (unlisted w) final [] :=
    foldlM_invariant (fun item rest state state' hok hround => hok.step hids hround) hstart h
  by_cases hothers : ∀ entry ∈ unlisted w, 0 ≤ entry.nOrderPos
  · have hrun := foldlM_iff (fun item rest state state' hok hround =>
      ⟨hok.step hids hround, SoFar.step_iff hids hsorted hplaced hothers hok hround⟩) hstart h
    have hpairs : ((unlisted w).map fun entry => (entry, entry.nOrderPos)).Pairwise Ordered := by
      rw [pairwise_map]
      refine (pairwise_append.mp hplaced).2.1.imp_of_mem fun hx hy hxy => ?_
      obtain ⟨hne, hlater, hearlier⟩ := hxy (by have := hothers _ hx; omega)
        (by have := hothers _ hy; omega)
      exact ⟨hne, hlater, hearlier, fun _ _ => ⟨id, id⟩⟩
    have hsofar : Reordered (unlisted w) final ↔ (∀ entry ∈ unlisted w, 0 ≤ entry.nOrderPos ∧
        entry.nOrderPos < final.nOrderPosNext) ∧ SoFar (unlisted w) final := by
      have hdb : ∀ entry ∈ unlisted w, final.db.lookup entry.id = some entry.nOrderPos :=
        fun entry hentry => hend.rest_stored entry hentry
      constructor
      · rintro ⟨hall, hrange, hstored⟩
        unfold placedItems at hall hrange hstored
        rw [pairwise_append] at hall
        rw [forall_mem_append, forall_mem_map] at hrange hstored
        exact ⟨hrange.2, hall.1, fun x hx => (hrange.1 x hx).1,
          fun x hx entry hentry => hall.2.2 x hx _ (mem_map.mpr ⟨entry, hentry, rfl⟩),
          hstored.1⟩
      · rintro ⟨hrange, hgood⟩
        refine ⟨pairwise_append.mpr ⟨hgood.ordered, hpairs, ?_⟩,
          forall_mem_append.mpr ⟨?_, forall_mem_map.mpr hrange⟩,
          forall_mem_append.mpr ⟨hgood.stored, forall_mem_map.mpr hdb⟩⟩
        · intro x hx y hy
          obtain ⟨entry, hentry, rfl⟩ := mem_map.mp hy
          exact hgood.beside x hx entry hentry
        · exact fun x hx => ⟨hgood.nonneg x hx, hend.next_gt x hx⟩
    rw [hsofar, hrun]
    exact and_congr_right fun _ => and_iff_right hempty
  · constructor
    · intro hall
      refine absurd (fun entry hentry => ?_) hothers
      exact (hall.range (entry, entry.nOrderPos)
        (mem_append_right _ (mem_map.mpr ⟨entry, hentry, rfl⟩))).1
    · exact fun hall => absurd (fun entry hentry => (hall.1 entry hentry).1) hothers

/-! ## The given items -/

/-- How many items have no position. -/
def unset (items : List OrderItem) : ℤ := (items.filter fun item => item.nOrderPos = -1).length

/-- The number behind so many items, if every item without a position shifts those that follow. -/
def numberAfter (items : List OrderItem) : ℤ :=
  items.foldl (fun n item => max n (item.nOrderPos + 1)) 0 + unset items

/-- Every position reaches the numbers that are given before it, so it is shifted by all of them.
Only entries are without a position, and the entries that are not listed lie beside all others. -/
structure PositionsReach (items others : List OrderItem) : Prop where
  entry : ∀ before item after, items = before ++ item :: after → item.nOrderPos = -1 →
    (∃ strAccount nEntryNo, item.id = .acentry strAccount nEntryNo) ∧
      ∀ entry ∈ others, numberAfter before ≠ entry.nOrderPos ∧
        (item.nTime < entry.nTime → numberAfter before < entry.nOrderPos) ∧
          (entry.nTime < item.nTime → entry.nOrderPos < numberAfter before)
  reach : ∀ before item middle item' after, items = before ++ item :: middle ++ item' :: after →
    item.nOrderPos = -1 → item'.nOrderPos ≠ -1 → numberAfter before ≤ item'.nOrderPos
  placed : ∀ before item after, items = before ++ item :: after → item.nOrderPos ≠ -1 →
    0 ≤ item.nOrderPos ∧ ∀ entry ∈ others, item.nOrderPos < entry.nOrderPos →
      item.nOrderPos + unset before < entry.nOrderPos
  others : ∀ entry ∈ others, 0 ≤ entry.nOrderPos ∧ entry.nOrderPos < numberAfter items

section Given

variable {items others before rest : List OrderItem} {item : OrderItem}
  {state state' : ReorderState}

theorem unset_append_singleton (items : List OrderItem) (item : OrderItem) :
    unset (items ++ [item]) = unset items + if item.nOrderPos = -1 then 1 else 0 := by
  unfold unset
  rw [filter_append]
  by_cases hunset : item.nOrderPos = -1
  · simp [hunset]
  · simp [hunset]

theorem numberAfter_append_singleton (items : List OrderItem) (item : OrderItem) :
    numberAfter (items ++ [item]) = if item.nOrderPos = -1 then numberAfter items + 1
      else max (numberAfter items) (item.nOrderPos + unset items + 1) := by
  have hnonneg : ∀ (l : List OrderItem) (n : ℤ), 0 ≤ n →
      0 ≤ l.foldl (fun n item => max n (item.nOrderPos + 1)) n := by
    intro l
    induction l with
    | nil => exact fun n hn => hn
    | cons y l ih => exact fun n hn => ih _ (le_max_of_le_left hn)
  have hitems := hnonneg items 0 le_rfl
  unfold numberAfter
  rw [foldl_append, unset_append_singleton]
  simp only [foldl_cons, foldl_nil]
  split_ifs <;> omega

/-- Every offset is the number of an item without a position, and the next number is known. -/
structure FullShift (items : List OrderItem) (state : ReorderState) (rest : List OrderItem) :
    Prop where
  whole : state.items.map Prod.fst ++ rest = items
  next : state.nOrderPosNext = numberAfter (state.items.map Prod.fst)
  count : (state.nOrderPosOffsets.length : ℤ) = unset (state.items.map Prod.fst)
  offsets : ∀ o ∈ state.nOrderPosOffsets, ∃ before item after,
    state.items.map Prod.fst = before ++ item :: after ∧ item.nOrderPos = -1 ∧
      o = numberAfter before

theorem FullShift.shift_eq (hreach : PositionsReach items others)
    (h : FullShift items state (item :: rest)) (hset : item.nOrderPos ≠ -1) :
    (∀ o ∈ state.nOrderPosOffsets, o ≤ item.nOrderPos) ∧
      shift state.nOrderPosOffsets item.nOrderPos = unset (state.items.map Prod.fst) := by
  have hle : ∀ o ∈ state.nOrderPosOffsets, o ≤ item.nOrderPos := by
    intro o ho
    obtain ⟨before, y, after, hsplit, hunset, rfl⟩ := h.offsets o ho
    refine hreach.reach before y after item rest ?_ hunset hset
    rw [← h.whole, hsplit]
  refine ⟨hle, ?_⟩
  rw [shift, filter_eq_self.mpr fun o ho => decide_eq_true (hle o ho), h.count]

/-- A round keeps what every round finds. -/
theorem FullShift.step {writes : ItemId → Bool} (hreach : PositionsReach items others)
    (hnext : 0 ≤ state.nOrderPosNext) (hstored : state.db.lookup item.id = some item.nOrderPos)
    (h : FullShift items state (item :: rest))
    (hround : reorderItem writes state item = some state') :
    FullShift items state' rest := by
  obtain ⟨hitems, hnext', hoffsets, -, -⟩ := reorderItem_spec hnext hstored hround
  have hmap : state'.items.map Prod.fst = state.items.map Prod.fst ++ [item] := by
    rw [hitems, map_append]
    rfl
  constructor
  · rw [hmap, ← h.whole, append_assoc]
    rfl
  · rw [hnext', hmap, numberAfter_append_singleton, newPos, ← h.next]
    split_ifs with hunset
    · omega
    · rw [(h.shift_eq hreach hunset).2]
  · rw [hoffsets, hmap, unset_append_singleton, ← h.count]
    split_ifs <;> simp
  · intro o ho
    rw [hoffsets] at ho
    rw [hmap]
    have hold (ho : o ∈ state.nOrderPosOffsets) : ∃ before y after,
        state.items.map Prod.fst ++ [item] = before ++ y :: after ∧ y.nOrderPos = -1 ∧
          o = numberAfter before := by
      obtain ⟨before, y, after, hsplit, hy⟩ := h.offsets o ho
      exact ⟨before, y, after ++ [item], by rw [hsplit, append_assoc, cons_append], hy⟩
    split_ifs at ho with hunset
    · rcases mem_append.mp ho with ho | ho
      · exact hold ho
      · refine ⟨_, item, [], rfl, hunset, ?_⟩
        rw [mem_singleton.mp ho, h.next]
    · exact hold ho

end Given

/-- The new positions are consistent if every position reaches the numbers that are given before
it. -/
theorem reorderTransactions_reordered (writes : ItemId → Bool) {w : OrderWallet}
    {db : Table ItemId ℤ} (hw : Reorderable w db)
    (hreach : PositionsReach w.txByTime (unlisted w)) {final : ReorderState}
    (h : ReorderTransactions writes w db = some final) : Reordered (unlisted w) final := by
  have hrun (before rest : List OrderItem) (hsplit : w.txByTime = before ++ rest)
      (state : ReorderState)
      (hstate : before.foldlM (reorderItem writes) ⟨0, [], [], db⟩ = some state) :
      RoundsOk w.txByTime (unlisted w) state rest ∧ FullShift w.txByTime state rest := by
    refine foldlM_invariant
      (P := fun state l => RoundsOk w.txByTime (unlisted w) state (l ++ rest) ∧
        FullShift w.txByTime state (l ++ rest)) ?_ ?_ hstate
    · intro item l state state' hboth hround
      exact ⟨hboth.1.step hw.nodup hround, hboth.2.step hreach hboth.1.next_nonneg
        (hboth.1.rest_stored item (by simp)) hround⟩
    · rw [← hsplit]
      exact ⟨hw.roundsOk, ⟨rfl, rfl, rfl, by simp⟩⟩
  rw [reorderTransactions_iff writes hw h]
  obtain ⟨-, hend⟩ := hrun w.txByTime [] (append_nil _).symm final h
  constructor
  · have hall := hend.whole
    rw [append_nil] at hall
    rw [hend.next, hall]
    exact hreach.others
  · intro before item after hsplit state hstate
    obtain ⟨hok, hfull⟩ := hrun before (item :: after) hsplit state hstate
    have hitems : state.items.map Prod.fst = before := by
      have hwhole := hfull.whole
      rw [hsplit] at hwhole
      exact append_cancel_right hwhole
    unfold RoundOk
    split_ifs with hunset
    · rw [hfull.next, hitems]
      exact hreach.entry before item after hsplit hunset
    · obtain ⟨hnonneg, hpass⟩ := hreach.placed before item after hsplit hunset
      obtain ⟨hle, hshift⟩ := hfull.shift_eq hreach hunset
      refine ⟨hnonneg, fun x hx hx' hlt => ?_, ?_⟩
      · refine absurd (hle x.2 ?_) (not_le.mpr hlt)
        rw [hok.offsets]
        exact mem_map_of_mem (mem_filter.mpr ⟨hx, decide_eq_true hx'⟩)
      · rw [newPos, if_neg hunset, hshift, hitems]
        exact hpass

namespace OldItems

/-- Two transactions, and an entry between them without a position. -/
def w : OrderWallet where
  mapWallet := [⟨.tx 1, 10, 0⟩, ⟨.tx 2, 30, 1⟩]
  acentries := [⟨.acentry [] 1, 20, -1⟩]

/-- Two entries without a position, and a later transaction. -/
def crowded : OrderWallet where
  mapWallet := [⟨.tx 1, 30, 0⟩]
  acentries := [⟨.acentry [] 1, 10, -1⟩, ⟨.acentry [] 2, 20, -1⟩]

def db : Table ItemId ℤ :=
  Finmap.insert (.tx 2) 1 (Finmap.insert (.acentry [] 2) (-1)
    (Finmap.insert (.acentry [] 1) (-1) (Finmap.singleton (.tx 1) 0)))

theorem w_reaches : PositionsReach w.txByTime (unlisted w) := by
  have hsorted : w.txByTime = [⟨.tx 1, 10, 0⟩, ⟨.acentry [] 1, 20, -1⟩, ⟨.tx 2, 30, 1⟩] := rfl
  have hothers : unlisted w = [] := rfl
  rw [hsorted, hothers]
  refine ⟨fun before item after hsplit hunset => ?_,
    fun before item middle item' after hsplit hunset hset => ?_,
    fun before item after hsplit hset => ⟨?_, by simp⟩, by simp⟩
  · match before, hsplit with
    | [_], hsplit =>
      cases hsplit
      exact ⟨⟨[], 1, rfl⟩, by simp⟩
    | [], hsplit | [_, _], hsplit =>
      cases hsplit
      cases hunset
    | _ :: _ :: _ :: _, hsplit => simp at hsplit
  · match before, middle, hsplit with
    | [_], [], hsplit =>
      cases hsplit
      decide
    | [], _, hsplit =>
      rw [← (cons_eq_cons.mp hsplit).1] at hunset
      cases hunset
    | [_], _ :: _, hsplit => simp at hsplit
    | _ :: _ :: _, _, hsplit =>
      have hlength := congrArg length hsplit
      simp only [length_append, length_cons, length_nil] at hlength
      omega
  · match before, hsplit with
    | [], hsplit | [_, _], hsplit =>
      cases hsplit
      decide
    | [_], hsplit =>
      cases hsplit
      exact absurd rfl hset
    | _ :: _ :: _ :: _, hsplit => simp at hsplit

/-- The second transaction is moved behind the entry. -/
theorem w_reordered : ∃ final, ReorderTransactions (fun _ => true) w db = some final ∧
    final.items.map Prod.snd = [0, 1, 2] ∧ Reordered (unlisted w) final := by
  have hw : Reorderable w db :=
    { ids_nodup := by decide
      placed := by simp [w, OldPlaced]
      stored := by decide }
  exact ⟨_, rfl, rfl, reorderTransactions_reordered (fun _ => true) hw w_reaches rfl⟩

/-- The transaction gets the position of the second entry. -/
theorem crowded_collides : Reorderable crowded db ∧
    ∃ final, ReorderTransactions (fun _ => true) crowded db = some final ∧
      ¬ Reordered (unlisted crowded) final := by
  refine ⟨⟨by decide, by simp [crowded, OldPlaced], by decide⟩, _, rfl, ?_⟩
  intro h
  have hpositions : Pairwise Ordered [(⟨.acentry [] 1, 10, -1⟩, 0),
    (⟨.acentry [] 2, 20, -1⟩, 1), (⟨.tx 1, 30, 0⟩, 1)] := h.ordered
  simp only [pairwise_cons, forall_mem_cons] at hpositions
  exact hpositions.2.1.1.distinct rfl

end OldItems

end Phoenixcoin.Analysis
