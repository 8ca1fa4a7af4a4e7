import Phoenixcoin.Program.Alert

/-!
# The alert about a compromised key

An alert with the largest ID stays in the map, and lets no other alert in, as long as the
alerts that follow it do not name its ID: neither as their own nor as one that they cancel.
`ProcessAlert` itself does not keep such alerts away, because it lets a new alert cancel the
stored ones before it asks the stored ones about the new alert.
-/

set_option autoImplicit false

namespace Phoenixcoin.Analysis

open Program Program.AlertEnv List CUnsignedAlert

variable {E : AlertEnv} {mapAlerts : AlertMap} {call : AlertCall}

/-- An alert that reaches the loops of `ProcessAlert`. -/
def IsConsidered (E : AlertEnv) (call : AlertCall) (this : CAlert) : Prop :=
  E.CheckSignature call.vchMsg call.vchSig = some this ∧
    this.IsInEffect call.adjustedTime = true ∧ (this.nID = maxInt → this.IsPreDefined = true)

variable {vchMsg vchSig : valtype} {alert : CAlert} {h hash : uint256} {calls : List AlertCall}

theorem checkSignature_eq_some {this : CAlert} (h : E.CheckSignature vchMsg vchSig = some this) :
    this.vchMsg = vchMsg ∧ E.unserialize vchMsg = some this.toCUnsignedAlert := by
  unfold CheckSignature at h
  split at h
  · cases hmsg : E.unserialize vchMsg with
    | none => simp [hmsg] at h
    | some alert =>
      simp only [hmsg, Option.some.injEq] at h
      subst h
      exact ⟨rfl, rfl⟩
  · cases h

theorem nID_le_maxInt {this : CAlert} (h : E.CheckSignature vchMsg vchSig = some this) :
    this.nID ≤ maxInt :=
  E.nID_le vchMsg _ (checkSignature_eq_some h).2

/-- What one call of `ProcessAlert` can do. -/
theorem processAlert_cases (E : AlertEnv) (mapAlerts : AlertMap) (call : AlertCall) :
    E.ProcessAlert mapAlerts call = (false, mapAlerts) ∨
    ∃ this, IsConsidered E call this ∧
      (((∃ h : uint256, ∃ alert : CAlert,
            (cancelPrevious this call.adjustedTime mapAlerts)[h]? = some alert ∧
            alert.Cancels call.adjustedTime this.toCUnsignedAlert = true) ∧
          E.ProcessAlert mapAlerts call =
            (false, cancelPrevious this call.adjustedTime mapAlerts)) ∨
        ((∀ h : uint256, ∀ alert : CAlert,
            (cancelPrevious this call.adjustedTime mapAlerts)[h]? = some alert →
            alert.Cancels call.adjustedTime this.toCUnsignedAlert = false) ∧
          E.ProcessAlert mapAlerts call =
            (true, (cancelPrevious this call.adjustedTime mapAlerts).insertIfNew
              (E.GetHash this) this))) := by
  unfold ProcessAlert
  cases hcheck : E.CheckSignature call.vchMsg call.vchSig with
  | none => exact Or.inl rfl
  | some this =>
    dsimp only
    split
    · exact Or.inl rfl
    · next heffect =>
      split
      · exact Or.inl rfl
      · next hpre =>
        refine Or.inr ⟨this, ⟨hcheck, by simpa using heffect, ?_⟩, ?_⟩
        · intro hid
          by_contra hnot
          exact hpre ⟨hid, hnot⟩
        · split
          · next hany =>
            rw [List.any_eq_true] at hany
            obtain ⟨⟨h, alert⟩, hmem, hcancels⟩ := hany
            rw [Std.TreeMap.mem_toList_iff_getElem?_eq_some] at hmem
            exact Or.inl ⟨⟨h, alert, hmem, hcancels⟩, rfl⟩
          · next hany =>
            refine Or.inr ⟨?_, rfl⟩
            intro h alert hlookup
            rw [← Std.TreeMap.mem_toList_iff_getElem?_eq_some] at hlookup
            by_contra hcancels
            exact hany (List.any_eq_true.mpr ⟨(h, alert), hlookup, by simpa using hcancels⟩)

theorem cancelPrevious_eq_some {this : CAlert} {adjustedTime : ℤ} :
    (cancelPrevious this adjustedTime mapAlerts)[h]? = some alert ↔
      mapAlerts[h]? = some alert ∧
        this.Cancels adjustedTime alert.toCUnsignedAlert = false ∧
        alert.IsInEffect adjustedTime = true := by
  rw [cancelPrevious, Std.TreeMap.getElem?_filter']
  simp

theorem insertIfNew_eq_some {this : CAlert}
    (hlookup : (mapAlerts.insertIfNew hash this)[h]? = some alert) :
    (hash = h ∧ this = alert) ∨ mapAlerts[h]? = some alert := by
  rw [Std.TreeMap.getElem?_insertIfNew] at hlookup
  split at hlookup
  · next hkey => exact Or.inl ⟨by simpa using hkey.1, by simpa using hlookup⟩
  · exact Or.inr hlookup

/-- Every entry is a decoded message under its own digest, and no other message of the map has
the digest of `final`. -/
def WellKept (E : AlertEnv) (final : valtype) (mapAlerts : AlertMap) : Prop :=
  ∀ h : uint256, ∀ alert : CAlert, mapAlerts[h]? = some alert →
    E.GetHash alert = h ∧ E.unserialize alert.vchMsg = some alert.toCUnsignedAlert ∧
      (E.GetHash alert = E.Hash final → alert.vchMsg = final)

theorem WellKept.cancelPrevious {final : valtype} {this : CAlert} {adjustedTime : ℤ}
    (h : WellKept E final mapAlerts) :
    WellKept E final (cancelPrevious this adjustedTime mapAlerts) :=
  fun hash alert hlookup => h hash alert (cancelPrevious_eq_some.mp hlookup).1

theorem processAlert_wellKept {final : valtype}
    (hcall : E.Hash call.vchMsg = E.Hash final → call.vchMsg = final)
    (h : WellKept E final mapAlerts) : WellKept E final (E.ProcessAlert mapAlerts call).2 := by
  rcases processAlert_cases E mapAlerts call with hstep | ⟨this, hthis, hstep⟩
  · rw [hstep]
    exact h
  · rcases hstep with ⟨-, hstep⟩ | ⟨-, hstep⟩
    · rw [hstep]
      exact h.cancelPrevious
    · rw [hstep]
      intro hash alert hlookup
      obtain ⟨hmsg, hdecode⟩ := checkSignature_eq_some hthis.1
      rcases insertIfNew_eq_some hlookup with ⟨hhash, rfl⟩ | hlookup
      · refine ⟨hhash, by rw [hmsg]; exact hdecode, ?_⟩
        intro hsame
        rw [GetHash, hmsg] at hsame
        rw [hmsg]
        exact hcall hsame
      · exact h.cancelPrevious hash alert hlookup

theorem processAlerts_wellKept {final : valtype}
    (hcalls : ∀ call ∈ calls, E.Hash call.vchMsg = E.Hash final → call.vchMsg = final)
    (h : WellKept E final mapAlerts) : WellKept E final (E.processAlerts mapAlerts calls) := by
  induction calls generalizing mapAlerts with
  | nil => exact h
  | cons call calls ih =>
    exact ih (fun c hc => hcalls c (mem_cons_of_mem call hc))
      (processAlert_wellKept (hcalls call mem_cons_self) h)

def OthersSpare (final : CAlert) (mapAlerts : AlertMap) : Prop :=
  ∀ h : uint256, ∀ alert : CAlert, mapAlerts[h]? = some alert → alert.vchMsg ≠ final.vchMsg →
    alert.CancelsID maxInt = false

structure FinalKept (E : AlertEnv) (final : CAlert) (mapAlerts : AlertMap) : Prop where
  stored : ∃ alert : CAlert, mapAlerts[E.GetHash final]? = some alert ∧ alert.vchMsg = final.vchMsg
  spared : OthersSpare final mapAlerts

/-- The condition on a later alert: unless it is the final alert itself, it does not cancel the
largest ID, and it has that ID only where the final alert cancels it. -/
def SparesFinal (E : AlertEnv) (final : CAlert) (call : AlertCall) : Prop :=
  ∀ this, IsConsidered E call this → this.vchMsg ≠ final.vchMsg →
    this.CancelsID maxInt = false ∧ (this.nID = maxInt → maxInt ∈ final.setCancel)

variable {final this : CAlert} {adjustedTime : ℤ}

theorem OthersSpare.cancelPrevious (h : OthersSpare final mapAlerts) :
    OthersSpare final (cancelPrevious this adjustedTime mapAlerts) :=
  fun hash alert hlookup => h hash alert (cancelPrevious_eq_some.mp hlookup).1

section

variable (hwell : WellKept E final.vchMsg mapAlerts)
include hwell

theorem WellKept.fields_eq (hfinal : E.unserialize final.vchMsg = some final.toCUnsignedAlert)
    (hlookup : mapAlerts[hash]? = some alert) (hmsg : alert.vchMsg = final.vchMsg) :
    alert.toCUnsignedAlert = final.toCUnsignedAlert := by
  have hdecode := (hwell hash alert hlookup).2.1
  rw [hmsg, hfinal, Option.some.injEq] at hdecode
  exact hdecode.symm

theorem finalKept_insertIfNew
    (hspared : OthersSpare final mapAlerts) (hmsg : this.vchMsg = final.vchMsg) :
    FinalKept E final (mapAlerts.insertIfNew (E.GetHash this) this) := by
  have hhash : E.GetHash this = E.GetHash final := by rw [GetHash, GetHash, hmsg]
  constructor
  · rw [hhash]
    cases hlookup : mapAlerts[E.GetHash final]? with
    | none =>
      refine ⟨this, ?_, hmsg⟩
      rw [Std.TreeMap.getElem?_insertIfNew, if_pos]
      refine ⟨compare_eq_iff_eq.mpr rfl, ?_⟩
      rw [Std.TreeMap.mem_iff_isSome_getElem?, hlookup]
      simp
    | some alert =>
      have hentry := hwell _ _ hlookup
      refine ⟨alert, ?_, hentry.2.2 hentry.1⟩
      rw [Std.TreeMap.getElem?_insertIfNew, if_neg, hlookup]
      rintro ⟨-, hmem⟩
      rw [Std.TreeMap.mem_iff_isSome_getElem?, hlookup] at hmem
      simp at hmem
  · intro hash alert hlookup hother
    rcases insertIfNew_eq_some hlookup with ⟨-, rfl⟩ | hlookup
    · exact absurd hmsg hother
    · exact hspared hash alert hlookup hother

theorem FinalKept.cancelPrevious (hkept : FinalKept E final mapAlerts)
    (hfinal : E.unserialize final.vchMsg = some final.toCUnsignedAlert)
    (hid : final.nID = maxInt) (heffect : final.IsInEffect adjustedTime = true)
    (hspares : this.CancelsID maxInt = false) :
    FinalKept E final (cancelPrevious this adjustedTime mapAlerts) := by
  obtain ⟨alert, hstored, hmsg⟩ := hkept.stored
  have hfields := hwell.fields_eq hfinal hstored hmsg
  refine ⟨⟨alert, cancelPrevious_eq_some.mpr ⟨hstored, ?_, ?_⟩, hmsg⟩, hkept.spared.cancelPrevious⟩
  · rw [Cancels, hfields, hid, hspares, Bool.and_false]
  · rw [hfields, heffect]

theorem accepted_finalKept
    (hfinal : E.CheckSignature call.vchMsg call.vchSig = some final) (hid : final.nID = maxInt)
    (haccepted : (E.ProcessAlert mapAlerts call).1 = true) :
    FinalKept E final (E.ProcessAlert mapAlerts call).2 ∧ final.IsPreDefined = true := by
  rcases processAlert_cases E mapAlerts call with hstep | ⟨this, hthis, hstep⟩
  · rw [hstep] at haccepted
    cases haccepted
  · have hsame : this = final := by
      have hcheck := hthis.1
      rw [hfinal, Option.some.injEq] at hcheck
      exact hcheck.symm
    subst hsame
    rcases hstep with ⟨-, hstep⟩ | ⟨hnone, hstep⟩
    · rw [hstep] at haccepted
      cases haccepted
    · rw [hstep]
      refine ⟨finalKept_insertIfNew hwell.cancelPrevious ?_ rfl, hthis.2.2 hid⟩
      intro hash alert hlookup _
      have hcancels := hnone hash alert hlookup
      rw [Cancels, (cancelPrevious_eq_some.mp hlookup).2.2, hid] at hcancels
      exact hcancels

theorem processAlert_finalKept (hkept : FinalKept E final mapAlerts)
    (hfinal : E.unserialize final.vchMsg = some final.toCUnsignedAlert)
    (hid : final.nID = maxInt) (hpre : final.IsPreDefined = true)
    (htime : call.adjustedTime < maxInt) (hspares : SparesFinal E final call) :
    FinalKept E final (E.ProcessAlert mapAlerts call).2 ∧
      ((E.ProcessAlert mapAlerts call).1 = true → call.vchMsg = final.vchMsg) := by
  simp only [IsPreDefined, Bool.and_eq_true, decide_eq_true_eq] at hpre
  have heffect : final.IsInEffect call.adjustedTime = true := by
    rw [IsInEffect, hpre.1.1.1.1.1.1]
    simpa using htime
  rcases processAlert_cases E mapAlerts call with hstep | ⟨this, hthis, hstep⟩
  · rw [hstep]
    exact ⟨hkept, fun h => nomatch h⟩
  · obtain ⟨hmsg, hdecode⟩ := checkSignature_eq_some hthis.1
    by_cases hitself : this.vchMsg = final.vchMsg
    · rw [hmsg] at hitself
      refine ⟨?_, fun _ => hitself⟩
      rcases hstep with ⟨⟨hash, other, hlookup, hcancels⟩, hstep⟩ | ⟨-, hstep⟩
      · -- only the final alert itself can have cancelled a repetition of it
        rw [hstep]
        rw [hitself, hfinal, Option.some.injEq] at hdecode
        rw [Cancels, Bool.and_eq_true, ← hdecode, hid] at hcancels
        have hother : other.vchMsg = final.vchMsg := by
          by_contra hother
          rw [hkept.spared.cancelPrevious hash other hlookup hother] at hcancels
          exact absurd hcancels.2 (by simp)
        have hhash : hash = E.GetHash final := by
          rw [← (hwell.cancelPrevious hash other hlookup).1, GetHash, GetHash, hother]
        exact ⟨⟨other, hhash ▸ hlookup, hother⟩, hkept.spared.cancelPrevious⟩
      · rw [hstep]
        exact finalKept_insertIfNew hwell.cancelPrevious hkept.spared.cancelPrevious
          (hmsg.trans hitself)
    · obtain ⟨hnot, hown⟩ := hspares this hthis hitself
      have hstays := hkept.cancelPrevious hwell hfinal hid heffect hnot
      rcases hstep with ⟨-, hstep⟩ | ⟨hnone, hstep⟩
      · rw [hstep]
        exact ⟨hstays, fun h => nomatch h⟩
      · -- the final alert is in effect, so it rejects every other alert
        exfalso
        obtain ⟨alert, hstored, hstoredMsg⟩ := hstays.stored
        have hfields := hwell.cancelPrevious.fields_eq hfinal hstored hstoredMsg
        have hrejects := hnone _ _ hstored
        rw [hfields, Cancels, heffect, Bool.true_and, CancelsID] at hrejects
        simp only [Bool.or_eq_false_iff, decide_eq_false_iff_not, not_le] at hrejects
        have hle := nID_le_maxInt hthis.1
        have heq : this.nID = maxInt := by omega
        exact hrejects.2 (heq ▸ hown heq)

theorem processAlerts_finalKept (hkept : FinalKept E final mapAlerts)
    (hfinal : E.unserialize final.vchMsg = some final.toCUnsignedAlert) (hid : final.nID = maxInt)
    (hpre : final.IsPreDefined = true)
    (hcollision : ∀ call ∈ calls, E.Hash call.vchMsg = E.Hash final.vchMsg →
      call.vchMsg = final.vchMsg)
    (hcalls : ∀ call ∈ calls, call.adjustedTime < maxInt ∧ SparesFinal E final call) :
    FinalKept E final (E.processAlerts mapAlerts calls) := by
  induction calls generalizing mapAlerts with
  | nil => exact hkept
  | cons call calls ih =>
    have hcall := hcalls call mem_cons_self
    refine ih (processAlert_wellKept (hcollision call mem_cons_self) hwell)
      (processAlert_finalKept hwell hkept hfinal hid hpre hcall.1 hcall.2).1 ?_ ?_
    · exact fun c hc => hcollision c (mem_cons_of_mem call hc)
    · exact fun c hc => hcalls c (mem_cons_of_mem call hc)

end

theorem wellKept_empty (E : AlertEnv) (msg : valtype) : WellKept E msg ∅ := by
  intro h alert hlookup
  simp at hlookup

/-- **Finality of the key-compromised alert.** Once an alert with the largest ID has been
accepted, it stays in the map, and nothing else is accepted, over every sequence of later calls
before its expiry that spare it. -/
theorem finalAlert_stays {before after : List AlertCall} {call : AlertCall}
    (hfinal : E.CheckSignature call.vchMsg call.vchSig = some final) (hid : final.nID = maxInt)
    (haccepted : (E.ProcessAlert (E.processAlerts ∅ before) call).1 = true)
    (hcollision : ∀ c ∈ before ++ after, E.Hash c.vchMsg = E.Hash call.vchMsg →
      c.vchMsg = call.vchMsg)
    (hafter : ∀ c ∈ after, c.adjustedTime < maxInt ∧ SparesFinal E final c) :
    FinalKept E final (E.processAlerts ∅ (before ++ call :: after)) ∧
      ∀ c, c.adjustedTime < maxInt → SparesFinal E final c →
        (E.ProcessAlert (E.processAlerts ∅ (before ++ call :: after)) c).1 = true →
          c.vchMsg = call.vchMsg := by
  obtain ⟨hmsg, hdecode⟩ := checkSignature_eq_some hfinal
  rw [← hmsg] at hdecode hcollision ⊢
  have hwellBefore : WellKept E final.vchMsg (E.processAlerts ∅ before) :=
    processAlerts_wellKept (fun c hc => hcollision c (mem_append_left after hc))
      (wellKept_empty E _)
  obtain ⟨hkept, hpre⟩ := accepted_finalKept hwellBefore hfinal hid haccepted
  have hwell : WellKept E final.vchMsg (E.ProcessAlert (E.processAlerts ∅ before) call).2 :=
    processAlert_wellKept (fun _ => hmsg.symm) hwellBefore
  have hcalls : ∀ c ∈ after, E.Hash c.vchMsg = E.Hash final.vchMsg → c.vchMsg = final.vchMsg :=
    fun c hc => hcollision c (mem_append_right before hc)
  have hrun : E.processAlerts ∅ (before ++ call :: after) =
      E.processAlerts (E.ProcessAlert (E.processAlerts ∅ before) call).2 after := by
    simp [processAlerts]
  rw [hrun]
  refine ⟨processAlerts_finalKept hwell hkept hdecode hid hpre hcalls hafter, ?_⟩
  intro c htime hspares
  exact (processAlert_finalKept (processAlerts_wellKept hcalls hwell)
    (processAlerts_finalKept hwell hkept hdecode hid hpre hcalls hafter) hdecode hid hpre htime
    hspares).2

def sampleFinal : CUnsignedAlert :=
  ⟨1, maxInt, maxInt, maxInt, maxInt - 1, ∅, 0, maxInt, ∅, maxInt, "",
    "URGENT: Alert key compromised, upgrade required", ""⟩

def sampleAttack : CUnsignedAlert :=
  ⟨1, 1000, 1000, 7, maxInt, ∅, 0, maxInt, ∅, 10, "", "everything is OK, don't panic", ""⟩

def sampleNotice : CUnsignedAlert := ⟨1, 1000, 1000, 8, 0, ∅, 0, maxInt, ∅, 10, "", "notice", ""⟩

/-- Messages are one byte long and name one of the three alerts. -/
def sampleEnv : AlertEnv where
  Hash := ofLittleEndian
  Verify := fun _ _ => true
  unserialize := fun vchMsg =>
    if vchMsg = [0] then some sampleFinal
    else if vchMsg = [1] then some sampleAttack
    else if vchMsg = [2] then some sampleNotice
    else none
  nID_le := by
    intro vchMsg alert h
    split_ifs at h <;> cases h <;> decide

theorem finalAlert_stays_sampleEnv : FinalKept sampleEnv ⟨sampleFinal, [0], []⟩
      (sampleEnv.processAlerts ∅ [⟨0, [2], []⟩, ⟨1, [0], []⟩, ⟨2, [2], []⟩]) := by
  have hcollision : ∀ c ∈ [AlertCall.mk 0 [2] []] ++ [AlertCall.mk 2 [2] []],
      sampleEnv.Hash c.vchMsg = sampleEnv.Hash [0] → c.vchMsg = [0] := by decide
  have hafter : ∀ c ∈ [AlertCall.mk 2 [2] []],
      c.adjustedTime < maxInt ∧ SparesFinal sampleEnv ⟨sampleFinal, [0], []⟩ c := by
    intro c hc
    obtain rfl := mem_singleton.mp hc
    refine ⟨by decide, ?_⟩
    intro this hthis _
    obtain rfl : ⟨sampleNotice, [2], []⟩ = this := Option.some.inj hthis.1
    decide
  exact (@finalAlert_stays sampleEnv ⟨sampleFinal, [0], []⟩ [⟨0, [2], []⟩] [⟨2, [2], []⟩]
    ⟨1, [0], []⟩ rfl rfl (by with_unfolding_all decide) hcollision hafter).1

/-- An ordinary alert that names every ID as cancelled is accepted after the final alert and
takes it out of the map. -/
theorem finalAlert_cancelled :
    (sampleEnv.ProcessAlert ∅ ⟨1, [0], []⟩).1 = true ∧
    (sampleEnv.ProcessAlert (sampleEnv.processAlerts ∅ [⟨1, [0], []⟩]) ⟨2, [1], []⟩).1 = true ∧
    ¬ FinalKept sampleEnv ⟨sampleFinal, [0], []⟩
      (sampleEnv.processAlerts ∅ [⟨1, [0], []⟩, ⟨2, [1], []⟩]) := by
  refine ⟨by with_unfolding_all decide, by with_unfolding_all decide, ?_⟩
  intro hkept
  obtain ⟨alert, hstored, -⟩ := hkept.stored
  have hgone : ((sampleEnv.processAlerts ∅ [⟨1, [0], []⟩, ⟨2, [1], []⟩])[
      sampleEnv.GetHash ⟨sampleFinal, [0], []⟩]?).isSome = false := by
    with_unfolding_all decide
  rw [hstored] at hgone
  cases hgone

end Phoenixcoin.Analysis
