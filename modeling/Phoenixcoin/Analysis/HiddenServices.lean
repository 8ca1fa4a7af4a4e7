import Phoenixcoin.Analysis.BaseCodecs

/-!
# Addresses of hidden services survive text

What is printed for a Tor or an I2P address is split and decoded again. `SetSpecial` puts the prefix
of Tor before both, so only Tor addresses come back.
-/

set_option autoImplicit false

namespace Phoenixcoin.Analysis

open Lib Program List

variable {b : valtype} {host name suffix : Text} {c : UInt8}

theorem base32_plain (hc : c ∈ EncodeBase32 b) : c ≠ 0 ∧ c ≠ 58 ∧ c ≠ 91 := by
  obtain ⟨ds, t, n, hencode, -, hds, -⟩ := base32.encode_eq b
  have hall : ∀ d < 32, base32Char d ≠ 0 ∧ base32Char d ≠ 58 ∧ base32Char d ≠ 91 := by decide
  have heq : EncodeBase32 b = ds.map base32Char ++ replicate n 61 := hencode
  rw [heq] at hc
  rcases mem_append.mp hc with h | h
  · obtain ⟨d, hd, rfl⟩ := List.mem_map.mp h
    exact hall d (hds d hd)
  · rw [eq_of_mem_replicate h]
    decide

theorem base32_ne_nil (hb : b ≠ []) : EncodeBase32 b ≠ [] := by
  intro h
  have hback := base32.decode_encode b
  have hnil : base32.encode b = [] := h
  rw [hnil] at hback
  cases hback
  exact hb rfl

theorem hasSuffix_append (hname : name ≠ []) : hasSuffix (name ++ suffix) suffix = true := by
  have hpos := length_pos_of_ne_nil hname
  rw [hasSuffix, length_append, Nat.add_sub_cancel, drop_left]
  exact decide_eq_true ⟨by omega, rfl⟩

theorem getLast?_of_hasSuffix (h : hasSuffix name suffix = true) (hne : suffix ≠ []) :
    name.getLast? = suffix.getLast? := by
  have hdrop := (of_decide_eq_true h).2
  rw [← take_append_drop (name.length - suffix.length) name, hdrop, getLast?_append_of_ne_nil _ hne]

theorem not_both (honion : hasSuffix name (ascii ".onion") = true)
    (hi2p : hasSuffix name (ascii ".oc.b32.i2p") = true) : False := by
  have hlast := getLast?_of_hasSuffix honion (by decide)
  rw [getLast?_of_hasSuffix hi2p (by decide)] at hlast
  exact absurd hlast (by decide)

theorem setSpecialBytes_encode (pch : valtype) (hb : b.length = 10) :
    setSpecialBytes pch (EncodeBase32 b ++ suffix) suffix = some (pch ++ b) := by
  have hdecode : DecodeBase32 (EncodeBase32 b) = some (b, false) := base32.decode_encode b
  have htext : (EncodeBase32 b).takeWhile (· ≠ 0) = EncodeBase32 b :=
    takeWhile_eq_self_iff.mpr fun c hc => decide_eq_true (base32_plain hc).1
  rw [setSpecialBytes, length_append, Nat.add_sub_cancel, take_left, htext, hdecode]
  exact if_neg (not_not.mpr hb)

/-- A name with the suffix of Tor is read back. -/
theorem SetSpecial_onion (hb : b.length = 10) :
    SetSpecial (EncodeBase32 b ++ ascii ".onion") = some (pchOnionCat ++ b) := by
  have hne : b ≠ [] := by
    rintro rfl
    cases hb
  rw [SetSpecial, if_pos (hasSuffix_append (base32_ne_nil hne)), setSpecialBytes_encode _ hb]

theorem SetSpecial_i2p (hb : b.length = 10) :
    SetSpecial (EncodeBase32 b ++ ascii ".oc.b32.i2p") = some (pchOnionCat ++ b) := by
  have hne : b ≠ [] := by
    rintro rfl
    cases hb
  have hi2p : hasSuffix (EncodeBase32 b ++ ascii ".oc.b32.i2p") (ascii ".oc.b32.i2p") = true :=
    hasSuffix_append (base32_ne_nil hne)
  have hother := Bool.eq_false_iff.mpr fun honion => not_both honion hi2p
  rw [SetSpecial, hother, if_neg Bool.false_ne_true, if_pos hi2p, setSpecialBytes_encode _ hb]

/-! ## Host and port -/

theorem findLastColon_append {digits : Text} (hdigits : 58 ∉ digits) :
    findLastColon (host ++ 58 :: digits) = some host.length := by
  have hreverse : (host ++ 58 :: digits).reverse.takeWhile (· ≠ 58) = digits.reverse := by
    rw [reverse_append, reverse_cons, append_assoc, takeWhile_append_of_pos]
    · simp
    · intro c hc
      exact decide_eq_true fun h => hdigits (h ▸ mem_reverse.mp hc)
  unfold findLastColon
  rw [if_pos (mem_append_right _ mem_cons_self), hreverse, length_reverse, length_append,
    length_cons]
  congr 1
  omega

theorem strtol_numeral {n : ℕ} (hn : n < 65536) : strtol (numeral n) = ((n : ℤ), []) := by
  have hdigits : ∀ c ∈ numeral n, c ≠ 0 := by
    intro c hc hzero
    have := numeral_isDigit hc
    rw [hzero] at this
    cases this
  have hend : ∀ c ∈ ([] : Text).head?, isDigit c = false := fun c h => by cases h
  have hread := readInt_paddedNumeral 0 n hend
  rw [paddedNumeral, Nat.zero_sub, replicate_zero, nil_append, append_nil] at hread
  unfold strtol
  rw [takeWhile_eq_self_iff.mpr fun c hc => decide_eq_true (hdigits c hc)]
  have hclamp : max (-2 ^ 63) (min (n : ℤ) (2 ^ 63 - 1)) = n := by omega
  dsimp only
  rw [hread]
  dsimp only
  rw [hclamp, toInt32, Int.bmod_eq_of_le (by omega) (by omega)]

theorem SplitHostPort_append {n : ℕ} (hhost : ∀ c ∈ host, c ≠ 58 ∧ c ≠ 91) (hne : host ≠ [])
    (hpos : 0 < n) (hlt : n < 65536) (portDefault : ℤ) :
    SplitHostPort (host ++ 58 :: numeral n) portDefault = ((n : ℤ), host) := by
  have hdigits : 58 ∉ numeral n := by
    intro h
    have := numeral_isDigit h
    cases this
  have hcolon : 58 ∉ (host ++ 58 :: numeral n).take host.length := by
    rw [take_left]
    exact fun h => (hhost _ h).1 rfl
  have hlength := length_pos_of_ne_nil hne
  have hhead : host.head? ≠ some 91 := fun h => (hhost _ (mem_of_mem_head? h)).2 rfl
  have hdrop : (host ++ 58 :: numeral n).drop (host.length + 1) = numeral n := by
    rw [append_cons]
    exact drop_left' (by rw [length_append, length_singleton])
  rw [SplitHostPort, findLastColon_append hdigits]
  dsimp only
  rw [if_pos (Or.inr (Or.inr (by rintro (h | h); omega; exact hcolon h))), hdrop,
    strtol_numeral hlt, take_left]
  rw [if_pos ⟨rfl, by omega⟩, if_pos ⟨by omega, by omega⟩]
  rw [if_neg fun h => hhead h.2.1]

/-! ## Round trips -/

variable (printed : CNetAddr → Text) (getaddrinfo : Text → Option CNetAddr)

theorem Lookup_append {n : ℕ} {ip : CNetAddr} (hhost : ∀ c ∈ host, c ≠ 58 ∧ c ≠ 91)
    (hspecial : SetSpecial host = some ip) (hpos : 0 < n) (hlt : n < 65536) (portDefault : ℤ) :
    Lookup getaddrinfo (host ++ 58 :: numeral n) portDefault = some ⟨ip, n⟩ := by
  have hne : host ≠ [] := by
    rintro rfl
    cases hspecial
  rw [Lookup, if_neg (append_ne_nil_of_left_ne_nil hne _), SplitHostPort_append hhost hne hpos hlt]
  dsimp only
  rw [hspecial, Option.some_or, Option.map_some]
  congr 2
  omega

theorem torAddress (hb : b.length = 10) : IsTor (pchOnionCat ++ b) = true ∧
    IsI2P (pchOnionCat ++ b) = false ∧
    ToStringIP printed (pchOnionCat ++ b) = EncodeBase32 b ++ ascii ".onion" := by
  have htake : (pchOnionCat ++ b).take 6 = pchOnionCat := take_left' rfl
  have hdrop : (pchOnionCat ++ b).drop 6 = b := drop_left' rfl
  have htor : IsTor (pchOnionCat ++ b) = true := decide_eq_true htake
  refine ⟨htor, decide_eq_false (by rw [htake]; decide), ?_⟩
  rw [ToStringIP, if_pos htor, hdrop, take_of_length_le hb.le]

theorem setSpecialBytes_eq_some {pch : valtype} {ip : CNetAddr}
    (h : setSpecialBytes pch name suffix = some ip) : ∃ b, b.length = 10 ∧ ip = pch ++ b := by
  obtain ⟨⟨vchAddr, _⟩, -, h⟩ := Option.bind_eq_some_iff.mp h
  dsimp only at h
  by_cases hlength : vchAddr.length = 10
  · rw [if_neg (not_not.mpr hlength)] at h
    exact ⟨vchAddr, hlength, (Option.some.inj h).symm⟩
  · rw [if_pos hlength] at h
    cases h

/-- The network of an address is the one that its name ends with, and the name that is printed for
it gives the address back. -/
structure KeepsNetwork (strName : Text) (ip : CNetAddr) : Prop where
  tor : hasSuffix strName (ascii ".onion") = true → IsTor ip = true
  i2p : hasSuffix strName (ascii ".oc.b32.i2p") = true → IsI2P ip = true
  printed_back : SetSpecial (ToStringIP printed ip) = some ip

/-- The text of a hidden service is looked up as this service exactly for Tor, and what `SetSpecial`
accepts keeps its network exactly with the suffix of Tor. -/
theorem hiddenServices_iff :
    (∀ service : CService, service.ip.length = 16 →
      IsTor service.ip = true ∨ IsI2P service.ip = true → 0 < service.port →
      service.port < 2 ^ 16 →
      ((∀ portDefault, Lookup getaddrinfo (ToStringIPPort printed service) portDefault =
        some service) ↔ IsTor service.ip = true)) ∧
    ∀ strName ip, SetSpecial strName = some ip →
      (KeepsNetwork printed strName ip ↔ hasSuffix strName (ascii ".onion") = true) := by
  constructor
  · rintro ⟨ip, port⟩ hlength hhidden hpos hlt
    obtain ⟨b, hb, hip⟩ : ∃ b, b.length = 10 ∧ ip = ip.take 6 ++ b :=
      ⟨ip.drop 6, by rw [length_drop, hlength], (take_append_drop 6 ip).symm⟩
    by_cases htor : IsTor ip = true
    · refine iff_of_true (fun portDefault => ?_) htor
      have hbegins : ip.take 6 = pchOnionCat := of_decide_eq_true htor
      rw [hbegins] at hip
      rw [ToStringIPPort, hip, (torAddress printed hb).2.2]
      refine Lookup_append getaddrinfo ?_ (SetSpecial_onion hb) hpos hlt portDefault
      exact forall_mem_append.mpr ⟨fun c hc => (base32_plain hc).2, by simp [ascii, charByte]⟩
    · have hi2p := hhidden.resolve_left htor
      have hbegins : ip.take 6 = pchGarliCat := of_decide_eq_true hi2p
      refine iff_of_false (fun h => ?_) htor
      have hdrop : (ip.drop 6).take 10 = b := by
        rw [hip, hbegins]
        exact take_of_length_le hb.le
      have hlookup := h 0
      rw [ToStringIPPort, if_pos (by simp [hi2p]), ToStringIP, if_neg htor, if_pos hi2p, hdrop,
        Lookup_append getaddrinfo (forall_mem_append.mpr
          ⟨fun c hc => (base32_plain hc).2, by simp [ascii, charByte]⟩)
          (SetSpecial_i2p hb) hpos hlt] at hlookup
      have hsame : pchOnionCat ++ b = ip := congrArg CService.ip (Option.some.inj hlookup)
      exact htor (hsame ▸ (torAddress printed hb).1)
  · intro strName ip hspecial
    unfold SetSpecial at hspecial
    by_cases honion : hasSuffix strName (ascii ".onion") = true
    · rw [if_pos honion] at hspecial
      obtain ⟨b, hb, rfl⟩ := setSpecialBytes_eq_some hspecial
      obtain ⟨htor, -, hprint⟩ := torAddress printed hb
      refine iff_of_true ⟨fun _ => htor, fun hi2p => (not_both honion hi2p).elim, ?_⟩ honion
      rw [hprint, SetSpecial_onion hb]
    · rw [if_neg honion] at hspecial
      by_cases hi2p : hasSuffix strName (ascii ".oc.b32.i2p") = true
      · rw [if_pos hi2p] at hspecial
        obtain ⟨b, hb, rfl⟩ := setSpecialBytes_eq_some hspecial
        refine iff_of_false (fun h => ?_) honion
        exact Bool.false_ne_true ((torAddress printed hb).2.1.symm.trans (h.i2p hi2p))
      · rw [if_neg hi2p] at hspecial
        cases hspecial

/-- An I2P address of ten zeros. -/
def i2pService : CService := ⟨pchGarliCat ++ replicate 10 0, 1⟩

theorem i2pService_lost : ¬ ∀ portDefault,
    Lookup (fun _ => none) (ToStringIPPort (fun _ => []) i2pService) portDefault =
      some i2pService := by
  intro h
  have hiff := (hiddenServices_iff (fun _ => []) fun _ => none).1 i2pService rfl
    (Or.inr (by decide)) (by decide) (by decide)
  exact absurd (hiff.mp h) (by decide)

end Phoenixcoin.Analysis
