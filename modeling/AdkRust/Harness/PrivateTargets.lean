import Mathlib.Tactic.Tauto

/-!
# Refused addresses

Which addresses a webhook delivery (`webhook_delivery.rs`) and the web tools (`web/domain.rs`) refuse. An IPv6 address
can spell an IPv4 address in four ways (`Spells`).

* `isNonPublic`, `isPrivateIp`: the two filters.
* `isPrivateV4_eq`: they agree on IPv4 addresses.
* `refusals_agree_iff`: the IPv6 addresses on which they agree and refuse what is refused as an IPv4 address.
-/

namespace Adk

/-! ## Addresses -/

structure Ipv4Addr where
  a : BitVec 8
  b : BitVec 8
  c : BitVec 8
  d : BitVec 8
deriving DecidableEq

structure Ipv6Addr where
  s0 : BitVec 16
  s1 : BitVec 16
  s2 : BitVec 16
  s3 : BitVec 16
  s4 : BitVec 16
  s5 : BitVec 16
  s6 : BitVec 16
  s7 : BitVec 16
deriving DecidableEq

inductive IpAddr where
  | v4 (addr : Ipv4Addr)
  | v6 (addr : Ipv6Addr)
deriving DecidableEq

namespace Ipv4Addr

def ofSegments (hi lo : BitVec 16) : Ipv4Addr :=
  ⟨hi.extractLsb' 8 8, hi.extractLsb' 0 8, lo.extractLsb' 8 8, lo.extractLsb' 0 8⟩

def ofBits (bits : BitVec 32) : Ipv4Addr :=
  ⟨bits.extractLsb' 24 8, bits.extractLsb' 16 8, bits.extractLsb' 8 8, bits.extractLsb' 0 8⟩

def isLoopback (v4 : Ipv4Addr) : Bool := v4.a = 127
def isPrivate (v4 : Ipv4Addr) : Bool :=
  v4.a = 10 || (v4.a = 172 && 16 ≤ v4.b && v4.b ≤ 31) || (v4.a = 192 && v4.b = 168)
def isLinkLocal (v4 : Ipv4Addr) : Bool := v4.a = 169 && v4.b = 254
def isUnspecified (v4 : Ipv4Addr) : Bool := v4 = ⟨0, 0, 0, 0⟩
def isBroadcast (v4 : Ipv4Addr) : Bool := v4 = ⟨255, 255, 255, 255⟩
def isMulticast (v4 : Ipv4Addr) : Bool := 224 ≤ v4.a && v4.a ≤ 239

end Ipv4Addr

namespace Ipv6Addr

def isLoopback (v6 : Ipv6Addr) : Bool := v6 = ⟨0, 0, 0, 0, 0, 0, 0, 1⟩
def isUnspecified (v6 : Ipv6Addr) : Bool := v6 = ⟨0, 0, 0, 0, 0, 0, 0, 0⟩
def isMulticast (v6 : Ipv6Addr) : Bool := v6.s0 &&& 0xff00 = 0xff00

/-- The segments that come before an embedded address. -/
def front (v6 : Ipv6Addr) : List (BitVec 16) := [v6.s0, v6.s1, v6.s2, v6.s3, v6.s4, v6.s5]

def toIpv4Mapped (v6 : Ipv6Addr) : Option Ipv4Addr :=
  if v6.front = [0, 0, 0, 0, 0, 0xffff] then some (.ofSegments v6.s6 v6.s7) else none

def toIpv4 (v6 : Ipv6Addr) : Option Ipv4Addr :=
  if v6.front = [0, 0, 0, 0, 0, 0] ∨ v6.front = [0, 0, 0, 0, 0, 0xffff] then some (.ofSegments v6.s6 v6.s7) else none

end Ipv6Addr

/-! ## Deliveries of webhooks -/

def isNonPublicV4 (v4 : Ipv4Addr) : Bool :=
  v4.a = 0 || v4.isLoopback || v4.isPrivate || v4.isLinkLocal || (v4.a = 100 && 64 ≤ v4.b && v4.b ≤ 127) ||
  v4.isMulticast || v4.isBroadcast

def isNonPublicV6 (v6 : Ipv6Addr) : Bool :=
  let nat64 : Bool := v6.front = [0x64, 0xff9b, 0, 0, 0, 0]
  let embedded := v6.toIpv4.or (if nat64 then some (.ofBits (v6.s6.setWidth 32 <<< 16 ||| v6.s7.setWidth 32)) else none)
  match embedded with
  | some v4 => isNonPublicV4 v4
  | none => v6.isUnspecified || v6.isLoopback || v6.s0 &&& 0xfe00 = 0xfc00 || v6.s0 &&& 0xffc0 = 0xfe80 ||
      v6.s0 &&& 0xffc0 = 0xfec0 || v6.isMulticast

/-- Whether a delivery must not reach an address. -/
def isNonPublic : IpAddr → Bool
  | .v4 v4 => isNonPublicV4 v4
  | .v6 v6 => isNonPublicV6 v6

/-! ## The web tools -/

def isPrivateV4 (v4 : Ipv4Addr) : Bool :=
  v4.isLoopback || v4.isPrivate || v4.isLinkLocal || v4.isUnspecified || v4.isBroadcast || v4.isMulticast || v4.a = 0 ||
  (v4.a = 100 && 64 ≤ v4.b && v4.b < 128)

/-- Whether the web tools refuse an address. -/
def isPrivateIp : IpAddr → Bool
  | .v4 v4 => isPrivateV4 v4
  | .v6 v6 =>
    match v6.toIpv4Mapped with
    | some v4 => isPrivateV4 v4
    | none =>
      if v6.front = [0x64, 0xff9b, 0, 0, 0, 0] then
        isPrivateV4 (.ofBits (v6.s6.setWidth 32 <<< 16 ||| v6.s7.setWidth 32))
      else if v6.s0 = 0x2002 then isPrivateV4 (.ofBits (v6.s1.setWidth 32 <<< 16 ||| v6.s2.setWidth 32))
      else v6.isLoopback || v6.isUnspecified || v6.isMulticast || v6.s0 &&& 0xfe00 = 0xfc00 ||
        v6.s0 &&& 0xffc0 = 0xfe80

example : isPrivateIp (.v6 ⟨0, 0, 0, 0, 0, 0xffff, 0xc0a8, 1⟩) = true ∧ isPrivateIp (.v4 ⟨93, 184, 216, 34⟩) = false := by
  decide

/-! ## Spellings of an IPv4 address -/

inductive Spells (v4 : Ipv4Addr) : Ipv6Addr → Prop
  | mapped : Spells v4 ⟨0, 0, 0, 0, 0, 0xffff, v4.a ++ v4.b, v4.c ++ v4.d⟩
  | compatible : Spells v4 ⟨0, 0, 0, 0, 0, 0, v4.a ++ v4.b, v4.c ++ v4.d⟩
  | nat64 : Spells v4 ⟨0x64, 0xff9b, 0, 0, 0, 0, v4.a ++ v4.b, v4.c ++ v4.d⟩
  | sixToFour (s3 s4 s5 s6 s7 : BitVec 16) : Spells v4 ⟨0x2002, v4.a ++ v4.b, v4.c ++ v4.d, s3, s4, s5, s6, s7⟩

theorem extractLsb'_append_high (x y : BitVec 8) : (x ++ y).extractLsb' 8 8 = x := by
  apply BitVec.eq_of_getLsbD_eq
  intro i hi
  rw [BitVec.getLsbD_extractLsb', BitVec.getLsbD_append, if_neg (by omega)]
  simp [hi]

theorem extractLsb'_append_low (x y : BitVec 8) : (x ++ y).extractLsb' 0 8 = y := by
  apply BitVec.eq_of_getLsbD_eq
  intro i hi
  rw [BitVec.getLsbD_extractLsb', BitVec.getLsbD_append, if_pos (by omega)]
  simp [hi]

theorem Ipv4Addr.ofSegments_append (v4 : Ipv4Addr) : ofSegments (v4.a ++ v4.b) (v4.c ++ v4.d) = v4 := by
  unfold ofSegments
  rw [extractLsb'_append_high, extractLsb'_append_low, extractLsb'_append_high, extractLsb'_append_low]

/-- A byte of the first segment of two that are put together. -/
theorem extractLsb'_high (hi lo : BitVec 16) {k : Nat} (hk : k ≤ 8) :
    (hi.setWidth 32 <<< 16 ||| lo.setWidth 32).extractLsb' (16 + k) 8 = hi.extractLsb' k 8 := by
  apply BitVec.eq_of_getLsbD_eq
  intro i h
  have hbel : 16 + k + i < 32 := by omega
  have habove : ¬16 + k + i < 16 := by omega
  have hsh : 16 + k + i - 16 = k + i := by omega
  have hlow := BitVec.getLsbD_of_ge lo (16 + k + i) (by omega)
  simp [h, hbel, habove, hsh, hlow]

/-- A byte of the second. -/
theorem extractLsb'_low (hi lo : BitVec 16) {k : Nat} (hk : k ≤ 8) :
    (hi.setWidth 32 <<< 16 ||| lo.setWidth 32).extractLsb' k 8 = lo.extractLsb' k 8 := by
  apply BitVec.eq_of_getLsbD_eq
  intro i h
  have hbel : k + i < 32 := by omega
  have hfst : k + i < 16 := by omega
  simp [h, hbel, hfst]

theorem Ipv4Addr.ofBits_segments (hi lo : BitVec 16) :
    ofBits (hi.setWidth 32 <<< 16 ||| lo.setWidth 32) = ofSegments hi lo := by
  unfold ofBits ofSegments
  congr 1
  · exact @extractLsb'_high hi lo 8 (by omega)
  · exact @extractLsb'_high hi lo 0 (by omega)
  · exact @extractLsb'_low hi lo 8 (by omega)
  · exact @extractLsb'_low hi lo 0 (by omega)

theorem isPrivateV4_eq (v4 : Ipv4Addr) : isPrivateV4 v4 = isNonPublicV4 v4 := by
  have hunspecified : v4.isUnspecified = true → v4.a = 0 := by
    intro h
    rw [of_decide_eq_true h]
  have hlast : decide (v4.b < 128) = decide (v4.b ≤ 127) := by
    rw [decide_eq_decide, BitVec.lt_def, BitVec.le_def]
    exact Nat.lt_succ_iff
  unfold isPrivateV4 isNonPublicV4
  rw [hlast]
  cases hzero : v4.isUnspecified with
  | false =>
    rw [Bool.eq_iff_iff]
    simp only [Bool.or_eq_true, Bool.false_eq_true]
    tauto
  | true => simp [hunspecified hzero]

/-! ## Where the filters agree -/

/-- Both filters give one answer, and refuse each address that spells an IPv4 address which deliveries refuse. -/
def RefusedAlike (ip : IpAddr) : Prop :=
  isNonPublic ip = isPrivateIp ip ∧
    ∀ v4 v6, ip = .v6 v6 → Spells v4 v6 → isNonPublicV4 v4 = true → isNonPublic ip = true ∧ isPrivateIp ip = true

/-- An IPv6 address is not site-local, and is no 6to4 and no IPv4-compatible spelling of a refused IPv4 address, other
than the unspecified and the loopback address. -/
structure OutsideGaps (v6 : Ipv6Addr) : Prop where
  siteLocal : v6.s0 &&& 0xffc0 ≠ 0xfec0
  sixToFour : v6.s0 = 0x2002 → isNonPublicV4 (.ofSegments v6.s1 v6.s2) = false
  compatible : v6.front = [0, 0, 0, 0, 0, 0] → isNonPublicV4 (.ofSegments v6.s6 v6.s7) = true →
    v6.isUnspecified = true ∨ v6.isLoopback = true

/-! ### What the filters answer -/

variable {v6 : Ipv6Addr}

theorem isNonPublic_plain (hipv4 : v6.toIpv4 = none) (hnat64 : ¬v6.front = [0x64, 0xff9b, 0, 0, 0, 0]) :
    isNonPublic (.v6 v6) = (v6.isUnspecified || v6.isLoopback || v6.s0 &&& 0xfe00 = 0xfc00 ||
      v6.s0 &&& 0xffc0 = 0xfe80 || v6.s0 &&& 0xffc0 = 0xfec0 || v6.isMulticast) := by
  unfold isNonPublic isNonPublicV6
  dsimp only
  rw [hipv4, decide_eq_false hnat64]
  rfl

theorem isPrivateIp_plain (hmap : v6.toIpv4Mapped = none) (hnat64 : ¬v6.front = [0x64, 0xff9b, 0, 0, 0, 0])
    (hsix : ¬v6.s0 = 0x2002) : isPrivateIp (.v6 v6) = (v6.isLoopback || v6.isUnspecified || v6.isMulticast ||
      v6.s0 &&& 0xfe00 = 0xfc00 || v6.s0 &&& 0xffc0 = 0xfe80) := by
  unfold isPrivateIp
  dsimp only
  rw [hmap]
  dsimp only
  rw [if_neg hnat64, if_neg hsix]

theorem answers_mapped (h : v6.front = [0, 0, 0, 0, 0, 0xffff]) :
    isNonPublic (.v6 v6) = isNonPublicV4 (.ofSegments v6.s6 v6.s7) ∧
      isPrivateIp (.v6 v6) = isNonPublicV4 (.ofSegments v6.s6 v6.s7) := by
  have hmap : v6.toIpv4Mapped = some (.ofSegments v6.s6 v6.s7) := if_pos h
  have hipv4 : v6.toIpv4 = some (.ofSegments v6.s6 v6.s7) := if_pos (.inr h)
  constructor
  · simp only [isNonPublic, isNonPublicV6, hipv4, Option.some_or]
  · simp only [isPrivateIp, hmap, isPrivateV4_eq]

theorem answers_compatible (h : v6.front = [0, 0, 0, 0, 0, 0]) :
    isNonPublic (.v6 v6) = isNonPublicV4 (.ofSegments v6.s6 v6.s7) ∧
      isPrivateIp (.v6 v6) = (v6.isLoopback || v6.isUnspecified) := by
  have hmap : v6.toIpv4Mapped = none := if_neg (by rw [h]; decide)
  have hipv4 : v6.toIpv4 = some (.ofSegments v6.s6 v6.s7) := if_pos (.inl h)
  have hzero : v6.s0 = 0 := by
    have hhead := congrArg List.head? h
    exact Option.some.inj hhead
  constructor
  · simp only [isNonPublic, isNonPublicV6, hipv4, Option.some_or]
  · have hnat64 : ¬v6.front = [0x64, 0xff9b, 0, 0, 0, 0] := by
      rw [h]
      decide
    have hsix : ¬v6.s0 = 0x2002 := by
      rw [hzero]
      decide
    rw [isPrivateIp_plain hmap hnat64 hsix, Ipv6Addr.isMulticast, hzero]
    exact (Bool.or_false _).trans ((Bool.or_false _).trans (Bool.or_false _))

theorem answers_nat64 (h : v6.front = [0x64, 0xff9b, 0, 0, 0, 0]) :
    isNonPublic (.v6 v6) = isNonPublicV4 (.ofSegments v6.s6 v6.s7) ∧
      isPrivateIp (.v6 v6) = isNonPublicV4 (.ofSegments v6.s6 v6.s7) := by
  have hmap : v6.toIpv4Mapped = none := if_neg (by rw [h]; decide)
  have hipv4 : v6.toIpv4 = none := if_neg (by rw [h]; decide)
  constructor
  · simp [isNonPublic, isNonPublicV6, hipv4, h, Ipv4Addr.ofBits_segments]
  · simp only [isPrivateIp, hmap, if_pos h, Ipv4Addr.ofBits_segments, isPrivateV4_eq]

/-- No other spelling begins as 6to4 does. -/
theorem answers_sixToFour (h : v6.s0 = 0x2002) :
    isNonPublic (.v6 v6) = false ∧ isPrivateIp (.v6 v6) = isNonPublicV4 (.ofSegments v6.s1 v6.s2) := by
  have hfrt : ∀ s rest, s ≠ 0x2002 → v6.front ≠ s :: rest := by
    intro s rest hs heq
    obtain ⟨hhead, -⟩ := List.cons_eq_cons.mp heq
    exact hs (hhead.symm.trans h)
  have hmap : v6.toIpv4Mapped = none := if_neg (hfrt _ _ (by decide))
  have hipv4 : v6.toIpv4 = none := if_neg (not_or.mpr ⟨hfrt _ _ (by decide), hfrt _ _ (by decide)⟩)
  have hnat64 := hfrt 0x64 [0xff9b, 0, 0, 0, 0] (by decide)
  have hpln : v6.isUnspecified = false ∧ v6.isLoopback = false ∧ v6.isMulticast = false := by
    refine ⟨decide_eq_false fun heq => ?_, decide_eq_false fun heq => ?_, ?_⟩
    · rw [heq] at h
      revert h
      decide
    · rw [heq] at h
      revert h
      decide
    · unfold Ipv6Addr.isMulticast
      rw [h]
      decide
  constructor
  · rw [isNonPublic_plain hipv4 hnat64, hpln.1, hpln.2.1, hpln.2.2, h]
    decide
  · simp only [isPrivateIp, hmap, if_neg hnat64, if_pos h, Ipv4Addr.ofBits_segments, isPrivateV4_eq]

/-- Elsewhere site-local addresses are all that the filters differ in. -/
theorem answers_other (hmap : v6.front ≠ [0, 0, 0, 0, 0, 0xffff]) (hcompat : v6.front ≠ [0, 0, 0, 0, 0, 0])
    (hnat64 : v6.front ≠ [0x64, 0xff9b, 0, 0, 0, 0]) (hsix : v6.s0 ≠ 0x2002) :
    isNonPublic (.v6 v6) = (isPrivateIp (.v6 v6) || v6.s0 &&& 0xffc0 = 0xfec0) := by
  have hnone : v6.toIpv4Mapped = none := if_neg hmap
  have hipv4 : v6.toIpv4 = none := if_neg (not_or.mpr ⟨hcompat, hmap⟩)
  rw [isNonPublic_plain hipv4 hnat64, isPrivateIp_plain hnone hnat64 hsix, Bool.eq_iff_iff]
  simp only [Bool.or_eq_true]
  tauto

/-- The web tools let a site-local address pass, deliveries do not. -/
theorem answers_siteLocal (h : v6.s0 &&& 0xffc0 = 0xfec0) :
    isNonPublic (.v6 v6) = true ∧ isPrivateIp (.v6 v6) = false := by
  -- wider masks read the bits that this one tells
  have hmask : ∀ mask, v6.s0 &&& (0xffc0 &&& mask) = 0xfec0 &&& mask := by
    intro mask
    rw [← BitVec.and_assoc, h]
  have hunique := hmask 0xfe00
  have hmulticast := hmask 0xff00
  rw [show (0xffc0 &&& 0xfe00 : BitVec 16) = 0xfe00 by decide] at hunique
  rw [show (0xffc0 &&& 0xff00 : BitVec 16) = 0xff00 by decide] at hmulticast
  have hne : ∀ s : BitVec 16, s &&& 0xffc0 ≠ 0xfec0 → v6.s0 ≠ s := by
    rintro s hs rfl
    exact hs h
  have hzero := hne 0 (by decide)
  have hfrt : ∀ s rest, s &&& 0xffc0 ≠ 0xfec0 → v6.front ≠ s :: rest := by
    intro s rest hs heq
    exact hne s hs (List.cons_eq_cons.mp heq).1
  have hsix := hne 0x2002 (by decide)
  have hnat64 := hfrt 0x64 [0xff9b, 0, 0, 0, 0] (by decide)
  have hpriv : isPrivateIp (.v6 v6) = false := by
    have hnone : v6.toIpv4Mapped = none := if_neg (hfrt _ _ (by decide))
    have hloopback : v6.isLoopback = false := decide_eq_false fun heq => hzero (congrArg Ipv6Addr.s0 heq)
    have hunspecified : v6.isUnspecified = false := decide_eq_false fun heq => hzero (congrArg Ipv6Addr.s0 heq)
    rw [isPrivateIp_plain hnone hnat64 hsix, hloopback, hunspecified, Ipv6Addr.isMulticast, hunique, hmulticast, h]
    decide
  refine ⟨?_, hpriv⟩
  rw [answers_other (hfrt _ _ (by decide)) (hfrt _ _ (by decide)) hnat64 hsix, hpriv, h]
  rfl

/-- The filters give one answer and refuse every spelling of a refused address outside the gaps, and only there. -/
theorem refusals_agree_iff (ip : IpAddr) : RefusedAlike ip ↔ ∀ v6, ip = .v6 v6 → OutsideGaps v6 := by
  cases ip with
  | v4 v4 =>
    constructor
    · intro _ v6 heq
      cases heq
    · refine fun _ => ⟨(isPrivateV4_eq v4).symm, fun v4' v6 heq => ?_⟩
      cases heq
  | v6 v6 =>
    constructor
    · rintro ⟨hsame, -⟩ v6' heq
      obtain rfl := IpAddr.v6.inj heq
      refine ⟨fun hlocal => ?_, fun hsix => ?_, fun hcompatible hrefused => ?_⟩
      · obtain ⟨hpublic, hprivate⟩ := answers_siteLocal hlocal
        rw [hpublic, hprivate] at hsame
        cases hsame
      · obtain ⟨hpublic, hprivate⟩ := answers_sixToFour hsix
        rw [← hprivate, ← hsame, hpublic]
      · obtain ⟨hpublic, hprivate⟩ := answers_compatible hcompatible
        rw [hpublic, hprivate, hrefused, eq_comm, Bool.or_eq_true] at hsame
        exact hsame.symm
    · intro hgaps
      have houtside := hgaps v6 rfl
      refine ⟨?_, fun v4 v6' heq hspells hrefused => ?_⟩
      · by_cases hmapped : v6.front = [0, 0, 0, 0, 0, 0xffff]
        · rw [(answers_mapped hmapped).1, (answers_mapped hmapped).2]
        by_cases hcompatible : v6.front = [0, 0, 0, 0, 0, 0]
        · rw [(answers_compatible hcompatible).1, (answers_compatible hcompatible).2]
          cases hrefused : isNonPublicV4 (.ofSegments v6.s6 v6.s7) with
          | true =>
            rw [eq_comm, Bool.or_eq_true]
            exact (houtside.compatible hcompatible hrefused).symm
          | false =>
            -- the unspecified and the loopback address spell refused ones
            have hfirst : ∀ v, isNonPublicV4 (.ofSegments v.s6 v.s7) = true → decide (v6 = v) = false := by
              intro v hv
              apply decide_eq_false
              rintro rfl
              rw [hv] at hrefused
              cases hrefused
            unfold Ipv6Addr.isLoopback Ipv6Addr.isUnspecified
            rw [hfirst _ (by decide), hfirst _ (by decide)]
            rfl
        by_cases hnat64 : v6.front = [0x64, 0xff9b, 0, 0, 0, 0]
        · rw [(answers_nat64 hnat64).1, (answers_nat64 hnat64).2]
        by_cases hsix : v6.s0 = 0x2002
        · rw [(answers_sixToFour hsix).1, (answers_sixToFour hsix).2, houtside.sixToFour hsix]
        · rw [answers_other hmapped hcompatible hnat64 hsix, decide_eq_false houtside.siteLocal, Bool.or_false]
      · obtain rfl := IpAddr.v6.inj heq
        cases hspells with
        | mapped =>
          obtain ⟨hpublic, hprivate⟩ := @answers_mapped ⟨0, 0, 0, 0, 0, 0xffff, v4.a ++ v4.b, v4.c ++ v4.d⟩ rfl
          rw [hpublic, hprivate, v4.ofSegments_append]
          exact ⟨hrefused, hrefused⟩
        | compatible =>
          obtain ⟨hpublic, hprivate⟩ := @answers_compatible ⟨0, 0, 0, 0, 0, 0, v4.a ++ v4.b, v4.c ++ v4.d⟩ rfl
          have hspared := houtside.compatible rfl
          rw [v4.ofSegments_append] at hspared
          rw [hpublic, hprivate, v4.ofSegments_append, Bool.or_eq_true]
          exact ⟨hrefused, (hspared hrefused).symm⟩
        | nat64 =>
          obtain ⟨hpublic, hprivate⟩ := @answers_nat64 ⟨0x64, 0xff9b, 0, 0, 0, 0, v4.a ++ v4.b, v4.c ++ v4.d⟩ rfl
          rw [hpublic, hprivate, v4.ofSegments_append]
          exact ⟨hrefused, hrefused⟩
        | sixToFour s3 s4 s5 s6 s7 =>
          have hpassed := houtside.sixToFour rfl
          rw [v4.ofSegments_append, hrefused] at hpassed
          cases hpassed

/-- Loopback as 6to4 passes the filter of deliveries, a private address that is IPv4-compatible and a site-local one
pass that of the web tools. -/
theorem refusals_differ : ¬ ∀ ip, RefusedAlike ip := by
  intro h
  have hloopback := (h (.v6 ⟨0x2002, 0x7f00, 1, 0, 0, 0, 0, 0⟩)).1
  revert hloopback
  decide

end Adk
