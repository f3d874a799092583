import Mathlib.Tactic.Common

/-!
How long a security association lives in `vpn/lib/Se/SeSec.c`. Three of the limits are multiplied in 32 bits
before they are compared in 64.
-/

namespace DisasVisor.Vpn.Lifetimes

structure Config where
  vpnPhase1LifeKilobytes : UInt32
  vpnPhase1LifeSeconds : UInt32
  vpnPhase2LifeKilobytes : UInt32
  vpnPhase2LifeSeconds : UInt32
  vpnConnectTimeout : UInt32
  vpnIdleTimeout : UInt32

structure IkeSa where
  established : Bool
  deleteNow : Bool
  transferBytes : UInt64
  connectTimeoutTick : UInt64
  lastCommTick : UInt64
  phase1EstablishedTick : UInt64

structure IpsecSa where
  transferBytes : UInt64
  establishedTick : UInt64

inductive Expiry
  | lifeKilobytesOver
  | lifeSecondsExpired
  | deleteNow
  | connectionTimeout
  | idleTimeout
  deriving DecidableEq

def seSecLifeSeconds64bit (value : UInt32) : UInt64 :=
  let ret := value.toUInt64 * 1000
  if ret ≥ 1000 then ret - 800 else ret

def checkSaExpires (lifeKilobytes lifeSeconds : UInt32) (transferBytes establishedTick tick : UInt64) : Option Expiry :=
  if lifeKilobytes ≠ 0 ∧ transferBytes ≥ (lifeKilobytes * 1024).toUInt64 then some .lifeKilobytesOver
  else if lifeSeconds ≠ 0 ∧ establishedTick ≠ 0 ∧ seSecLifeSeconds64bit lifeSeconds + establishedTick ≤ tick then
    some .lifeSecondsExpired
  else none

def seSecCheckIkeSaExpires (config : Config) (tick : UInt64) (sa : IkeSa) : Option Expiry :=
  checkSaExpires config.vpnPhase1LifeKilobytes config.vpnPhase1LifeSeconds sa.transferBytes
    sa.phase1EstablishedTick tick

def seSecCheckIPsecSaExpires (config : Config) (tick : UInt64) (sa : IpsecSa) : Option Expiry :=
  checkSaExpires config.vpnPhase2LifeKilobytes config.vpnPhase2LifeSeconds sa.transferBytes sa.establishedTick tick

def expiries (config : Config) (tick : UInt64) (sa : IkeSa) : List Expiry :=
  if sa.deleteNow then [.deleteNow]
  else if ¬sa.established then
    if sa.connectTimeoutTick ≤ tick then [.connectionTimeout] else []
  else
    (if config.vpnIdleTimeout ≠ 0 ∧ (config.vpnIdleTimeout * 1000).toUInt64 + sa.lastCommTick ≤ tick then
      [.idleTimeout] else []) ++ (seSecCheckIkeSaExpires config tick sa).toList

def seSecDeleteExpiredIkeSa (config : Config) (tick : UInt64) (ikeSaList : List IkeSa) : List IkeSa :=
  ikeSaList.filter fun sa => expiries config tick sa ≠ []

def seSecDeleteExpiredIPsecSa (config : Config) (tick : UInt64) (ipsecSaList : List IpsecSa) : List IpsecSa :=
  ipsecSaList.filter fun sa => seSecCheckIPsecSaExpires config tick sa ≠ none

def newIkeSa (config : Config) (tick : UInt64) : IkeSa where
  established := false
  deleteNow := false
  transferBytes := 0
  connectTimeoutTick := tick + (config.vpnConnectTimeout * 1000).toUInt64
  lastCommTick := 0
  phase1EstablishedTick := 0

def VolumeOver (kilobytes : UInt32) (transferBytes : UInt64) : Prop :=
  kilobytes ≠ 0 ∧ kilobytes.toNat * 1024 ≤ transferBytes.toNat

def TimeOver (seconds : UInt32) (established now : UInt64) : Prop :=
  seconds ≠ 0 ∧ established ≠ 0 ∧ established.toNat + (seconds.toNat * 1000 - 800) ≤ now.toNat

def IdleOver (seconds : UInt32) (lastComm now : UInt64) : Prop :=
  seconds ≠ 0 ∧ lastComm.toNat + seconds.toNat * 1000 ≤ now.toNat

def ConnectOver (seconds : UInt32) (started now : UInt64) : Prop := started.toNat + seconds.toNat * 1000 ≤ now.toNat

structure Live (sa : IkeSa) (established lastComm : UInt64) : Prop where
  connected : sa.established = true
  stays : sa.deleteNow = false
  tick : sa.phase1EstablishedTick = established
  comm : sa.lastCommTick = lastComm

structure IkeExact (config : Config) (established lastComm : UInt64) : Prop where
  volume : ∀ sa now, Live sa established lastComm →
    (.lifeKilobytesOver ∈ expiries config now sa ↔ VolumeOver config.vpnPhase1LifeKilobytes sa.transferBytes)
  time : ∀ sa now, Live sa established lastComm → ¬VolumeOver config.vpnPhase1LifeKilobytes sa.transferBytes →
    (.lifeSecondsExpired ∈ expiries config now sa ↔ TimeOver config.vpnPhase1LifeSeconds established now)
  idle : ∀ sa now, Live sa established lastComm →
    (.idleTimeout ∈ expiries config now sa ↔ IdleOver config.vpnIdleTimeout lastComm now)

structure IpsecExact (config : Config) (established : UInt64) : Prop where
  volume : ∀ sa now, sa.establishedTick = established →
    (seSecCheckIPsecSaExpires config now sa = some .lifeKilobytesOver ↔
      VolumeOver config.vpnPhase2LifeKilobytes sa.transferBytes)
  time : ∀ sa now, sa.establishedTick = established → ¬VolumeOver config.vpnPhase2LifeKilobytes sa.transferBytes →
    (seSecCheckIPsecSaExpires config now sa = some .lifeSecondsExpired ↔
      TimeOver config.vpnPhase2LifeSeconds established now)

def ConnectExact (config : Config) (started : UInt64) : Prop :=
  ∀ now, .connectionTimeout ∈ expiries config now (newIkeSa config started) ↔
    ConnectOver config.vpnConnectTimeout started now

theorem narrow_sum_iff (tick seconds : Nat) :
    (tick + seconds * 1000 % 4294967296) % 18446744073709551616 = tick + seconds * 1000 ↔
      seconds * 1000 < 4294967296 ∧ tick + seconds * 1000 < 18446744073709551616 := by
  have narrow := Nat.mod_le (seconds * 1000) 4294967296
  have wide := Nat.mod_le (tick + seconds * 1000 % 4294967296) 18446744073709551616
  constructor
  · intro same
    omega
  · rintro ⟨small, fits⟩
    rw [Nat.mod_eq_of_lt small, Nat.mod_eq_of_lt fits]

theorem threshold_iff (value : UInt64) (exact : Nat) :
    (∀ x : UInt64, value ≤ x ↔ exact ≤ x.toNat) ↔ value.toNat = exact := by
  constructor
  · intro compares
    have le := (compares value).mp (UInt64.le_refl value)
    have bound := value.toNat_lt
    have own : (UInt64.ofNat exact).toNat = exact := UInt64.toNat_ofNat_of_lt' (by change _ < 18446744073709551616; omega)
    have ge := (compares (UInt64.ofNat exact)).mpr (by omega)
    rw [UInt64.le_iff_toNat_le, own] at ge
    omega
  · intro same x
    rw [UInt64.le_iff_toNat_le, same]

theorem toNat_product (value factor : UInt32) :
    (value * factor).toUInt64.toNat = value.toNat * factor.toNat % 4294967296 := by
  rw [UInt32.toNat_toUInt64, UInt32.toNat_mul]

theorem volume_iff (kilobytes : UInt32) :
    (∀ bytes : UInt64, kilobytes ≠ 0 ∧ bytes ≥ (kilobytes * 1024).toUInt64 ↔ VolumeOver kilobytes bytes) ↔
      kilobytes.toNat * 1024 < 4294967296 := by
  have product : (kilobytes * 1024).toUInt64.toNat = kilobytes.toNat * 1024 % 4294967296 := toNat_product kilobytes 1024
  have threshold := threshold_iff (kilobytes * 1024).toUInt64 (kilobytes.toNat * 1024)
  by_cases off : kilobytes = 0
  · subst off
    simp [VolumeOver]
  · simp only [VolumeOver, off, not_false_eq_true, true_and, ne_eq, ge_iff_le]
    rw [threshold]
    omega

theorem lifeSeconds_toNat (seconds : UInt32) : (seSecLifeSeconds64bit seconds).toNat = seconds.toNat * 1000 - 800 := by
  have bound := seconds.toNat_lt
  have thousand : (1000 : UInt64).toNat = 1000 := rfl
  have product : (seconds.toUInt64 * 1000).toNat = seconds.toNat * 1000 := by
    rw [UInt64.toNat_mul, UInt32.toNat_toUInt64, thousand]
    omega
  simp only [seSecLifeSeconds64bit]
  split
  · rename_i large
    rw [ge_iff_le, UInt64.le_iff_toNat_le, product, thousand] at large
    have eight : (800 : UInt64).toNat = 800 := rfl
    rw [UInt64.toNat_sub_of_le _ _ (by rw [UInt64.le_iff_toNat_le, product, eight]; omega), product, eight]
  · rename_i small
    rw [ge_iff_le, UInt64.le_iff_toNat_le, product, thousand] at small
    omega

theorem sum_iff (left right : UInt64) :
    (left + right).toNat = right.toNat + left.toNat ↔ right.toNat + left.toNat < 18446744073709551616 := by
  rw [UInt64.toNat_add]
  omega

theorem time_iff (seconds : UInt32) (established : UInt64) :
    (∀ now : UInt64, seconds ≠ 0 ∧ established ≠ 0 ∧ seSecLifeSeconds64bit seconds + established ≤ now ↔
        TimeOver seconds established now) ↔
      established.toNat + (seconds.toNat * 1000 - 800) < 18446744073709551616 := by
  have bound := established.toNat_lt
  have most := seconds.toNat_lt
  have threshold := threshold_iff (seSecLifeSeconds64bit seconds + established)
    (established.toNat + (seconds.toNat * 1000 - 800))
  have sum := sum_iff (seSecLifeSeconds64bit seconds) established
  rw [lifeSeconds_toNat] at sum
  by_cases off : seconds = 0
  · subst off
    simp only [TimeOver, ne_eq, not_true_eq_false, false_and, iff_self, implies_true, true_iff]
    exact bound
  · by_cases never : established = 0
    · subst never
      have zero := UInt64.toNat_zero
      simp only [TimeOver, ne_eq, not_true_eq_false, false_and, and_false, iff_self, implies_true, true_iff]
      omega
    · simp only [TimeOver, off, never, not_false_eq_true, true_and, ne_eq]
      rw [threshold, sum]

theorem idle_iff (seconds : UInt32) (lastComm : UInt64) :
    (∀ now : UInt64, seconds ≠ 0 ∧ (seconds * 1000).toUInt64 + lastComm ≤ now ↔ IdleOver seconds lastComm now) ↔
      seconds.toNat * 1000 < 4294967296 ∧ lastComm.toNat + seconds.toNat * 1000 < 18446744073709551616 := by
  have product : (seconds * 1000).toUInt64.toNat = seconds.toNat * 1000 % 4294967296 := toNat_product seconds 1000
  have bound := lastComm.toNat_lt
  have threshold := threshold_iff ((seconds * 1000).toUInt64 + lastComm) (lastComm.toNat + seconds.toNat * 1000)
  by_cases off : seconds = 0
  · subst off
    have zero := UInt32.toNat_zero
    simp only [IdleOver, ne_eq, not_true_eq_false, false_and, iff_self, implies_true, true_iff]
    omega
  · simp only [IdleOver, off, not_false_eq_true, true_and, ne_eq]
    rw [threshold, UInt64.toNat_add, product, Nat.add_comm]
    exact narrow_sum_iff lastComm.toNat seconds.toNat

theorem connect_iff (seconds : UInt32) (started : UInt64) :
    (∀ now : UInt64, started + (seconds * 1000).toUInt64 ≤ now ↔ ConnectOver seconds started now) ↔
      seconds.toNat * 1000 < 4294967296 ∧ started.toNat + seconds.toNat * 1000 < 18446744073709551616 := by
  have product : (seconds * 1000).toUInt64.toNat = seconds.toNat * 1000 % 4294967296 := toNat_product seconds 1000
  have threshold := threshold_iff (started + (seconds * 1000).toUInt64) (started.toNat + seconds.toNat * 1000)
  simp only [ConnectOver]
  rw [threshold, UInt64.toNat_add, product]
  exact narrow_sum_iff started.toNat seconds.toNat

variable {lifeKilobytes lifeSeconds : UInt32} {transferBytes established lastComm tick : UInt64} {config : Config}
  {sa : IkeSa}

theorem check_volume : checkSaExpires lifeKilobytes lifeSeconds transferBytes established tick =
    some .lifeKilobytesOver ↔ lifeKilobytes ≠ 0 ∧ transferBytes ≥ (lifeKilobytes * 1024).toUInt64 := by
  rw [checkSaExpires]
  split
  · rename_i past
    simp only [true_iff]
    exact past
  · rename_i under
    split
    · simp only [Option.some.injEq, reduceCtorEq, false_iff]
      exact under
    · simp only [reduceCtorEq, false_iff]
      exact under

theorem check_time (under : ¬(lifeKilobytes ≠ 0 ∧ transferBytes ≥ (lifeKilobytes * 1024).toUInt64)) :
    checkSaExpires lifeKilobytes lifeSeconds transferBytes established tick = some .lifeSecondsExpired ↔
      lifeSeconds ≠ 0 ∧ established ≠ 0 ∧ seSecLifeSeconds64bit lifeSeconds + established ≤ tick := by
  rw [checkSaExpires, if_neg under]
  split
  · rename_i expired
    simp only [true_iff]
    exact expired
  · rename_i left
    simp only [reduceCtorEq, false_iff]
    exact left

theorem check_cases {why : Expiry}
    (found : checkSaExpires lifeKilobytes lifeSeconds transferBytes established tick = some why) :
    why = .lifeKilobytesOver ∨ why = .lifeSecondsExpired := by
  rw [checkSaExpires] at found
  split at found
  · exact .inl (Option.some.inj found).symm
  · split at found
    · exact .inr (Option.some.inj found).symm
    · cases found

section

variable (live : Live sa established lastComm)
include live

theorem expiries_live : expiries config tick sa =
    (if config.vpnIdleTimeout ≠ 0 ∧ (config.vpnIdleTimeout * 1000).toUInt64 + lastComm ≤ tick then
      [.idleTimeout] else []) ++
    (checkSaExpires config.vpnPhase1LifeKilobytes config.vpnPhase1LifeSeconds sa.transferBytes established
      tick).toList := by
  rw [expiries, live.stays, live.connected, live.comm, seSecCheckIkeSaExpires, live.tick]
  rfl

theorem mem_expiries_check {why : Expiry} (other : why ≠ .idleTimeout) :
    why ∈ expiries config tick sa ↔ checkSaExpires config.vpnPhase1LifeKilobytes config.vpnPhase1LifeSeconds
      sa.transferBytes established tick = some why := by
  rw [expiries_live live, List.mem_append, Option.mem_toList]
  constructor
  · rintro (idle | found)
    · split at idle
      · exact absurd (List.mem_singleton.mp idle) other
      · cases idle
    · exact found
  · exact .inr

theorem mem_expiries_idle :
    .idleTimeout ∈ expiries config tick sa ↔
      config.vpnIdleTimeout ≠ 0 ∧ (config.vpnIdleTimeout * 1000).toUInt64 + lastComm ≤ tick := by
  rw [expiries_live live, List.mem_append, Option.mem_toList]
  constructor
  · rintro (idle | found)
    · split at idle
      · assumption
      · cases idle
    · rcases check_cases found with is | is
      · cases is
      · cases is
  · intro past
    rw [if_pos past]
    exact .inl (List.mem_singleton.mpr rfl)

end

def liveSa (established lastComm transferBytes : UInt64) : IkeSa where
  established := true
  deleteNow := false
  transferBytes := transferBytes
  connectTimeoutTick := 0
  lastCommTick := lastComm
  phase1EstablishedTick := established

theorem live_liveSa (established lastComm transferBytes : UInt64) :
    Live (liveSa established lastComm transferBytes) established lastComm := ⟨rfl, rfl, rfl, rfl⟩

theorem not_volumeOver_zero (kilobytes : UInt32) : ¬VolumeOver kilobytes 0 := by
  rintro ⟨some', past⟩
  have zero := UInt64.toNat_zero
  have none' : kilobytes.toNat = 0 := by omega
  exact some' (UInt32.toNat_inj.mp none')

theorem ikeExact_iff (config : Config) (established lastComm : UInt64) : IkeExact config established lastComm ↔
    config.vpnPhase1LifeKilobytes.toNat * 1024 < 4294967296 ∧
      established.toNat + (config.vpnPhase1LifeSeconds.toNat * 1000 - 800) < 18446744073709551616 ∧
      config.vpnIdleTimeout.toNat * 1000 < 4294967296 ∧
      lastComm.toNat + config.vpnIdleTimeout.toNat * 1000 < 18446744073709551616 := by
  constructor
  · intro exact
    have volume : ∀ bytes : UInt64, config.vpnPhase1LifeKilobytes ≠ 0 ∧
        bytes ≥ (config.vpnPhase1LifeKilobytes * 1024).toUInt64 ↔ VolumeOver config.vpnPhase1LifeKilobytes bytes := by
      intro bytes
      have live := live_liveSa established lastComm bytes
      have judged := exact.volume _ 0 live
      rw [mem_expiries_check live (by decide), check_volume] at judged
      exact judged
    refine ⟨(volume_iff _).mp volume, (time_iff _ _).mp ?_, (idle_iff _ _).mp ?_⟩
    · intro now
      have live := live_liveSa established lastComm 0
      have under := not_volumeOver_zero config.vpnPhase1LifeKilobytes
      rw [← exact.time _ now live under, mem_expiries_check live (by decide), check_time]
      intro past
      exact under ((volume 0).mp past)
    · intro now
      have live := live_liveSa established lastComm 0
      rw [← exact.idle _ now live, mem_expiries_idle live]
  · rintro ⟨kilobytes, seconds, idle⟩
    have volume := (volume_iff _).mpr kilobytes
    refine ⟨?_, ?_, ?_⟩
    · intro sa now live
      rw [mem_expiries_check live (by decide), check_volume]
      exact volume _
    · intro sa now live under
      rw [mem_expiries_check live (by decide), check_time (fun past => under ((volume _).mp past))]
      exact (time_iff _ _).mpr seconds now
    · intro sa now live
      rw [mem_expiries_idle live]
      exact (idle_iff _ _).mpr idle now

theorem ipsecExact_iff (config : Config) (established : UInt64) : IpsecExact config established ↔
    config.vpnPhase2LifeKilobytes.toNat * 1024 < 4294967296 ∧
      established.toNat + (config.vpnPhase2LifeSeconds.toNat * 1000 - 800) < 18446744073709551616 := by
  constructor
  · intro exact
    have volume : ∀ bytes : UInt64, config.vpnPhase2LifeKilobytes ≠ 0 ∧
        bytes ≥ (config.vpnPhase2LifeKilobytes * 1024).toUInt64 ↔ VolumeOver config.vpnPhase2LifeKilobytes bytes := by
      intro bytes
      rw [← exact.volume ⟨bytes, established⟩ 0 rfl, seSecCheckIPsecSaExpires, check_volume]
    refine ⟨(volume_iff _).mp volume, (time_iff _ _).mp ?_⟩
    intro now
    have under := not_volumeOver_zero config.vpnPhase2LifeKilobytes
    rw [← exact.time ⟨0, established⟩ now rfl under, seSecCheckIPsecSaExpires, check_time]
    intro past
    exact under ((volume 0).mp past)
  · rintro ⟨kilobytes, seconds⟩
    have volume := (volume_iff _).mpr kilobytes
    refine ⟨?_, ?_⟩
    · intro sa now _
      rw [seSecCheckIPsecSaExpires, check_volume]
      exact volume _
    · intro sa now same under
      rw [seSecCheckIPsecSaExpires, check_time (fun past => under ((volume _).mp past)), same]
      exact (time_iff _ _).mpr seconds now

theorem connectExact_iff (config : Config) (started : UInt64) : ConnectExact config started ↔
    config.vpnConnectTimeout.toNat * 1000 < 4294967296 ∧
      started.toNat + config.vpnConnectTimeout.toNat * 1000 < 18446744073709551616 := by
  rw [← connect_iff, ConnectExact]
  have member : ∀ now, .connectionTimeout ∈ expiries config now (newIkeSa config started) ↔
      started + (config.vpnConnectTimeout * 1000).toUInt64 ≤ now := by
    intro now
    have judged : expiries config now (newIkeSa config started) =
        if started + (config.vpnConnectTimeout * 1000).toUInt64 ≤ now then [.connectionTimeout] else [] := rfl
    rw [judged]
    split
    · rename_i past
      simp only [List.mem_singleton, true_iff]
      exact past
    · rename_i left
      simp only [List.not_mem_nil, false_iff]
      exact left
  simp only [member]

def Raises (before after : UInt32) : Prop := after = 0 ∨ before ≠ 0 ∧ before ≤ after

structure Config.Raises (before after : Config) : Prop where
  kilobytes1 : Lifetimes.Raises before.vpnPhase1LifeKilobytes after.vpnPhase1LifeKilobytes
  seconds1 : Lifetimes.Raises before.vpnPhase1LifeSeconds after.vpnPhase1LifeSeconds
  kilobytes2 : Lifetimes.Raises before.vpnPhase2LifeKilobytes after.vpnPhase2LifeKilobytes
  seconds2 : Lifetimes.Raises before.vpnPhase2LifeSeconds after.vpnPhase2LifeSeconds
  idle : Lifetimes.Raises before.vpnIdleTimeout after.vpnIdleTimeout
  connect : before.vpnConnectTimeout ≤ after.vpnConnectTimeout

variable {before after : UInt32} {now : UInt64}

theorem Raises.le (raises : Raises before after) (some' : after ≠ 0) : before ≠ 0 ∧ before.toNat ≤ after.toNat := by
  rcases raises with none' | ⟨least, le⟩
  · exact absurd none' some'
  · exact ⟨least, UInt32.le_iff_toNat_le.mp le⟩

theorem VolumeOver.lower (past : VolumeOver after transferBytes) (raises : Raises before after) :
    VolumeOver before transferBytes := by
  obtain ⟨some', reached⟩ := past
  obtain ⟨least, le⟩ := raises.le some'
  exact ⟨least, Nat.le_trans (Nat.mul_le_mul_right 1024 le) reached⟩

theorem TimeOver.lower (past : TimeOver after established now) (raises : Raises before after) :
    TimeOver before established now := by
  obtain ⟨some', tick, reached⟩ := past
  obtain ⟨least, le⟩ := raises.le some'
  have shorter := Nat.sub_le_sub_right (Nat.mul_le_mul_right 1000 le) 800
  exact ⟨least, tick, Nat.le_trans (Nat.add_le_add_left shorter _) reached⟩

theorem IdleOver.lower (past : IdleOver after lastComm now) (raises : Raises before after) :
    IdleOver before lastComm now := by
  obtain ⟨some', reached⟩ := past
  obtain ⟨least, le⟩ := raises.le some'
  exact ⟨least, Nat.le_trans (Nat.add_le_add_left (Nat.mul_le_mul_right 1000 le) _) reached⟩

theorem expires_iff (exact : IkeExact config established lastComm) (live : Live sa established lastComm) :
    (∃ why, why ∈ expiries config now sa) ↔
      VolumeOver config.vpnPhase1LifeKilobytes sa.transferBytes ∨
        TimeOver config.vpnPhase1LifeSeconds established now ∨ IdleOver config.vpnIdleTimeout lastComm now := by
  constructor
  · rintro ⟨why, found⟩
    by_cases idle : why = .idleTimeout
    · rw [idle] at found
      exact .inr (.inr ((exact.idle sa now live).mp found))
    · by_cases past : VolumeOver config.vpnPhase1LifeKilobytes sa.transferBytes
      · exact .inl past
      · rcases check_cases ((mem_expiries_check live idle).mp found) with is | is
        · rw [is] at found
          exact .inl ((exact.volume sa now live).mp found)
        · rw [is] at found
          exact .inr (.inl ((exact.time sa now live past).mp found))
  · intro limits
    by_cases past : VolumeOver config.vpnPhase1LifeKilobytes sa.transferBytes
    · exact ⟨_, (exact.volume sa now live).mpr past⟩
    · rcases limits with volume | time | idle
      · exact absurd volume past
      · exact ⟨_, (exact.time sa now live past).mpr time⟩
      · exact ⟨_, (exact.idle sa now live).mpr idle⟩

theorem expires_lower {config' : Config} (exact : IkeExact config established lastComm)
    (exact' : IkeExact config' established lastComm) (raises : config.Raises config')
    (live : Live sa established lastComm) (expired : ∃ why, why ∈ expiries config' now sa) :
    ∃ why, why ∈ expiries config now sa := by
  rcases (expires_iff exact' live).mp expired with volume | time | idle
  · exact (expires_iff exact live).mpr (.inl (volume.lower raises.kilobytes1))
  · exact (expires_iff exact live).mpr (.inr (.inl (time.lower raises.seconds1)))
  · exact (expires_iff exact live).mpr (.inr (.inr (idle.lower raises.idle)))

structure Narrow (config : Config) (established lastComm ipsecEstablished started : UInt64) : Prop where
  kilobytes1 : config.vpnPhase1LifeKilobytes.toNat * 1024 < 4294967296
  kilobytes2 : config.vpnPhase2LifeKilobytes.toNat * 1024 < 4294967296
  idle : config.vpnIdleTimeout.toNat * 1000 < 4294967296
  connect : config.vpnConnectTimeout.toNat * 1000 < 4294967296
  tick1 : established.toNat + (config.vpnPhase1LifeSeconds.toNat * 1000 - 800) < 18446744073709551616
  tick2 : ipsecEstablished.toNat + (config.vpnPhase2LifeSeconds.toNat * 1000 - 800) < 18446744073709551616
  idleTick : lastComm.toNat + config.vpnIdleTimeout.toNat * 1000 < 18446744073709551616
  connectTick : started.toNat + config.vpnConnectTimeout.toNat * 1000 < 18446744073709551616

theorem Narrow.exact {ipsecEstablished started : UInt64}
    (narrow : Narrow config established lastComm ipsecEstablished started) :
    IkeExact config established lastComm ∧ IpsecExact config ipsecEstablished ∧ ConnectExact config started :=
  ⟨(ikeExact_iff _ _ _).mpr ⟨narrow.kilobytes1, narrow.tick1, narrow.idle, narrow.idleTick⟩,
    (ipsecExact_iff _ _).mpr ⟨narrow.kilobytes2, narrow.tick2⟩,
    (connectExact_iff _ _).mpr ⟨narrow.connect, narrow.connectTick⟩⟩

variable {ipsecEstablished started : UInt64} {lower : Config}

theorem ipsec_expires_iff (exact : IpsecExact config ipsecEstablished) {sa : IpsecSa}
    (same : sa.establishedTick = ipsecEstablished) :
    seSecCheckIPsecSaExpires config now sa ≠ none ↔
      VolumeOver config.vpnPhase2LifeKilobytes sa.transferBytes ∨
        TimeOver config.vpnPhase2LifeSeconds ipsecEstablished now := by
  constructor
  · intro expired
    by_cases past : VolumeOver config.vpnPhase2LifeKilobytes sa.transferBytes
    · exact .inl past
    · obtain ⟨why, found⟩ := Option.ne_none_iff_exists'.mp expired
      rcases check_cases found with is | is
      · rw [is] at found
        exact .inl ((exact.volume sa now same).mp found)
      · rw [is] at found
        exact .inr ((exact.time sa now same past).mp found)
  · intro limits none'
    by_cases past : VolumeOver config.vpnPhase2LifeKilobytes sa.transferBytes
    · rw [(exact.volume sa now same).mpr past] at none'
      cases none'
    · rw [(exact.time sa now same past).mpr (limits.resolve_left past)] at none'
      cases none'

theorem ipsec_expires_lower (exact : IpsecExact lower ipsecEstablished) (exact' : IpsecExact config ipsecEstablished)
    (raises : lower.Raises config) {sa : IpsecSa} (same : sa.establishedTick = ipsecEstablished)
    (expired : seSecCheckIPsecSaExpires config now sa ≠ none) : seSecCheckIPsecSaExpires lower now sa ≠ none := by
  rcases (ipsec_expires_iff exact' same).mp expired with volume | time
  · exact (ipsec_expires_iff exact same).mpr (.inl (volume.lower raises.kilobytes2))
  · exact (ipsec_expires_iff exact same).mpr (.inr (time.lower raises.seconds2))

/-- The limits are exact when nothing wraps around, and then raising one lets no SA expire earlier. -/
theorem lifetimes_exact (config : Config) (established lastComm ipsecEstablished started : UInt64) :
    (IkeExact config established lastComm ∧ IpsecExact config ipsecEstablished ∧ ConnectExact config started ↔
      Narrow config established lastComm ipsecEstablished started) ∧
    ∀ lower : Config, Narrow lower established lastComm ipsecEstablished started →
      Narrow config established lastComm ipsecEstablished started → lower.Raises config → ∀ now,
        (∀ sa, Live sa established lastComm →
          (∃ why, why ∈ expiries config now sa) → ∃ why, why ∈ expiries lower now sa) ∧
        (∀ sa : IpsecSa, sa.establishedTick = ipsecEstablished →
          seSecCheckIPsecSaExpires config now sa ≠ none → seSecCheckIPsecSaExpires lower now sa ≠ none) ∧
        (.connectionTimeout ∈ expiries config now (newIkeSa config started) →
          .connectionTimeout ∈ expiries lower now (newIkeSa lower started)) := by
  refine ⟨⟨?_, Narrow.exact⟩, ?_⟩
  · rintro ⟨ike, ipsec, connect⟩
    obtain ⟨kilobytes1, tick1, idle, idleTick⟩ := (ikeExact_iff _ _ _).mp ike
    obtain ⟨kilobytes2, tick2⟩ := (ipsecExact_iff _ _).mp ipsec
    obtain ⟨timeout, connectTick⟩ := (connectExact_iff _ _).mp connect
    exact ⟨kilobytes1, kilobytes2, idle, timeout, tick1, tick2, idleTick, connectTick⟩
  · intro lower narrow narrow' raises now
    obtain ⟨ike, ipsec, connect⟩ := narrow.exact
    obtain ⟨ike', ipsec', connect'⟩ := narrow'.exact
    refine ⟨fun sa live => expires_lower ike ike' raises live,
      fun sa same => ipsec_expires_lower ipsec ipsec' raises same, ?_⟩
    intro expired
    have reached : ConnectOver config.vpnConnectTimeout started now := (connect' now).mp expired
    have le := Nat.mul_le_mul_right 1000 (UInt32.le_iff_toNat_le.mp raises.connect)
    exact (connect now).mpr (Nat.le_trans (Nat.add_le_add_left le _) reached)

def sampleConfig (lifeKilobytes : UInt32) : Config where
  vpnPhase1LifeKilobytes := lifeKilobytes
  vpnPhase1LifeSeconds := 7200
  vpnPhase2LifeKilobytes := 0
  vpnPhase2LifeSeconds := 7200
  vpnConnectTimeout := 5
  vpnIdleTimeout := 300

theorem lifetimes_exact_sample : .lifeSecondsExpired ∈ expiries (sampleConfig 1) 7200200 (liveSa 1000 7000000 0) :=
  (((lifetimes_exact (sampleConfig 1) 1000 7000000 1000 0).1.mpr
    ⟨by decide, by decide, by decide, by decide, by decide, by decide, by decide, by decide⟩).1.time _ 7200200
      (live_liveSa 1000 7000000 0) (not_volumeOver_zero 1)).mpr ⟨by decide, by decide, by decide⟩

/-- 4 GiB: the product is 0, and an SA that has carried nothing is expired at once; under a limit of
1 KiB it is not. -/
theorem lifetime_wraps :
    ¬(.lifeKilobytesOver ∈ expiries (sampleConfig 4194304) 2000 (liveSa 1000 1000 0) ↔
      VolumeOver 4194304 0) ∧
    expiries (sampleConfig 4194304) 2000 (liveSa 1000 1000 0) = [.lifeKilobytesOver] ∧
    expiries (sampleConfig 1) 2000 (liveSa 1000 1000 0) = [] := by
  refine ⟨?_, by decide, by decide⟩
  intro exact
  exact not_volumeOver_zero 4194304 (exact.mp (by decide))

end DisasVisor.Vpn.Lifetimes
