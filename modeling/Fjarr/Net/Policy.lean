/-
Fjarr.Net.Policy — the packet rules at the operator's end of the tunnel
(signaling/crates/fjarr-connect: `inspect` and `check` of policy.rs,
`route_for` and `pump` of main.rs, the MTU of link.rs), and that they are
the robot's (`policy_agrees`).
-/
import Fjarr.Net.Addressing

namespace Fjarr.Net.Connect

open Lib Lib.Bytes

/-- `u32::from_be_bytes` of four bytes from `i` on. -/
def u32At (packet : Bytes) (i : Nat) : UInt32 := UInt32.ofNat (fromBE (slice i 4 packet))

/-- `u16::from_be_bytes` of two bytes from `i` on. -/
def u16At (packet : Bytes) (i : Nat) : UInt16 := UInt16.ofNat (fromBE (slice i 2 packet))

/-- `inspect`. -/
def inspect (packet : Bytes) : PacketView :=
  if packet.length < 20 ∨ byteAt packet 0 >>> 4 ≠ 4 then {}
  else
    let ihl := (byteAt packet 0 &&& 0x0f).toNat * 4
    if ihl < 20 ∨ ihl > packet.length then {}
    else
      let protocol := byteAt packet 9
      let firstFragment := u16At packet 6 &&& 0x1fff = 0
      { ipv4 := true
        protocol
        src := u32At packet 12
        dst := u32At packet 16
        dstPort :=
          if (protocol = 6 ∨ protocol = 17) ∧ firstFragment ∧ packet.length ≥ ihl + 4 then
            some (u16At packet (ihl + 2))
          else none }

/-- `check`. -/
def check (p : PacketView) (expectDst expectSrc : UInt32) : Verdict :=
  if !p.ipv4 then .notIPv4
  else if isMulticast p.dst then
    if p.src = expectSrc then .allow else .wrongSource
  else if p.dst ≠ expectDst then .wrongDestination
  else if p.src ≠ expectSrc then .wrongSource
  else .allow

inductive Route where
  | link (i : Nat)
  | all
  | nowhere
  deriving DecidableEq

/-- `route_for`, of the links to the robots at `addrs`. -/
def routeFor (view : PacketView) (addrs : List UInt32) (self : UInt32) : Route :=
  if view.src ≠ self then .nowhere
  else if isMulticast view.dst then .all
  else
    match addrs.findIdx? (· = view.dst) with
    | some i => .link i
    | none => .nowhere

/-- A packet of the device that `pump` offers to the link `i`, and the link
sends. -/
def sends (packet : Bytes) (addrs : List UInt32) (self : UInt32) (mtu i : Nat) : Bool :=
  let view := inspect packet
  let route := routeFor view addrs self
  view.ipv4 && (route = .link i || route = .all) && packet.length ≤ mtu

variable {packet : Bytes} {i : Nat}

theorem u32At_eq (hi : i + 3 < packet.length) : u32At packet i = word32 packet i := by
  rw [← UInt32.toNat_inj, word32_toNat hi]
  have hlt : field packet i 4 < 2 ^ 32 := word32_toNat hi ▸ (word32 packet i).toNat_lt
  exact UInt32.toNat_ofNat_of_lt hlt

theorem u16At_toNat (hi : i + 1 < packet.length) :
    (u16At packet i).toNat = (word16 packet i).toNat := by
  have hlt := word16_lt packet i
  rw [word16_toNat hi] at hlt ⊢
  exact UInt16.toNat_ofNat_of_lt hlt

theorem inspect_eq (packet : Bytes) : inspect packet = Net.inspect packet := by
  unfold inspect Net.inspect
  split
  · rfl
  rename_i hfirst
  have hroom : 20 ≤ packet.length := Nat.not_lt.mp (not_or.mp hfirst).1
  dsimp only
  split
  · rfl
  have hfragment : u16At packet 6 &&& 0x1fff = 0 ↔ word16 packet 6 &&& 0x1fff = 0 := by
    rw [and_offset, ← u16At_toNat (by omega), ← UInt16.toNat_inj, UInt16.toNat_and]
    exact (Nat.and_two_pow_sub_one_eq_mod _ 13) ▸ Iff.rfl
  rw [u32At_eq (by omega), u32At_eq (by omega)]
  simp only [hfragment]
  congr 1
  split
  · rename_i hport
    congr 1
    rw [← UInt16.toNat_inj, u16At_toNat (by omega), UInt32.toNat_toUInt16,
      Nat.mod_eq_of_lt (word16_lt ..)]
  · rfl

/-- Without a port list, both ends judge it alike. -/
theorem check_eq (p : PacketView) (expectDst expectSrc : UInt32) :
    check p expectDst expectSrc = Net.check p expectDst expectSrc [] := rfl

/-- **Robot and operator apply the same policy**: without a port list, the
robot accepts what the operator's end sends, and that accepts from the robot
what the robot's rules let out. -/
theorem policy_agrees (packet : Bytes) (operator robot : UInt32) (mtu : Nat) :
    (packet.length ≤ mtu ∧ Net.check (Net.inspect packet) robot operator [] = .allow ↔
      sends packet [robot] operator mtu 0 = true) ∧
    (check (inspect packet) operator robot = .allow ↔
      Net.check (Net.inspect packet) operator robot [] = .allow) := by
  rw [inspect_eq, check_eq, sends, inspect_eq]
  refine ⟨?_, Iff.rfl⟩
  cases hipv4 : (Net.inspect packet).ipv4 with
  | false => simp [Net.check, hipv4]
  | true =>
    by_cases hsrc : (Net.inspect packet).src = operator
    · cases hmulticast : isMulticast (Net.inspect packet).dst with
      | true => simp [Net.check, routeFor, hipv4, hsrc, hmulticast]
      | false =>
        by_cases hdst : (Net.inspect packet).dst = robot
        · simp [Net.check, routeFor, hipv4, hsrc, hdst]
        · simp [Net.check, routeFor, hipv4, hsrc, hmulticast, hdst, Ne.symm hdst]
    · have hrefused : Net.check (Net.inspect packet) robot operator [] ≠ .allow := by
        rw [Ne, check_allow_iff]
        rintro ⟨hfits, hsource, -⟩
        exact hsrc (UInt32.toNat_inj.mp ((inspect_spec hfits).2.1.trans hsource))
      simp [routeFor, hsrc, hrefused]

end Fjarr.Net.Connect
