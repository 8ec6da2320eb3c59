import Sys161.Lib.Sv32
import Sys161.Riscv.DebugAccess
import Sys161.Riscv.TableRoot

/-!
# The page walk against the architecture

The walk reads the entries that the architecture prescribes, and judges the last
one of them almost as it prescribes.
-/

namespace Sys161.Riscv

open Exec
open Mips (Board Page wordIndex)

set_option autoImplicit false

variable {δ : Type} (b : Board δ) (i : Nat)

/-! ## Bits of an entry -/

def Memrwx.access : Memrwx → Sv32.Access
  | .read => .load
  | .write => .store
  | .execute => .fetch

theorem and_twoPow_ne_zero (pte : Word) {mask : Word} (k : Nat) (hk : k < 32)
    (hMask : mask = BitVec.twoPow 32 k) : (pte &&& mask ≠ 0) ↔ pte.getLsbD k = true := by
  rw [hMask, BitVec.and_twoPow]
  split
  · next hBit =>
    rw [hBit]
    have hNonzero : BitVec.twoPow 32 k ≠ 0 := by
      intro h
      have hk' := congrArg (BitVec.getLsbD · k) h
      simp [hk] at hk'
    exact iff_of_true hNonzero rfl
  · next hBit => simp [hBit]

section Bits

variable (pte : Word)

theorem and_pteV : (pte &&& pteV ≠ 0) ↔ Sv32.Pte.v pte = true :=
  and_twoPow_ne_zero pte 0 (by decide) rfl

theorem and_pteR : (pte &&& pteR ≠ 0) ↔ Sv32.Pte.r pte = true :=
  and_twoPow_ne_zero pte 1 (by decide) rfl

theorem and_pteW : (pte &&& pteW ≠ 0) ↔ Sv32.Pte.w pte = true :=
  and_twoPow_ne_zero pte 2 (by decide) rfl

theorem and_pteX : (pte &&& pteX ≠ 0) ↔ Sv32.Pte.x pte = true :=
  and_twoPow_ne_zero pte 3 (by decide) rfl

theorem and_pteU : (pte &&& pteU ≠ 0) ↔ Sv32.Pte.u pte = true :=
  and_twoPow_ne_zero pte 4 (by decide) rfl

theorem and_pteA : (pte &&& pteA ≠ 0) ↔ Sv32.Pte.a pte = true :=
  and_twoPow_ne_zero pte 6 (by decide) rfl

theorem and_pteD : (pte &&& pteD ≠ 0) ↔ Sv32.Pte.d pte = true :=
  and_twoPow_ne_zero pte 7 (by decide) rfl

theorem and_pteRWX : (pte &&& (pteR ||| pteW ||| pteX) ≠ 0) ↔
    Sv32.Pte.r pte = true ∨ Sv32.Pte.w pte = true ∨ Sv32.Pte.x pte = true := by
  rw [← and_pteR, ← and_pteW, ← and_pteX, BitVec.and_or_distrib_left,
    BitVec.and_or_distrib_left]
  simp only [ne_eq, BitVec.ofNat_eq_ofNat, BitVec.or_eq_zero_iff]
  tauto

theorem and_pteUpperPpn : (pte &&& pteUpperPpn ≠ 0) ↔ Sv32.Pte.far pte = true := by
  have hPte := pte.isLt
  have hMask : pte &&& pteUpperPpn = pte >>> 30 <<< 30 := by
    rw [BitVec.shiftLeft_ushiftRight]
    rfl
  rw [Sv32.Pte.far_iff, hMask, ne_eq, ← BitVec.toNat_inj, BitVec.toNat_shiftLeft,
    BitVec.toNat_ushiftRight, Nat.shiftRight_eq_div_pow, Nat.shiftLeft_eq]
  simp only [BitVec.ofNat_eq_ofNat, BitVec.toNat_ofNat]
  omega

theorem toNat_ppn : ((pte &&& ptePpn) <<< 2).toNat = pte.toNat / 1024 % 1048576 * 4096 := by
  have hPage : pte &&& ptePpn = ((pte &&& 0x3fffffff) >>> 10) <<< 10 := by
    rw [BitVec.shiftLeft_ushiftRight, BitVec.and_assoc]
    rfl
  have hLow : (pte &&& 0x3fffffff).toNat = pte.toNat % 1073741824 := by
    rw [BitVec.toNat_and]
    exact Nat.and_two_pow_sub_one_eq_mod _ 30
  rw [hPage, BitVec.toNat_shiftLeft, BitVec.toNat_shiftLeft, BitVec.toNat_ushiftRight, hLow,
    Nat.shiftRight_eq_div_pow, Nat.shiftLeft_eq, Nat.shiftLeft_eq]
  omega

theorem ppn_aligned : (((pte &&& ptePpn) <<< 2) &&& 0x003ff000 = 0) ↔
    Sv32.Pte.ppn0 pte = 0 := by
  have hMask : ∀ v : Word, v &&& 0x003ff000#32 = ((v &&& 0x003fffff#32) >>> 12) <<< 12 := by
    intro v
    rw [BitVec.shiftLeft_ushiftRight, BitVec.and_assoc]
    rfl
  have hLow : ∀ v : Word, (v &&& 0x003fffff#32).toNat = v.toNat % 4194304 := by
    intro v
    rw [BitVec.toNat_and]
    exact Nat.and_two_pow_sub_one_eq_mod _ 22
  change ((pte &&& ptePpn) <<< 2) &&& 0x003ff000#32 = 0 ↔ _
  rw [hMask, ← BitVec.toNat_inj, ← BitVec.toNat_inj, BitVec.toNat_shiftLeft,
    BitVec.toNat_ushiftRight, hLow, toNat_ppn, Nat.shiftRight_eq_div_pow, Nat.shiftLeft_eq,
    Sv32.Pte.ppn0, BitVec.extractLsb'_toNat, Nat.shiftRight_eq_div_pow]
  simp only [BitVec.ofNat_eq_ofNat, BitVec.toNat_ofNat]
  omega

end Bits

/-! ## Addresses -/

/-- The leaf of the code for an entry of a level. -/
def leafAt (level : Nat) (pte : Word) : Leaf := ⟨pte, level ≠ 0⟩

section Addresses

variable (pte vaddr : Word)

theorem far_iff : Sv32.Pte.far pte = true ↔ 1073741824 ≤ pte.toNat := Sv32.Pte.far_iff pte

theorem far_eq_false_iff : Sv32.Pte.far pte = false ↔ pte.toNat < 1073741824 := by
  rw [← Bool.not_eq_true, far_iff]
  omega

theorem toNat_or_offset {page offset : Word} (k n : Nat) (hPage : page.toNat = n * 2 ^ k)
    (hOffset : offset.toNat < 2 ^ k) : (page ||| offset).toNat = n * 2 ^ k + offset.toNat := by
  rw [BitVec.toNat_or, hPage, Nat.mul_comm, Nat.two_pow_add_eq_or_of_lt hOffset]

theorem toNat_superoffset : (vaddr &&& 0x003fffff).toNat = vaddr.toNat % 4194304 := by
  rw [BitVec.toNat_and]
  exact Nat.and_two_pow_sub_one_eq_mod _ 22

theorem setWidth_leafAddr {level : Nat} (hAligned : Sv32.Pte.aligned pte level = true) :
    (Sv32.leafAddr pte vaddr level).setWidth 32 =
      (leafAt level pte).base ||| (leafAt level pte).offset vaddr := by
  rw [← BitVec.toNat_inj, BitVec.toNat_setWidth]
  cases level with
  | zero =>
    have hOffset : ((leafAt 0 pte).offset vaddr).toNat = vaddr.toNat % 4096 :=
      PageBits.toNat_offset vaddr
    have hPage : (leafAt 0 pte).base.toNat = pte.toNat / 1024 % 1048576 * 2 ^ 12 := toNat_ppn pte
    rw [Sv32.toNat_leafAddr_zero, toNat_or_offset 12 _ hPage (by omega), hOffset]
    omega
  | succ level =>
    have hOffset : ((leafAt (level + 1) pte).offset vaddr).toNat = vaddr.toNat % 4194304 :=
      toNat_superoffset vaddr
    have hPpn0 : pte.toNat / 1024 % 1024 = 0 := by
      have hZero : Sv32.Pte.ppn0 pte = 0 := by simpa [Sv32.Pte.aligned] using hAligned
      rw [← BitVec.toNat_inj, Sv32.Pte.ppn0, BitVec.extractLsb'_toNat,
        Nat.shiftRight_eq_div_pow] at hZero
      exact hZero
    have hPage : (leafAt (level + 1) pte).base.toNat = pte.toNat / 1048576 % 1024 * 2 ^ 22 := by
      refine (toNat_ppn pte).trans ?_
      omega
    rw [Sv32.toNat_leafAddr_succ, toNat_or_offset 22 _ hPage (by omega), hOffset]
    omega

theorem toNat_topIx : (topIx vaddr).toNat = (Sv32.vpn vaddr 1).toNat * 4 := by
  have hVaddr := vaddr.isLt
  have hMask : vaddr &&& 0xffc00000#32 = vaddr >>> 22 <<< 22 := by
    rw [BitVec.shiftLeft_ushiftRight]
    rfl
  change ((vaddr &&& 0xffc00000#32) >>> 20).toNat = (vaddr.extractLsb' 22 10).toNat * 4
  rw [hMask, BitVec.toNat_ushiftRight, BitVec.toNat_shiftLeft, BitVec.toNat_ushiftRight,
    BitVec.extractLsb'_toNat, Nat.shiftLeft_eq]
  simp only [Nat.shiftRight_eq_div_pow]
  omega

theorem toNat_secondIx : (secondIx vaddr).toNat = (Sv32.vpn vaddr 0).toNat * 4 := by
  have hMask : vaddr &&& 0x003ff000#32 = ((vaddr &&& 0x003fffff#32) >>> 12) <<< 12 := by
    rw [BitVec.shiftLeft_ushiftRight, BitVec.and_assoc]
    rfl
  have hLow : (vaddr &&& 0x003fffff#32).toNat = vaddr.toNat % 4194304 := toNat_superoffset vaddr
  change ((vaddr &&& 0x003ff000#32) >>> 10).toNat = (vaddr.extractLsb' 12 10).toNat * 4
  rw [hMask, BitVec.toNat_ushiftRight, BitVec.toNat_shiftLeft, BitVec.toNat_ushiftRight, hLow,
    BitVec.extractLsb'_toNat, Nat.shiftLeft_eq]
  simp only [Nat.shiftRight_eq_div_pow]
  omega

theorem reach_leafAddr {level : Nat} (hAligned : Sv32.Pte.aligned pte level = true) :
    Sv32.reach (Sv32.leafAddr pte vaddr level) =
      if Sv32.Pte.far pte then .error .access
      else .ok ((leafAt level pte).base ||| (leafAt level pte).offset vaddr) := by
  have hUpper := Sv32.upper_eq_zero_iff (Sv32.leafAddr pte vaddr level)
  have hReach : (Sv32.leafAddr pte vaddr level).toNat < 4294967296 ↔ ¬Sv32.Pte.far pte = true := by
    rw [far_iff]
    cases level with
    | zero =>
      rw [Sv32.toNat_leafAddr_zero]
      omega
    | succ level =>
      rw [Sv32.toNat_leafAddr_succ]
      omega
  rw [hReach] at hUpper
  unfold Sv32.reach
  rw [setWidth_leafAddr pte vaddr hAligned]
  cases hFar : Sv32.Pte.far pte with
  | true => rw [if_neg (mt hUpper.mp (not_not_intro hFar)), if_pos rfl]
  | false => rw [if_pos (hUpper.mpr (by simp [hFar])), if_neg Bool.false_ne_true]

theorem narrow_pteAddr (read : Word → Option Word) :
    Sv32.narrow read (Sv32.pteAddr (Sv32.Pte.ppn pte) (Sv32.vpn vaddr 0)) =
      if Sv32.Pte.far pte then none else read (((pte &&& ptePpn) <<< 2) + secondIx vaddr) := by
  have hIx := (Sv32.vpn vaddr 0).isLt
  have hPpn : (Sv32.Pte.ppn pte).toNat = pte.toNat / 1024 := by
    have hPte := pte.isLt
    rw [Sv32.Pte.ppn, BitVec.extractLsb'_toNat, Nat.shiftRight_eq_div_pow]
    omega
  have hAddr := Sv32.toNat_pteAddr (Sv32.Pte.ppn pte) (Sv32.vpn vaddr 0)
  have hUpper := Sv32.upper_eq_zero_iff (Sv32.pteAddr (Sv32.Pte.ppn pte) (Sv32.vpn vaddr 0))
  unfold Sv32.narrow
  cases hFar : Sv32.Pte.far pte with
  | true =>
    rw [far_iff] at hFar
    have hBeyond : ¬(Sv32.pteAddr (Sv32.Pte.ppn pte) (Sv32.vpn vaddr 0)).toNat < 4294967296 := by
      omega
    rw [if_neg (mt hUpper.mp hBeyond), if_pos rfl]
  | false =>
    rw [far_eq_false_iff] at hFar
    have hWithin : (Sv32.pteAddr (Sv32.Pte.ppn pte) (Sv32.vpn vaddr 0)).toNat < 4294967296 := by
      omega
    rw [if_pos (hUpper.mpr hWithin), if_neg Bool.false_ne_true]
    congr 1
    rw [← BitVec.toNat_inj, BitVec.toNat_setWidth, BitVec.toNat_add, toNat_ppn, toNat_secondIx,
      hAddr]
    omega

end Addresses

/-! ## The last entry -/

def Riscvcpu.mode (c : Riscvcpu) : Sv32.Mode := ⟨c.super, c.statusSum, c.statusMxr⟩

def faultOf (vaddr : Word) (rwx : Memrwx) : Sv32.Fault → Trap
  | .page => pagefault vaddr rwx
  | .access => accessfault vaddr rwx

/-- What the code makes of the entry that a walk ends at. -/
def judge (super sum : Bool) (vaddr : Word) (rwx : Memrwx) (level : Nat) (pte : Word) :
    Except Trap Word :=
  if pte &&& pteV = 0 then .error (pagefault vaddr rwx)
  else if level = 0 ∧ pte &&& pteUpperPpn ≠ 0 then .error (accessfault vaddr rwx)
  else if level ≠ 0 ∧ ((pte &&& ptePpn) <<< 2) &&& 0x003ff000 ≠ 0 then
    .error (pagefault vaddr rwx)
  else (leafAt level pte).check super sum vaddr rwx

/-- What the architecture makes of it. -/
def prescribedAt (mode : Sv32.Mode) (vaddr : Word) (rwx : Memrwx) (level : Nat) (pte : Word) :
    Except Trap Word :=
  (if Sv32.Pte.grants pte mode rwx.access level then Sv32.reach (Sv32.leafAddr pte vaddr level)
    else .error .page).mapError (faultOf vaddr rwx)

/-- The address in the page of an entry, if there can be one. -/
def located (vaddr : Word) (rwx : Memrwx) (level : Nat) (pte : Word) : Except Trap Word :=
  if Sv32.Pte.far pte then .error (accessfault vaddr rwx)
  else .ok ((leafAt level pte).base ||| (leafAt level pte).offset vaddr)

/-- Bits of an entry that mean to the code what they do not mean to the architecture: a page that
can be written but not read, or one that only mxr makes readable. -/
def misread (mode : Sv32.Mode) (acc : Sv32.Access) (pte : Sv32.Pte) : Bool :=
  !pte.r &&
    match acc with
    | .load => mode.mxr && pte.x && !pte.w
    | .store => pte.w
    | .fetch => pte.w && pte.x

/-- The entries that the code judges otherwise than the architecture. -/
def departs (mode : Sv32.Mode) (acc : Sv32.Access) (level : Nat) (pte : Sv32.Pte) : Bool :=
  if level = 0 && pte.far then pte.v && !pte.grants mode acc level
  else
    pte.v && pte.aligned level && pte.reachable mode acc && pte.marked acc &&
      misread mode acc pte

/-- The permission that the code asks for. -/
def allowsBit (acc : Sv32.Access) (pte : Sv32.Pte) : Bool :=
  match acc with
  | .load => pte.r
  | .store => pte.w
  | .fetch => pte.x

section Judge

variable (pte : Word) (vaddr : Word) (rwx : Memrwx) (level : Nat)

theorem allows_eq : (leafAt level pte).allows rwx = allowsBit rwx.access pte := by
  cases rwx with
  | read => exact (decide_eq_decide.mpr (and_pteR pte)).trans (Bool.decide_coe _)
  | write => exact (decide_eq_decide.mpr (and_pteW pte)).trans (Bool.decide_coe _)
  | execute => exact (decide_eq_decide.mpr (and_pteX pte)).trans (Bool.decide_coe _)

theorem modeRefused_eq (c : Riscvcpu) :
    (leafAt level pte).modeRefused c.super c.statusSum rwx =
      !Sv32.Pte.reachable pte c.mode rwx.access := by
  have hUser := and_pteU pte
  have hEntry : (leafAt level pte).entry = pte := rfl
  unfold Leaf.modeRefused Sv32.Pte.reachable Riscvcpu.mode
  rw [hEntry]
  cases hBit : Sv32.Pte.u pte with
  | false =>
    have hKernel : pte &&& pteU = 0 := by simpa [hBit] using hUser
    cases c.super <;> simp [hKernel]
  | true =>
    have hOpen : ¬pte &&& pteU = 0#32 := hUser.mpr hBit
    cases c.super with
    | false => simp [hOpen]
    | true => cases rwx <;> cases c.statusSum <;> simp [hOpen, Memrwx.access]

/-- The order in which the faults of a page are looked for does not matter. -/
theorem check_eq (c : Riscvcpu) :
    (leafAt level pte).check c.super c.statusSum vaddr rwx =
      if Sv32.Pte.reachable pte c.mode rwx.access && allowsBit rwx.access pte &&
          Sv32.Pte.marked pte rwx.access then located vaddr rwx level pte
      else .error (pagefault vaddr rwx) := by
  have hDirty : pte &&& pteD = 0 ↔ Sv32.Pte.d pte = false := by
    rw [← Bool.not_eq_true, ← and_pteD, ne_eq, not_not]
  have hAccessed : pte &&& pteA = 0 ↔ Sv32.Pte.a pte = false := by
    rw [← Bool.not_eq_true, ← and_pteA, ne_eq, not_not]
  have hFar := and_pteUpperPpn pte
  have hEntry : (leafAt level pte).entry = pte := rfl
  unfold Leaf.check Sv32.Pte.marked located
  rw [modeRefused_eq, allows_eq, hEntry]
  cases Sv32.Pte.reachable pte c.mode rwx.access with
  | false => rfl
  | true =>
    cases allowsBit rwx.access pte with
    | false => rfl
    | true =>
      simp only [Bool.not_true, Bool.false_eq_true, Bool.true_eq_false, if_false, Bool.true_and,
        hDirty, hAccessed, hFar]
      cases Sv32.Pte.a pte with
      | false => cases rwx <;> simp
      | true => cases Sv32.Pte.d pte <;> cases rwx <;> simp [Memrwx.access]

theorem judge_eq (c : Riscvcpu) :
    judge c.super c.statusSum vaddr rwx level pte =
      if Sv32.Pte.v pte = false then .error (pagefault vaddr rwx)
      else if level = 0 && Sv32.Pte.far pte then .error (accessfault vaddr rwx)
      else if Sv32.Pte.aligned pte level && Sv32.Pte.reachable pte c.mode rwx.access &&
          allowsBit rwx.access pte && Sv32.Pte.marked pte rwx.access then
        located vaddr rwx level pte
      else .error (pagefault vaddr rwx) := by
  have hValid : pte &&& pteV = 0 ↔ Sv32.Pte.v pte = false := by
    rw [← Bool.not_eq_true, ← and_pteV, ne_eq, not_not]
  have hFar : (level = 0 ∧ pte &&& pteUpperPpn ≠ 0) ↔
      (level = 0 && Sv32.Pte.far pte) = true := by
    rw [and_pteUpperPpn]
    simp
  have hAligned : (level ≠ 0 ∧ ((pte &&& ptePpn) <<< 2) &&& 0x003ff000 ≠ 0) ↔
      Sv32.Pte.aligned pte level = false := by
    rw [ne_eq (_ &&& _), ppn_aligned]
    simp [Sv32.Pte.aligned]
  unfold judge
  simp only [hValid, hFar, hAligned, check_eq]
  cases Sv32.Pte.aligned pte level with
  | false => rfl
  | true => rfl

theorem prescribedAt_eq (mode : Sv32.Mode) :
    prescribedAt mode vaddr rwx level pte =
      if Sv32.Pte.grants pte mode rwx.access level then located vaddr rwx level pte
      else .error (pagefault vaddr rwx) := by
  unfold prescribedAt located
  cases hGrants : Sv32.Pte.grants pte mode rwx.access level with
  | false => rfl
  | true =>
    have hAligned : Sv32.Pte.aligned pte level = true := by
      simp only [Sv32.Pte.grants, Bool.and_eq_true] at hGrants
      exact hGrants.1.1.1.2
    rw [if_pos rfl, if_pos rfl, reach_leafAddr pte vaddr hAligned]
    cases Sv32.Pte.far pte <;> rfl

/-- The bits in which the code and the architecture differ. -/
theorem grants_iff (mode : Sv32.Mode) (acc : Sv32.Access) :
    (Sv32.Pte.v pte && (Sv32.Pte.aligned pte level && Sv32.Pte.reachable pte mode acc &&
        allowsBit acc pte && Sv32.Pte.marked pte acc)) = Sv32.Pte.grants pte mode acc level ↔
      (Sv32.Pte.v pte && Sv32.Pte.aligned pte level && Sv32.Pte.reachable pte mode acc &&
        Sv32.Pte.marked pte acc && misread mode acc pte) = false := by
  unfold Sv32.Pte.grants Sv32.Pte.reserved Sv32.Pte.permits allowsBit misread
  generalize Sv32.Pte.v pte = v, Sv32.Pte.r pte = r, Sv32.Pte.w pte = w, Sv32.Pte.x pte = x,
    Sv32.Pte.aligned pte level = aligned, Sv32.Pte.reachable pte mode acc = reachable,
    Sv32.Pte.marked pte acc = marked, mode.mxr = mxr
  cases acc <;> revert v r w x aligned reachable marked mxr <;> decide

theorem accessfault_ne_pagefault : accessfault vaddr rwx ≠ pagefault vaddr rwx := by
  cases rwx <;> simp [pagefault, accessfault]

theorem located_ne : located vaddr rwx level pte ≠ .error (pagefault vaddr rwx) := by
  unfold located
  cases Sv32.Pte.far pte <;> simp [accessfault_ne_pagefault]

theorem judge_eq_prescribedAt_iff (c : Riscvcpu) :
    judge c.super c.statusSum vaddr rwx level pte = prescribedAt c.mode vaddr rwx level pte ↔
      departs c.mode rwx.access level pte = false := by
  have hValid : Sv32.Pte.grants pte c.mode rwx.access level = true → Sv32.Pte.v pte = true := by
    intro hGrants
    simp only [Sv32.Pte.grants, Bool.and_eq_true] at hGrants
    exact hGrants.1.1.1.1.1.1
  rw [judge_eq, prescribedAt_eq]
  unfold departs
  cases hEarly : (level = 0 && Sv32.Pte.far pte : Bool) with
  | true =>
    rw [Bool.and_eq_true] at hEarly
    have hLocated : located vaddr rwx level pte = .error (accessfault vaddr rwx) := by
      rw [located, if_pos hEarly.2]
    rw [hLocated]
    cases hGrants : Sv32.Pte.grants pte c.mode rwx.access level with
    | true => simp [hValid hGrants]
    | false => cases Sv32.Pte.v pte <;> simp [accessfault_ne_pagefault]
  | false =>
    have hNe := located_ne pte vaddr rwx level
    rw [if_neg Bool.false_ne_true, if_neg Bool.false_ne_true, ← grants_iff]
    cases Sv32.Pte.v pte with
    | false => cases Sv32.Pte.grants pte c.mode rwx.access level <;> simp [hNe.symm]
    | true =>
      rw [Bool.true_and]
      generalize (Sv32.Pte.aligned pte level && Sv32.Pte.reachable pte c.mode rwx.access &&
        allowsBit rwx.access pte && Sv32.Pte.marked pte rwx.access) = permitted
      cases permitted <;> cases Sv32.Pte.grants pte c.mode rwx.access level <;>
        simp [hNe, hNe.symm]

end Judge

/-! ## The walk -/

/-- The page number in satp. -/
def Riscvcpu.satpPpn (c : Riscvcpu) : BitVec 22 := (c.mmuPtbasePa >>> 12).setWidth 22

/-- Physical memory, and the registers of the devices, as the cpu reads them. -/
def physRead (m : Machine δ) (paddr : Word) : Option Word :=
  match outcome (fetchPhys b i paddr) m with
  | .ok val => val
  | .error _ => none

/-- What the architecture prescribes for an access. -/
def prescribed (m : Machine δ) (vaddr : Word) (rwx : Memrwx) : Except Stop Word :=
  (Sv32.translate (physRead b i m) (m.mycpus i).mode rwx.access vaddr
    (m.mycpus i).satpPpn).mapError fun fault => .trap (faultOf vaddr rwx fault)

/-- The entry that the walk of the architecture ends at. -/
def lastEntry (m : Machine δ) (vaddr : Word) : Option (Nat × Sv32.Pte) :=
  Sv32.last (Sv32.narrow (physRead b i m)) vaddr 1 (m.mycpus i).satpPpn

/-- The read of an entry of the second level comes back. -/
def EntryReturns (m : Machine δ) (vaddr : Word) : Prop :=
  ∀ paddr, (m.mycpus i).entryAddr m.ram vaddr = some paddr →
    ∃ val, outcome (fetchPhys b i paddr) m = .ok val

theorem prescribed_eq (m : Machine δ) (vaddr : Word) (rwx : Memrwx) :
    prescribed b i m vaddr rwx =
      match lastEntry b i m vaddr with
      | none => .error (.trap (accessfault vaddr rwx))
      | some (level, pte) =>
        (prescribedAt (m.mycpus i).mode vaddr rwx level pte).mapError .trap := by
  unfold prescribed lastEntry prescribedAt
  rw [Sv32.translate_eq_last]
  cases Sv32.last (Sv32.narrow (physRead b i m)) vaddr 1 (m.mycpus i).satpPpn with
  | none => rfl
  | some found =>
    dsimp only
    split
    · cases Sv32.reach (Sv32.leafAddr found.2 vaddr found.1) <;> rfl
    · rfl

theorem outcome_fetchPhys_mem {paddr : Word} (hMem : paddr < paddrBusbase) (m : Machine δ) :
    outcome (fetchPhys b i paddr) m = .ok (memFetch b m.ram paddr) := by
  have hAfter : After (fetchPhys b i paddr) (fun val _ => val = memFetch b m.ram paddr)
      (fun _ _ => False) m := (after_fetchPhys_mem b i hMem).mpr rfl
  rw [after_iff_outcome] at hAfter
  split at hAfter
  next hOk => rw [hOk, hAfter]
  next => exact hAfter.elim

theorem mapmem_ram {paddr base : Word} (hRam : mapmem b paddr = some (.ram base)) :
    paddrRambase ≤ paddr &&& 0xfffff000 ∧ paddr &&& 0xfffff000 < paddrRombase ∧
      base = (paddr &&& 0xfffff000) - paddrRambase ∧ base < b.busRamsize := by
  unfold mapmem at hRam
  dsimp only at hRam
  split at hRam
  · cases hRam
  next hLow =>
    split at hRam
    next hHigh =>
      unfold busMemMap at hRam
      split at hRam
      · cases hRam
      next hInside =>
        cases hRam
        exact ⟨BitVec.not_lt.mp hLow, hHigh, rfl, BitVec.not_le.mp hInside⟩
    next =>
      split at hRam
      · unfold bootromMap at hRam
        split at hRam <;> cases hRam
      · cases hRam

theorem outcome_fetchPhys_page {paddr base ix : Word} (m : Machine δ)
    (hRam : mapmem b paddr = some (.ram base)) (hIx : ix.toNat < 4096) :
    outcome (fetchPhys b i ((paddr &&& 0xfffff000) + ix)) m =
      .ok (some (busUseMap m.ram (.ram base) ix)) := by
  obtain ⟨hLow, hHigh, hBase, hInside⟩ := mapmem_ram b hRam
  have hPage := PageBits.toNat_page paddr
  have hSize := congrArg BitVec.toNat b.ramsize_page
  rw [PageBits.toNat_offset] at hSize
  generalize paddr &&& 0xfffff000 = page at hLow hHigh hBase hPage ⊢
  have hSum : (page + ix) - paddrRambase = base + ix := by
    rw [hBase]
    bv_omega
  simp only [paddrRambase, paddrRombase, BitVec.le_def, BitVec.lt_def, BitVec.toNat_ofNat,
    BitVec.ofNat_eq_ofNat] at hLow hHigh hBase hInside hSize
  have hBaseNat : base.toNat = page.toNat - 3221225472 := by
    rw [hBase]
    bv_omega
  have hSumNat : (page + ix).toNat = page.toNat + ix.toNat := by
    rw [BitVec.toNat_add]
    omega
  have hMem : page + ix < paddrBusbase := by
    rw [BitVec.lt_def, hSumNat]
    change _ < 4292870144
    omega
  have hNotLow : ¬page + ix < paddrRambase := by
    rw [BitVec.lt_def, hSumNat]
    change ¬_ < 3221225472
    omega
  have hNotHigh : page + ix < paddrRombase := by
    rw [BitVec.lt_def, hSumNat]
    change _ < 4290772992
    omega
  have hNotBeyond : ¬b.busRamsize ≤ base + ix := by
    rw [BitVec.le_def, BitVec.toNat_add]
    omega
  rw [outcome_fetchPhys_mem b i hMem, memFetch, if_neg hNotLow, if_pos hNotHigh, hSum,
    if_neg hNotBeyond]
  rfl

theorem narrow_satpPpn (m : Machine δ) (vaddr : Word) {base : Word}
    (hRam : mapmem b (m.mycpus i).mmuPtbasePa = some (.ram base)) :
    Sv32.narrow (physRead b i m) (Sv32.pteAddr (m.mycpus i).satpPpn (Sv32.vpn vaddr 1)) =
      some (busUseMap m.ram (.ram base) (topIx vaddr)) := by
  have hPa := (m.mycpus i).mmuPtbasePa.isLt
  have hIx := (Sv32.vpn vaddr 1).isLt
  have hTopIx := toNat_topIx vaddr
  have hPpn : (m.mycpus i).satpPpn.toNat = (m.mycpus i).mmuPtbasePa.toNat / 4096 := by
    rw [Riscvcpu.satpPpn, BitVec.toNat_setWidth, BitVec.toNat_ushiftRight,
      Nat.shiftRight_eq_div_pow]
    omega
  have hAddr := Sv32.toNat_pteAddr (m.mycpus i).satpPpn (Sv32.vpn vaddr 1)
  have hUpper := Sv32.upper_eq_zero_iff (Sv32.pteAddr (m.mycpus i).satpPpn (Sv32.vpn vaddr 1))
  have hWithin : (Sv32.pteAddr (m.mycpus i).satpPpn (Sv32.vpn vaddr 1)).toNat < 4294967296 := by
    omega
  have hWord : (Sv32.pteAddr (m.mycpus i).satpPpn (Sv32.vpn vaddr 1)).setWidth 32 =
      ((m.mycpus i).mmuPtbasePa &&& 0xfffff000) + topIx vaddr := by
    rw [← BitVec.toNat_inj, BitVec.toNat_setWidth, BitVec.toNat_add, PageBits.toNat_page, hTopIx,
      hAddr, hPpn]
  rw [Sv32.narrow, if_pos (hUpper.mpr hWithin), hWord, physRead,
    outcome_fetchPhys_page b i m hRam (by omega)]

section Entries

variable {pte : Word} (super sum : Bool) (vaddr : Word) (rwx : Memrwx)

theorem topEntry_of_pointer (hPointer : Sv32.Pte.pointer pte = true) :
    topEntry pte vaddr rwx =
      if Sv32.Pte.far pte then .error (accessfault vaddr rwx)
      else .ok (.inl ((pte &&& ptePpn) <<< 2)) := by
  simp only [Sv32.Pte.pointer, Bool.and_eq_true, Bool.not_eq_eq_eq_not, Bool.not_true] at hPointer
  have hValid : ¬pte &&& pteV = 0 := (and_pteV pte).mpr hPointer.1.1.1
  have hBits : ¬pte &&& (pteR ||| pteW ||| pteX) ≠ 0 := by
    rw [and_pteRWX]
    simp [hPointer]
  unfold topEntry
  simp only [if_neg hValid, if_neg hBits, and_pteUpperPpn]

theorem topEntry_of_not_pointer (hPointer : Sv32.Pte.pointer pte = false) :
    (topEntry pte vaddr rwx = .ok (.inr (leafAt 1 pte)) ∧
        judge super sum vaddr rwx 1 pte = (leafAt 1 pte).check super sum vaddr rwx) ∨
      ∃ t, topEntry pte vaddr rwx = .error t ∧ judge super sum vaddr rwx 1 pte = .error t := by
  unfold topEntry judge
  by_cases hValid : pte &&& pteV = 0
  · exact .inr ⟨_, if_pos hValid, if_pos hValid⟩
  · have hBits : pte &&& (pteR ||| pteW ||| pteX) ≠ 0 := by
      rw [and_pteRWX]
      have hV := (and_pteV pte).mp hValid
      unfold Sv32.Pte.pointer at hPointer
      cases hR : Sv32.Pte.r pte <;> cases hW : Sv32.Pte.w pte <;> cases hX : Sv32.Pte.x pte <;>
        simp_all
    have hEarly : ¬((1 : Nat) = 0 ∧ pte &&& pteUpperPpn ≠ 0) := fun h => one_ne_zero h.1
    rw [if_neg hValid, if_neg hValid, if_pos hBits, if_neg hEarly]
    by_cases hMisaligned : ((pte &&& ptePpn) <<< 2) &&& 0x003ff000 ≠ 0
    · rw [if_pos hMisaligned, if_pos ⟨one_ne_zero, hMisaligned⟩]
      exact .inr ⟨_, rfl, rfl⟩
    · rw [if_neg hMisaligned, if_neg (fun h => hMisaligned h.2)]
      exact .inl ⟨rfl, rfl⟩

theorem secondEntry_judge (pte : Word) :
    (secondEntry pte vaddr rwx = .ok (leafAt 0 pte) ∧
        judge super sum vaddr rwx 0 pte = (leafAt 0 pte).check super sum vaddr rwx) ∨
      ∃ t, secondEntry pte vaddr rwx = .error t ∧ judge super sum vaddr rwx 0 pte = .error t := by
  unfold secondEntry judge
  by_cases hValid : pte &&& pteV = 0
  · exact .inr ⟨_, if_pos hValid, if_pos hValid⟩
  · rw [if_neg hValid, if_neg hValid]
    by_cases hFar : pte &&& pteUpperPpn ≠ 0
    · exact .inr ⟨_, if_pos hFar, if_pos ⟨rfl, hFar⟩⟩
    · rw [if_neg hFar, if_neg (fun h => hFar h.2), if_neg (fun h => h.1 rfl)]
      exact .inl ⟨rfl, rfl⟩

end Entries

section Main

variable {b i} {m : Machine δ} {vaddr base : Word} (rwx : Memrwx)
  (hTop : (m.mycpus i).mmuPttoppage = some (.ram base))
  (hRam : mapmem b (m.mycpus i).mmuPtbasePa = some (.ram base))

include hTop hRam

/-- The code judges the entry that the walk of the architecture ends at. -/
theorem outcome_walk_last (hReturns : EntryReturns b i m vaddr) :
    outcome (walk b i vaddr rwx) m =
      match lastEntry b i m vaddr with
      | none => .error (.trap (accessfault vaddr rwx))
      | some (level, pte) =>
        (judge (m.mycpus i).super (m.mycpus i).statusSum vaddr rwx level pte).mapError .trap := by
  have hRead := narrow_satpPpn b i m vaddr hRam
  unfold EntryReturns Riscvcpu.entryAddr at hReturns
  rw [outcome_walk_leaf]
  unfold findLeaf lastEntry Sv32.last
  rw [hTop] at hReturns
  rw [hRead, Option.bind_some]
  simp only [outcome_bind, outcome_getCpu, final_getCpu, hTop, outcome_get, final_get]
  dsimp only at hReturns
  generalize busUseMap m.ram (.ram base) (topIx vaddr) = entry at hReturns ⊢
  cases hPointer : Sv32.Pte.pointer entry with
  | false =>
    rcases topEntry_of_not_pointer (m.mycpus i).super (m.mycpus i).statusSum vaddr rwx hPointer with
      ⟨hEntry, hJudge⟩ | ⟨t, hEntry, hJudge⟩
    · simp [hEntry, hJudge, liftTrap]
    · simp [hEntry, hJudge, liftTrap, Except.mapError]
  | true =>
    rw [topEntry_of_pointer vaddr .read hPointer] at hReturns
    rw [topEntry_of_pointer vaddr rwx hPointer]
    rw [if_pos rfl]
    unfold Sv32.last
    rw [narrow_pteAddr]
    cases hFar : Sv32.Pte.far entry with
    | true => simp [liftTrap]
    | false =>
      rw [hFar, if_neg Bool.false_ne_true] at hReturns
      obtain ⟨val, hVal⟩ := hReturns _ rfl
      simp only [Bool.false_eq_true, if_false, liftTrap, outcome_pure, final_pure, outcome_bind,
        hVal, physRead]
      cases val with
      | none => rfl
      | some entry =>
        rcases secondEntry_judge (m.mycpus i).super (m.mycpus i).statusSum vaddr rwx entry with
          ⟨hEntry, hJudge⟩ | ⟨t, hEntry, hJudge⟩
        · simp [hEntry, hJudge]
        · simp [hEntry, hJudge, Except.mapError]

end Main

/-- Otherwise the program ends in the middle of the walk. -/
theorem outcome_walk_stop {m : Machine δ} {vaddr : Word} (rwx : Memrwx)
    (hStops : ¬EntryReturns b i m vaddr) :
    ∃ e, outcome (walk b i vaddr rwx) m = .error e ∧ e.isTrap = false := by
  unfold EntryReturns at hStops
  push Not at hStops
  obtain ⟨paddr, hAddr, hRead⟩ := hStops
  have hStop := after_fetchPhys b i paddr m
  rw [after_iff_outcome] at hStop
  unfold Riscvcpu.entryAddr at hAddr
  rw [outcome_walk_leaf]
  unfold findLeaf
  simp only [outcome_bind, outcome_getCpu, final_getCpu]
  cases hTop : (m.mycpus i).mmuPttoppage with
  | none => simp [hTop] at hAddr
  | some page =>
    simp only [hTop] at hAddr
    simp only [outcome_bind, outcome_get, final_get]
    cases hEntry : topEntry (busUseMap m.ram page (topIx vaddr)) vaddr .read with
    | error t => simp [hEntry] at hAddr
    | ok found =>
      cases found with
      | inr leaf => simp [hEntry] at hAddr
      | inl ptpaddr =>
        simp only [hEntry, Option.some.injEq] at hAddr
        rw [(topEntry_inl_iff .read rwx).mp hEntry]
        simp only [liftTrap, outcome_pure, final_pure, outcome_bind, hAddr]
        cases hOutcome : outcome (fetchPhys b i paddr) m with
        | ok val => exact absurd hOutcome (hRead val)
        | error e =>
          rw [hOutcome] at hStop
          refine ⟨e, rfl, ?_⟩
          rcases hStop.1 with rfl | ⟨-, rfl⟩ <;> rfl

theorem mapError_trap_inj {x y : Except Trap Word} :
    x.mapError Stop.trap = y.mapError Stop.trap ↔ x = y := by
  cases x <;> cases y <;> simp [Except.mapError]

theorem outcome_translatemem_walks {m : Machine δ} {vaddr : Word} (rwx : Memrwx)
    (hWalks : (m.mycpus i).Walks vaddr) (hEven : vaddr &&& 0x1 = 0) :
    outcome (translatemem b i vaddr rwx) m = outcome (walk b i vaddr rwx) m := by
  unfold translatemem
  rw [if_neg (not_not_intro hEven)]
  simp only [outcome_bind, outcome_getCpu, final_getCpu]
  rw [if_neg (by simp [hWalks.1]), if_neg hWalks.2]

/-- The architecture knows no failure but the traps. -/
theorem error_ne_prescribed {m : Machine δ} {vaddr : Word} {rwx : Memrwx} {e : Stop}
    (hTrap : e.isTrap = false) : .error e ≠ prescribed b i m vaddr rwx := by
  intro hSame
  unfold prescribed at hSame
  generalize Sv32.translate (physRead b i m) (m.mycpus i).mode rwx.access vaddr
    (m.mycpus i).satpPpn = found at hSame
  cases found with
  | ok paddr => cases hSame
  | error fault =>
    cases hSame
    cases hTrap

/-- The translation of an address that the cache does not answer for is that of the architecture,
but where the last entry is one that the code judges otherwise. -/
theorem translatemem_prescribed_iff {m : Machine δ} {vaddr base : Word} (rwx : Memrwx)
    (hWalks : (m.mycpus i).Walks vaddr) (hRooted : (m.mycpus i).toMmuState.Rooted b)
    (hRam : mapmem b (m.mycpus i).mmuPtbasePa = some (.ram base)) :
    outcome (translatemem b i vaddr rwx) m = prescribed b i m vaddr rwx ↔
      vaddr &&& 0x1 = 0 ∧ EntryReturns b i m vaddr ∧
        ∀ level pte, lastEntry b i m vaddr = some (level, pte) →
          departs (m.mycpus i).mode rwx.access level pte = false := by
  have hTop : (m.mycpus i).mmuPttoppage = some (.ram base) := (hRooted hWalks.1).trans hRam
  by_cases hEven : vaddr &&& 0x1 = 0
  · rw [outcome_translatemem_walks b i rwx hWalks hEven]
    by_cases hReturns : EntryReturns b i m vaddr
    · rw [outcome_walk_last rwx hTop hRam hReturns, prescribed_eq]
      simp only [hEven, hReturns, true_and]
      cases lastEntry b i m vaddr with
      | none => simp
      | some found =>
        obtain ⟨level, pte⟩ := found
        dsimp only
        rw [mapError_trap_inj, judge_eq_prescribedAt_iff]
        constructor
        · rintro hJudge level' pte' ⟨⟩
          exact hJudge
        · intro hAll
          exact hAll level pte rfl
    · obtain ⟨e, hStop, hTrap⟩ := outcome_walk_stop b i rwx hReturns
      rw [hStop]
      exact iff_of_false (error_ne_prescribed b i hTrap) fun h => hReturns h.2.1
  · have hAssert : outcome (translatemem b i vaddr rwx) m = .error (.smoke "Assertion failed") := by
      unfold translatemem
      rw [if_pos hEven]
      rfl
    rw [hAssert]
    exact iff_of_false (error_ne_prescribed b i rfl) fun h => hEven h.1

/-! ## A page that can be written but not read -/

/-- Paging is on, and the table at the beginning of memory maps the first superpage to itself. -/
def superpageMachine (entry : Word) : Machine Unit :=
  let m : Machine Unit := machineInit () true
  { m with ram := fun ix => if ix = 0 then entry else 0 }.modCpu 0 fun c =>
    { c with mmuEnable := true, mmuPtbasePa := paddrRambase, mmuPttoppage := some (.ram 0) }

theorem translatemem_prescribed_readable :
    outcome (translatemem bareBoard 0 0 .read) (superpageMachine 0xc7) =
        prescribed bareBoard 0 (superpageMachine 0xc7) 0 .read := by
  have hRam : mapmem bareBoard ((superpageMachine 0xc7).mycpus 0).mmuPtbasePa = some (.ram 0) := by
    decide
  have hNone : ((superpageMachine 0xc7).mycpus 0).entryAddr (superpageMachine 0xc7).ram 0 = none :=
    rfl
  have hLast : lastEntry bareBoard 0 (superpageMachine 0xc7) 0 = some (1, 0xc7) := by decide
  refine (translatemem_prescribed_iff bareBoard 0 .read ⟨rfl, by decide⟩ (fun _ => hRam.symm)
    hRam).mpr ⟨rfl, ?_, ?_⟩
  · intro paddr hAddr
    rw [hNone] at hAddr
    cases hAddr
  · intro level pte hEntry
    rw [hLast] at hEntry
    cases hEntry
    decide

theorem not_translatemem_prescribed :
    ¬ ∀ (m : Machine Unit) (vaddr base : Word) (rwx : Memrwx), (m.mycpus 0).Walks vaddr →
      (m.mycpus 0).toMmuState.Rooted bareBoard →
      mapmem bareBoard (m.mycpus 0).mmuPtbasePa = some (.ram base) → vaddr &&& 0x1 = 0 →
      outcome (translatemem bareBoard 0 vaddr rwx) m = prescribed bareBoard 0 m vaddr rwx := by
  intro h
  have hRam : mapmem bareBoard ((superpageMachine 0xc5).mycpus 0).mmuPtbasePa = some (.ram 0) := by
    decide
  have hSame := h (superpageMachine 0xc5) 0 0 .write ⟨rfl, by decide⟩ (fun _ => hRam.symm) hRam rfl
  have hStored : outcome (translatemem bareBoard 0 0 .write) (superpageMachine 0xc5) = .ok 0 := rfl
  have hRefused : prescribed bareBoard 0 (superpageMachine 0xc5) 0 .write =
      .error (.trap (.exception .spage 0)) := by decide
  rw [hStored, hRefused] at hSame
  cases hSame

end Sys161.Riscv
