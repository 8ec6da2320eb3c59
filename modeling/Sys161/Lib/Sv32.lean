import Mathlib.Data.BitVec

/-!
# The page walk of Sv32

Translation of addresses as the privileged architecture of RISC-V prescribes it,
for physical addresses of 32 bits, and with the accessed and dirty bits left to
software.
-/

namespace Sv32

set_option autoImplicit false

inductive Access where
  | load
  | store
  | fetch
  deriving DecidableEq

inductive Fault where
  | page
  | access
  deriving DecidableEq

/-- The privilege of an access, and the bits of the status register that bear on it. -/
structure Mode where
  super : Bool
  sum : Bool
  mxr : Bool

/-- An entry of a page table. -/
abbrev Pte := BitVec 32

/-- An address that a page table can hold. -/
abbrev Phys := BitVec 34

namespace Pte

variable (pte : Pte) (mode : Mode) (acc : Access)

def v : Bool := pte.getLsbD 0

def r : Bool := pte.getLsbD 1

def w : Bool := pte.getLsbD 2

def x : Bool := pte.getLsbD 3

def u : Bool := pte.getLsbD 4

def a : Bool := pte.getLsbD 6

def d : Bool := pte.getLsbD 7

def ppn : BitVec 22 := pte.extractLsb' 10 22

def ppn0 : BitVec 10 := pte.extractLsb' 10 10

def ppn1 : BitVec 12 := pte.extractLsb' 20 12

/-- The page number is beyond 32 bits of address. -/
def far : Bool := pte.extractLsb' 30 2 ≠ 0

/-- An encoding reserved for future use. -/
def reserved : Bool := !pte.r && pte.w

def permits : Bool :=
  match acc with
  | .load => pte.r || mode.mxr && pte.x
  | .store => pte.w
  | .fetch => pte.x

/-- The page is for the mode that accesses it. -/
def reachable : Bool :=
  if pte.u then !mode.super || mode.sum && acc ≠ .fetch else mode.super

/-- The accessed and dirty bits are set as far as the access needs them. -/
def marked : Bool := pte.a && (acc ≠ .store || pte.d)

/-- The page begins where a page of its level may. -/
def aligned (level : Nat) : Bool := level = 0 || pte.ppn0 = 0

/-- The entry points to a table of the next level. -/
def pointer : Bool := pte.v && !pte.r && !pte.w && !pte.x

/-- An entry that no table follows gives the access its page. -/
def grants (level : Nat) : Bool :=
  pte.v && !pte.reserved && (pte.r || pte.x) && pte.aligned level && pte.permits mode acc &&
    pte.reachable mode acc && pte.marked acc

end Pte

/-- The part of an address that a table of a level is indexed with. -/
def vpn (va : BitVec 32) : Nat → BitVec 10
  | 0 => va.extractLsb' 12 10
  | _ => va.extractLsb' 22 10

def pteAddr (table : BitVec 22) (ix : BitVec 10) : Phys := table ++ ix ++ 0#2

/-- The address in a page of a level. -/
def leafAddr (pte : Pte) (va : BitVec 32) : Nat → Phys
  | 0 => pte.ppn ++ va.extractLsb' 0 12
  | _ => pte.ppn1 ++ va.extractLsb' 0 22

section Walk

variable (read : Phys → Option Pte) (mode : Mode) (acc : Access) (va : BitVec 32)

/-- One level of the walk. -/
def visit (level : Nat) (next : BitVec 22 → Except Fault Phys) (table : BitVec 22) :
    Except Fault Phys :=
  match read (pteAddr table (vpn va level)) with
  | none => .error .access
  | some pte =>
    if pte.pointer then next pte.ppn
    else if pte.grants mode acc level then .ok (leafAddr pte va level)
    else .error .page

def walk : Nat → BitVec 22 → Except Fault Phys
  | 0 => visit read mode acc va 0 fun _ => .error .page
  | level + 1 => visit read mode acc va (level + 1) (walk level)

end Walk

/-- Physical memory, with nothing beyond 32 bits of address. -/
def narrow (read : BitVec 32 → Option Pte) (pa : Phys) : Option Pte :=
  if pa.extractLsb' 32 2 = 0 then read (pa.setWidth 32) else none

def reach (pa : Phys) : Except Fault (BitVec 32) :=
  if pa.extractLsb' 32 2 = 0 then .ok (pa.setWidth 32) else .error .access

def translate (read : BitVec 32 → Option Pte) (mode : Mode) (acc : Access) (va : BitVec 32)
    (root : BitVec 22) : Except Fault (BitVec 32) :=
  (walk (narrow read) mode acc va 1 root).bind reach

/-! ## The last entry -/

section Last

variable (read : Phys → Option Pte) (va : BitVec 32)

/-- The entry that a walk ends at, with its level. -/
def last : Nat → BitVec 22 → Option (Nat × Pte)
  | 0, table => (read (pteAddr table (vpn va 0))).map fun pte => (0, pte)
  | level + 1, table =>
    (read (pteAddr table (vpn va (level + 1)))).bind fun pte =>
      if pte.pointer then last level pte.ppn else some (level + 1, pte)

theorem Pte.grants_of_pointer {pte : Pte} {mode : Mode} {acc : Access} {level : Nat}
    (hPointer : pte.pointer = true) : pte.grants mode acc level = false := by
  simp only [pointer, Bool.and_eq_true, Bool.not_eq_eq_eq_not, Bool.not_true] at hPointer
  simp [grants, hPointer]

/-- The last entry alone decides what a walk comes to. -/
theorem walk_eq_last (mode : Mode) (acc : Access) (level : Nat) (table : BitVec 22) :
    walk read mode acc va level table =
      match last read va level table with
      | none => .error .access
      | some (level, pte) =>
        if pte.grants mode acc level then .ok (leafAddr pte va level) else .error .page := by
  induction level generalizing table with
  | zero =>
    unfold walk visit last
    cases read (pteAddr table (vpn va 0)) with
    | none => rfl
    | some pte =>
      cases hPointer : pte.pointer with
      | false => simp [hPointer]
      | true => simp [hPointer, Pte.grants_of_pointer hPointer]
  | succ level ih =>
    unfold walk visit last
    cases read (pteAddr table (vpn va (level + 1))) with
    | none => rfl
    | some pte =>
      cases hPointer : pte.pointer with
      | false => simp [hPointer]
      | true => simp [hPointer, ih]

end Last

theorem translate_eq_last (read : BitVec 32 → Option Pte) (mode : Mode) (acc : Access)
    (va : BitVec 32) (root : BitVec 22) :
    translate read mode acc va root =
      match last (narrow read) va 1 root with
      | none => .error .access
      | some (level, pte) =>
        if pte.grants mode acc level then reach (leafAddr pte va level) else .error .page := by
  unfold translate
  rw [walk_eq_last]
  cases last (narrow read) va 1 root with
  | none => rfl
  | some found =>
    dsimp only
    split <;> rfl

/-! ## Addresses as numbers -/

theorem toNat_pteAddr (table : BitVec 22) (ix : BitVec 10) :
    (pteAddr table ix).toNat = table.toNat * 4096 + ix.toNat * 4 := by
  have hIx := ix.isLt
  unfold pteAddr
  rw [BitVec.toNat_append, BitVec.toNat_append, ← Nat.shiftLeft_add_eq_or_of_lt hIx,
    Nat.shiftLeft_eq, Nat.shiftLeft_eq]
  simp only [BitVec.toNat_ofNat, Nat.zero_mod, Nat.or_zero]
  omega

theorem toNat_leafAddr_zero (pte : Pte) (va : BitVec 32) :
    (leafAddr pte va 0).toNat = pte.toNat / 1024 * 4096 + va.toNat % 4096 := by
  have hPte := pte.isLt
  change (pte.extractLsb' 10 22 ++ va.extractLsb' 0 12).toNat = _
  rw [BitVec.toNat_append, ← Nat.shiftLeft_add_eq_or_of_lt (BitVec.isLt _), Nat.shiftLeft_eq,
    BitVec.extractLsb'_toNat, BitVec.extractLsb'_toNat, Nat.shiftRight_eq_div_pow,
    Nat.shiftRight_eq_div_pow]
  omega

theorem toNat_leafAddr_succ (pte : Pte) (va : BitVec 32) (level : Nat) :
    (leafAddr pte va (level + 1)).toNat = pte.toNat / 1048576 * 4194304 + va.toNat % 4194304 := by
  have hPte := pte.isLt
  change (pte.extractLsb' 20 12 ++ va.extractLsb' 0 22).toNat = _
  rw [BitVec.toNat_append, ← Nat.shiftLeft_add_eq_or_of_lt (BitVec.isLt _), Nat.shiftLeft_eq,
    BitVec.extractLsb'_toNat, BitVec.extractLsb'_toNat, Nat.shiftRight_eq_div_pow,
    Nat.shiftRight_eq_div_pow]
  omega

theorem upper_eq_zero_iff (pa : Phys) : pa.extractLsb' 32 2 = 0 ↔ pa.toNat < 4294967296 := by
  have hPa := pa.isLt
  rw [← BitVec.toNat_inj, BitVec.extractLsb'_toNat, Nat.shiftRight_eq_div_pow]
  simp only [BitVec.ofNat_eq_ofNat, BitVec.toNat_ofNat]
  omega

theorem Pte.far_iff (pte : Pte) : pte.far = true ↔ 1073741824 ≤ pte.toNat := by
  have hPte := pte.isLt
  unfold far
  rw [decide_eq_true_iff, ne_eq, ← BitVec.toNat_inj, BitVec.extractLsb'_toNat,
    Nat.shiftRight_eq_div_pow]
  simp only [BitVec.ofNat_eq_ofNat, BitVec.toNat_ofNat]
  omega

end Sv32
