/-
  **Which device ranges may be mapped (`kernel/src/platform_mem.c`).**

  The tables are snapshots taken at boot: the firmware memory map, the kernel-owned MMIO
  ranges and the ECAM windows.
-/
import Mathlib
import GovinDos.Paging

namespace GovinDos.PlatformMem

open Paging

def EFI_CONVENTIONAL_MEMORY : Nat := 7
def EFI_ACPI_RECLAIM_MEMORY : Nat := 9
def EFI_ACPI_MEMORY_NVS : Nat := 10
def EFI_MEMORY_MAPPED_IO : Nat := 11

structure MemoryDescriptor where
  type : Nat
  physical_start : Nat
  pages : Nat
deriving DecidableEq, Repr

structure Range where
  base : Nat
  end_ : Nat
deriving DecidableEq, Repr

structure Platform where
  mmap : List MemoryDescriptor
  protected_ : List Range
  ecam : List Range

def VM_DEVICE_READ : BitVec 32 := 1
def VM_DEVICE_WRITE : BitVec 32 := 2
def VM_DEVICE_WC : BitVec 32 := 4
def VM_DEVICE_FIRMWARE : BitVec 32 := 8

def rangeEnd (base length : Nat) : Option Nat :=
  if length ≠ 0 ∧ base % PAGE_SIZE = 0 ∧ length % PAGE_SIZE = 0 ∧ base + length < 2 ^ 64 then
    some (base + length)
  else none

def overlaps (base end_ : Nat) (r : Range) : Bool := base < r.end_ && r.base < end_

def contained (base end_ : Nat) (r : Range) : Bool := r.base ≤ base && end_ ≤ r.end_

def descriptorEnd (d : MemoryDescriptor) : Option Nat :=
  if d.pages * PAGE_SIZE < 2 ^ 64 ∧ d.physical_start + d.pages * PAGE_SIZE < 2 ^ 64 then
    some (d.physical_start + d.pages * PAGE_SIZE)
  else none

def efiTypeContains (pl : Platform) (type base end_ : Nat) : Bool :=
  pl.mmap.any fun d => match descriptorEnd d with
    | none => false
    | some mend => d.type = type && d.physical_start ≤ base && end_ ≤ mend

def overlapsUsable (pl : Platform) (base end_ : Nat) : Bool :=
  pl.mmap.any fun d =>
    d.type = EFI_CONVENTIONAL_MEMORY && match descriptorEnd d with
      | none => true
      | some mend => overlaps base end_ ⟨d.physical_start, mend⟩

def DEVICE_KERNEL_FLAGS : PagingFlags := PAGE_R ||| PAGE_W ||| PAGE_X ||| PAGE_UC

/-- `platform_mem_validate_device`: the kernel's flags for the range and whether
    a block over it may be delegated. -/
def platformMemValidateDevice (pl : Platform) (base length : Nat) (flags : BitVec 32) :
    Option (PagingFlags × Bool) :=
  match rangeEnd base length with
  | none => none
  | some end_ =>
    if flags &&& ~~~(VM_DEVICE_READ ||| VM_DEVICE_WRITE ||| VM_DEVICE_WC ||| VM_DEVICE_FIRMWARE) ≠ 0
        ∨ flags &&& VM_DEVICE_READ = 0 ∨ flags &&& VM_DEVICE_WC ≠ 0 then none
    else if pl.protected_.any (overlaps base end_) then none
    else if flags &&& VM_DEVICE_FIRMWARE ≠ 0 then
      if flags &&& VM_DEVICE_WRITE ≠ 0 then none
      else if efiTypeContains pl EFI_ACPI_RECLAIM_MEMORY base end_ ||
          efiTypeContains pl EFI_ACPI_MEMORY_NVS base end_ then
        some (PAGE_KERNEL_PRISTINE, false)
      else none
    else if overlapsUsable pl base end_ then none
    else match pl.ecam.find? (overlaps base end_) with
      | some r => if contained base end_ r then some (DEVICE_KERNEL_FLAGS, false) else none
      | none =>
        -- the fixed PCI apertures, or a firmware-described MMIO region
        if !contained base end_ ⟨0xC0000000, 0xFEC00000⟩ &&
            !contained base end_ ⟨0x800000000, 0x1000000000⟩ &&
            !efiTypeContains pl EFI_MEMORY_MAPPED_IO base end_ then none
        else some (DEVICE_KERNEL_FLAGS, true)

/-- What a range has passed: it is firmware memory that is only read, or not RAM; its
    flags are one of two sets without the user bit. -/
structure Validated (pl : Platform) (base length : Nat) (flags : BitVec 32)
    (kernel_flags : PagingFlags) : Prop where
  aligned : base % PAGE_SIZE = 0
  pages : length % PAGE_SIZE = 0
  nonempty : length ≠ 0
  fits : base + length < 2 ^ 64
  unprotected : ∀ r ∈ pl.protected_, overlaps base (base + length) r = false
  kind : flags &&& VM_DEVICE_FIRMWARE ≠ 0 ∧ flags &&& VM_DEVICE_WRITE = 0 ∧
      (efiTypeContains pl EFI_ACPI_RECLAIM_MEMORY base (base + length) ||
        efiTypeContains pl EFI_ACPI_MEMORY_NVS base (base + length)) = true ∧
      kernel_flags = PAGE_KERNEL_PRISTINE ∨
    flags &&& VM_DEVICE_FIRMWARE = 0 ∧ overlapsUsable pl base (base + length) = false ∧
      kernel_flags = DEVICE_KERNEL_FLAGS

theorem platformMemValidateDevice_some {pl : Platform} {base length : Nat} {flags : BitVec 32}
    {kernel_flags : PagingFlags} {delegatable : Bool}
    (h : platformMemValidateDevice pl base length flags = some (kernel_flags, delegatable)) :
    Validated pl base length flags kernel_flags := by
  unfold platformMemValidateDevice rangeEnd at h
  by_cases hr : length ≠ 0 ∧ base % PAGE_SIZE = 0 ∧ length % PAGE_SIZE = 0 ∧
      base + length < 2 ^ 64
  · rw [if_pos hr] at h
    simp only at h
    split at h
    · cases h
    split at h
    · cases h
    rename_i hprotected
    refine ⟨hr.2.1, hr.2.2.1, hr.1, hr.2.2.2, by simpa using hprotected, ?_⟩
    split at h
    · rename_i hfirmware
      split at h
      · cases h
      rename_i hwrite
      split at h
      · rename_i hacpi
        cases h
        exact .inl ⟨hfirmware, not_not.mp hwrite, hacpi, rfl⟩
      · cases h
    rename_i hfirmware
    split at h
    · cases h
    rename_i husable
    refine .inr ⟨not_not.mp hfirmware, Bool.eq_false_of_not_eq_true husable, ?_⟩
    split at h
    · split at h
      · cases h
        rfl
      · cases h
    · split at h
      · cases h
      · cases h
        rfl
  · rw [if_neg hr] at h
    cases h

def MemoryDescriptor.bytes (d : MemoryDescriptor) : Set Nat :=
  Set.Ico d.physical_start (d.physical_start + d.pages * PAGE_SIZE)

end GovinDos.PlatformMem
