import Xv6.Kernel.Param
import Xv6.Library.Layout

/-!
# Virtual memory

The page allocator, page directories and the address space of a process. A physical page is known by its number. The
entries of a page directory and of its page tables are kept with the page directory, under the index of a directory
entry and under the number of a virtual page. An address is a `uint`: sums are reduced where they can wrap.
-/

namespace Xv6.Vm
open Xv6.Library

def PGSIZE : Nat := 4096
def EXTMEM : Nat := 0x100000
def PHYSTOP : Nat := 0xE000000
def DEVSPACE : Nat := 0xFE000000
def KERNLINK : Nat := KERNBASE + EXTMEM
def NPDENTRIES : Nat := 1024
def NPTENTRIES : Nat := 1024
def PTE_P : Nat := 1
def PTE_W : Nat := 2
def PTE_U : Nat := 4

def uint (a : Nat) : Nat := a % 2 ^ 32

def PGROUNDUP (a : Nat) : Nat := uint (a + PGSIZE - 1) / PGSIZE * PGSIZE
def PGROUNDDOWN (a : Nat) : Nat := a / PGSIZE * PGSIZE
def PDX (va : Nat) : Nat := va / 2 ^ 22 % NPDENTRIES
def PTX (va : Nat) : Nat := va / 2 ^ 12 % NPTENTRIES
def PGADDR (d t o : Nat) : Nat := uint (d * 2 ^ 22 ||| t * 2 ^ 12 ||| o)
def V2P (a : Nat) : Nat := uint (a + 2 ^ 32 - KERNBASE)

abbrev Frame := Nat

def frame (pte : Nat) : Nat := pte / PGSIZE
def PTE_FLAGS (pte : Nat) : Nat := pte % PGSIZE
def present (pte : Nat) : Prop := pte &&& PTE_P ≠ 0

instance (pte : Nat) : Decidable (present pte) := inferInstanceAs (Decidable (_ ≠ _))

/-- Where the kernel is linked: its data, and the first address after it. -/
structure Link where
  data : Nat
  stop : Nat
  aligned : data % PGSIZE = 0
  above : KERNLINK < data
  within : data ≤ stop
  below : stop < KERNBASE + PHYSTOP

/-- A page table: the page it takes, and its entries. -/
structure Table where
  frame : Frame
  pte : Nat → Nat

/-- The page tables of the directory entries that are present. -/
abbrev Dir := Nat → Option Table

/-- The entry for a virtual page, 0 where there is no page table. -/
def Dir.pte (x : Dir) (v : Nat) : Nat := (x (v / NPTENTRIES)).elim 0 fun t => t.pte (v % NPTENTRIES)

def Dir.setPte (x : Dir) (v pte : Nat) : Dir :=
  Function.update x (v / NPTENTRIES)
    ((x (v / NPTENTRIES)).map fun t => { t with pte := Function.update t.pte (v % NPTENTRIES) pte })

/-- What `growproc` uses of its process. -/
structure Task where
  pgdir : Frame
  sz : Nat
  deriving DecidableEq

structure Mem where
  free : List Frame
  /-- Whether the next calls of `kalloc` fail whatever is free. -/
  fail : List Bool
  page : Frame → Bytes
  dir : Frame → Dir
  task : Task

inductive Stop where
  | kfree
  | remap
  | phystop
  | copyuvmPte
  | copyuvmPresent
  /-- A loop has made as many turns as there are pages. -/
  | spin
  deriving DecidableEq

abbrev M := StateT Mem (Except Stop)

def panicIf (c : Prop) [Decidable c] (e : Stop) : M Unit := if c then throw e else return

def kalloc : M (Option Frame) := do
  let m ← get
  match m.fail.head?, m.free with
  | some true, _ | _, [] => do
      set { m with fail := m.fail.tail }
      return none
  | _, f :: free => do
      set { m with fail := m.fail.tail, free }
      return some f

def fill (f : Frame) (b : Mem → Bytes) : M Unit := modify fun m => { m with page := Function.update m.page f (b m) }

def setDir (d : Frame) (x : Dir) : M Unit := modify fun m => { m with dir := Function.update m.dir d x }

def getPte (d v : Nat) : M Nat := do return ((← get).dir d).pte v

def setPte (d v pte : Nat) : M Unit := do setDir d (((← get).dir d).setPte v pte)

section
variable (link : Link)

/-- `kfree` of the page at a physical address. -/
def kfree (pa : Nat) : M Unit := do
  panicIf (pa % PGSIZE ≠ 0 ∨ pa < V2P link.stop ∨ PHYSTOP ≤ pa) .kfree
  fill (pa / PGSIZE) fun _ _ => 1
  modify fun m => { m with free := pa / PGSIZE :: m.free }

end

/-- The number of the page whose entry `walkpgdir` finds. -/
def walkpgdir (d va : Nat) (alloc : Bool) : M (Option Nat) := do
  let x := (← get).dir d
  let v := PDX va * NPTENTRIES + PTX va
  match x (PDX va) with
  | some _ => return some v
  | none =>
      if alloc then do
        match ← kalloc with
        | none => return none
        | some f => do
            setDir d (Function.update x (PDX va) (some ⟨f, fun _ => 0⟩))
            return some v
      else return none

/-- The loop of `mappages`, whose range has at most as many pages as the address space. -/
def mapFrom (d last perm : Nat) : Nat → Nat → Nat → M Bool
  | 0, _, _ => throw .spin
  | n + 1, a, pa => do
      match ← walkpgdir d a true with
      | none => return false
      | some v => do
          panicIf (present (← getPte d v)) .remap
          setPte d v (pa ||| perm ||| PTE_P)
          if a = last then return true else mapFrom d last perm n (uint (a + PGSIZE)) (uint (pa + PGSIZE))

/-- Whether all pages have been mapped. -/
def mappages (d va size pa perm : Nat) : M Bool :=
  mapFrom d (PGROUNDDOWN (uint (va + size + 2 ^ 32 - 1))) perm (NPDENTRIES * NPTENTRIES) (PGROUNDDOWN va) pa

section
variable (link : Link)

/-- What `deallocuvm` does with the entry of a page. -/
def clearPage (d v : Nat) : M Unit := do
  let pte ← getPte d v
  if present pte then do
    panicIf (frame pte = 0) .kfree
    kfree link (frame pte * PGSIZE)
    setPte d v 0
  else return

/-- The loop of `deallocuvm`. -/
def deallocFrom (d oldsz : Nat) : Nat → Nat → M Unit
  | 0, _ => throw .spin
  | n + 1, a =>
      if a < oldsz then do
        match ← walkpgdir d a false with
        | none => deallocFrom d oldsz n (uint (uint (PGADDR (PDX a + 1) 0 0 + 2 ^ 32 - PGSIZE) + PGSIZE))
        | some v => do
            clearPage link d v
            deallocFrom d oldsz n (uint (a + PGSIZE))
      else return

def deallocuvm (d oldsz newsz : Nat) : M Nat := do
  if oldsz ≤ newsz then return oldsz
  else do
    deallocFrom link d oldsz (NPDENTRIES * NPTENTRIES) (PGROUNDUP newsz)
    return newsz

/-- The page tables that `freevm` frees, from entry `i` on. -/
def freeTables (d : Frame) : Nat → Nat → M Unit
  | 0, _ => return
  | n + 1, i => do
      (match (← get).dir d i with
        | some t => kfree link (t.frame * PGSIZE)
        | none => return)
      freeTables d n (i + 1)

def freevm (d : Frame) : M Unit := do
  let _ ← deallocuvm link d KERNBASE 0
  freeTables link d NPDENTRIES 0
  kfree link (d * PGSIZE)

structure Kmap where
  virt : Nat
  physStart : Nat
  physEnd : Nat
  perm : Nat

def Kmap.size (k : Kmap) : Nat := uint (k.physEnd + 2 ^ 32 - k.physStart)

def kmap : List Kmap :=
  [⟨KERNBASE, 0, EXTMEM, PTE_W⟩, ⟨KERNLINK, V2P KERNLINK, V2P link.data, 0⟩, ⟨link.data, V2P link.data, PHYSTOP, PTE_W⟩,
    ⟨DEVSPACE, DEVSPACE, 0, PTE_W⟩]

/-- The loop of `setupkvm`. -/
def mapKernel (d : Frame) : List Kmap → M Bool
  | [] => return true
  | k :: rest => do
      if ← mappages d k.virt k.size k.physStart k.perm then mapKernel d rest else return false

def setupkvm : M (Option Frame) := do
  match ← kalloc with
  | none => return none
  | some d => do
      setDir d fun _ => none
      panicIf (DEVSPACE < KERNBASE + PHYSTOP) .phystop
      if ← mapKernel d (kmap link) then return some d
      else do
        freevm link d
        return none

/-- The loop of `allocuvm`. -/
def allocFrom (d oldsz newsz : Nat) : Nat → Nat → M Nat
  | 0, _ => throw .spin
  | n + 1, a =>
      if a < newsz then do
        match ← kalloc with
        | none => do
            let _ ← deallocuvm link d newsz oldsz
            return 0
        | some f => do
            fill f fun _ _ => 0
            if ← mappages d a PGSIZE (f * PGSIZE) (PTE_W ||| PTE_U) then allocFrom d oldsz newsz n (uint (a + PGSIZE))
            else do
              let _ ← deallocuvm link d newsz oldsz
              kfree link (f * PGSIZE)
              return 0
      else return newsz

def allocuvm (d oldsz newsz : Nat) : M Nat :=
  if KERNBASE ≤ newsz then return 0
  else if newsz < oldsz then return oldsz
  else allocFrom link d oldsz newsz (NPDENTRIES * NPTENTRIES) (PGROUNDUP oldsz)

/-- The loop of `copyuvm`, from the page directory `pgdir` to `d`. -/
def copyFrom (pgdir d sz : Nat) : Nat → Nat → M (Option Frame)
  | 0, _ => throw .spin
  | n + 1, i =>
      if i < sz then do
        match ← walkpgdir pgdir i false with
        | none => throw .copyuvmPte
        | some v => do
            let pte ← getPte pgdir v
            panicIf (¬present pte) .copyuvmPresent
            match ← kalloc with
            | none => do
                freevm link d
                return none
            | some f => do
                fill f fun m => m.page (frame pte)
                if ← mappages d i PGSIZE (f * PGSIZE) (PTE_FLAGS pte) then copyFrom pgdir d sz n (uint (i + PGSIZE))
                else do
                  kfree link (f * PGSIZE)
                  freevm link d
                  return none
      else return some d

def copyuvm (pgdir sz : Nat) : M (Option Frame) := do
  match ← setupkvm link with
  | none => return none
  | some d => copyFrom link pgdir d sz (NPDENTRIES * NPTENTRIES) 0

def setSize (sz : Nat) : M Int := do
  modify fun m => { m with task := { m.task with sz } }
  return 0

/-- The end of `growproc`, where 0 stands for a failure. -/
def setGrown (sz : Nat) : M Int := if sz = 0 then return -1 else setSize sz

def growproc (n : Int) : M Int := do
  let t := (← get).task
  if 0 < n then do
    let sz ← allocuvm link t.pgdir t.sz ((t.sz + n) % 2 ^ 32).toNat
    setGrown sz
  else if n < 0 then do
    let sz ← deallocuvm link t.pgdir t.sz ((t.sz + n) % 2 ^ 32).toNat
    setGrown sz
  else setSize t.sz

end

end Xv6.Vm
