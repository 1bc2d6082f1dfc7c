import Lra.Device.Register

/-!
# The register variant

`Register_T` holds a register of one of four widths. What the source computes at
compile time about an array of them is computed here by the same loops.
-/

namespace Lra

/-- `Register_T`. -/
inductive RegisterT where
  | register8 (addr : UInt64) (dv : BitVec 8)
  | register16 (addr : UInt64) (dv : BitVec 16)
  | register32 (addr : UInt64) (dv : BitVec 32)
  | register64 (addr : UInt64) (dv : BitVec 64)
  deriving DecidableEq

namespace RegisterT

def index : RegisterT → Nat
  | register8 .. => 0
  | register16 .. => 1
  | register32 .. => 2
  | register64 .. => 3

/-- `_VisitAddr`. -/
def visitAddr : RegisterT → UInt64
  | register8 addr _ | register16 addr _ | register32 addr _ | register64 addr _ => addr

/-- `_VisitBytelen`. -/
def visitBytelen : RegisterT → Nat
  | register8 .. => 1
  | register16 .. => 2
  | register32 .. => 4
  | register64 .. => 8

/-- The common base of the alternatives. -/
def toRegister : RegisterT → Register
  | register8 addr dv => ⟨addr, 1, dv.toNat⟩
  | register16 addr dv => ⟨addr, 2, dv.toNat⟩
  | register32 addr dv => ⟨addr, 4, dv.toNat⟩
  | register64 addr dv => ⟨addr, 8, dv.toNat⟩

/-- `std::variant_size_v<Register_T>`. -/
def variantSize : Nat := 4

theorem index_lt (reg : RegisterT) : reg.index < variantSize := by
  cases reg <;> simp [index, variantSize]

theorem visitBytelen_le (reg : RegisterT) : reg.visitBytelen ≤ 8 := by
  cases reg <;> simp [visitBytelen]

theorem visitBytelen_pos (reg : RegisterT) : 0 < reg.visitBytelen := by
  cases reg <;> simp [visitBytelen]

@[simp] theorem toRegister_addr (reg : RegisterT) : reg.toRegister.addr = reg.visitAddr := by
  cases reg <;> rfl

@[simp] theorem toRegister_bytelen (reg : RegisterT) :
    reg.toRegister.bytelen = reg.visitBytelen := by
  cases reg <;> rfl

end RegisterT

/-- `RegistersInfo`: bytes and registers for each alternative. -/
structure RegistersInfo where
  nbytes : List Nat
  nregs : List Nat
  deriving DecidableEq, Repr

/-- `_SumArray`. -/
def sumArray (array : List Nat) : Nat := array.foldl (fun total element => total + element) 0

/-- One round of the loop of `_getRegistersInfo`. -/
def registersInfoStep (info : RegistersInfo) (reg : RegisterT) : RegistersInfo where
  nbytes := info.nbytes.modify reg.index (· + reg.visitBytelen)
  nregs := info.nregs.modify reg.index (· + 1)

/-- `_getRegistersInfo`. -/
def getRegistersInfo (arr : List RegisterT) : RegistersInfo :=
  arr.foldl registersInfoStep
    ⟨List.replicate RegisterT.variantSize 0, List.replicate RegisterT.variantSize 0⟩

theorem sumArray_eq (array : List Nat) : sumArray array = array.sum := by
  simp [sumArray, List.sum_eq_foldl]

theorem sum_modify_add {l : List Nat} {i : Nat} (inside : i < l.length) (n : Nat) :
    (l.modify i (· + n)).sum = l.sum + n := by
  induction l generalizing i with
  | nil => simp at inside
  | cons a l ih =>
      cases i with
      | zero =>
          simp only [List.modify_zero_cons, List.sum_cons]
          omega
      | succ i =>
          simp only [List.length_cons] at inside
          have rest := ih (i := i) (by omega)
          simp only [List.modify_succ_cons, List.sum_cons, rest]
          omega

/-- The counted bytes are the bytes of the registers. -/
theorem sum_nbytes (arr : List RegisterT) :
    sumArray (getRegistersInfo arr).nbytes = (arr.map RegisterT.visitBytelen).sum := by
  have counted : ∀ (arr : List RegisterT) (info : RegistersInfo),
      info.nbytes.length = RegisterT.variantSize →
      (arr.foldl registersInfoStep info).nbytes.sum =
        info.nbytes.sum + (arr.map RegisterT.visitBytelen).sum := by
    intro arr
    induction arr with
    | nil => simp
    | cons reg arr ih =>
        intro info length
        have inside : reg.index < info.nbytes.length := by
          rw [length]
          exact reg.index_lt
        have step : (registersInfoStep info reg).nbytes.sum =
            info.nbytes.sum + reg.visitBytelen := sum_modify_add inside _
        have kept : (registersInfoStep info reg).nbytes.length = RegisterT.variantSize := by
          rw [← length]
          exact List.length_modify ..
        simp only [List.foldl_cons, List.map_cons, List.sum_cons, ih _ kept, step]
        omega
  rw [sumArray_eq, getRegistersInfo, counted arr _ (List.length_replicate ..)]
  simp

end Lra
