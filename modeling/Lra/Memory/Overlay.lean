import Lra.Buffer.Access
import Lra.Buffer.Pairs
import Lra.Memory.Registers

/-!
# Overlapping registers

`_getOverlayLen` counts, and `_getOverlayReg` lists, the pairs of register bytes that
occupy one address. The first keeps a counter for each distinct address, the second
searches all earlier bytes; both are shown to agree with the pairs of the bytes.
-/

namespace Lra

open Buffer

/-! ### Bytes of the registers -/

/-- A byte of a register: the place of the register in the array, and the address. -/
@[ext] structure RegByte where
  owner : Nat
  addr : UInt64
  deriving DecidableEq, Repr

/-- The addresses `start_addr + i` for `i < bytelen`. -/
def RegisterT.addrs (reg : RegisterT) : List UInt64 :=
  (List.range reg.visitBytelen).map fun i => reg.visitAddr + UInt64.ofNat i

def RegisterT.bytes (reg : RegisterT) (owner : Nat) : List RegByte :=
  reg.addrs.map fun addr => ⟨owner, addr⟩

/-- The bytes of registers that stand in the array from place `owner` on. -/
def bytesFrom (owner : Nat) : List RegisterT → List RegByte
  | [] => []
  | reg :: arr => reg.bytes owner ++ bytesFrom (owner + 1) arr

/-- The bytes of the registers, in the order in which the loops visit them. -/
def registerBytes (arr : List RegisterT) : List RegByte := bytesFrom 0 arr

def RegByte.same (a b : RegByte) : Bool := a.addr == b.addr

/-- Every earlier register byte with every later one at the same address. -/
def overlaps (arr : List RegisterT) : List (RegByte × RegByte) :=
  pairs RegByte.same (registerBytes arr)

theorem registerBytes_length (arr : List RegisterT) :
    (registerBytes arr).length = sumArray (getRegistersInfo arr).nbytes := by
  have counted : ∀ (arr : List RegisterT) (n : Nat),
      (bytesFrom n arr).length = (arr.map RegisterT.visitBytelen).sum := by
    intro arr
    induction arr with
    | nil => simp [bytesFrom]
    | cons reg arr ih =>
        intro n
        rw [bytesFrom, List.length_append, ih, List.map_cons, List.sum_cons]
        simp [RegisterT.bytes, RegisterT.addrs]
  rw [sum_nbytes]
  exact counted arr 0

/-- No register has two bytes at one address. -/
theorem RegisterT.nodup_addrs (reg : RegisterT) : reg.addrs.Nodup := by
  refine List.Nodup.map_on ?_ List.nodup_range
  intro i inside j inside' same
  have small := reg.visitBytelen_le
  have low := List.mem_range.mp inside
  have low' := List.mem_range.mp inside'
  have equal : UInt64.ofNat i = UInt64.ofNat j := by
    simpa using same
  have values := congrArg UInt64.toNat equal
  rw [UInt64.toNat_ofNat', UInt64.toNat_ofNat'] at values
  omega

theorem le_owner {arr : List RegisterT} {n : Nat} {b : RegByte} (inside : b ∈ bytesFrom n arr) :
    n ≤ b.owner := by
  induction arr generalizing n with
  | nil => simp [bytesFrom] at inside
  | cons reg arr ih =>
      rcases List.mem_append.mp inside with first | later
      · obtain ⟨addr, _, rfl⟩ := List.mem_map.mp first
        exact Nat.le_refl n
      · have := ih later
        omega

theorem nodup_bytesFrom (arr : List RegisterT) (n : Nat) : (bytesFrom n arr).Nodup := by
  induction arr generalizing n with
  | nil => exact List.nodup_nil
  | cons reg arr ih =>
      refine List.nodup_append'.mpr ⟨?_, ih (n + 1), ?_⟩
      · exact reg.nodup_addrs.map fun a b same => (RegByte.mk.inj same).2
      · intro b first later
        obtain ⟨addr, _, rfl⟩ := List.mem_map.mp first
        have := le_owner later
        simp at this

/-! ### Counting -/

/-- The variables of `_getOverlayLen`. -/
structure OverlayLen where
  addrOverlap : List UInt64
  valid : List UInt16
  overlayNum : Nat
  globalIdx : Nat
  deriving DecidableEq

/-- `std::find` over a whole array: the length if nothing is found. -/
def findAddr (arr : List UInt64) (addr : UInt64) : Nat := arr.idxOf addr

/-- `it != addr_overlap.end() && valid.at(valid_idx)`: the count of the slot that was found. -/
def slotCount (s : OverlayLen) (validIdx : Nat) : Checked UInt16 :=
  if validIdx ≠ s.addrOverlap.length then get s.valid validIdx else pure 0

/-- The body of the loops of `_getOverlayLen`. A slot that was found counts only if it is
in use, as address 0 is also what unused slots hold. -/
def overlayLenByte (s : OverlayLen) (addr : UInt64) : Checked OverlayLen := do
  let validIdx := findAddr s.addrOverlap addr
  let count ← slotCount s validIdx
  if count ≠ 0 then
    let valid ← put s.valid validIdx (count + 1)
    return { s with valid, overlayNum := s.overlayNum + count.toNat }
  else
    let addrOverlap ← put s.addrOverlap s.globalIdx addr
    let valid ← put s.valid s.globalIdx 1
    return { s with addrOverlap, valid, globalIdx := s.globalIdx + 1 }

/-- `_getOverlayLen<LEN>`. -/
def getOverlayLen (len : Nat) (arr : List RegisterT) : Checked Nat := do
  let s ← arr.foldlM (fun s reg => reg.addrs.foldlM overlayLenByte s)
    ⟨List.replicate len 0, List.replicate len 0, 0, 0⟩
  return s.overlayNum

/-- How many of the bytes are at an address. -/
def bytesAt (bs : List RegByte) (addr : UInt64) : Nat := bs.countP (·.addr == addr)

/-- After the bytes `bs`: the slots in use hold each of their addresses once, with how many
of the bytes are there. -/
structure Counted (len : Nat) (bs : List RegByte) (seen : List UInt64) (s : OverlayLen) :
    Prop where
  distinct : seen.Nodup
  mem_iff : ∀ addr, addr ∈ seen ↔ 0 < bytesAt bs addr
  length_le : seen.length ≤ bs.length
  idx : s.globalIdx = seen.length
  addrs : s.addrOverlap = seen ++ List.replicate (len - seen.length) 0
  counts : s.valid = seen.map (fun addr => UInt16.ofNat (bytesAt bs addr)) ++
    List.replicate (len - seen.length) 0
  num : s.overlayNum = (pairs RegByte.same bs).length

@[simp] theorem bytesAt_concat_self (bs : List RegByte) (b : RegByte) :
    bytesAt (bs ++ [b]) b.addr = bytesAt bs b.addr + 1 := by
  simp [bytesAt]

theorem bytesAt_concat_of_ne {bs : List RegByte} {b : RegByte} {addr : UInt64}
    (apart : addr ≠ b.addr) : bytesAt (bs ++ [b]) addr = bytesAt bs addr := by
  simp [bytesAt, Ne.symm apart]

theorem bytesAt_le (bs : List RegByte) (addr : UInt64) : bytesAt bs addr ≤ bs.length :=
  List.countP_le_length

/-- A new byte is paired with the earlier bytes at its address. -/
theorem length_pairs_byte (bs : List RegByte) (b : RegByte) :
    (pairs RegByte.same (bs ++ [b])).length =
      (pairs RegByte.same bs).length + bytesAt bs b.addr := by
  rw [length_pairs_concat]
  rfl

/-- The counts of addresses other than the new one stay as they are. -/
theorem counts_concat {bs : List RegByte} {b : RegByte} {l : List UInt64} (fresh : b.addr ∉ l) :
    l.map (fun addr => UInt16.ofNat (bytesAt (bs ++ [b]) addr)) =
      l.map fun addr => UInt16.ofNat (bytesAt bs addr) := by
  refine List.map_congr_left fun addr inside => ?_
  have apart : addr ≠ b.addr := fun same => fresh (same ▸ inside)
  rw [bytesAt_concat_of_ne apart]

section Counting

variable {len : Nat} {bs : List RegByte} {seen : List UInt64} {s : OverlayLen} {b : RegByte}

theorem counted_initial (len : Nat) :
    Counted len [] [] ⟨List.replicate len 0, List.replicate len 0, 0, 0⟩ where
  distinct := List.nodup_nil
  mem_iff addr := by simp [bytesAt]
  length_le := Nat.le_refl 0
  idx := rfl
  addrs := rfl
  counts := rfl
  num := rfl

/-- A byte at an address seen before: its slot is in use. -/
theorem Counted.again (counted : Counted len bs seen s) (known : b.addr ∈ seen)
    (small : bs.length < 65536) :
    ∃ t, overlayLenByte s b.addr = .ok t ∧ Counted len (bs ++ [b]) seen t := by
  obtain ⟨before, after, split, first⟩ := List.eq_append_cons_of_mem known
  have distinct := counted.distinct
  rw [split] at distinct
  have unique : b.addr ∉ after := (List.nodup_middle.mp distinct).notMem ∘ List.mem_append_right _
  have found : findAddr s.addrOverlap b.addr = before.length := by
    rw [findAddr, counted.addrs, split, List.append_assoc, List.idxOf_append_of_notMem first]
    simp
  have inside : before.length ≠ s.addrOverlap.length := by
    simp [counted.addrs, split]
  have row : s.valid = before.map (fun addr => UInt16.ofNat (bytesAt bs addr)) ++
      UInt16.ofNat (bytesAt bs b.addr) :: (after.map (fun addr => UInt16.ofNat (bytesAt bs addr)) ++
        List.replicate (len - seen.length) 0) := by
    rw [counted.counts, split]
    simp
  have some_before := (counted.mem_iff b.addr).mp known
  have few := bytesAt_le bs b.addr
  have in_use : UInt16.ofNat (bytesAt bs b.addr) ≠ 0 := by
    intro zero
    have := congrArg UInt16.toNat zero
    simp at this
    omega
  have read : get s.valid before.length = .ok (UInt16.ofNat (bytesAt bs b.addr)) := by
    rw [row]
    simpa using get_append_right (before.map fun addr => UInt16.ofNat (bytesAt bs addr)) _ _
  have written : put s.valid before.length (UInt16.ofNat (bytesAt bs b.addr) + 1) =
      .ok (seen.map (fun addr => UInt16.ofNat (bytesAt (bs ++ [b]) addr)) ++
        List.replicate (len - seen.length) 0) := by
    rw [row, put_eq (by simp), split]
    simp [counts_concat first, counts_concat unique]
  have count : (UInt16.ofNat (bytesAt bs b.addr)).toNat = bytesAt bs b.addr := by
    rw [UInt16.toNat_ofNat']
    omega
  have step : overlayLenByte s b.addr = .ok { s with
      valid := seen.map (fun addr => UInt16.ofNat (bytesAt (bs ++ [b]) addr)) ++
        List.replicate (len - seen.length) 0
      overlayNum := s.overlayNum + bytesAt bs b.addr } := by
    simp only [overlayLenByte, slotCount, found, if_pos inside, read, ok_bind, if_pos in_use,
      written, count]
    rfl
  refine ⟨_, step, { counted with mem_iff := ?_, length_le := ?_, counts := rfl, num := ?_ }⟩
  · intro addr
    rw [counted.mem_iff]
    by_cases same : addr = b.addr
    · subst same
      simp [some_before]
    · rw [bytesAt_concat_of_ne same]
  · have := counted.length_le
    simp
    omega
  · rw [length_pairs_byte, counted.num]

/-- Nothing is counted at a new address: either it is not found, or the filler of the first
free slot is mistaken for address 0. -/
theorem Counted.slotCount_fresh (counted : Counted len bs seen s) (new : b.addr ∉ seen)
    (room : bs.length < len) : slotCount s (findAddr s.addrOverlap b.addr) = .ok 0 := by
  have length_le := counted.length_le
  obtain ⟨free, slots⟩ : ∃ free, len - seen.length = free + 1 := ⟨len - seen.length - 1, by omega⟩
  have found : findAddr s.addrOverlap b.addr =
      seen.length + (List.replicate (free + 1) (0 : UInt64)).idxOf b.addr := by
    rw [findAddr, counted.addrs, slots, List.idxOf_append_of_notMem new]
  by_cases zero : b.addr = 0
  · have first : findAddr s.addrOverlap b.addr = seen.length := by
      rw [found, zero, List.replicate_succ, List.idxOf_cons_self, Nat.add_zero]
    have inside : seen.length ≠ s.addrOverlap.length := by
      rw [counted.addrs, slots, List.length_append, List.length_replicate]
      omega
    rw [first, slotCount, if_pos inside, counted.counts, slots, List.replicate_succ]
    simpa using get_append_right (seen.map fun addr => UInt16.ofNat (bytesAt bs addr)) 0
      (List.replicate free 0)
  · have absent : b.addr ∉ List.replicate (free + 1) (0 : UInt64) := by
      simp [List.mem_replicate, zero]
    have last : findAddr s.addrOverlap b.addr = s.addrOverlap.length := by
      rw [found, List.idxOf_of_notMem absent, counted.addrs, slots, List.length_append]
    rw [slotCount, if_neg (not_not_intro last)]
    rfl

/-- A byte at a new address takes the next free slot. -/
theorem Counted.fresh (counted : Counted len bs seen s) (new : b.addr ∉ seen)
    (room : bs.length < len) :
    ∃ t, overlayLenByte s b.addr = .ok t ∧ Counted len (bs ++ [b]) (seen ++ [b.addr]) t := by
  have length_le := counted.length_le
  obtain ⟨free, slots⟩ : ∃ free, len - seen.length = free + 1 := ⟨len - seen.length - 1, by omega⟩
  have left : len - (seen ++ [b.addr]).length = free := by
    rw [List.length_append, List.length_singleton]
    omega
  have none_before : bytesAt bs b.addr = 0 := by
    have := (counted.mem_iff b.addr).not.mp new
    omega
  have count : slotCount s (findAddr s.addrOverlap b.addr) = .ok 0 :=
    counted.slotCount_fresh new room
  have address : put s.addrOverlap s.globalIdx b.addr =
      .ok (seen ++ [b.addr] ++ List.replicate free 0) := by
    rw [counted.addrs, counted.idx, slots, List.replicate_succ]
    exact put_append ..
  have used : put s.valid s.globalIdx 1 =
      .ok ((seen ++ [b.addr]).map (fun addr => UInt16.ofNat (bytesAt (bs ++ [b]) addr)) ++
        List.replicate free 0) := by
    rw [counted.counts, counted.idx, slots, List.replicate_succ, List.map_append,
      counts_concat new, List.map_singleton, bytesAt_concat_self, none_before]
    simpa using put_append (seen.map fun addr => UInt16.ofNat (bytesAt bs addr)) 0 1
      (List.replicate free 0)
  have step : overlayLenByte s b.addr = .ok { s with
      addrOverlap := seen ++ [b.addr] ++ List.replicate free 0
      valid := (seen ++ [b.addr]).map (fun addr => UInt16.ofNat (bytesAt (bs ++ [b]) addr)) ++
        List.replicate free 0
      globalIdx := s.globalIdx + 1 } := by
    simp only [overlayLenByte, count, ok_bind, address, used]
    rfl
  refine ⟨_, step, {
    distinct := ?_, mem_iff := ?_, length_le := ?_, idx := ?_, addrs := ?_, counts := ?_,
    num := ?_ }⟩
  · exact List.nodup_append'.mpr ⟨counted.distinct, List.nodup_singleton _, by simpa using new⟩
  · intro addr
    rw [List.mem_append, counted.mem_iff, List.mem_singleton]
    by_cases same : addr = b.addr
    · subst same
      simp
    · simp [bytesAt_concat_of_ne same, same]
  · simp [length_le]
  · rw [counted.idx, List.length_append, List.length_singleton]
  · rw [left]
  · rw [left]
  · rw [length_pairs_byte, none_before, counted.num, Nat.add_zero]

end Counting

/-- The two loops visit the bytes in one row. -/
theorem listLoop_eq {σ : Type} (f : Nat → σ → UInt64 → Checked σ) (arr : List RegisterT) (s : σ) :
    arr.zipIdx.foldlM (fun s (reg, place) => reg.addrs.foldlM (f place) s) s =
      (registerBytes arr).foldlM (fun s b => f b.owner s b.addr) s := by
  have rows : ∀ (arr : List RegisterT) (n : Nat) (s : σ),
      (arr.zipIdx n).foldlM (fun s (reg, place) => reg.addrs.foldlM (f place) s) s =
        (bytesFrom n arr).foldlM (fun s b => f b.owner s b.addr) s := by
    intro arr
    induction arr with
    | nil => exact fun _ _ => rfl
    | cons reg arr ih =>
        intro n s
        rw [List.zipIdx_cons, List.foldlM_cons, bytesFrom, List.foldlM_append, RegisterT.bytes,
          List.foldlM_map]
        exact congrArg _ (funext fun s => ih (n + 1) s)
  exact rows arr 0 s

theorem countLoop_eq {σ : Type} (f : σ → UInt64 → Checked σ) (arr : List RegisterT) (s : σ) :
    arr.foldlM (fun s reg => reg.addrs.foldlM f s) s =
      (registerBytes arr).foldlM (fun s b => f s b.addr) s :=
  calc arr.foldlM (fun s reg => reg.addrs.foldlM f s) s
      = (arr.zipIdx.map Prod.fst).foldlM (fun s reg => reg.addrs.foldlM f s) s := by
        rw [List.zipIdx_map_fst]
    _ = arr.zipIdx.foldlM (fun s p => p.1.addrs.foldlM f s) s := List.foldlM_map
    _ = (registerBytes arr).foldlM (fun s b => f s b.addr) s := listLoop_eq (fun _ => f) arr s

/-- `_getOverlayLen` counts the pairs. -/
theorem getOverlayLen_eq {arr : List RegisterT} {len : Nat}
    (bytes : len = (registerBytes arr).length) (small : len < 65536) :
    getOverlayLen len arr = .ok (overlaps arr).length := by
  obtain ⟨s, ran, seen, counted⟩ := foldlM_invariant (l := registerBytes arr)
    (I := fun bs s => ∃ seen, Counted len bs seen s)
    (f := fun s b => overlayLenByte s b.addr) ⟨[], counted_initial len⟩ (by
      intro done b rest s split counted
      obtain ⟨seen, counted⟩ := counted
      have room : done.length < len := by
        rw [bytes, split, List.length_append, List.length_cons]
        omega
      by_cases known : b.addr ∈ seen
      · obtain ⟨t, ran, kept⟩ := counted.again known (by omega)
        exact ⟨t, ran, seen, kept⟩
      · obtain ⟨t, ran, kept⟩ := counted.fresh known room
        exact ⟨t, ran, _, kept⟩)
  rw [getOverlayLen, countLoop_eq, ran, ok_bind, counted.num]
  rfl

-- three bytes at address 0 make three pairs
example : getOverlayLen 4 [.register8 0 0, .register16 0 0, .register8 0 0] = .ok 3 := by decide

/-! ### Listing -/

/-- `OverlayRegs`; a pointer to a register is its place in the array. -/
structure OverlayRegs where
  reg1 : Option Nat := none
  reg2 : Option Nat := none
  overlapAddr : UInt64 := 0
  deriving DecidableEq, Repr

/-- The order of `operator<`. -/
def OverlayRegs.Le (a b : OverlayRegs) : Prop := a.overlapAddr ≤ b.overlapAddr

instance (a b : OverlayRegs) : Decidable (a.Le b) :=
  inferInstanceAs (Decidable (a.overlapAddr ≤ b.overlapAddr))

/-- `std::sort`: a rearrangement in order. Which of two equivalent elements comes first is
left open. -/
structure StdSort (α : Type) (le : α → α → Prop) where
  sort : List α → List α
  perm : ∀ l, (sort l).Perm l
  ordered : ∀ l, (sort l).Pairwise le

/-- The variables of `_getOverlayReg`. -/
structure OverlayReg where
  addrOverlapArr : List UInt64
  reg1Arr : List (Option Nat)
  regsOverlapArr : List OverlayRegs
  overlayIdx : Nat
  globalIdx : Nat

/-- `std::find(itr, last, addr)`: `last` if nothing is found. -/
def findFrom (arr : List UInt64) (itr last : Nat) (addr : UInt64) : Nat :=
  itr + ((arr.take last).drop itr).idxOf addr

/-- The innermost loop: one entry for each earlier byte at `addr`, until the search runs into
a null pointer. The first argument bounds the rounds; it never runs out. -/
def overlapScan (addr : UInt64) (reg : Nat) : Nat → Nat → OverlayReg → Checked OverlayReg
  | 0, itr, _ => .error ⟨itr⟩
  | rounds + 1, itr, s => do
    let itr := findFrom s.addrOverlapArr itr s.globalIdx addr
    if itr = s.addrOverlapArr.length then
      return s
    else
      match ← get s.reg1Arr itr with
      | none => return s
      | some reg1 =>
        let overlapAddr ← get s.addrOverlapArr itr
        let regsOverlapArr ← put s.regsOverlapArr s.overlayIdx ⟨some reg1, some reg, overlapAddr⟩
        overlapScan addr reg rounds (itr + 1)
          { s with regsOverlapArr, overlayIdx := s.overlayIdx + 1 }

/-- The body of the loops of `_getOverlayReg`. -/
def overlayRegByte (reg : Nat) (s : OverlayReg) (addr : UInt64) : Checked OverlayReg := do
  let s ← overlapScan addr reg (s.addrOverlapArr.length + 1) 0 s
  let addrOverlapArr ← put s.addrOverlapArr s.globalIdx addr
  let reg1Arr ← put s.reg1Arr s.globalIdx (some reg)
  return { s with addrOverlapArr, reg1Arr, globalIdx := s.globalIdx + 1 }

/-- `_getOverlayReg<LEN, OVERLAY_LEN>`; `uninit` is what the address array holds before it is
written. -/
def getOverlayReg (std : StdSort OverlayRegs OverlayRegs.Le) (uninit : Nat → UInt64)
    (len overlayLen : Nat) (arr : List RegisterT) : Checked (List OverlayRegs) := do
  let s ← arr.zipIdx.foldlM (fun s (reg, place) => reg.addrs.foldlM (overlayRegByte place) s)
    ⟨(List.range len).map uninit, List.replicate len none, List.replicate overlayLen {}, 0, 0⟩
  return std.sort s.regsOverlapArr

/-- The entry for a pair of bytes. -/
def overlayOf (p : RegByte × RegByte) : OverlayRegs := ⟨some p.1.owner, some p.2.owner, p.1.addr⟩

/-- After the bytes `bs`: their addresses and owners fill the front of the arrays, and `found`
the front of the result. -/
structure Listed (len total : Nat) (bs : List RegByte) (found : List OverlayRegs)
    (s : OverlayReg) : Prop where
  addrs : ∃ rest, s.addrOverlapArr = bs.map RegByte.addr ++ rest ∧ rest.length = len - bs.length
  owners : s.reg1Arr = bs.map (fun b => some b.owner) ++ List.replicate (len - bs.length) none
  regs : s.regsOverlapArr = found ++ List.replicate (total - found.length) ({} : OverlayRegs)
  overlay : s.overlayIdx = found.length
  idx : s.globalIdx = bs.length

/-- The entries for the byte `b` with those of `bs`. -/
def hits (bs : List RegByte) (b : RegByte) : List OverlayRegs :=
  (bs.filter (RegByte.same · b)).map fun a => overlayOf (a, b)

theorem hits_append (l m : List RegByte) (b : RegByte) :
    hits (l ++ m) b = hits l b ++ hits m b := by
  simp [hits]

theorem hits_cons_of_same {c b : RegByte} (same : c.addr = b.addr) (l : List RegByte) :
    hits (c :: l) b = overlayOf (c, b) :: hits l b := by
  simp [hits, RegByte.same, same]

theorem hits_eq_nil {l : List RegByte} {b : RegByte} (apart : ∀ a ∈ l, a.addr ≠ b.addr) :
    hits l b = [] := by
  rw [hits, List.map_eq_nil_iff, List.filter_eq_nil_iff]
  intro a inside same
  exact apart a inside (by simpa [RegByte.same] using same)

section Listing

variable {len total : Nat} {bs : List RegByte} {found : List OverlayRegs} {s : OverlayReg}

theorem Listed.length (listed : Listed len total bs found s) (room : bs.length ≤ len) :
    s.addrOverlapArr.length = len := by
  obtain ⟨rest, addrs, length⟩ := listed.addrs
  rw [addrs, List.length_append, List.length_map, length]
  omega

/-- The search from `itr` on sees the bytes from `itr` on. -/
theorem Listed.findFrom_eq (listed : Listed len total bs found s) (itr : Nat) (addr : UInt64) :
    findFrom s.addrOverlapArr itr s.globalIdx addr =
      itr + ((bs.drop itr).map RegByte.addr).idxOf addr := by
  obtain ⟨rest, addrs, _⟩ := listed.addrs
  rw [findFrom, addrs, listed.idx, List.take_left' (List.length_map ..), List.map_drop]

/-- Behind the bytes there are null pointers. -/
theorem Listed.null (listed : Listed len total bs found s) (room : bs.length < len) :
    get s.reg1Arr bs.length = .ok none := by
  obtain ⟨free, slots⟩ : ∃ free, len - bs.length = free + 1 := ⟨len - bs.length - 1, by omega⟩
  rw [listed.owners, slots, List.replicate_succ]
  simpa using get_append_right (bs.map fun b => some b.owner) none (List.replicate free none)

/-- What the arrays hold for one of the bytes. -/
theorem Listed.read {front after : List RegByte} {c : RegByte}
    (listed : Listed len total bs found s) (whole : bs = front ++ c :: after) :
    get s.reg1Arr front.length = .ok (some c.owner) ∧
      get s.addrOverlapArr front.length = .ok c.addr := by
  obtain ⟨unused, addrs, _⟩ := listed.addrs
  rw [listed.owners, addrs, whole, List.map_append, List.map_append, List.append_assoc,
    List.append_assoc]
  constructor
  · simpa using get_append_right (front.map fun b => some b.owner) (some c.owner) _
  · simpa using get_append_right (front.map RegByte.addr) c.addr _

/-- One more entry of the result. -/
theorem Listed.write (listed : Listed len total bs found s) (entry : OverlayRegs)
    (room : found.length < total) :
    ∃ regs, put s.regsOverlapArr s.overlayIdx entry = .ok regs ∧
      Listed len total bs (found ++ [entry])
        { s with regsOverlapArr := regs, overlayIdx := s.overlayIdx + 1 } := by
  obtain ⟨free, slots⟩ : ∃ free, total - found.length = free + 1 :=
    ⟨total - found.length - 1, by omega⟩
  have left : total - (found ++ [entry]).length = free := by
    rw [List.length_append, List.length_singleton]
    omega
  refine ⟨found ++ [entry] ++ List.replicate free ({} : OverlayRegs), ?_, ?_⟩
  · rw [listed.regs, listed.overlay, slots, List.replicate_succ]
    exact put_append ..
  · exact { listed with
      regs := by rw [left]
      overlay := by rw [listed.overlay, List.length_append, List.length_singleton] }

/-- The first byte from `itr` on that is at the address of `b`. -/
theorem exists_first_hit {b : RegByte} {itr : Nat} (le : itr ≤ bs.length)
    (hit : ∃ a ∈ bs.drop itr, a.addr = b.addr) :
    ∃ front c, bs = front ++ c :: bs.drop (front.length + 1) ∧ itr ≤ front.length ∧
      c.addr = b.addr ∧ ((bs.drop itr).map RegByte.addr).idxOf b.addr = front.length - itr ∧
      hits (bs.drop itr) b = overlayOf (c, b) :: hits (bs.drop (front.length + 1)) b := by
  obtain ⟨a, inside, same⟩ := hit
  have found : ((bs.drop itr).find? (RegByte.same · b)).isSome = true :=
    List.find?_isSome.mpr ⟨a, inside, by simp [RegByte.same, same]⟩
  obtain ⟨c, first⟩ := Option.isSome_iff_exists.mp found
  obtain ⟨here, before, after, split, others⟩ := List.find?_eq_some_iff_append.mp first
  have here : c.addr = b.addr := by simpa [RegByte.same] using here
  have apart : ∀ a ∈ before, a.addr ≠ b.addr := by
    intro a inside
    simpa [RegByte.same] using others a inside
  have unseen : b.addr ∉ before.map RegByte.addr := by
    intro seen
    obtain ⟨a, inside, same⟩ := List.mem_map.mp seen
    exact apart a inside same
  have length : (bs.take itr ++ before).length = itr + before.length := by
    rw [List.length_append, List.length_take_of_le le]
  have rest : bs.drop ((bs.take itr ++ before).length + 1) = after := by
    rw [length, Nat.add_assoc, ← List.drop_drop, split]
    simp
  refine ⟨bs.take itr ++ before, c, ?_, by omega, here, ?_, ?_⟩
  · rw [rest, List.append_assoc, ← split, List.take_append_drop]
  · rw [split, List.map_append, List.map_cons, here, List.idxOf_append_of_notMem unseen,
      List.idxOf_cons_self, List.length_map, length]
    omega
  · rw [rest, split, hits_append, hits_eq_nil apart, hits_cons_of_same here, List.nil_append]

/-- The scan adds the entries for the bytes from `itr` on. -/
theorem overlapScan_listed {b : RegByte} {itr rounds : Nat}
    (listed : Listed len total bs found s) (room : bs.length < len) (le : itr ≤ bs.length)
    (enough : bs.length < itr + rounds)
    (fits : found.length + (hits (bs.drop itr) b).length ≤ total) :
    ∃ t, overlapScan b.addr b.owner rounds itr s = .ok t ∧
      Listed len total bs (found ++ hits (bs.drop itr) b) t := by
  induction rounds generalizing itr found s with
  | zero => omega
  | succ rounds ih =>
      have length := listed.length (Nat.le_of_lt room)
      by_cases hit : ∃ a ∈ bs.drop itr, a.addr = b.addr
      · obtain ⟨front, c, whole, behind, here, first, entries⟩ := exists_first_hit le hit
        have inside := congrArg List.length whole
        rw [List.length_append, List.length_cons] at inside
        have place : findFrom s.addrOverlapArr itr s.globalIdx b.addr = front.length := by
          rw [listed.findFrom_eq, first]
          omega
        obtain ⟨owner, addr⟩ := listed.read whole
        rw [entries, List.length_cons] at fits
        obtain ⟨regs, written, next⟩ := listed.write (overlayOf (c, b)) (by omega)
        have ahead : front.length + 1 ≤ bs.length := by omega
        obtain ⟨t, ran, final⟩ := ih next ahead (by omega) (by
          rw [List.length_append, List.length_singleton]
          omega)
        refine ⟨t, ?_, ?_⟩
        · rw [overlayOf] at written
          rw [overlapScan, place, if_neg (by omega), owner]
          simp only [ok_bind, addr, written, ran]
        · rwa [List.append_assoc, List.singleton_append, ← entries] at final
      · have apart : ∀ a ∈ bs.drop itr, a.addr ≠ b.addr := by
          intro a inside same
          exact hit ⟨a, inside, same⟩
        have unseen : b.addr ∉ (bs.drop itr).map RegByte.addr := by
          intro seen
          obtain ⟨a, inside, same⟩ := List.mem_map.mp seen
          exact apart a inside same
        have last : findFrom s.addrOverlapArr itr s.globalIdx b.addr = bs.length := by
          rw [listed.findFrom_eq, List.idxOf_of_notMem unseen, List.length_map, List.length_drop]
          omega
        refine ⟨s, ?_, by rwa [hits_eq_nil apart, List.append_nil]⟩
        rw [overlapScan, last, if_neg (by omega), listed.null room]
        rfl

/-- A byte adds the entries for the earlier bytes at its address. -/
theorem overlayRegByte_listed {b : RegByte} (listed : Listed len total bs found s)
    (room : bs.length < len) (fits : found.length + (hits bs b).length ≤ total) :
    ∃ t, overlayRegByte b.owner s b.addr = .ok t ∧
      Listed len total (bs ++ [b]) (found ++ hits bs b) t := by
  have length := listed.length (Nat.le_of_lt room)
  have enough : bs.length < 0 + (len + 1) := by omega
  obtain ⟨t, scanned, after⟩ :=
    overlapScan_listed (b := b) listed room (Nat.zero_le _) enough fits
  obtain ⟨rest, addrs, left⟩ := after.addrs
  obtain ⟨free, slots⟩ : ∃ free, len - bs.length = free + 1 := ⟨len - bs.length - 1, by omega⟩
  cases rest with
  | nil =>
      rw [List.length_nil] at left
      omega
  | cons r rest =>
      rw [List.length_cons] at left
      have fewer : len - (bs ++ [b]).length = free := by
        rw [List.length_append, List.length_singleton]
        omega
      have address : put t.addrOverlapArr t.globalIdx b.addr =
          .ok ((bs ++ [b]).map RegByte.addr ++ rest) := by
        rw [addrs, after.idx]
        simpa using put_append (bs.map RegByte.addr) r b.addr rest
      have owner : put t.reg1Arr t.globalIdx (some b.owner) =
          .ok ((bs ++ [b]).map (fun b => some b.owner) ++ List.replicate free none) := by
        rw [after.owners, after.idx, slots, List.replicate_succ]
        simpa using put_append (bs.map fun b => some b.owner) none (some b.owner)
          (List.replicate free none)
      have step : overlayRegByte b.owner s b.addr = .ok { t with
          addrOverlapArr := (bs ++ [b]).map RegByte.addr ++ rest
          reg1Arr := (bs ++ [b]).map (fun b => some b.owner) ++ List.replicate free none
          globalIdx := t.globalIdx + 1 } := by
        rw [overlayRegByte, length, scanned]
        simp only [ok_bind, address, owner]
        rfl
      refine ⟨_, step, { after with
        addrs := ⟨rest, rfl, by omega⟩, owners := by rw [fewer], idx := ?_ }⟩
      rw [after.idx, List.length_append, List.length_singleton]

end Listing

/-- After all bytes the result holds an entry for each pair and has no room left. -/
theorem listed_all {arr : List RegisterT} {len : Nat} (uninit : Nat → UInt64)
    (bytes : len = (registerBytes arr).length) :
    ∃ s, arr.zipIdx.foldlM (fun s (reg, place) => reg.addrs.foldlM (overlayRegByte place) s)
        ⟨(List.range len).map uninit, List.replicate len none,
          List.replicate (overlaps arr).length {}, 0, 0⟩ = .ok s ∧
      s.regsOverlapArr.Perm ((overlaps arr).map overlayOf) := by
  rw [listLoop_eq]
  obtain ⟨s, ran, found, listed, perm⟩ := foldlM_invariant (l := registerBytes arr)
    (I := fun bs s => ∃ found, Listed len (overlaps arr).length bs found s ∧
      found.Perm ((pairs RegByte.same bs).map overlayOf))
    (f := fun s b => overlayRegByte b.owner s b.addr)
    (s := ⟨(List.range len).map uninit, List.replicate len none,
      List.replicate (overlaps arr).length {}, 0, 0⟩) (by
      refine ⟨[], ⟨⟨(List.range len).map uninit, rfl, by simp⟩, rfl, rfl, rfl, rfl⟩, .nil⟩) (by
      intro done b rest s split inv
      obtain ⟨found, listed, perm⟩ := inv
      have room : done.length < len := by
        rw [bytes, split, List.length_append, List.length_cons]
        omega
      have more := (pairs_concat (r := RegByte.same) done b).map overlayOf
      rw [List.map_append, List.map_map] at more
      have grown : (found ++ hits done b).Perm
          ((pairs RegByte.same (done ++ [b])).map overlayOf) :=
        (perm.append_right (hits done b)).trans more.symm
      have fits : found.length + (hits done b).length ≤ (overlaps arr).length := by
        have length := grown.length_eq
        have bound := length_pairs_append (r := RegByte.same) (done ++ [b]) rest
        rw [List.append_assoc, List.singleton_append, ← split] at bound
        rw [List.length_append, List.length_map] at length
        rw [length]
        exact bound
      obtain ⟨t, ran, next⟩ := overlayRegByte_listed listed room fits
      exact ⟨t, ran, _, next, grown⟩)
  refine ⟨s, ran, ?_⟩
  have full : (overlaps arr).length - found.length = 0 := by
    rw [perm.length_eq, List.length_map]
    exact Nat.sub_self _
  rw [listed.regs, full, List.replicate_zero, List.append_nil]
  exact perm

/-- An entry tells which pair of bytes it is for. -/
theorem nodup_entries (arr : List RegisterT) : ((overlaps arr).map overlayOf).Nodup := by
  refine (nodup_pairs (nodup_bytesFrom arr 0)).map_on ?_
  intro p inside q inside' same
  have here := (mem_pairs.mp inside).2
  have here' := (mem_pairs.mp inside').2
  simp only [overlayOf, OverlayRegs.mk.injEq, Option.some.injEq] at same
  simp only [RegByte.same, beq_iff_eq] at here here'
  obtain ⟨first, second, addr⟩ := same
  refine Prod.ext (RegByte.ext first addr) (RegByte.ext second ?_)
  rw [← here, ← here', addr]

/-- A `std::sort` that keeps equivalent elements in their order. -/
def stableSort : StdSort OverlayRegs OverlayRegs.Le where
  sort l := l.mergeSort fun a b => decide (a.Le b)
  perm l := List.mergeSort_perm l _
  ordered l := by
    refine (List.pairwise_mergeSort ?_ ?_ l).imp fun le => of_decide_eq_true le
    · intro a b c first second
      exact decide_eq_true (UInt64.le_trans (of_decide_eq_true first) (of_decide_eq_true second))
    · intro a b
      rw [Bool.or_eq_true, decide_eq_true_iff, decide_eq_true_iff]
      exact UInt64.le_total a.overlapAddr b.overlapAddr

/-- `_getOverlayLen` is the number of pairs of register bytes at one address, and with it
`_getOverlayReg` yields, in order of address, one entry for each pair and nothing else. -/
theorem getOverlayReg_exact (std : StdSort OverlayRegs OverlayRegs.Le) (uninit : Nat → UInt64)
    (arr : List RegisterT) (small : sumArray (getRegistersInfo arr).nbytes < 65536) :
    ∃ overlayLen regs,
      getOverlayLen (sumArray (getRegistersInfo arr).nbytes) arr = .ok overlayLen ∧
      overlayLen = (overlaps arr).length ∧
      getOverlayReg std uninit (sumArray (getRegistersInfo arr).nbytes) overlayLen arr =
        .ok regs ∧
      regs.Pairwise OverlayRegs.Le ∧ regs.Nodup ∧ regs.Perm ((overlaps arr).map overlayOf) := by
  have bytes := (registerBytes_length arr).symm
  obtain ⟨s, ran, perm⟩ := listed_all uninit bytes
  have all := (std.perm s.regsOverlapArr).trans perm
  refine ⟨_, std.sort s.regsOverlapArr, getOverlayLen_eq bytes small, rfl, ?_,
    std.ordered _, all.nodup_iff.mpr (nodup_entries arr), all⟩
  rw [getOverlayReg, ran]
  rfl

/-- Three registers that share address 0, of which one overlaps nothing else. -/
theorem getOverlayReg_exact_at_zero :
    let arr := [RegisterT.register8 0 0, .register16 0 0, .register8 0 0]
    ∃ overlayLen regs,
      getOverlayLen (sumArray (getRegistersInfo arr).nbytes) arr = .ok overlayLen ∧
      overlayLen = (overlaps arr).length ∧
      getOverlayReg stableSort (fun _ => 0) (sumArray (getRegistersInfo arr).nbytes) overlayLen
        arr = .ok regs ∧
      regs.Pairwise OverlayRegs.Le ∧ regs.Nodup ∧ regs.Perm ((overlaps arr).map overlayOf) :=
  getOverlayReg_exact stableSort (fun _ => 0) _ (by decide)

end Lra
