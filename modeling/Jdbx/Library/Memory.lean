import Jdbx.Library.CString

/-!
# Byte memory

A memory is a byte for each address.  Blocks of bytes and little-endian numbers
are read and written at an address, and every law is either about reading back
what was written or about a write that misses the block that is read.
-/

namespace Jdbx.Library

abbrev Memory := Nat → UInt8

variable {memory other : Memory} {address start length : Nat} {bytes : Bytes} {width value : Nat}

/-- The block of `length` bytes at an address. -/
def readBytes (memory : Memory) (address length : Nat) : Bytes :=
  (List.range length).map fun offset => memory (address + offset)

/-- `memcpy` of a block to an address. -/
def writeBytes (memory : Memory) (address : Nat) (bytes : Bytes) : Memory :=
  fun tested =>
    if address ≤ tested then bytes[tested - address]?.getD (memory tested)
    else memory tested

/-! ## Blocks -/

@[simp]
theorem length_readBytes (memory : Memory) (address length : Nat) :
    (readBytes memory address length).length = length := by
  simp [readBytes]

@[simp]
theorem readBytes_zero (memory : Memory) (address : Nat) :
    readBytes memory address 0 = [] :=
  rfl

theorem readBytes_succ (memory : Memory) (address length : Nat) :
    readBytes memory address (length + 1) =
      memory address :: readBytes memory (address + 1) length := by
  simp [readBytes, List.range_succ_eq_map, Nat.add_comm, Nat.add_left_comm]

theorem readBytes_add (memory : Memory) (address front back : Nat) :
    readBytes memory address (front + back) =
      readBytes memory address front ++ readBytes memory (address + front) back := by
  induction front generalizing address with
  | zero => simp
  | succ front ih =>
      rw [Nat.add_right_comm, readBytes_succ, ih, readBytes_succ,
        List.cons_append, Nat.add_assoc address 1 front, Nat.add_comm 1 front]

theorem readBytes_congr
    (agree : ∀ tested, address ≤ tested → tested < address + length →
      memory tested = other tested) :
    readBytes memory address length = readBytes other address length := by
  apply List.map_congr_left
  intro offset member
  have bound : offset < length := List.mem_range.mp member
  exact agree (address + offset) (by omega) (by omega)

theorem writeBytes_of_outside
    (outside : address < start ∨ start + bytes.length ≤ address) :
    writeBytes memory start bytes address = memory address := by
  rcases outside with before | behind
  · simp [writeBytes, Nat.not_le.mpr before]
  · have missing : bytes[address - start]? = none := by
      apply List.getElem?_eq_none
      omega
    simp [writeBytes, missing]

theorem writeBytes_of_inside {offset : Nat} (inside : offset < bytes.length) :
    writeBytes memory start bytes (start + offset) = bytes[offset] := by
  simp [writeBytes, inside]

@[simp]
theorem readBytes_writeBytes_self (memory : Memory) (address : Nat) (bytes : Bytes) :
    readBytes (writeBytes memory address bytes) address bytes.length = bytes := by
  apply List.ext_getElem
  · simp
  · intro offset inside _
    have bound : offset < bytes.length := by simpa using inside
    have inBlock : writeBytes memory address bytes (address + offset) = bytes[offset] :=
      writeBytes_of_inside bound
    simpa [readBytes] using inBlock

theorem readBytes_writeBytes_of_disjoint
    (disjoint : address + length ≤ start ∨ start + bytes.length ≤ address) :
    readBytes (writeBytes memory start bytes) address length =
      readBytes memory address length := by
  apply readBytes_congr
  intro tested above below
  apply writeBytes_of_outside
  omega

theorem writeBytes_append (memory : Memory) (address : Nat) (front back : Bytes) :
    writeBytes (writeBytes memory address front) (address + front.length) back =
      writeBytes memory address (front ++ back) := by
  funext tested
  by_cases before : tested < address
  · rw [writeBytes_of_outside (Or.inl (by omega)), writeBytes_of_outside (Or.inl before),
      writeBytes_of_outside (Or.inl before)]
  · by_cases inFront : tested < address + front.length
    · rw [writeBytes_of_outside (Or.inl inFront)]
      have bound : tested - address < front.length := by omega
      simp [writeBytes, List.getElem?_append_left bound]
    · have above : address ≤ tested := by omega
      have behind : address + front.length ≤ tested := by omega
      have missing : front[tested - address]? = none := by
        apply List.getElem?_eq_none
        omega
      have bound : front.length ≤ tested - address := by omega
      simp [writeBytes, above, behind, missing, List.getElem?_append_right bound,
        Nat.sub_sub]

@[simp]
theorem writeBytes_nil (memory : Memory) (address : Nat) : writeBytes memory address [] = memory := by
  funext tested
  simp [writeBytes]

/-- The block at an address is `bytes`. -/
def Holds (memory : Memory) (address : Nat) (bytes : Bytes) : Prop :=
  readBytes memory address bytes.length = bytes

theorem holds_append {front back : Bytes} :
    Holds memory address (front ++ back) ↔
      Holds memory address front ∧ Holds memory (address + front.length) back := by
  rw [Holds, Holds, Holds, List.length_append, readBytes_add]
  constructor
  · intro same
    exact List.append_inj same (by simp)
  · rintro ⟨inFront, inBack⟩
    rw [inFront, inBack]

theorem holds_writeBytes_self (memory : Memory) (address : Nat) (bytes : Bytes) :
    Holds (writeBytes memory address bytes) address bytes :=
  readBytes_writeBytes_self memory address bytes

theorem Holds.congr (holds : Holds memory address bytes)
    (agree : ∀ tested, address ≤ tested → tested < address + bytes.length →
      memory tested = other tested) :
    Holds other address bytes := by
  rw [Holds, ← readBytes_congr agree]
  exact holds

theorem Holds.writeBytes {written : Bytes} (holds : Holds memory address bytes)
    (disjoint : address + bytes.length ≤ start ∨ start + written.length ≤ address) :
    Holds (writeBytes memory start written) address bytes := by
  apply holds.congr
  intro tested above below
  rw [writeBytes_of_outside (by omega)]

/-! ## Little-endian numbers -/

/-- The `width` bytes of a number, lowest first. -/
def littleEndian : Nat → Nat → Bytes
  | 0, _ => []
  | width + 1, value => UInt8.ofNat value :: littleEndian width (value / 256)

def ofLittleEndian : Bytes → Nat
  | [] => 0
  | byte :: bytes => byte.toNat + 256 * ofLittleEndian bytes

/-- The unsigned number of `width` bytes at an address. -/
def readNat (memory : Memory) (address width : Nat) : Nat :=
  ofLittleEndian (readBytes memory address width)

/-- Store the lowest `width` bytes of a number. -/
def writeNat (memory : Memory) (address width value : Nat) : Memory :=
  writeBytes memory address (littleEndian width value)

@[simp]
theorem length_littleEndian (width value : Nat) :
    (littleEndian width value).length = width := by
  induction width generalizing value with
  | zero => rfl
  | succ width ih => simp [littleEndian, ih]

theorem ofLittleEndian_littleEndian (width value : Nat) :
    ofLittleEndian (littleEndian width value) = value % 256 ^ width := by
  induction width generalizing value with
  | zero => simp [littleEndian, ofLittleEndian, Nat.mod_one]
  | succ width ih =>
      rw [littleEndian, ofLittleEndian, ih, pow_succ', Nat.mod_mul]
      simp

theorem ofLittleEndian_littleEndian_of_lt (small : value < 256 ^ width) :
    ofLittleEndian (littleEndian width value) = value := by
  rw [ofLittleEndian_littleEndian, Nat.mod_eq_of_lt small]

theorem Holds.readNat_mod (holds : Holds memory address (littleEndian width value)) :
    readNat memory address width = value % 256 ^ width := by
  rw [Holds, length_littleEndian] at holds
  rw [Library.readNat, holds, ofLittleEndian_littleEndian]

theorem Holds.readNat (holds : Holds memory address (littleEndian width value))
    (small : value < 256 ^ width) :
    readNat memory address width = value := by
  rw [holds.readNat_mod, Nat.mod_eq_of_lt small]

theorem Holds.writeNat (holds : Holds memory address bytes)
    (disjoint : address + bytes.length ≤ start ∨ start + width ≤ address) :
    Holds (writeNat memory start width value) address bytes := by
  apply holds.writeBytes
  simpa using disjoint

theorem readNat_writeNat_self (small : value < 256 ^ width) :
    readNat (writeNat memory address width value) address width = value := by
  apply Holds.readNat _ small
  exact holds_writeBytes_self memory address (littleEndian width value)

theorem readNat_writeBytes_of_disjoint {width : Nat}
    (disjoint : address + width ≤ start ∨ start + bytes.length ≤ address) :
    readNat (writeBytes memory start bytes) address width = readNat memory address width := by
  rw [readNat, readBytes_writeBytes_of_disjoint disjoint, readNat]

theorem readNat_writeNat_of_disjoint {width stored value : Nat}
    (disjoint : address + width ≤ start ∨ start + stored ≤ address) :
    readNat (writeNat memory start stored value) address width =
      readNat memory address width := by
  apply readNat_writeBytes_of_disjoint
  simpa using disjoint

theorem readBytes_writeNat_of_disjoint
    (disjoint : address + length ≤ start ∨ start + width ≤ address) :
    readBytes (writeNat memory start width value) address length =
      readBytes memory address length := by
  apply readBytes_writeBytes_of_disjoint
  simpa using disjoint

theorem writeNat_of_outside (outside : address < start ∨ start + width ≤ address) :
    writeNat memory start width value address = memory address := by
  apply writeBytes_of_outside
  simpa using outside

end Jdbx.Library
