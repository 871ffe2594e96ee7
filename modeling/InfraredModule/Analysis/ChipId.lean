import InfraredModule.Foundation.ReflectedCrc
import InfraredModule.Model.Main

/-!
# The identifier of a module

`crc32_cyc_cal` is the reflected check of width 32 with feedback word `0xEDB88320`: its table
holds the eight shifts of every byte (`crc32Table_eq`), so its byte step is eight shifts. The
identifier is this check of the twelve bytes that tell one chip from another. Two chips that
differ in four neighbouring bytes only differ by a pattern no longer than the register, which
`ReflectedCrc` says is never lost.
-/

set_option autoImplicit false

namespace InfraredModule.Analysis

open InfraredModule.Foundation.ReflectedCrc InfraredModule.Model

/-! ## The table -/

/-- The feedback word of CRC-32. -/
def crc32Poly : BitVec 32 := 0xEDB88320#32

/-- Every entry of the table is right. -/
theorem crc32Table_eq (i : U8) :
    crc32Table.getD i.toNat 0 = (shift crc32Poly)^[8] (i.setWidth 32) := by
  revert i
  decide +kernel

/-- The table gives the CRC, byte by byte. -/
theorem crc32CycCal_eq_foldl (initVal : U32) (pdata : List U8) :
    crc32CycCal initVal pdata = pdata.foldl (feedByte crc32Poly) initVal := by
  have hstep : tableByte (fun i => crc32Table.getD i.toNat 0) = feedByte crc32Poly :=
    tableByte_eq_feedByte crc32Table_eq (by decide)
  rw [← hstep]
  rfl

/-- The check is the register left by the line bits of the bytes. -/
theorem crc32CycCal_eq_feedBits (initVal : U32) (pdata : List U8) :
    crc32CycCal initVal pdata = feedBits crc32Poly initVal (lineBitsOf pdata) := by
  rw [crc32CycCal_eq_foldl, foldl_feedByte crc32Poly initVal pdata (by decide)]

/-- **The table computes CRC-32.** For every byte sequence and every initial value the table loop
leaves what feeding the bits one at a time leaves; `crc32_cal` starts from all ones and inverts the
result; and a sequence may be processed in pieces.
SOURCE: crc_32.c:12-67 -/
theorem crc32_bitwise (initVal : U32) (pdata : List U8) :
    crc32CycCal initVal pdata = feedBits crc32Poly initVal (lineBitsOf pdata) ∧
      crc32Cal pdata = feedBits crc32Poly 0xFFFFFFFF#32 (lineBitsOf pdata) ^^^ 0xFFFFFFFF#32 ∧
      ∀ rest, crc32CycCal (crc32CycCal initVal pdata) rest = crc32CycCal initVal (pdata ++ rest) := by
  refine ⟨crc32CycCal_eq_feedBits initVal pdata, ?_, ?_⟩
  · rw [crc32Cal, crc32CycCal_eq_feedBits]
    rfl
  · intro rest
    rw [crc32CycCal, crc32CycCal, crc32CycCal, List.foldl_append]

/-! ## The identifier -/

/-- The twelve bytes `ReadUniqueId` copies together. -/
def idBytes (chip : Chip) : List U8 :=
  wordBytes chip.id1 ++ wordBytes chip.id2 ++ wordBytes chip.id3

/-- An identifier has twelve bytes. -/
theorem length_idBytes (chip : Chip) : (idBytes chip).length = 12 := rfl

/-- The four bytes say which word they were. -/
theorem wordBytes_injective : Function.Injective wordBytes := by
  intro x y h
  simp only [wordBytes, List.cons.injEq, and_true] at h
  obtain ⟨h0, h1, h2, h3⟩ := h
  apply BitVec.eq_of_getLsbD_eq
  intro i hi
  have hbyte : ∀ m : ℕ, (x >>> (8 * m)).setWidth 8 = (y >>> (8 * m)).setWidth 8 → i / 8 = m →
      x.getLsbD i = y.getLsbD i := by
    intro m hm hdiv
    have hplace := congrArg (fun b => BitVec.getLsbD b (i % 8)) hm
    have hmod : i % 8 < 8 := Nat.mod_lt i (by decide)
    have hpos : 8 * m + i % 8 = i := by omega
    simpa [hmod, hpos] using hplace
  have hcases : i / 8 = 0 ∨ i / 8 = 1 ∨ i / 8 = 2 ∨ i / 8 = 3 := by omega
  rcases hcases with hm | hm | hm | hm
  · exact hbyte 0 (by simpa using h0) hm
  · exact hbyte 1 h1 hm
  · exact hbyte 2 h2 hm
  · exact hbyte 3 h3 hm

/-- The bytes of an identifier determine it. -/
theorem idBytes_injective : Function.Injective idBytes := by
  intro c d h
  obtain ⟨h12, h3⟩ := List.append_inj' h rfl
  obtain ⟨h1, h2⟩ := List.append_inj' h12 rfl
  cases c
  cases d
  simp only [Chip.mk.injEq]
  exact ⟨wordBytes_injective h1, wordBytes_injective h2, wordBytes_injective h3⟩

/-- **Neighbouring chips have different identifiers.** Two chips that differ, and all whose
differing bytes lie within four consecutive ones of the twelve, get different identifiers.
SOURCE: main.c:108-124, crc_32.c:48-67, Uart.c:265-281 -/
theorem readUniqueId_ne_of_window {c d : Chip} (hne : c ≠ d) (k : ℕ)
    (hwin : ∀ j, (idBytes c)[j]? ≠ (idBytes d)[j]? → k ≤ j ∧ j < k + 4) :
    readUniqueId c ≠ readUniqueId d := by
  intro heq
  have hreg : crc32CycCal crc32InitVal (idBytes c) = crc32CycCal crc32InitVal (idBytes d) := by
    apply BitVec.xor_left_inj crc32InitVal |>.mp
    exact heq
  rw [crc32CycCal_eq_feedBits, crc32CycCal_eq_feedBits] at hreg
  have hbytes : idBytes c ≠ idBytes d := fun h => hne (idBytes_injective h)
  have hlen : (idBytes c).length = (idBytes d).length := by
    rw [length_idBytes, length_idBytes]
  exact feedBits_lineBitsOf_ne (by decide) crc32InitVal hlen hbytes (by decide) hwin hreg

/-- Two chips of one wafer, a place apart, with bytes 3 to 5 different. -/
theorem readUniqueId_ne_neighbours :
    readUniqueId ⟨0x12002000, 0x20383151, 0x36313335⟩ ≠
      readUniqueId ⟨0x13002000, 0x20383052, 0x36313335⟩ := by
  apply readUniqueId_ne_of_window (by decide) 3
  intro j hj
  rcases Nat.lt_or_ge j 12 with hlt | hge
  · revert hj
    revert j
    decide
  · exact absurd rfl (by rwa [List.getElem?_eq_none (by rwa [length_idBytes]),
      List.getElem?_eq_none (by rwa [length_idBytes])] at hj)

end InfraredModule.Analysis
