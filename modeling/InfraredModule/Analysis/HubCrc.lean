import Mathlib.Data.List.GetD
import InfraredModule.Foundation.ReflectedCrc
import InfraredModule.Model.System

/-!
# The check on the hub link

`usModbusRTU_CRC` is the reflected check of width 16 with feedback word `0xA001`, started
from all ones (`usModbusRtuCrc_eq_feedBits`). Since the firmware puts the check on the line
low byte first, and compares it so, a frame passes exactly when feeding all its line bits,
the check included, empties the register (`crcMatches_iff`). An error pattern adds its own
register to that, so it is caught exactly when its register is not zero; the detection rules
of `ReflectedCrc` then apply. The feedback word has a set top bit and odd parity, and the
register `1` does not return within 2040 shifts (`modbusPoly_order`), the bits of 255 bytes.
-/

set_option autoImplicit false

namespace InfraredModule.Analysis

open InfraredModule.Foundation InfraredModule.Foundation.ReflectedCrc InfraredModule.Model

/-- The feedback word of `usModbusRTU_CRC`. -/
def modbusPoly : BitVec 16 := 0xA001#16

/-- A round of the CRC is a shift of the reflected register. -/
theorem usModbusRtuRound_eq_shift (usCRC : U16) : usModbusRtuRound usCRC = shift modbusPoly usCRC := by
  have hlow : (usCRC &&& 0x0001#16 ≠ 0) ↔ usCRC.getLsbD 0 = true := by
    rw [BitVec.and_one_eq_setWidth_ofBool_getLsbD]
    cases usCRC.getLsbD 0 <;> decide
  simp only [usModbusRtuRound, shift, hlow, modbusPoly]

/-- The check of the first `ulLen` bytes is the register left by their line bits.
SOURCE: main.c:65-85 -/
theorem usModbusRtuCrc_eq_feedBits (pucData : List U8) (ulLen : ℕ) :
    usModbusRtuCrc pucData ulLen =
      feedBits modbusPoly 0xFFFF#16 (lineBitsOf (pucData.take ulLen)) := by
  have hround : usModbusRtuRound = shift modbusPoly := funext usModbusRtuRound_eq_shift
  rw [usModbusRtuCrc, hround, ← foldl_feedByte modbusPoly _ _ (by decide)]
  rfl

/-- Two bytes in the order of the line are a word. -/
theorem ofBits_two_bytes (hi lo : U8) :
    (ofBits (lineBits lo ++ lineBits hi) : BitVec 16) = word16 hi lo := by
  apply BitVec.eq_of_getLsbD_eq
  intro i hi16
  rw [getLsbD_ofBits]
  by_cases h : i < 8
  · rw [List.getD_append _ _ _ _ (by simpa using h), getD_lineBits]
    simp [word16, h, hi16]
  · have hshift : i - 8 < 8 := by omega
    have hlow : lo.getLsbD i = false := BitVec.getLsbD_of_ge lo i (by omega)
    rw [List.getD_append_right _ _ _ _ (by simpa using h), length_lineBits, getD_lineBits]
    simp [word16, h, hi16, hshift, hlow]

/-- A frame passes exactly when its line bits, check included, empty the register.
SOURCE: Uart.c:98-101 -/
theorem crcMatches_iff {f : List U8} (hlen : 2 ≤ f.length) :
    crcMatches f f.length = true ↔ feedBits modbusPoly 0xFFFF#16 (lineBitsOf f) = 0#16 := by
  obtain ⟨body, lo, hi, rfl⟩ : ∃ body lo hi, f = body ++ [lo, hi] := by
    refine ⟨f.take (f.length - 2), f[f.length - 2], f[f.length - 1], ?_⟩
    conv_lhs => rw [← List.take_append_drop (f.length - 2) f]
    congr 1
    rw [List.drop_eq_getElem_cons (by omega), List.drop_eq_getElem_cons (by omega)]
    have h1 : f.length - 2 + 1 = f.length - 1 := by omega
    simp only [h1]
    rw [List.drop_of_length_le (by omega)]
  have hcheck : crcMatches (body ++ [lo, hi]) (body ++ [lo, hi]).length =
      decide (word16 hi lo = usModbusRtuCrc body body.length) := by
    simp [crcMatches, byteAt, usModbusRtuCrc]
  have hline : lineBitsOf (body ++ [lo, hi]) = lineBitsOf body ++ (lineBits lo ++ lineBits hi) := by
    simp [lineBitsOf]
  rw [hcheck, hline, feedBits_append,
    ← iterate_shift_xor_ofBits modbusPoly _ (lineBits lo ++ lineBits hi) (by simp),
    iterate_shift_eq_zero_iff (by decide), ofBits_two_bytes, BitVec.xor_eq_zero_iff,
    usModbusRtuCrc_eq_feedBits, List.take_length, decide_eq_true_iff]
  exact eq_comm

/-- What lies behind the frame in the buffer does not enter the comparison. -/
theorem crcMatches_append (f rest : List U8) (hlen : 2 ≤ f.length) :
    crcMatches (f ++ rest) f.length = crcMatches f f.length := by
  have h1 : f.length - 1 < f.length := by omega
  have h2 : f.length - 2 < f.length := by omega
  rw [crcMatches, crcMatches, usModbusRtuCrc, usModbusRtuCrc, byteAt_append_left h1,
    byteAt_append_left h2, List.take_append_of_le_length h2.le]

/-- The register `1` does not return within the line bits of 255 bytes. -/
theorem modbusPoly_order {k : ℕ} (hk : k + 1 < 2040) :
    (shift modbusPoly)^[k + 1] 1#16 ≠ 1#16 := by
  have hsearch : meetsOne modbusPoly 2040 (shift modbusPoly 1#16) = false := by decide +kernel
  rw [Function.iterate_succ_apply]
  exact iterate_shift_ne_one hsearch (by omega)

/-- A frame with the bits of an error pattern flipped. -/
def corrupt (f e : List U8) : List U8 := List.zipWith (· ^^^ ·) f e

/-- A corrupted frame is as long as the frame. -/
theorem length_corrupt {f e : List U8} (h : e.length = f.length) :
    (corrupt f e).length = f.length := by
  simp [corrupt, h]

/-- A corrupted frame passes exactly when the error pattern alone leaves the register empty. -/
theorem crcMatches_corrupt {f e : List U8} (hlen : 2 ≤ f.length) (he : e.length = f.length)
    (hf : crcMatches f f.length = true) :
    crcMatches (corrupt f e) (corrupt f e).length = true ↔
      feedBits modbusPoly 0#16 (lineBitsOf e) = 0#16 := by
  rw [crcMatches_iff (by rw [length_corrupt he]; exact hlen), corrupt,
    lineBitsOf_zipWith _ _ he.symm]
  have hsum := feedBits_xor modbusPoly 0xFFFF#16 0#16 (lineBitsOf f) (lineBitsOf e)
    (by rw [length_lineBitsOf, length_lineBitsOf, he])
  rw [BitVec.xor_zero] at hsum
  rw [hsum, (crcMatches_iff hlen).mp hf, BitVec.zero_xor]

/-- What `Uart1_input` asks of a burst: two bytes or more, the registration code or the module's
address in front, and a matching check at the end. -/
def Accepts (addr : U8) (burst : List U8) : Prop :=
  2 ≤ burst.length ∧ (byteAt burst 0 = registerCode ∨ addr = byteAt burst 0) ∧
    crcMatches burst burst.length = true

instance (addr : U8) (burst : List U8) : Decidable (Accepts addr burst) :=
  inferInstanceAs (Decidable (_ ∧ _ ∧ _))

/-- **What `Uart1_input` does.** The burst always overwrites the slot; its result and the flag
are decided by the burst and the address alone.
SOURCE: Uart.c:79-110 -/
theorem uart1Input_eq (burst : List U8) (s : Firmware) :
    uart1Input burst s =
      if Accepts s.moduleInfo.addr burst then
        (.eok, { s with uart1Msg := { s.uart1Msg.receive burst with messageFlag := true } })
      else (.error, { s with uart1Msg := s.uart1Msg.receive burst }) := by
  by_cases hlen : burst.length < 2
  · have hno : ¬ Accepts s.moduleInfo.addr burst := fun h => by have := h.1; omega
    simp only [uart1Input, hlen, if_true, hno, if_false]
  · have hmin : 2 ≤ burst.length := by omega
    have hcrc : crcMatches (s.uart1Msg.receive burst).data (s.uart1Msg.receive burst).size =
        crcMatches burst burst.length := crcMatches_append burst _ hmin
    simp only [uart1Input, hlen, if_false, Accepts, hmin, true_and, hcrc,
      RxMsg.byteAt_receive s.uart1Msg burst (show 0 < burst.length by omega)]
    by_cases haddr : byteAt burst 0 = registerCode ∨ s.moduleInfo.addr = byteAt burst 0
    · simp only [haddr, not_true, if_false, true_and]
    · simp only [haddr, not_false_iff, if_true, false_and, if_false]

/-- `Uart1_input` returns `RT_EOK` for what it accepts. -/
theorem uart1Input_eok_iff (burst : List U8) (s : Firmware) :
    (uart1Input burst s).1 = .eok ↔ Accepts s.moduleInfo.addr burst := by
  rw [uart1Input_eq]
  split <;> simp_all

/-- `Uart1_input` returns `RT_ERROR` for what it does not accept. -/
theorem uart1Input_error_iff (burst : List U8) (s : Firmware) :
    (uart1Input burst s).1 = .error ↔ ¬ Accepts s.moduleInfo.addr burst := by
  rw [uart1Input_eq]
  split <;> simp_all

/-- **Error detection on the hub link.** Take a frame of at most 255 bytes that `Uart1_input`
accepts, and flip its bits by a nonzero pattern that has an odd number of them, exactly two,
or all of them within sixteen consecutive places of the line. The corrupted frame fails the
comparison, and `Uart1_input` rejects it in every state.
SOURCE: main.c:65-85, Uart.c:92-109 -/
theorem corrupted_frame_rejected (s t : Firmware) (f e : List U8)
    (haccept : (uart1Input f s).1 = .eok) (hlen : f.length ≤ 255) (he : e.length = f.length)
    (hset : true ∈ lineBitsOf e) (hpattern : Detectable 16 (lineBitsOf e)) :
    crcMatches (corrupt f e) (corrupt f e).length = false ∧
      (uart1Input (corrupt f e) t).1 = .error := by
  obtain ⟨hmin, -, hf⟩ := (uart1Input_eok_iff f s).mp haccept
  have hreg : feedBits modbusPoly 0#16 (lineBitsOf e) ≠ 0#16 := by
    refine feedBits_ne_zero_of_detectable (by decide) (by decide) (by decide) ?_ hset hpattern
    intro k hk
    rw [length_lineBitsOf] at hk
    exact modbusPoly_order (by omega)
  have hfail : crcMatches (corrupt f e) (corrupt f e).length = false := by
    rw [Bool.eq_false_iff, Ne, crcMatches_corrupt hmin he hf]
    exact hreg
  refine ⟨hfail, (uart1Input_error_iff _ t).mpr fun haccepts => ?_⟩
  rw [haccepts.2.2] at hfail
  cases hfail

/-- A read request for register 0 with one bit of its function code flipped on the line. -/
theorem corrupted_request_rejected :
    (uart1Input [0x01, 0x03, 0x00, 0x00, 0x00, 0x01, 0x84, 0x0A]
      (boot (Vector.replicate 12 0xFF) (Vector.replicate 10 0))).1 = .eok ∧
    (uart1Input [0x01, 0x01, 0x00, 0x00, 0x00, 0x01, 0x84, 0x0A]
      (boot (Vector.replicate 12 0xFF) (Vector.replicate 10 0))).1 = .error := by
  have haccept : (uart1Input [0x01, 0x03, 0x00, 0x00, 0x00, 0x01, 0x84, 0x0A]
      (boot (Vector.replicate 12 0xFF) (Vector.replicate 10 0))).1 = .eok := by decide +kernel
  exact ⟨haccept, (corrupted_frame_rejected _ _ _ [0x00, 0x02, 0x00, 0x00, 0x00, 0x00, 0x00, 0x00]
    haccept (by decide) rfl (by decide) (Or.inl ⟨0, by decide⟩)).2⟩

end InfraredModule.Analysis
