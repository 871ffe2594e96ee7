import InfraredModule.Analysis.HubCrc
import InfraredModule.Interface.RegisterMap

/-!
# What `analyzeMasterData` changes and what it replies

One lemma says what each function of `module.c` does to `module_info`: `getRegister` marks a
read of the location register and changes nothing else (`getRegister_snd`), the read loop
marks it when some round meets that register (`readRegisters_snd`), and a write goes to the
address or the control word (`setRegister`). The frame condition of a whole request
(`analyzeMasterData_frame`) is put together from these.

A read reply is complete as long as its byte count and its length fit the two `u8`
parameters they pass through: `readReply_complete_iff` gives the exact requests, and
`register_order_iff` the exact registers whose value leaves high byte first.
-/

set_option autoImplicit false

namespace InfraredModule.Analysis

open InfraredModule.Foundation InfraredModule.Model InfraredModule.Interface

/-! ## Effects on `module_info` -/

/-- A read changes nothing, unless it is of the location register.
SOURCE: module.c:119-158 -/
theorem getRegister_snd (id : U32) (addr : U16) (m : ModuleInfo) :
    (getRegister id addr m).2 =
      if addr = registerLocation then { m with findLocation := yes } else m := by
  unfold getRegister
  repeat' split
  all_goals rfl

/-- The mark left by a read of the location register does not show in any register. -/
theorem getRegister_fst_mark (id : U32) (addr : U16) (m : ModuleInfo) :
    (getRegister id addr { m with findLocation := yes }).1 = (getRegister id addr m).1 := by
  unfold getRegister
  repeat' split
  all_goals rfl

/-- Some of the first `n` rounds of the read loop meets the location register. -/
def ReadsLocation (temp : U16) (n : ℕ) : Prop := ∃ i < n, temp + BitVec.ofNat 16 i = registerLocation

instance (temp : U16) (n : ℕ) : Decidable (ReadsLocation temp n) :=
  inferInstanceAs (Decidable (∃ i < n, _))

/-- A longer read meets the location register when the shorter one does or its last register is it. -/
theorem readsLocation_succ (temp : U16) (n : ℕ) :
    ReadsLocation temp (n + 1) ↔
      ReadsLocation temp n ∨ temp + BitVec.ofNat 16 n = registerLocation := by
  constructor
  · rintro ⟨i, hi, hloc⟩
    rcases Nat.lt_succ_iff_lt_or_eq.mp hi with hi | rfl
    · exact .inl ⟨i, hi, hloc⟩
    · exact .inr hloc
  · rintro (⟨i, hi, hloc⟩ | hloc)
    · exact ⟨i, by omega, hloc⟩
    · exact ⟨n, by omega, hloc⟩

/-- The register index wraps at sixteen bits. -/
theorem readsLocation_iff (temp : U16) (n : ℕ) :
    ReadsLocation temp n ↔ ∃ i < n, (temp.toNat + i) % 65536 = 0 := by
  refine exists_congr fun i => and_congr_right fun _ => ?_
  rw [registerLocation, BitVec.toNat_eq, BitVec.toNat_add, BitVec.toNat_ofNat, Nat.add_mod_mod]
  rfl

/-- The whole loop marks the location when one of its rounds meets it.
SOURCE: module.c:72-75 -/
theorem readRegisters_snd (id : U32) (temp : U16) (n : ℕ) (m : ModuleInfo) :
    (readRegisters id temp n m).2 =
      if ReadsLocation temp n then { m with findLocation := yes } else m := by
  induction n with
  | zero =>
    have hno : ¬ ReadsLocation temp 0 := fun ⟨i, hi, _⟩ => by omega
    simp [readRegisters, hno]
  | succ n ih =>
    simp only [readRegisters, getRegister_snd, ih, readsLocation_succ]
    by_cases hbefore : ReadsLocation temp n <;>
      by_cases hnow : temp + BitVec.ofNat 16 n = registerLocation <;>
      simp [hbefore, hnow]

/-- The loop fills `replyData` with the registers as they stood at the start of the request. -/
theorem readRegisters_fst (id : U32) (temp : U16) (n : ℕ) (m : ModuleInfo) :
    (readRegisters id temp n m).1 =
      (List.range n).map fun i => (getRegister id (temp + BitVec.ofNat 16 i) m).1 := by
  induction n with
  | zero => rfl
  | succ n ih =>
    rw [List.range_succ, List.map_append, List.map_singleton, ← ih]
    simp only [readRegisters, readRegisters_snd]
    split
    · rw [getRegister_fst_mark]
    · rfl

/-- The record after a read request: only `findLocation` is set, when there was room and the location was
read. -/
theorem analyzeRead_fst (heap : Heap) (id : U32) (data : List U8) (m : ModuleInfo) :
    (analyzeRead heap id data m).1 =
      if heap.room ((byteAt data 5).toNat * 2) = true ∧
          ReadsLocation (requestStart data) (byteAt data 5).toNat then
        { m with findLocation := yes }
      else m := by
  unfold analyzeRead
  by_cases hroom : heap.room ((byteAt data 5).toNat * 2) = true
  · simp only [hroom, if_true, readRegisters_snd, true_and]
    rfl
  · simp [hroom]

/-- The write branch as one equation: the write, and the mark of the read that builds the reply. -/
theorem analyzeWrite_fst (heap : Heap) (hroom : heap.room 2 = true) (id : U32) (data : List U8)
    (m : ModuleInfo) :
    (analyzeWrite heap id data m).1 =
      if requestStart data = registerLocation then { m with findLocation := yes }
      else setRegister (requestStart data) (word16 (byteAt data 4) (byteAt data 5)) m := by
  have hreg : word16 (byteAt data 2) (byteAt data 3) = requestStart data := rfl
  simp only [analyzeWrite, hroom, if_true, getRegister_snd, hreg]
  by_cases hloc : requestStart data = registerLocation
  · have hset : setRegister registerLocation (word16 (byteAt data 4) (byteAt data 5)) m = m := by
      rw [setRegister, if_neg (by decide), if_neg (by decide)]
    simp only [hloc, if_true, hset]
  · simp only [hloc, if_false]

/-! ## The cases of a request -/

section Cases

variable {heap : Heap} {id : U32} {data : List U8} {size : ℕ} {m : ModuleInfo}

/-- A request with the read code is a read. -/
theorem analyzeMasterData_read (h : byteAt data 1 = readMuti) :
    analyzeMasterData heap id data size m = (.eok, analyzeRead heap id data m) := by
  rw [analyzeMasterData, if_pos h]

/-- A request with the write code and eight bytes is a write. -/
theorem analyzeMasterData_write (h : byteAt data 1 = writeSingle) (hsize : size = 8) :
    analyzeMasterData heap id data size m = (.eok, analyzeWrite heap id data m) := by
  rw [analyzeMasterData, h, if_neg (by decide), if_pos rfl, if_pos hsize]

/-- A request with the write code and another size is an error and does nothing. -/
theorem analyzeMasterData_misfit (h : byteAt data 1 = writeSingle) (hsize : size ≠ 8) :
    analyzeMasterData heap id data size m = (.error, m, []) := by
  rw [analyzeMasterData, h, if_neg (by decide), if_pos rfl, if_neg hsize]

/-- Another code does nothing. -/
theorem analyzeMasterData_other (hread : byteAt data 1 ≠ readMuti)
    (hwrite : byteAt data 1 ≠ writeSingle) :
    analyzeMasterData heap id data size m = (.eok, m, []) := by
  rw [analyzeMasterData, if_neg hread, if_neg hwrite]

end Cases

/-- A request that writes one register: eight bytes, function `WRITE_SINGLE`. -/
def IsWrite (data : List U8) (size : ℕ) (reg : U16) : Prop :=
  byteAt data 1 = writeSingle ∧ size = 8 ∧ requestStart data = reg

instance (data : List U8) (size : ℕ) (reg : U16) : Decidable (IsWrite data size reg) :=
  inferInstanceAs (Decidable (_ ∧ _ ∧ _))

/-- A read request that meets the location register. -/
def IsLocationRead (data : List U8) : Prop :=
  byteAt data 1 = readMuti ∧ ∃ i < (byteAt data 5).toNat,
    ((requestStart data).toNat + i) % 65536 = 0

/-- A loop of no rounds meets nothing, so the refused empty block makes no difference. -/
theorem room_and_readsLocation (temp : U16) (n : ℕ) :
    (Heap.ample.room (n * 2) = true ∧ ReadsLocation temp n) ↔ ReadsLocation temp n := by
  refine and_iff_right_of_imp fun ⟨i, hi, _⟩ => ?_
  simp only [Heap.ample, decide_eq_true_eq]
  omega

/-- What a whole request does to `module_info`, when the heap has room. -/
theorem analyzeMasterData_module (id : U32) (data : List U8) (size : ℕ) (m : ModuleInfo) :
    (analyzeMasterData Heap.ample id data size m).2.1 =
      { m with
        addr := if IsWrite data size registerAddr then byteAt data 5 else m.addr
        ctrl := if IsWrite data size registerCtrl then word16 (byteAt data 4) (byteAt data 5)
          else m.ctrl
        findLocation := if (byteAt data 1 = readMuti ∧
            ReadsLocation (requestStart data) (byteAt data 5).toNat) ∨
            IsWrite data size registerLocation then yes else m.findLocation } := by
  by_cases hread : byteAt data 1 = readMuti
  · have hnot : ∀ reg, ¬ IsWrite data size reg := fun reg h => by
      rw [IsWrite, hread] at h
      exact absurd h.1 (by decide)
    simp only [analyzeMasterData_read hread, analyzeRead_fst, room_and_readsLocation, hnot, hread,
      if_false, true_and, or_false]
    split <;> rfl
  by_cases hwrite : byteAt data 1 = writeSingle
  · by_cases hsize : size = 8
    · rw [analyzeMasterData_write hwrite hsize]
      show (analyzeWrite Heap.ample id data m).1 = _
      rw [analyzeWrite_fst Heap.ample rfl]
      simp only [IsWrite, hwrite, hsize, true_and, show writeSingle ≠ readMuti by decide, false_and,
        false_or]
      by_cases hloc : requestStart data = registerLocation
      · simp only [hloc, if_true, show registerLocation ≠ registerAddr by decide,
          show registerLocation ≠ registerCtrl by decide, if_false]
      · simp only [hloc, if_false, setRegister]
        by_cases haddr : requestStart data = registerAddr
        · have hlow := lowByte_word16 (byteAt data 4) (byteAt data 5)
          rw [lowByte] at hlow
          simp only [haddr, if_true, show registerAddr ≠ registerCtrl by decide, if_false, hlow]
        · simp only [haddr, if_false]
          split <;> rfl
    · simp [analyzeMasterData_misfit hwrite hsize, IsWrite, hwrite, hsize,
        show writeSingle ≠ readMuti by decide]
  · simp [analyzeMasterData_other hread hwrite, IsWrite, hread, hwrite]

/-- **The frame condition of the register protocol.** For every state, buffer and size, with room
in the heap: the check, the type, the version, the brand code, the mode and the registration
state stay; the address and the control word change only by a write of their register; the
location mark is set by exactly the reads and writes of register 0; and a refused or unknown
request changes and sends nothing.
SOURCE: module.c:54-185 -/
theorem analyzeMasterData_frame (id : U32) (data : List U8) (size : ℕ) (m : ModuleInfo) :
    let r := analyzeMasterData Heap.ample id data size m
    (r.2.1.crc = m.crc ∧ r.2.1.type = m.type ∧ r.2.1.version = m.version ∧
      r.2.1.brandCode = m.brandCode ∧ r.2.1.select = m.select ∧
      r.2.1.registerState = m.registerState) ∧
    r.2.1.addr = (if IsWrite data size registerAddr then byteAt data 5 else m.addr) ∧
    r.2.1.ctrl = (if IsWrite data size registerCtrl then word16 (byteAt data 4) (byteAt data 5)
      else m.ctrl) ∧
    (r.2.1.findLocation = yes ↔
      m.findLocation = yes ∨ IsLocationRead data ∨ IsWrite data size registerLocation) ∧
    (r.1 = .error ∨ (byteAt data 1 ≠ readMuti ∧ byteAt data 1 ≠ writeSingle) →
      r.2.1 = m ∧ r.2.2 = []) := by
  intro r
  have hm : r.2.1 = _ := analyzeMasterData_module id data size m
  refine ⟨?_, ?_, ?_, ?_, ?_⟩
  · rw [hm]
    exact ⟨rfl, rfl, rfl, rfl, rfl, rfl⟩
  · rw [hm]
  · rw [hm]
  · rw [hm, IsLocationRead, ← readsLocation_iff]
    dsimp only
    split
    · rename_i hmark
      exact iff_of_true rfl (.inr hmark)
    · rename_i hmark
      exact ⟨.inl, fun h => h.resolve_right hmark⟩
  · intro hrefused
    by_cases hread : byteAt data 1 = readMuti
    · simp [r, analyzeMasterData_read hread, hread] at hrefused
    by_cases hwrite : byteAt data 1 = writeSingle
    · by_cases hsize : size = 8
      · simp [r, analyzeMasterData_write hwrite hsize, hwrite] at hrefused
      · exact ⟨by simp [r, analyzeMasterData_misfit hwrite hsize],
          by simp [r, analyzeMasterData_misfit hwrite hsize]⟩
    · exact ⟨by simp [r, analyzeMasterData_other hread hwrite],
        by simp [r, analyzeMasterData_other hread hwrite]⟩

/-- Where a write goes: the address, the control word, or nowhere.
SOURCE: module.c:160-185 -/
theorem setRegister_eq (addr data : U16) (m : ModuleInfo) :
    setRegister addr data m =
      { m with
        addr := if addr = registerAddr then lowByte data else m.addr
        ctrl := if addr = registerCtrl then data else m.ctrl } := by
  unfold setRegister
  by_cases haddr : addr = registerAddr
  · have hctrl : ¬ registerAddr = registerCtrl := by decide
    simp only [haddr, if_true, hctrl, if_false]
    rfl
  · simp only [haddr, if_false]
    split <;> rfl

/-- Whatever the heap has room for, a request changes the address and the control word by a write of
their register only, and may leave the location mark. -/
theorem analyzeMasterData_marked (heap : Heap) (id : U32) (data : List U8) (size : ℕ)
    (m : ModuleInfo) :
    ∃ mark, (analyzeMasterData heap id data size m).2.1 =
      { m with
        addr := if IsWrite data size registerAddr then byteAt data 5 else m.addr
        ctrl := if IsWrite data size registerCtrl then word16 (byteAt data 4) (byteAt data 5)
          else m.ctrl
        findLocation := mark } := by
  by_cases hread : byteAt data 1 = readMuti
  · have hnot : ∀ reg, ¬ IsWrite data size reg := fun reg h => by
      rw [IsWrite, hread] at h
      exact absurd h.1 (by decide)
    simp only [analyzeMasterData_read hread, analyzeRead_fst, hnot, if_false]
    split
    · exact ⟨yes, rfl⟩
    · exact ⟨m.findLocation, rfl⟩
  by_cases hwrite : byteAt data 1 = writeSingle
  · by_cases hsize : size = 8
    · have hreg : word16 (byteAt data 2) (byteAt data 3) = requestStart data := rfl
      rw [analyzeMasterData_write hwrite hsize]
      simp only [analyzeWrite, getRegister_snd, setRegister_eq, lowByte_word16, hreg, IsWrite, hwrite,
        hsize, true_and]
      repeat' split
      all_goals exact ⟨_, rfl⟩
    · exact ⟨m.findLocation, by simp [analyzeMasterData_misfit hwrite hsize, IsWrite, hsize]⟩
  · exact ⟨m.findLocation, by simp [analyzeMasterData_other hread hwrite, IsWrite, hwrite]⟩

/-- The fields that no request changes. -/
def fixedFields (m : ModuleInfo) : U16 × U8 × U16 × U8 := (m.crc, m.type, m.brandCode, m.select)

/-- Whatever the heap has room for, a request leaves the check, the type, the brand code and the
mode alone. -/
theorem fixedFields_analyzeMasterData (heap : Heap) (id : U32) (data : List U8) (size : ℕ)
    (m : ModuleInfo) : fixedFields (analyzeMasterData heap id data size m).2.1 = fixedFields m := by
  obtain ⟨mark, hmarked⟩ := analyzeMasterData_marked heap id data size m
  rw [hmarked]
  rfl

/-- A request is decided by its function and, for a read, bytes 2, 3 and 5, for a write of the
right size, bytes 2 to 5. -/
theorem analyzeMasterData_agree {heap : Heap} {id : U32} {data data' : List U8} {size : ℕ}
    {m : ModuleInfo} (hfun : byteAt data 1 = byteAt data' 1)
    (hargs : byteAt data 1 = readMuti ∨ (byteAt data 1 = writeSingle ∧ size = 8) →
      byteAt data 2 = byteAt data' 2 ∧ byteAt data 3 = byteAt data' 3 ∧
        byteAt data 4 = byteAt data' 4 ∧ byteAt data 5 = byteAt data' 5) :
    analyzeMasterData heap id data size m = analyzeMasterData heap id data' size m := by
  by_cases hread : byteAt data 1 = readMuti
  · obtain ⟨h2, h3, -, h5⟩ := hargs (.inl hread)
    rw [analyzeMasterData_read hread, analyzeMasterData_read (hfun ▸ hread), analyzeRead, analyzeRead,
      h2, h3, h5]
  by_cases hwrite : byteAt data 1 = writeSingle
  · by_cases hsize : size = 8
    · obtain ⟨h2, h3, h4, h5⟩ := hargs (.inr ⟨hwrite, hsize⟩)
      rw [analyzeMasterData_write hwrite hsize, analyzeMasterData_write (hfun ▸ hwrite) hsize,
        analyzeWrite, analyzeWrite, h2, h3, h4, h5]
    · rw [analyzeMasterData_misfit hwrite hsize, analyzeMasterData_misfit (hfun ▸ hwrite) hsize]
  · rw [analyzeMasterData_other hread hwrite, analyzeMasterData_other (hfun ▸ hread) (hfun ▸ hwrite)]

/-! ## Read replies -/

/-- The check bytes are two. -/
theorem length_withCrc (buf : List U8) : (withCrc buf).length = buf.length + 2 := by
  simp [withCrc]

/-- A frame the firmware closes passes its own check. -/
theorem crcMatches_withCrc (buf : List U8) :
    crcMatches (withCrc buf) (withCrc buf).length = true := by
  have hhigh : byteAt (withCrc buf) (buf.length + 1) = highByte (usModbusRtuCrc buf buf.length) := by
    simp [byteAt, withCrc]
  have hlow : byteAt (withCrc buf) buf.length = lowByte (usModbusRtuCrc buf buf.length) := by
    simp [byteAt, withCrc]
  have hbody : usModbusRtuCrc (withCrc buf) buf.length = usModbusRtuCrc buf buf.length := by
    simp [usModbusRtuCrc, withCrc]
  rw [crcMatches, length_withCrc, show buf.length + 2 - 1 = buf.length + 1 by omega,
    show buf.length + 2 - 2 = buf.length by omega, hhigh, hlow, hbody, word16_bytes]
  exact decide_eq_true rfl

/-- The bytes of `n` registers from `start` on, as they lie in `replyData`. -/
def registerBytes (id : U32) (m : ModuleInfo) (start : U16) (n : ℕ) : List U8 :=
  (List.range n).flatMap fun i => littleEndian (getRegister id (start + BitVec.ofNat 16 i) m).1

/-- A register is two bytes. -/
theorem length_registerBytes (id : U32) (m : ModuleInfo) (start : U16) (n : ℕ) :
    (registerBytes id m start n).length = 2 * n := by
  induction n with
  | zero => rfl
  | succ n ih =>
    rw [registerBytes, List.range_succ, List.flatMap_append, List.length_append]
    rw [registerBytes] at ih
    rw [ih]
    simp [littleEndian]
    omega

/-- A message to the hub is one transmission. -/
theorem uart1Sent_sendMessageToMaster (data : List U8) (len : U8) :
    uart1Sent (sendMessageToMaster data len) = [data.take len.toNat] := rfl

/-- What a read request puts on the line: nothing for a zero count byte, else the frame built in
`buf`, cut to the length that is left of `len + 5` in a byte.
SOURCE: module.c:187-220, Uart.c:590-595 -/
theorem uart1Sent_analyzeRead (id : U32) (data : List U8) (m : ModuleInfo) :
    uart1Sent (analyzeRead Heap.ample id data m).2 =
      if byteAt data 5 = 0 then []
      else [(withCrc ([m.addr, readMuti, byteAt data 5 * 2] ++
        (registerBytes id m (requestStart data) (byteAt data 5).toNat).take
          (byteAt data 5 * 2).toNat)).take
          (BitVec.ofNat 8 ((byteAt data 5 * 2).toNat + 3 + 2)).toNat] := by
  have hbytes : (readRegisters id (requestStart data) (byteAt data 5).toNat m).1.flatMap
      littleEndian = registerBytes id m (requestStart data) (byteAt data 5).toNat := by
    rw [readRegisters_fst, List.flatMap_map, registerBytes]
  have haddr : (readRegisters id (requestStart data) (byteAt data 5).toNat m).2.addr = m.addr := by
    rw [readRegisters_snd]
    split <;> rfl
  by_cases hzero : byteAt data 5 = 0
  · simp [analyzeRead, hzero, Heap.ample, uart1Sent]
  · have hpos : (byteAt data 5).toNat * 2 ≠ 0 := by
      have : (byteAt data 5).toNat ≠ 0 := fun h => hzero (BitVec.eq_of_toNat_eq h)
      omega
    have hroom : Heap.ample.room ((byteAt data 5).toNat * 2) = true := decide_eq_true hpos
    have hbuf : Heap.ample.room ((byteAt data 5 * 2).toNat + 3 + 2) = true := by
      simp [Heap.ample]
    have hreg : word16 (byteAt data 2) (byteAt data 3) = requestStart data := rfl
    simp only [analyzeRead, hroom, if_true, replyDataToMaster, hbuf, hreg, hbytes, haddr, hzero,
      if_false, uart1Sent_sendMessageToMaster]

/-- A reply to a read request is complete, or there is none. -/
def ReadReplyOk (id : U32) (data : List U8) (m : ModuleInfo) (out : List Obs) : Prop :=
  uart1Sent out = [] ∨ ∃ reply, uart1Sent out = [reply] ∧
    IsReadReply m.addr (requestCount data)
      (registerBytes id m (requestStart data) (requestCount data)) reply

/-- The count of a request is its bytes 4 and 5. -/
theorem requestCount_eq (data : List U8) :
    requestCount data = (byteAt data 4).toNat * 256 + (byteAt data 5).toNat := by
  have h4 := (byteAt data 4).isLt
  have h5 := (byteAt data 5).isLt
  rw [requestCount, word16, BitVec.toNat_or, BitVec.toNat_shiftLeft, BitVec.toNat_setWidth,
    BitVec.toNat_setWidth, Nat.mod_eq_of_lt (a := (byteAt data 4).toNat) (by omega),
    Nat.mod_eq_of_lt (a := (byteAt data 5).toNat) (by omega),
    Nat.mod_eq_of_lt (by rw [Nat.shiftLeft_eq]; omega), ← Nat.shiftLeft_add_eq_or_of_lt h5,
    Nat.shiftLeft_eq]

/-- Up to 125 registers both byte lengths fit, and the frame goes out whole. -/
theorem uart1Sent_analyzeRead_small (id : U32) (data : List U8) (m : ModuleInfo)
    (hzero : byteAt data 5 ≠ 0) (hsmall : (byteAt data 5).toNat ≤ 125) :
    uart1Sent (analyzeRead Heap.ample id data m).2 =
      [withCrc ([m.addr, readMuti, byteAt data 5 * 2] ++
        registerBytes id m (requestStart data) (byteAt data 5).toNat)] := by
  have hlen : (byteAt data 5 * 2).toNat = 2 * (byteAt data 5).toNat := by
    rw [BitVec.toNat_mul, show (2 : U8).toNat = 2 from rfl]
    omega
  rw [uart1Sent_analyzeRead, if_neg hzero, hlen, BitVec.toNat_ofNat,
    List.take_of_length_le (l := registerBytes _ _ _ _) (by rw [length_registerBytes]),
    List.take_of_length_le]
  simp only [length_withCrc, List.length_append, length_registerBytes, List.length_cons,
    List.length_nil]
  omega

/-- A closed frame whose byte count fits is a complete reply. -/
theorem isReadReply_withCrc (addr : U8) {n : ℕ} {registers : List U8} {count : U8}
    (hregisters : registers.length = 2 * n) (hcount : count.toNat = 2 * n) :
    IsReadReply addr n registers (withCrc ([addr, readMuti, count] ++ registers)) := by
  refine ⟨count, _, _, hcount, rfl, ?_, crcMatches_withCrc _⟩
  simp only [length_withCrc, List.length_append, hregisters, List.length_cons, List.length_nil]
  omega

/-- **Which read replies are complete.** A read request gets no reply or a complete one exactly
when its low count byte is zero or it asks for at most 125 registers: the byte count and the
length to send pass through bytes, and the high count byte is not looked at.
SOURCE: module.c:64-84, 187-220, Uart.c:590-595 -/
theorem readReply_complete_iff (id : U32) (data : List U8) (size : ℕ) (m : ModuleInfo)
    (hread : byteAt data 1 = readMuti) :
    ReadReplyOk id data m (analyzeMasterData Heap.ample id data size m).2.2 ↔
      byteAt data 5 = 0 ∨ requestCount data ≤ 125 := by
  have hcount := requestCount_eq data
  have hbyte := (byteAt data 5).isLt
  rw [analyzeMasterData_read hread]
  by_cases hzero : byteAt data 5 = 0
  · refine iff_of_true (.inl ?_) (.inl hzero)
    rw [uart1Sent_analyzeRead, if_pos hzero]
  have hpos : (byteAt data 5).toNat ≠ 0 := fun h => hzero (BitVec.eq_of_toNat_eq h)
  have hlen : (byteAt data 5 * 2).toNat = (byteAt data 5).toNat * 2 % 256 := by
    rw [BitVec.toNat_mul, show (2 : U8).toNat = 2 from rfl]
  constructor
  · rintro (hnone | ⟨reply, hsent, count, crcLow, crcHigh, hcnt, -, hreply, -⟩)
    · rw [uart1Sent_analyzeRead, if_neg hzero] at hnone
      cases hnone
    · -- the byte count leaves at most 127 registers, and for 126 and 127 of them the length to
      -- send has wrapped to 1 or 3
      rw [uart1Sent_analyzeRead, if_neg hzero] at hsent
      have hcut := congrArg List.length (List.head_eq_of_cons_eq hsent)
      rw [hreply, List.length_take, BitVec.toNat_ofNat] at hcut
      have := count.isLt
      right
      omega
  · intro hsmall
    have hsmall : (byteAt data 5).toNat ≤ 125 ∧ requestCount data = (byteAt data 5).toNat := by
      have := hsmall.resolve_left hzero
      omega
    rw [← hsmall.2] at hlen
    refine .inr ⟨_, uart1Sent_analyzeRead_small id data m hzero hsmall.1, ?_⟩
    rw [← hsmall.2]
    exact isReadReply_withCrc m.addr (length_registerBytes _ _ _ _) (by omega)

/-- A request for two registers on a module fresh from an erased page is answered in full. -/
theorem readReply_complete_two :
    ReadReplyOk 0 [0x01, 0x03, 0x00, 0x06, 0x00, 0x02, 0x24, 0x0A]
      (bootModuleInfo (Vector.replicate 12 0xFF) (Vector.replicate 10 0))
      (analyzeMasterData Heap.ample 0 [0x01, 0x03, 0x00, 0x06, 0x00, 0x02, 0x24, 0x0A] 8
        (bootModuleInfo (Vector.replicate 12 0xFF) (Vector.replicate 10 0))).2.2 :=
  (readReply_complete_iff 0 _ 8 _ rfl).mpr (.inr (by decide))

/-- `Uart1_input` accepts a request for 126 registers, and the reply to it is one byte long. -/
theorem readReply_truncated :
    let request : List U8 := [0x01, 0x03, 0x00, 0x00, 0x00, 0x7E, 0xC5, 0xEA]
    let s := boot (Vector.replicate 12 0xFF) (Vector.replicate 10 0)
    (uart1Input request s).1 = .eok ∧
      ¬ ReadReplyOk 0 request s.moduleInfo
        (analyzeMasterData Heap.ample 0 request 8 s.moduleInfo).2.2 := by
  intro request s
  refine ⟨by decide +kernel, ?_⟩
  have hsent : uart1Sent (analyzeMasterData Heap.ample 0 request 8 s.moduleInfo).2.2 = [[0x01]] := by
    decide +kernel
  rintro (hnone | ⟨reply, hreply, -, -, -, -, -, hlen, -⟩)
  · rw [hsent] at hnone
    cases hnone
  · rw [hsent] at hreply
    rw [← List.head_eq_of_cons_eq hreply] at hlen
    exact absurd hlen (by decide)

/-! ## The order of the two bytes -/

/-- The two bytes of a register in the reply. -/
theorem byteAt_registerBytes (id : U32) (m : ModuleInfo) (start : U16) {n i : ℕ} (hi : i < n) :
    byteAt (registerBytes id m start n) (2 * i) =
        lowByte (getRegister id (start + BitVec.ofNat 16 i) m).1 ∧
      byteAt (registerBytes id m start n) (2 * i + 1) =
        highByte (getRegister id (start + BitVec.ofNat 16 i) m).1 := by
  induction n with
  | zero => omega
  | succ n ih =>
    have hsplit : registerBytes id m start (n + 1) = registerBytes id m start n ++
        littleEndian (getRegister id (start + BitVec.ofNat 16 n) m).1 := by
      rw [registerBytes, List.range_succ, List.flatMap_append, List.flatMap_singleton, registerBytes]
    have hlen := length_registerBytes id m start n
    rw [hsplit]
    rcases Nat.lt_succ_iff_lt_or_eq.mp hi with hlt | rfl
    · rw [byteAt_append_left (by omega), byteAt_append_left (by omega)]
      exact ih hlt
    · rw [byteAt_append_right (by omega), byteAt_append_right (by omega), hlen, Nat.sub_self,
        Nat.add_sub_cancel_left]
      exact ⟨rfl, rfl⟩

/-- Whatever the count, a register that left inside a reply lies at its place in it. -/
theorem byteAt_reply {id : U32} {data : List U8} {m : ModuleInfo} {reply : List U8} {i : ℕ}
    (hreply : reply ∈ uart1Sent (analyzeRead Heap.ample id data m).2)
    (hi : 2 * i + 7 ≤ reply.length) :
    byteAt reply (3 + 2 * i) =
        lowByte (getRegister id (requestStart data + BitVec.ofNat 16 i) m).1 ∧
      byteAt reply (4 + 2 * i) =
        highByte (getRegister id (requestStart data + BitVec.ofNat 16 i) m).1 := by
  have hbyte := (byteAt data 5).isLt
  have hlen : (byteAt data 5 * 2).toNat = (byteAt data 5).toNat * 2 % 256 := by
    rw [BitVec.toNat_mul, show (2 : U8).toNat = 2 from rfl]
  rw [uart1Sent_analyzeRead] at hreply
  split at hreply
  · cases hreply
  rw [List.mem_singleton] at hreply
  have hcut := congrArg List.length hreply
  simp only [List.length_take, length_withCrc, List.length_append, length_registerBytes,
    List.length_cons, List.length_nil, BitVec.toNat_ofNat] at hcut
  have hinside : ∀ j < 2, byteAt reply (3 + (2 * i + j)) =
      byteAt (registerBytes id m (requestStart data) (byteAt data 5).toNat) (2 * i + j) := by
    intro j hj
    have hsent : 3 + (2 * i + j) < (BitVec.ofNat 8 ((byteAt data 5 * 2).toNat + 3 + 2)).toNat := by
      rw [BitVec.toNat_ofNat]
      omega
    rw [hreply, byteAt_take hsent, withCrc, List.append_assoc, byteAt_append_right (by simp),
      show 3 + (2 * i + j) - [m.addr, readMuti, byteAt data 5 * 2].length = 2 * i + j by simp,
      byteAt_append_left (by rw [List.length_take, length_registerBytes]; omega),
      byteAt_take (by omega)]
  have hregister := byteAt_registerBytes id m (requestStart data)
    (show i < (byteAt data 5).toNat by omega)
  rw [show 4 + 2 * i = 3 + (2 * i + 1) by omega]
  exact ⟨(hinside 0 (by omega)).trans hregister.1, (hinside 1 (by omega)).trans hregister.2⟩

/-- The swap of `getRegister` puts the high byte where the target keeps the low one. -/
theorem bytes_swapBytes (x : U16) :
    lowByte (swapBytes (x.setWidth 32)) = highByte x ∧
      highByte (swapBytes (x.setWidth 32)) = lowByte x := by
  constructor <;> apply BitVec.eq_of_getLsbD_eq <;> intro i hi
  · have hlow : 8 + i < 16 := by omega
    have hhigh : 8 + i < 32 := by omega
    simp [lowByte, highByte, swapBytes, hi, hlow, hhigh]
  · have hrange : 8 + i < 16 := by omega
    have hwide : 8 + (8 + i) < 32 := by omega
    have htop : x.getLsbD (8 + (8 + i)) = false := BitVec.getLsbD_of_ge x _ (by omega)
    have hbit : x.getLsbD i = x[i] := BitVec.getLsbD_eq_getElem (by omega)
    simp [lowByte, highByte, swapBytes, hi, hrange, hwide, htop, hbit]

/-- The registers that `getRegister` returns with their bytes swapped. -/
def Swapped (r : Reg) : Prop := r = .addr ∨ r = .type ∨ r = .ctrl

/-- What `getRegister` returns for a register, byte by byte.
SOURCE: module.c:119-158 -/
theorem bytes_getRegister (id : U32) (m : ModuleInfo) (r : Reg) :
    (Swapped r → lowByte (getRegister id r.number m).1 = highByte (r.value id m) ∧
      highByte (getRegister id r.number m).1 = lowByte (r.value id m)) ∧
    (¬ Swapped r → (getRegister id r.number m).1 = r.value id m) := by
  have hwiden : ∀ b : U8, b.setWidth 32 = (b.setWidth 16).setWidth 32 := fun b =>
    BitVec.eq_of_toNat_eq (by have := b.isLt; simp only [BitVec.toNat_setWidth]; omega)
  cases r with
  | version => exact ⟨fun h => by simp [Swapped] at h, fun _ => rfl⟩
  | uuid1 => exact ⟨fun h => by simp [Swapped] at h, fun _ => rfl⟩
  | uuid2 => exact ⟨fun h => by simp [Swapped] at h, fun _ => rfl⟩
  | addr =>
    have hvalue : (getRegister id Reg.addr.number m).1 = swapBytes (m.addr.setWidth 32) := rfl
    rw [hvalue, hwiden]
    exact ⟨fun _ => bytes_swapBytes _, fun h => absurd (.inl rfl) h⟩
  | type =>
    have hvalue : (getRegister id Reg.type.number m).1 = swapBytes (m.type.setWidth 32) := rfl
    rw [hvalue, hwiden]
    exact ⟨fun _ => bytes_swapBytes _, fun h => absurd (.inr (.inl rfl)) h⟩
  | ctrl =>
    have hvalue : (getRegister id Reg.ctrl.number m).1 = swapBytes (m.ctrl.setWidth 32) := rfl
    rw [hvalue]
    exact ⟨fun _ => bytes_swapBytes _, fun h => absurd (.inr (.inr rfl)) h⟩

/-- **Which registers leave high byte first.** In every reply, whatever its count, a register
that lies in it whole is high byte first exactly when `getRegister` swaps it or its two bytes
are equal. A control word that was written is read back as the two bytes that were written.
SOURCE: module.c:64-158, 187-220 -/
theorem register_order_iff (id : U32) (m : ModuleInfo) :
    (∀ (r : Reg) (data : List U8) (size : ℕ) (reply : List U8) (i : ℕ),
      byteAt data 1 = readMuti →
      reply ∈ uart1Sent (analyzeMasterData Heap.ample id data size m).2.2 →
      2 * i + 7 ≤ reply.length → requestStart data + BitVec.ofNat 16 i = r.number →
      (HighFirst reply i (r.value id m) ↔
        (r = .addr ∨ r = .type ∨ r = .ctrl) ∨
          highByte (r.value id m) = lowByte (r.value id m))) ∧
    (∀ (write read : List U8) (size : ℕ), IsWrite write 8 registerCtrl →
      byteAt read 1 = readMuti → requestStart read = registerCtrl → byteAt read 5 = 1 →
      ∃ reply, uart1Sent (analyzeMasterData Heap.ample id read size
          (analyzeMasterData Heap.ample id write 8 m).2.1).2.2 = [reply] ∧
        byteAt reply 3 = byteAt write 4 ∧ byteAt reply 4 = byteAt write 5) := by
  constructor
  · intro r data size reply i hread hreply hi hr
    rw [analyzeMasterData_read hread] at hreply
    obtain ⟨hlow, hhigh⟩ := byteAt_reply hreply hi
    rw [hr] at hlow hhigh
    rw [HighFirst, hlow, hhigh]
    -- where nothing is swapped the low byte comes first
    by_cases hswap : Swapped r
    · exact iff_of_true ((bytes_getRegister id m r).1 hswap) (.inl hswap)
    · rw [(bytes_getRegister id m r).2 hswap]
      constructor
      · exact fun h => .inr h.1.symm
      · intro h
        have heq := h.resolve_left hswap
        exact ⟨heq.symm, heq⟩
  · intro write read size hwrite hread hstart hone
    have hctrl : (analyzeMasterData Heap.ample id write 8 m).2.1.ctrl =
        word16 (byteAt write 4) (byteAt write 5) := by
      rw [analyzeMasterData_module, if_pos hwrite]
    rw [analyzeMasterData_read hread]
    generalize (analyzeMasterData Heap.ample id write 8 m).2.1 = m' at hctrl ⊢
    have hsent := uart1Sent_analyzeRead_small id read m' (by rw [hone]; decide) (by rw [hone]; decide)
    refine ⟨_, hsent, ?_⟩
    have hnumber : requestStart read + BitVec.ofNat 16 0 = Reg.ctrl.number := by
      rw [hstart]
      rfl
    have hbytes := byteAt_reply (i := 0) (hsent ▸ List.mem_singleton_self _)
      (by simp [length_withCrc, length_registerBytes, hone])
    obtain ⟨hlow, hhigh⟩ := (bytes_getRegister id m' .ctrl).1 (.inr (.inr rfl))
    rw [hnumber, hlow, hhigh, Reg.value, hctrl, highByte_word16, lowByte_word16] at hbytes
    exact hbytes

/-- The control word `0xE102`, written and read back, comes as `E1 02`. -/
theorem register_order_ctrl :
    ∃ reply, uart1Sent (analyzeMasterData Heap.ample 0 [0x01, 0x03, 0x01, 0x00, 0x00, 0x01, 0x85, 0xF6]
        8 (analyzeMasterData Heap.ample 0 [0x01, 0x06, 0x01, 0x00, 0xE1, 0x02, 0x41, 0xA7] 8
          (bootModuleInfo (Vector.replicate 12 0xFF) (Vector.replicate 10 0))).2.1).2.2 = [reply] ∧
      byteAt reply 3 = 0xE1 ∧ byteAt reply 4 = 0x02 :=
  (register_order_iff 0 _).2 _ _ 8 (by decide) rfl rfl rfl

/-- The version register of a started module holds 2; the accepted request for it is answered with
the bytes `02 00`. -/
theorem version_low_first :
    let request : List U8 := [0x01, 0x03, 0x00, 0x01, 0x00, 0x01, 0xD5, 0xCA]
    let s := boot (Vector.replicate 12 0xFF) (Vector.replicate 10 0)
    let reply : List U8 := [0x01, 0x03, 0x02, 0x02, 0x00, 0xB9, 0x24]
    (uart1Input request s).1 = .eok ∧ Reg.version.value 0 s.moduleInfo = 0x0002 ∧
      uart1Sent (analyzeMasterData Heap.ample 0 request 8 s.moduleInfo).2.2 = [reply] ∧
      ¬ HighFirst reply 0 (Reg.version.value 0 s.moduleInfo) := by
  intro request s reply
  have hvalue : Reg.version.value 0 s.moduleInfo = 0x0002 := rfl
  refine ⟨by decide +kernel, hvalue, by decide +kernel, ?_⟩
  rw [HighFirst, hvalue]
  decide

end InfraredModule.Analysis
