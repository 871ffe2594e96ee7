import InfraredModule.Analysis.HubFrames
import InfraredModule.Model.Footprint

/-!
# Which accesses stay inside their buffers

The message slots have 100 bytes and take bursts of up to 255 unchecked: everything stays inside
exactly for bursts of at most 100 bytes (`slotsFit_iff`). The reply to a read fits its block
whatever its count, also when the length has wrapped; the reply to a write is one byte longer
than its block (`replyFits_iff`). The lists of indices are complete: what is not listed is not
changed by a callback (`uart1Input_outside`), and does not matter to the task (`pollUart1_reads`).
-/

set_option autoImplicit false

namespace InfraredModule.Analysis

open InfraredModule.Foundation InfraredModule.Model InfraredModule.Interface

/-- A block of indices. -/
theorem mem_bytesFrom {base n i : ℕ} : i ∈ bytesFrom base n ↔ base ≤ i ∧ i < base + n := by
  simp only [bytesFrom, List.mem_map, List.mem_range]
  constructor
  · rintro ⟨k, hk, rfl⟩
    omega
  · rintro ⟨hlow, hhigh⟩
    exact ⟨i - base, by omega, by omega⟩

/-! ## The message slots -/

/-- Every byte of a slot that the callbacks touch for a burst, and every byte the task reads in
whatever state it finds, lies in the array. -/
structure SlotsFit (id : U32) (heap : Heap) (burst : List U8) (s : Firmware) : Prop where
  uart1 : ∀ i ∈ uart1InputIndices burst s, i < uartMsgSize
  uart2 : ∀ i ∈ uart2InputIndices burst s, i < uartMsgSize
  poll : ∀ t, ∀ i ∈ pollUart1Indices id heap t, i < uartMsgSize
  replies : ∀ t, ∀ i ∈ uart2RepliesIndices t, i < uartMsgSize

/-- A request is looked at in its first eight bytes only. -/
theorem analyzeMasterDataIndices_lt (heap : Heap) (data : List U8) (size : ℕ) :
    ∀ i ∈ analyzeMasterDataIndices heap data size, i < 8 := by
  unfold analyzeMasterDataIndices
  split_ifs <;> decide

/-- The task reads the first eight bytes only. -/
theorem pollUart1Indices_lt (id : U32) (heap : Heap) (s : Firmware) :
    ∀ i ∈ pollUart1Indices id heap s, i < 8 := by
  have hanalyze := analyzeMasterDataIndices_lt heap s.uart1Msg.data s.uart1Msg.size
  unfold pollUart1Indices
  split_ifs
  · decide
  · decide
  · decide
  · simpa using hanalyze
  · decide
  · decide

/-- A reply is looked at in its first eight bytes only. -/
theorem uart2RepliesIndices_lt (s : Firmware) : ∀ i ∈ uart2RepliesIndices s, i < 8 := by
  unfold uart2RepliesIndices
  split
  · intro i hi
    have := mem_bytesFrom.mp hi
    omega
  · decide

/-- Accesses that are all the indices below `n` stay below a bound exactly when `n` does. -/
theorem below_iff {indices : List ℕ} {n bound : ℕ} (h : ∀ i, i ∈ indices ↔ i < n) :
    (∀ i ∈ indices, i < bound) ↔ n ≤ bound := by
  constructor
  · intro hall
    by_contra hlong
    exact Nat.lt_irrefl bound (hall bound ((h bound).mpr (Nat.lt_of_not_le hlong)))
  · intro hle i hi
    exact Nat.lt_of_lt_of_le ((h i).mp hi) hle

/-- Both callbacks read the whole burst into their slot, and look at nothing behind it. -/
theorem mem_uart1InputIndices (burst : List U8) (s : Firmware) (i : ℕ) :
    i ∈ uart1InputIndices burst s ↔ i < burst.length := by
  have hsize : (s.uart1Msg.receive burst).size = burst.length := rfl
  simp only [uart1InputIndices, usModbusRtuCrcIndices, hsize, List.mem_append, mem_bytesFrom]
  constructor
  · rintro (h | h)
    · omega
    · split at h
      · cases h
      · rw [List.mem_append, List.mem_cons] at h
        rcases h with (rfl | h) | h
        · omega
        · split at h
          · cases h
          · rw [List.mem_singleton] at h
            omega
        · split at h
          · cases h
          · simp only [List.mem_append, List.mem_cons, List.not_mem_nil, or_false, mem_bytesFrom] at h
            omega
  · exact fun h => .inl ⟨Nat.zero_le i, by omega⟩

/-- The callback stores the bytes of the burst. -/
theorem mem_uart2InputIndices (burst : List U8) (s : Firmware) (i : ℕ) :
    i ∈ uart2InputIndices burst s ↔ i < burst.length := by
  have hsize : (s.uart2Msg.receive burst).size = burst.length := rfl
  simp only [uart2InputIndices, hsize, List.mem_append, mem_bytesFrom]
  constructor
  · rintro (h | h)
    · omega
    · split at h
      · rcases List.mem_cons.mp h with rfl | h
        · omega
        · split at h
          · rw [List.mem_singleton] at h
            omega
          · cases h
      · cases h
  · exact fun h => .inl ⟨Nat.zero_le i, by omega⟩

/-- **The message slots.** For every burst, every state and whatever the task finds: all accesses to
the two arrays lie in them exactly when the burst has at most 100 bytes.
SOURCE: Uart.c:79-130, 260-377, Uart.h:21-38 -/
theorem slotsFit_iff (id : U32) (heap : Heap) (burst : List U8) (s : Firmware) :
    SlotsFit id heap burst s ↔ burst.length ≤ uartMsgSize := by
  have huart1 : (∀ i ∈ uart1InputIndices burst s, i < uartMsgSize) ↔ burst.length ≤ uartMsgSize :=
    below_iff (mem_uart1InputIndices burst s)
  have huart2 : (∀ i ∈ uart2InputIndices burst s, i < uartMsgSize) ↔ burst.length ≤ uartMsgSize :=
    below_iff (mem_uart2InputIndices burst s)
  constructor
  · exact fun h => huart1.mp h.uart1
  · intro hle
    exact
      { uart1 := huart1.mpr hle
        uart2 := huart2.mpr hle
        poll := fun t i hi => Nat.lt_trans (pollUart1Indices_lt id heap t i hi) (by decide)
        replies := fun t i hi => Nat.lt_trans (uart2RepliesIndices_lt t i hi) (by decide) }

/-- A burst of 101 bytes is written one byte past the end of the array. -/
theorem slot_overrun :
    let burst := List.replicate 101 (0x55 : U8)
    let s := boot (Vector.replicate 12 0xFF) (Vector.replicate 10 0)
    100 ∈ uart1InputIndices burst s ∧ ¬ SlotsFit 0 Heap.ample burst s := by
  intro burst s
  have hlast : 100 ∈ uart1InputIndices burst s :=
    (mem_uart1InputIndices burst s 100).mpr (by rw [List.length_replicate]; decide)
  exact ⟨hlast, fun h => absurd (h.uart1 100 hlast) (by decide)⟩

/-- Behind the burst a slot keeps what it held. -/
theorem byteAt_receive_behind (m : RxMsg) (burst : List U8) {i : ℕ} (hi : burst.length ≤ i) :
    byteAt (m.receive burst).data i = byteAt m.data i := by
  rw [RxMsg.receive, byteAt_append_right hi]
  simp [byteAt, List.getElem?_drop, Nat.add_sub_cancel' hi]

/-- A callback changes no byte of the memory behind its slot but those listed. -/
theorem uart1Input_outside (burst : List U8) (s : Firmware) {i : ℕ} (hi : i ∉ uart1InputIndices burst s) :
    byteAt (uart1Input burst s).2.uart1Msg.data i = byteAt s.uart1Msg.data i := by
  rw [mem_uart1InputIndices, Nat.not_lt] at hi
  have hdata : (uart1Input burst s).2.uart1Msg.data = (s.uart1Msg.receive burst).data := by
    rw [uart1Input_eq]
    split <;> rfl
  rw [hdata, byteAt_receive_behind _ _ hi]

/-- The callback stores nothing behind the burst. -/
theorem uart2Input_outside (burst : List U8) (s : Firmware) {i : ℕ} (hi : i ∉ uart2InputIndices burst s) :
    byteAt (uart2Input burst s).uart2Msg.data i = byteAt s.uart2Msg.data i := by
  rw [mem_uart2InputIndices, Nat.not_lt] at hi
  have hdata : (uart2Input burst s).uart2Msg.data = (s.uart2Msg.receive burst).data := by
    rw [uart2Input]
    split <;> rfl
  rw [hdata, byteAt_receive_behind _ _ hi]

section Reads

variable {id : U32} {heap : Heap}

/-- A request is decided by the bytes listed. -/
theorem analyzeMasterData_reads {data data' : List U8} {size : ℕ} {m : ModuleInfo}
    (h : ∀ i ∈ analyzeMasterDataIndices heap data size, byteAt data i = byteAt data' i) :
    analyzeMasterData heap id data size m = analyzeMasterData heap id data' size m := by
  have hfun : byteAt data 1 = byteAt data' 1 := h 1 (by simp [analyzeMasterDataIndices])
  by_cases hread : byteAt data 1 = readMuti
  · have h5 : byteAt data 5 = byteAt data' 5 := h 5 (by simp [analyzeMasterDataIndices, hread])
    rw [analyzeMasterData_read hread, analyzeMasterData_read (hfun ▸ hread), analyzeRead, analyzeRead, ← h5]
    by_cases hroom : heap.room ((byteAt data 5).toNat * 2) = true
    · rw [h 2 (by simp [analyzeMasterDataIndices, hread, hroom]),
        h 3 (by simp [analyzeMasterDataIndices, hread, hroom])]
    · simp only [hroom]
      rfl
  · refine analyzeMasterData_agree hfun ?_
    rintro (habsurd | ⟨hwrite, rfl⟩)
    · exact absurd habsurd hread
    · have hkind : ¬ writeSingle = readMuti := by decide
      exact ⟨h 2 (by simp [analyzeMasterDataIndices, hwrite, hkind]),
        h 3 (by simp [analyzeMasterDataIndices, hwrite, hkind]),
        h 4 (by simp [analyzeMasterDataIndices, hwrite, hkind]),
        h 5 (by simp [analyzeMasterDataIndices, hwrite, hkind])⟩

/-- The poll of a flagged slot that holds a request to this module. -/
theorem pollEffect_request {s : Firmware} (hflag : s.uart1Msg.messageFlag = true)
    (hcode : byteAt s.uart1Msg.data 0 ≠ registerCode)
    (haddr : s.moduleInfo.addr = byteAt s.uart1Msg.data 0) :
    pollEffect id heap s =
      let r := analyzeMasterData heap id s.uart1Msg.data s.uart1Msg.size s.moduleInfo
      ({ r.2.1 with registerState := registerSucess }, .clean, 0, uart1Sent r.2.2) := by
  simp only [pollEffect, pollUart1, hflag, if_true, if_neg hcode, if_pos haddr, analyzeBranch,
    Cmd.andThen_apply, Cmd.modify_apply, List.append_nil]
  rfl

/-- What the poll does is decided by the bytes listed. -/
theorem pollUart1_reads (s : Firmware) (data' : List U8)
    (h : ∀ i ∈ pollUart1Indices id heap s, byteAt s.uart1Msg.data i = byteAt data' i) :
    pollEffect id heap s = pollEffect id heap (withSlot s data') := by
  by_cases hflag : s.uart1Msg.messageFlag = true
  case neg => simp [pollEffect, pollUart1, withSlot, hflag]
  have h0 : byteAt s.uart1Msg.data 0 = byteAt data' 0 := h 0 (by simp [pollUart1Indices, hflag])
  by_cases hcode : byteAt s.uart1Msg.data 0 = registerCode
  · have hcode' : byteAt data' 0 = registerCode := h0 ▸ hcode
    by_cases hsize : 6 ≤ s.uart1Msg.size
    · have hlisted : ∀ i ∈ [2, 3, 4, 5], byteAt s.uart1Msg.data i = byteAt data' i := fun i hi =>
        h i (by simp only [pollUart1Indices, hflag, hcode, hsize, if_true]
                exact List.mem_cons_of_mem _ (List.mem_append_left _ hi))
      have huuid : frameUuid s.uart1Msg.data = frameUuid data' := by
        simp only [frameUuid, hlisted 2 (by decide), hlisted 3 (by decide), hlisted 4 (by decide),
          hlisted 5 (by decide)]
      have haddr : frameUuid data' = id → byteAt s.uart1Msg.data 7 = byteAt data' 7 := fun hid =>
        h 7 (by simp [pollUart1Indices, hflag, hcode, hsize, huuid, hid])
      by_cases hid : frameUuid data' = id
      · simp [pollEffect, pollUart1, registrationBranch, withSlot, hflag, hcode, hcode', hsize, huuid, hid,
          haddr hid, uart1Sent]
      · simp [pollEffect, pollUart1, registrationBranch, withSlot, hflag, hcode, hcode', hsize, huuid, hid,
          uart1Sent]
    · simp [pollEffect, pollUart1, registrationBranch, withSlot, hflag, hcode, hcode', hsize, uart1Sent]
  · have hcode' : ¬ byteAt data' 0 = registerCode := h0 ▸ hcode
    by_cases haddr : s.moduleInfo.addr = byteAt s.uart1Msg.data 0
    · have haddr' : s.moduleInfo.addr = byteAt data' 0 := haddr.trans h0
      have hanalyze : analyzeMasterData heap id s.uart1Msg.data s.uart1Msg.size s.moduleInfo =
          analyzeMasterData heap id data' s.uart1Msg.size s.moduleInfo :=
        analyzeMasterData_reads fun i hi => h i (by
          simp only [pollUart1Indices, hflag, hcode, haddr, if_true, if_false]
          exact List.mem_cons_of_mem _ (List.mem_cons_of_mem _ hi))
      rw [pollEffect_request hflag hcode haddr, hanalyze,
        pollEffect_request (s := withSlot s data') hflag hcode' haddr']
      rfl
    · have haddr' : ¬ s.moduleInfo.addr = byteAt data' 0 := h0 ▸ haddr
      simp [pollEffect, pollUart1, withSlot, hflag, hcode, hcode', haddr, haddr', uart1Sent]

end Reads

/-! ## The blocks of a reply -/

/-- Every access to a block lies below the size it was asked for with. -/
def ReplyFits (heap : Heap) (data : List U8) (size : ℕ) : Prop :=
  ∀ a ∈ analyzeMasterDataAccesses heap data size, a.index < a.size

instance (heap : Heap) (data : List U8) (size : ℕ) : Decidable (ReplyFits heap data size) :=
  inferInstanceAs (Decidable (∀ a ∈ _, _))

/-- The bytes stored to are those of the frame that is built. -/
theorem mem_replyStores_read (len : U8) (i : ℕ) :
    i ∈ replyStores readMuti len ↔ i < len.toNat + 3 + 2 := by
  simp only [replyStores, if_true, List.mem_append, List.mem_cons, List.not_mem_nil, or_false,
    mem_bytesFrom]
  omega

/-- The stores of a write reply: its head, its data and the check. -/
theorem mem_replyStores_write (len : U8) (i : ℕ) :
    i ∈ replyStores writeSingle len ↔ i < len.toNat + 4 + 2 := by
  have hkind : ¬ writeSingle = readMuti := by decide
  simp only [replyStores, hkind, if_true, if_false, List.mem_append, List.mem_cons, List.not_mem_nil,
    or_false, mem_bytesFrom]
  omega

/-- The bytes transmitted by a read are as many as the length leaves in a byte, so never more than the
block has. -/
theorem replySends_read_lt {len : U8} {i : ℕ} (hi : i ∈ replySends readMuti len) :
    i < len.toNat + 3 + 2 := by
  simp only [replySends, if_true, mem_bytesFrom, BitVec.toNat_ofNat] at hi
  have hle := Nat.mod_le (len.toNat + 3 + 2) (2 ^ 8)
  omega

/-- A read reply stays in its block. -/
theorem replyDataToMasterAccesses_read (heap : Heap) (len : U8) :
    ∀ a ∈ replyDataToMasterAccesses heap readMuti len, a.index < a.size := by
  intro a ha
  dsimp only [replyDataToMasterAccesses] at ha
  split at ha
  · obtain ⟨i, hi, rfl⟩ := List.mem_map.mp ha
    rcases List.mem_append.mp hi with hi | hi
    · exact (mem_replyStores_read len i).mp hi
    · exact replySends_read_lt hi
  · cases ha

/-- A read fits, whatever its count. -/
theorem replyFits_read {heap : Heap} {data : List U8} {size : ℕ} (h : byteAt data 1 = readMuti) :
    ReplyFits heap data size := by
  intro a ha
  rw [analyzeMasterDataAccesses, if_pos h] at ha
  dsimp only at ha
  split at ha
  · rcases List.mem_append.mp ha with ha | ha
    · obtain ⟨i, hi, rfl⟩ := List.mem_map.mp ha
      obtain ⟨index, hindex, hi⟩ := List.mem_flatMap.mp hi
      rw [List.mem_range] at hindex
      rw [mem_bytesFrom] at hi
      show i < (byteAt data 5).toNat * 2
      omega
    · exact replyDataToMasterAccesses_read heap _ a ha
  · cases ha

/-- A write fits exactly when one of its two blocks is not to be had. -/
theorem replyFits_write {heap : Heap} {data : List U8} (h : byteAt data 1 = writeSingle) :
    ReplyFits heap data 8 ↔ ¬ (heap.room 2 = true ∧ heap.room 7 = true) := by
  have hkind : ¬ writeSingle = readMuti := by decide
  have hblock : (2 : U8).toNat + 3 + 2 = 7 := rfl
  rw [ReplyFits, analyzeMasterDataAccesses, h, if_neg hkind, if_pos rfl, if_pos rfl]
  by_cases hvalue : heap.room 2 = true
  · simp only [hvalue, if_true, true_and, replyDataToMasterAccesses, hblock]
    by_cases hreply : heap.room 7 = true
    · -- byte 7 of the seven is stored to
      simp only [hreply, if_true, not_true, iff_false]
      intro hall
      have hlast := hall ⟨7, 7⟩ (List.mem_append_right _ (List.mem_map_of_mem
        (List.mem_append_left _ ((mem_replyStores_write 2 7).mpr (by decide)))))
      exact Nat.lt_irrefl 7 hlast
    · simp only [hreply, if_false, not_false_iff, iff_true, Bool.false_eq_true]
      decide
  · simp [hvalue]

/-- **The blocks of a reply.** For every request and every heap: all that is stored into the two blocks
and all that is transmitted lies below the sizes asked for, exactly when the request is not an
eight-byte write for which the heap has room for both blocks.
SOURCE: module.c:64-107, 187-220 -/
theorem replyFits_iff (heap : Heap) (data : List U8) (size : ℕ) :
    ReplyFits heap data size ↔ ¬ (byteAt data 1 = writeSingle ∧ size = 8 ∧ heap.room 2 = true ∧
      heap.room 7 = true) := by
  by_cases hread : byteAt data 1 = readMuti
  · have hkind : ¬ readMuti = writeSingle := by decide
    simp [replyFits_read hread, hread, hkind]
  by_cases hwrite : byteAt data 1 = writeSingle
  · by_cases hsize : size = 8
    · rw [hsize, replyFits_write hwrite]
      simp [hwrite]
    · have hnone : analyzeMasterDataAccesses heap data size = [] := by
        rw [analyzeMasterDataAccesses, if_neg hread, if_pos hwrite, if_neg hsize]
      simp [ReplyFits, hnone, hsize]
  · have hnone : analyzeMasterDataAccesses heap data size = [] := by
      rw [analyzeMasterDataAccesses, if_neg hread, if_neg hwrite]
    simp [ReplyFits, hnone, hwrite]

/-- The accepted write of the control word: byte 7 of the seven allocated is stored to and sent. -/
theorem reply_overrun :
    let s := boot (Vector.replicate 12 0xFF) (Vector.replicate 10 0)
    let f : List U8 := [0x01, 0x06, 0x01, 0x00, 0xE0, 0x00, 0xC1, 0xF6]
    (uart1Input f s).1 = .eok ∧ ⟨7, 7⟩ ∈ analyzeMasterDataAccesses Heap.ample f 8 ∧
      ¬ ReplyFits Heap.ample f 8 := by
  decide +kernel

/-- A block of indices has as many as it has bytes. -/
theorem length_bytesFrom (base n : ℕ) : (bytesFrom base n).length = n := by
  rw [bytesFrom, List.length_map, List.length_range]

/-- As many bytes are transmitted as are listed. -/
theorem uart1Sent_replyDataToMaster (heap : Heap) (m : ModuleInfo) (rw : U8) (data : List U8) (reg : U16)
    (len : U8) (hdata : len.toNat ≤ data.length) :
    ∀ bytes ∈ uart1Sent (replyDataToMaster heap m rw data reg len),
      bytes.length = (replySends rw len).length := by
  have hcopy : (data.take len.toNat).length = len.toNat := List.length_take_of_le hdata
  have hsent : ∀ (head : List U8) (n : ℕ), n = (head ++ data.take len.toNat).length + 2 →
      ∀ bytes ∈ uart1Sent (sendMessageToMaster (withCrc (head ++ data.take len.toNat)) (BitVec.ofNat 8 n)),
        bytes.length = (BitVec.ofNat 8 n).toNat := by
    intro head n hn bytes hbytes
    rw [uart1Sent_sendMessageToMaster, List.mem_singleton] at hbytes
    rw [hbytes]
    apply List.length_take_of_le
    rw [length_withCrc, ← hn, BitVec.toNat_ofNat]
    exact Nat.mod_le _ _
  unfold replyDataToMaster replySends
  split_ifs
  · rw [length_bytesFrom]
    exact hsent _ _ (by rw [List.length_append, hcopy]; simp; omega)
  · rw [length_bytesFrom]
    exact hsent _ _ (by rw [List.length_append, hcopy]; simp; omega)
  · exact fun _ h => absurd h List.not_mem_nil
  · exact fun _ h => absurd h List.not_mem_nil
  · exact fun _ h => absurd h List.not_mem_nil
  · exact fun _ h => absurd h List.not_mem_nil

end InfraredModule.Analysis
