import InfraredModule.Foundation.Ring
import InfraredModule.Model.Serial
import InfraredModule.Model.System
import Mathlib.Data.Int.Cast.Basic

/-!
# Reception without the half and complete interrupts

Between two bursts the three indices of the driver and the position of the DMA channel are one
and the same (`Idle`). A burst moves the channel; the interrupt takes the difference of two
positions, negative when the ring was passed, through an unsigned word, a shift, a signed word
and a 16-bit index without loss (`event_length`), and the read brings the last index after it.
So every burst of at most 255 bytes is reported with its length and read as it came.
-/

set_option autoImplicit false

namespace InfraredModule.Analysis

open InfraredModule.Foundation InfraredModule.Model

/-- The device between two bursts, with the channel at `pos`. -/
structure Idle (pos : ℕ) (s : SerialRx) : Prop where
  pos_lt : pos < 256
  counter : s.counter = BitVec.ofNat 32 (256 - pos)
  lastIndex : s.lastIndex = BitVec.ofNat 32 pos
  putIndex : s.putIndex = BitVec.ofNat 16 pos
  getIndex : s.getIndex = BitVec.ofNat 16 pos
  isFull : s.isFull = false
  buffer : s.buffer.length = 256

/-- A device that has just been opened is idle. -/
theorem idle_open : Idle 0 serialOpen :=
  ⟨by decide, rfl, rfl, rfl, rfl, rfl, List.length_replicate⟩

/-- The size of the ring. -/
theorem toNat_bufsz : bufsz.toNat = 256 := rfl

/-! ## The DMA channel -/

/-- The position of the channel, from its counter. -/
theorem position_toNat {pos : ℕ} (h : pos < 256) :
    (bufsz - BitVec.ofNat 32 (256 - pos)).toNat = pos := by
  simp only [BitVec.toNat_sub, BitVec.toNat_ofNat, toNat_bufsz]
  omega

/-- The position of the channel as the driver computes it. -/
theorem position_eq {pos : ℕ} (h : pos < 256) :
    bufsz - BitVec.ofNat 32 (256 - pos) = BitVec.ofNat 32 pos := by
  apply BitVec.eq_of_toNat_eq
  rw [position_toNat h, BitVec.toNat_ofNat, Nat.mod_eq_of_lt (by omega)]

/-- The channel stores a byte and goes on, around the end of the ring. -/
theorem dmaTransfer_eq {s : SerialRx} {pos : ℕ} (hpos : pos < 256)
    (hcounter : s.counter = BitVec.ofNat 32 (256 - pos)) (byte : U8) :
    dmaTransfer s byte =
      { s with
        buffer := s.buffer.set pos byte
        counter := BitVec.ofNat 32 (256 - Ring.succ 256 pos) } := by
  have hnext : (if s.counter - 1 = 0 then bufsz else s.counter - 1) =
      BitVec.ofNat 32 (256 - Ring.succ 256 pos) := by
    rw [hcounter, Ring.succ]
    by_cases hend : pos + 1 = 256
    · obtain rfl : pos = 255 := by omega
      rfl
    · have hleft : BitVec.ofNat 32 (256 - pos) - 1 = BitVec.ofNat 32 (256 - (pos + 1)) := by
        apply BitVec.eq_of_toNat_eq
        simp only [BitVec.ofNat_eq_ofNat, BitVec.toNat_sub, BitVec.toNat_ofNat]
        omega
      have hrunning : BitVec.ofNat 32 (256 - (pos + 1)) ≠ 0 := fun hzero => by
        have hnat := congrArg BitVec.toNat hzero
        simp only [BitVec.ofNat_eq_ofNat, BitVec.toNat_ofNat] at hnat
        omega
      rw [hleft, if_neg hrunning, if_neg hend]
  rw [dmaTransfer, hnext, hcounter, position_toNat hpos]

/-- The channel fills the ring. -/
theorem dma_burst {s : SerialRx} {pos : ℕ} (hpos : pos < 256)
    (hcounter : s.counter = BitVec.ofNat 32 (256 - pos)) (burst : List U8) :
    burst.foldl dmaTransfer s =
      { s with
        buffer := (Ring.fill 256 s.buffer pos burst).1
        counter := BitVec.ofNat 32 (256 - (Ring.fill 256 s.buffer pos burst).2) } := by
  induction burst generalizing s pos with
  | nil =>
    simp only [List.foldl_nil, Ring.fill]
    rw [← hcounter]
  | cons byte burst ih =>
    have hlt : Ring.succ 256 pos < 256 := by
      unfold Ring.succ
      split <;> omega
    rw [List.foldl_cons, dmaTransfer_eq hpos hcounter, ih hlt rfl]
    rfl

/-! ## The interrupt -/

/-- The difference of two positions is a signed number of nine bits. -/
theorem sub_eq_signExtend {p q : ℕ} (hp : p < 256) (hq : q < 256) :
    BitVec.ofNat 32 q - BitVec.ofNat 32 p = (BitVec.ofInt 9 ((q : ℤ) - p)).signExtend 32 := by
  have hp' : (BitVec.ofNat 32 p).toInt = p := by
    rw [BitVec.toInt_ofNat', Int.bmod_eq_of_le (by omega) (by omega)]
  have hq' : (BitVec.ofNat 32 q).toInt = q := by
    rw [BitVec.toInt_ofNat', Int.bmod_eq_of_le (by omega) (by omega)]
  apply BitVec.eq_of_toInt_eq
  rw [BitVec.toInt_sub, hp', hq', BitVec.toInt_signExtend_of_le (by decide), BitVec.toInt_ofInt,
    Int.bmod_eq_of_le (by omega) (by omega), Int.bmod_eq_of_le (by omega) (by omega)]

/-- Such a number comes out of the event word as it went in, and leaves the kind of event alone. -/
theorem event_length (y : BitVec 9) :
    (rtSerialEventRxDmadone ||| (y.signExtend 32 <<< 8)) &&& 0xff = rtSerialEventRxDmadone ∧
      BitVec.sshiftRight ((rtSerialEventRxDmadone ||| (y.signExtend 32 <<< 8)) &&& ~~~0xff) 8 =
        y.signExtend 32 := by
  revert y
  decide +kernel

/-- An index moved by the difference of two positions, taken modulo `2 ^ 32` and `2 ^ 16`. -/
theorem addIndex_sub {p q : ℕ} (hp : p < 256) :
    addIndex (BitVec.ofNat 16 p) (BitVec.ofNat 32 q - BitVec.ofNat 32 p) = BitVec.ofNat 16 q := by
  apply BitVec.eq_of_toNat_eq
  simp only [addIndex, BitVec.toNat_setWidth, BitVec.toNat_add, BitVec.toNat_sub, BitVec.toNat_ofNat]
  omega

/-- The put index after a burst is the position of the channel. -/
theorem rtDmaRecvUpdatePutIndex_eq {s : SerialRx} {p q : ℕ} (hp : p < 256) (hq : q < 256)
    (hput : s.putIndex = BitVec.ofNat 16 p) (hget : s.getIndex = BitVec.ofNat 16 p)
    (hfull : s.isFull = false) :
    rtDmaRecvUpdatePutIndex (BitVec.ofNat 32 q - BitVec.ofNat 32 p) s =
      { s with putIndex := BitVec.ofNat 16 q } := by
  have hlow : ¬ (BitVec.ofNat 16 q).setWidth 32 ≥ bufsz := by
    rw [ge_iff_le, BitVec.le_def, toNat_bufsz]
    simp only [BitVec.toNat_setWidth, BitVec.toNat_ofNat]
    omega
  unfold rtDmaRecvUpdatePutIndex
  simp only [hput, hget, addIndex_sub hp, hlow, if_false, false_and, BitVec.le_refl, if_true, hfull,
    Bool.false_eq_true]

/-- The distance from one position to another, forward in the ring. -/
def distance (p q : ℕ) : ℕ := if p ≤ q then q - p else 256 - (p - q)

/-- The bytes received are those from the get index to the put index. -/
theorem serialFifoCalcRecvedLen_eq {s : SerialRx} {p q : ℕ} (hp : p < 256) (hq : q < 256) (hne : q ≠ p)
    (hput : s.putIndex = BitVec.ofNat 16 q) (hget : s.getIndex = BitVec.ofNat 16 p) :
    serialFifoCalcRecvedLen s = BitVec.ofNat 32 (distance p q) := by
  have hequal : ¬ BitVec.ofNat 16 q = BitVec.ofNat 16 p := fun heq => by
    have hnat := congrArg BitVec.toNat heq
    simp only [BitVec.toNat_ofNat] at hnat
    omega
  have hgreater : BitVec.ofNat 16 q > BitVec.ofNat 16 p ↔ p ≤ q := by
    rw [gt_iff_lt, BitVec.lt_def]
    simp only [BitVec.toNat_ofNat]
    omega
  rw [serialFifoCalcRecvedLen, hput, hget, if_neg hequal]
  simp only [hgreater, distance]
  split
  all_goals
    apply BitVec.eq_of_toNat_eq
    simp only [BitVec.toNat_sub, BitVec.toNat_setWidth, BitVec.toNat_ofNat, toNat_bufsz]
    omega

/-- The interrupt after the channel has moved from `p` to `q` reports the distance. -/
theorem uartIsr_eq {s : SerialRx} {p q : ℕ} (hp : p < 256) (hq : q < 256) (hne : q ≠ p)
    (hcounter : s.counter = BitVec.ofNat 32 (256 - q)) (hlast : s.lastIndex = BitVec.ofNat 32 p)
    (hput : s.putIndex = BitVec.ofNat 16 p) (hget : s.getIndex = BitVec.ofNat 16 p)
    (hfull : s.isFull = false) :
    uartIsr s = (some (BitVec.ofNat 32 (distance p q)),
      { s with lastIndex := BitVec.ofNat 32 q, putIndex := BitVec.ofNat 16 q }) := by
  have hmoved : BitVec.ofNat 32 q - BitVec.ofNat 32 p ≠ 0 := fun hzero => by
    have hnat := congrArg BitVec.toNat hzero
    simp only [BitVec.ofNat_eq_ofNat, BitVec.toNat_sub, BitVec.toNat_ofNat] at hnat
    omega
  obtain ⟨hkind, hlength⟩ := event_length (BitVec.ofInt 9 ((q : ℤ) - p))
  rw [← sub_eq_signExtend hp hq] at hkind hlength
  rw [uartIsr, hcounter, position_eq hq, hlast, if_pos hmoved, rtHwSerialIsr, if_pos hkind]
  simp only [hlength]
  rw [rtDmaRecvUpdatePutIndex_eq hp hq (by exact hput) (by exact hget) (by exact hfull),
    serialFifoCalcRecvedLen_eq hp hq hne rfl (by exact hget)]

/-! ## The read -/

/-- A burst that is not empty is shorter than the ring. -/
theorem distance_bounds {p q : ℕ} (hp : p < 256) (hq : q < 256) (hne : q ≠ p) :
    0 < distance p q ∧ distance p q < 256 := by
  unfold distance
  split <;> omega

/-- After the read the get index is where the put index is. -/
theorem rtDmaRecvUpdateGetIndex_eq {s : SerialRx} {p q : ℕ} (hp : p < 256) (hq : q < 256) (hne : q ≠ p)
    (hget : s.getIndex = BitVec.ofNat 16 p) (hfull : s.isFull = false) :
    rtDmaRecvUpdateGetIndex (BitVec.ofNat 32 (distance p q)) s =
      { s with getIndex := BitVec.ofNat 16 q } := by
  have hdist := distance_bounds hp hq hne
  have hmoved : addIndex s.getIndex (BitVec.ofNat 32 (distance p q)) =
      BitVec.ofNat 16 (p + distance p q) := by
    apply BitVec.eq_of_toNat_eq
    simp only [hget, addIndex, BitVec.toNat_setWidth, BitVec.toNat_add, BitVec.toNat_ofNat]
    omega
  have hover : (BitVec.ofNat 16 (p + distance p q)).setWidth 32 ≥ bufsz ↔ 256 ≤ p + distance p q := by
    rw [ge_iff_le, BitVec.le_def, toNat_bufsz]
    simp only [BitVec.toNat_setWidth, BitVec.toNat_ofNat]
    omega
  have hwhere : p + distance p q = q ∨ p + distance p q = q + 256 := by
    unfold distance
    split <;> omega
  have hindex : (if (BitVec.ofNat 16 (p + distance p q)).setWidth 32 ≥ bufsz then
      ((BitVec.ofNat 16 (p + distance p q)).setWidth 32 % bufsz).setWidth 16
      else BitVec.ofNat 16 (p + distance p q)) = BitVec.ofNat 16 q := by
    simp only [hover]
    rcases hwhere with hsame | hwrapped
    · rw [hsame, if_neg (by omega)]
    · rw [hwrapped, if_pos (by omega)]
      apply BitVec.eq_of_toNat_eq
      simp only [BitVec.toNat_setWidth, BitVec.toNat_umod, BitVec.toNat_ofNat, toNat_bufsz]
      omega
  rw [rtDmaRecvUpdateGetIndex, hmoved, hindex]
  simp only [hfull, Bool.false_eq_true, false_and, if_false]

/-- A read of all that was reported copies the ring from `p` on and moves the index. -/
theorem rtSerialRead_eq {s : SerialRx} {p q : ℕ} (hp : p < 256) (hq : q < 256) (hne : q ≠ p)
    (hput : s.putIndex = BitVec.ofNat 16 q) (hget : s.getIndex = BitVec.ofNat 16 p)
    (hfull : s.isFull = false) :
    rtSerialRead (BitVec.ofNat 32 (distance p q)) s =
      (Ring.slice 256 s.buffer p (distance p q), { s with getIndex := BitVec.ofNat 16 q }) := by
  have hdist := distance_bounds hp hq hne
  have hlen : (BitVec.ofNat 32 (distance p q)).toNat = distance p q :=
    BitVec.toNat_ofNat .. ▸ Nat.mod_eq_of_lt (by omega)
  have hpos : (BitVec.ofNat 16 p).setWidth 32 = BitVec.ofNat 32 p := by
    apply BitVec.eq_of_toNat_eq
    simp only [BitVec.toNat_setWidth, BitVec.toNat_ofNat]
    omega
  have hpos' : (BitVec.ofNat 32 p).toNat = p := BitVec.toNat_ofNat .. ▸ Nat.mod_eq_of_lt (by omega)
  have hsize : BitVec.ofNat 32 (distance p q) ≠ 0 := fun hzero => by
    rw [hzero] at hlen
    exact absurd hlen.symm (by rw [show (0 : U32).toNat = 0 from rfl]; omega)
  have hdata : (if BitVec.ofNat 32 p + BitVec.ofNat 32 (distance p q) < bufsz then
        copied s (BitVec.ofNat 32 p) (BitVec.ofNat 32 (distance p q))
      else copied s (BitVec.ofNat 32 p) (bufsz - BitVec.ofNat 32 p) ++
        copied s 0 (BitVec.ofNat 32 (distance p q) + BitVec.ofNat 32 p - bufsz)) =
      Ring.slice 256 s.buffer p (distance p q) := by
    have hsum : BitVec.ofNat 32 p + BitVec.ofNat 32 (distance p q) < bufsz ↔ p + distance p q < 256 := by
      rw [BitVec.lt_def, BitVec.toNat_add, hlen, hpos', toNat_bufsz]
      omega
    rw [Ring.slice]
    simp only [hsum]
    split
    · rw [copied, hpos', hlen]
    · have hfirst : (bufsz - BitVec.ofNat 32 p).toNat = 256 - p := by
        simp only [BitVec.toNat_sub, hpos', toNat_bufsz]
        omega
      have hsecond : (BitVec.ofNat 32 (distance p q) + BitVec.ofNat 32 p - bufsz).toNat =
          distance p q + p - 256 := by
        simp only [BitVec.toNat_sub, BitVec.toNat_add, hpos', hlen, toNat_bufsz]
        omega
      rw [copied, copied, hpos', hfirst, hsecond]
      rfl
  rw [rtSerialRead, if_neg hsize, serialDmaRx, serialFifoCalcRecvedLen_eq hp hq hne hput hget, ite_self,
    rtDmaRecvUpdateGetIndex_eq hp hq hne hget hfull, hget, hpos, hdata]

/-! ## Every burst -/

/-- **One burst.** It is reported with its length and read as it came, and the device is idle again. -/
theorem Idle.burst {pos : ℕ} {s : SerialRx} (h : Idle pos s) {burst : List U8} (hlow : 1 ≤ burst.length)
    (hhigh : burst.length ≤ 255) :
    (∃ next, Idle next (serialBurst burst s).1) ∧
      (serialBurst burst s).2 = [(BitVec.ofNat 32 burst.length, burst)] := by
  have hpos := h.pos_lt
  have hfill := Ring.fill_pos h.buffer hpos (Nat.lt_succ_of_le hhigh)
  have hslice := Ring.slice_fill h.buffer hpos (Nat.le_succ_of_le hhigh)
  have hlength := Ring.length_fill 256 s.buffer pos burst
  have htransfer := dma_burst hpos h.counter burst
  generalize Ring.fill 256 s.buffer pos burst = ring at hfill hslice hlength htransfer
  obtain ⟨cells, q⟩ := ring
  simp only at hfill hslice hlength htransfer
  have hq : q < 256 := by rw [hfill]; split <;> omega
  have hne : q ≠ pos := by rw [hfill]; split <;> omega
  have hdistance : distance pos q = burst.length := by
    unfold distance
    rw [hfill]
    split <;> split <;> omega
  have hisr := uartIsr_eq (s := { s with buffer := cells, counter := BitVec.ofNat 32 (256 - q) }) hpos hq
    hne rfl h.lastIndex h.putIndex h.getIndex h.isFull
  have hread := rtSerialRead_eq (s := { s with
    buffer := cells, counter := BitVec.ofNat 32 (256 - q), lastIndex := BitVec.ofNat 32 q,
    putIndex := BitVec.ofNat 16 q }) hpos hq hne rfl h.getIndex h.isFull
  rw [hdistance] at hisr hread
  simp only [serialBurst, htransfer, hisr, hread, hslice, and_true]
  exact ⟨q, hq, rfl, rfl, rfl, rfl, h.isFull, hlength.trans h.buffer⟩

/-- **No byte is lost.** For every sequence of bursts of 1 to 255 bytes, from the opened device on: each
burst is reported with its length, and the read returns its bytes in order.
SOURCE: drv_usart.c:686-700, 1248-1276, serial.c:429-529, 1289-1324 -/
theorem dma_lossless (bursts : List (List U8))
    (h : ∀ burst ∈ bursts, 1 ≤ burst.length ∧ burst.length ≤ 255) :
    Along serialBurst serialOpen bursts fun _ s burst =>
      (serialBurst burst s).2 = [(BitVec.ofNat 32 burst.length, burst)] := by
  refine along_of_invariant (fun _ s => ∃ pos, Idle pos s)
    (fun _ _ burst => 1 ≤ burst.length ∧ burst.length ≤ 255) _ ⟨0, idle_open⟩ ?_ ?_ ?_
  · rintro before burst ⟨pos, hidle⟩ ⟨hlow, hhigh⟩
    exact (hidle.burst hlow hhigh).1
  · rintro before burst ⟨pos, hidle⟩ ⟨hlow, hhigh⟩
    exact (hidle.burst hlow hhigh).2
  · rintro before burst after rfl
    exact h burst (by simp)

/-- A burst of 200 bytes and one of 100, which passes the end of the ring. -/
theorem dma_lossless_wrap :
    let bursts : List (List U8) := [List.replicate 200 0x11, List.replicate 100 0x22]
    (∀ burst ∈ bursts, 1 ≤ burst.length ∧ burst.length ≤ 255) ∧
      Along serialBurst serialOpen bursts fun _ s burst =>
        (serialBurst burst s).2 = [(BitVec.ofNat 32 burst.length, burst)] := by
  have hbounds : ∀ burst ∈ [List.replicate 200 (0x11 : U8), List.replicate 100 0x22],
      1 ≤ burst.length ∧ burst.length ≤ 255 := by decide +kernel
  exact ⟨hbounds, dma_lossless _ hbounds⟩

end InfraredModule.Analysis
