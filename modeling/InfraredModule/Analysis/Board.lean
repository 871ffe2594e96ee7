import InfraredModule.Foundation.Simulation
import InfraredModule.Model.Board
import InfraredModule.Analysis.SerialDma

/-!
# The board refines the threads

`threads` takes a serial burst and a press of a button as one event each. Here they are what comes of
bytes on a line and of levels of a pin. Between two interrupts a device holds the bytes that came
since (`Receiving`); the interrupt hands on as many of them as the counter of the ring can tell
(`delivered`): all of them up to 255, and of more only what is left over when the channel has gone
round the ring. `hear` computes from the inputs of the board alone the events that the threads
see, and `board_refines_threads` says that the board is the threads on these events.
-/

set_option autoImplicit false

namespace InfraredModule.Analysis

open InfraredModule.Foundation InfraredModule.Model

/-! ## One device -/

/-- What an interrupt hands on of the bytes since the one before it. -/
def delivered (line : List U8) : List U8 := line.drop (line.length / 256 * 256)

/-- How many bytes an interrupt hands on. -/
theorem length_delivered (line : List U8) : (delivered line).length = line.length % 256 := by
  rw [delivered, List.length_drop]
  omega

/-- A device that was idle when the bytes of `line` began to come. -/
def Receiving (line : List U8) (dev : SerialRx) : Prop :=
  ∃ pos before, Idle pos before ∧ dev = line.foldl dmaTransfer before

/-- An idle device has received nothing since. -/
theorem Idle.receiving {pos : ℕ} {dev : SerialRx} (h : Idle pos dev) : Receiving [] dev :=
  ⟨pos, dev, h, rfl⟩

/-- A byte more has been received. -/
theorem Receiving.byte {line : List U8} {dev : SerialRx} (h : Receiving line dev) (b : U8) :
    Receiving (line ++ [b]) (dmaTransfer dev b) := by
  obtain ⟨pos, before, hidle, rfl⟩ := h
  exact ⟨pos, before, hidle, by rw [List.foldl_append]; rfl⟩

/-- After whole rounds of the ring the driver cannot tell that anything has come. -/
theorem Idle.rounds {pos : ℕ} {dev : SerialRx} (h : Idle pos dev) {line : List U8} {k : ℕ}
    (hrounds : line.length = k * 256) : Idle pos (line.foldl dmaTransfer dev) := by
  rw [dma_burst h.pos_lt h.counter, Ring.fill_rounds h.buffer h.pos_lt hrounds]
  exact ⟨h.pos_lt, rfl, h.lastIndex, h.putIndex, h.getIndex, h.isFull,
    (Ring.length_fill _ _ _ _).trans h.buffer⟩

/-- After an interrupt the device is idle again. -/
theorem Receiving.delivered {line : List U8} {dev : SerialRx} (h : Receiving line dev) :
    Receiving (delivered line) dev := by
  obtain ⟨pos, before, hidle, rfl⟩ := h
  have hrounds : (line.take (line.length / 256 * 256)).length = line.length / 256 * 256 :=
    List.length_take_of_le (Nat.div_mul_le_self _ _)
  refine ⟨pos, _, hidle.rounds hrounds, ?_⟩
  rw [Analysis.delivered, ← List.foldl_append, List.take_append_drop]

/-- The interrupt when nothing has come. -/
theorem Idle.uartIsr_eq {pos : ℕ} {dev : SerialRx} (h : Idle pos dev) : uartIsr dev = (none, dev) := by
  have hnone : bufsz - dev.counter - dev.lastIndex = 0 := by
    rw [h.counter, position_eq h.pos_lt, h.lastIndex, BitVec.sub_self]
    rfl
  have hlast : bufsz - dev.counter = dev.lastIndex := by rw [h.counter, position_eq h.pos_lt, h.lastIndex]
  rw [uartIsr, hnone, hlast]
  rfl

/-- The interrupt after a burst, and the read that follows it. -/
theorem Receiving.uartIsr_eq {line : List U8} {dev : SerialRx} (h : Receiving line dev)
    (hlow : 1 ≤ line.length) (hhigh : line.length ≤ 255) :
    ∃ size dev', uartIsr dev = (some size, dev') ∧ size.toNat = line.length ∧
      (rtSerialRead size dev').1 = line ∧ Receiving [] (rtSerialRead size dev').2 := by
  obtain ⟨pos, before, hidle, rfl⟩ := h
  obtain ⟨⟨next, hnext⟩, hreport⟩ := hidle.burst hlow hhigh
  have hlen : (BitVec.ofNat 32 line.length).toNat = line.length :=
    BitVec.toNat_ofNat .. ▸ Nat.mod_eq_of_lt (by omega)
  rw [serialBurst] at hnext hreport
  generalize uartIsr (line.foldl dmaTransfer before) = report at hnext hreport ⊢
  obtain ⟨size, dev'⟩ := report
  cases size with
  | none => exact absurd hreport (by simp)
  | some size =>
    simp only [List.cons.injEq, Prod.mk.injEq, and_true] at hreport hnext
    exact ⟨size, dev', rfl, by rw [hreport.1, hlen], hreport.2, hnext.receiving⟩

/-- The first lines of a callback leave the burst in the slot. -/
theorem readFrom_eq {size : U32} {dev : SerialRx} {burst : List U8} (hsize : size.toNat = burst.length)
    (hread : (rtSerialRead size dev).1 = burst) (m : RxMsg) :
    m.readFrom size dev = (m.receive burst, (rtSerialRead size dev).2) := by
  rw [RxMsg.readFrom, hsize, hread]
  rfl

/-- **One interrupt.** A callback that reads its slot and goes on with it sees the bytes that are delivered,
and is not called if there are none. -/
theorem Receiving.interrupt {line : List U8} {dev : SerialRx} (h : Receiving line dev)
    (indicate : U32 → SerialRx → Firmware → SerialRx × Firmware) (slot : Firmware → RxMsg)
    (handle : RxMsg → Firmware → Firmware)
    (hindicate : ∀ size dev s, indicate size dev s =
      (((slot s).readFrom size dev).2, handle ((slot s).readFrom size dev).1 s)) (s : Firmware) :
    Receiving [] (serialInterrupt indicate dev s).1 ∧
      (serialInterrupt indicate dev s).2 =
        if Analysis.delivered line = [] then s else handle ((slot s).receive (Analysis.delivered line)) s := by
  have hrest := h.delivered
  have hhigh : (Analysis.delivered line).length ≤ 255 := by rw [length_delivered]; omega
  generalize Analysis.delivered line = burst at hrest hhigh ⊢
  by_cases hempty : burst = []
  · subst hempty
    obtain ⟨pos, before, hidle, hdev⟩ := hrest
    rw [List.foldl_nil] at hdev
    subst hdev
    rw [serialInterrupt, hidle.uartIsr_eq, if_pos rfl]
    exact ⟨hidle.receiving, rfl⟩
  · obtain ⟨size, dev', hisr, hsize, hread, hidle⟩ :=
      hrest.uartIsr_eq (List.length_pos_iff.mpr hempty) hhigh
    rw [serialInterrupt, hisr, if_neg hempty]
    simp only [hindicate, readFrom_eq hsize hread, and_true]
    exact hidle

/-! ## The events of the threads -/

/-- What is known from the inputs so far: the bytes on each line since its last interrupt, and the table of
the button task. -/
structure Heard where
  line1 : List U8
  line2 : List U8
  buttons : Buttons

/-- An interrupt is worth a burst, or nothing. -/
def heardBurst (event : List U8 → Peer) (line : List U8) : List ThreadInput :=
  if delivered line = [] then [] else [.peer (event (delivered line))]

/-- The events that the inputs of the board are worth. -/
def hear : Translation Heard BoardInput ThreadInput
  | g, .byte .uart1 b => ({ g with line1 := g.line1 ++ [b] }, [])
  | g, .byte .uart2 b => ({ g with line2 := g.line2 ++ [b] }, [])
  | g, .idle .uart1 => ({ g with line1 := [] }, heardBurst .uart1Burst g.line1)
  | g, .idle .uart2 => ({ g with line2 := [] }, heardBurst .uart2Burst g.line2)
  | g, .buttonTask level =>
    ({ g with buttons := (buttonTask level g.buttons).1 }, (buttonTask level g.buttons).2.map .peer)
  | g, .oledIteration => (g, [.peer .oledIteration])
  | g, .start pin heap => (g, [.start pin heap])
  | g, .action => (g, [.action])

/-- What relates a board, the inputs it has had, and the threads. -/
structure Matches (g : Heard) (x : Board) (t : Threads) : Prop where
  threads : x.threads = t
  serial1 : Receiving g.line1 x.serial1
  serial2 : Receiving g.line2 x.serial2
  buttons : x.buttons = g.buttons

/-- The burst that an interrupt is worth, on the threads. -/
theorem heardBurst_run (chip : Chip) (event : List U8 → Peer) (line : List U8) (t : Threads) :
    run (threads chip) t (heardBurst event line) =
      if delivered line = [] then t else (threads chip (.peer (event (delivered line))) t).1 := by
  rw [heardBurst]
  split <;> rfl

/-- The burst that an interrupt is worth shows nothing, when bursts show nothing. -/
theorem heardBurst_emitted (chip : Chip) (event : List U8 → Peer) (line : List U8) (t : Threads)
    (hsilent : ∀ burst s, (peerStep (event burst) s).2 = []) :
    emitted (threads chip) t (heardBurst event line) = [] := by
  rw [heardBurst]
  split
  · rfl
  · rw [emitted_cons, emitted_nil, List.append_nil]
    exact hsilent _ _

/-- The calls of a round of the buttons, on the threads. -/
theorem callBacks_threads (chip : Chip) (calls : List Peer) (t : Threads) :
    run (threads chip) t (calls.map .peer) = ⟨(callBacks calls t.fw).1, t.rest⟩ ∧
      emitted (threads chip) t (calls.map .peer) = (callBacks calls t.fw).2 := by
  induction calls generalizing t with
  | nil => exact ⟨rfl, rfl⟩
  | cons p calls ih =>
    obtain ⟨hrun, hemitted⟩ := ih (threads chip (.peer p) t).1
    rw [List.map_cons, run_cons, emitted_cons, hrun, hemitted]
    exact ⟨rfl, rfl⟩

/-- **One step.** -/
theorem matches_step (chip : Chip) {g : Heard} {x : Board} {t : Threads} (h : Matches g x t)
    (i : BoardInput) :
    Matches (hear g i).1 (board chip i x).1 (run (threads chip) t (hear g i).2) ∧
      (board chip i x).2 = emitted (threads chip) t (hear g i).2 := by
  obtain ⟨rfl, hserial1, hserial2, hbuttons⟩ := h
  cases i with
  | byte port b =>
    cases port with
    | uart1 => exact ⟨⟨rfl, hserial1.byte b, hserial2, hbuttons⟩, rfl⟩
    | uart2 => exact ⟨⟨rfl, hserial1, hserial2.byte b, hbuttons⟩, rfl⟩
  | idle port =>
    cases port with
    | uart1 =>
      -- an interrupt hands the burst on and leaves an idle device
      obtain ⟨hidle, hfw⟩ := hserial1.interrupt uart1Indicate Firmware.uart1Msg
        (fun msg s => (uart1Filter msg s).2) (fun _ _ _ => rfl) x.threads.fw
      refine ⟨⟨?_, hidle, hserial2, hbuttons⟩, ?_⟩
      · simp only [hear, heardBurst_run, board, Cmd.modify_apply, hfw]
        split <;> rfl
      · exact (heardBurst_emitted chip .uart1Burst _ _ fun _ _ => rfl).symm
    | uart2 =>
      obtain ⟨hidle, hfw⟩ := hserial2.interrupt uart2Indicate Firmware.uart2Msg uart2Filter
        (fun _ _ _ => rfl) x.threads.fw
      refine ⟨⟨?_, hserial1, hidle, hbuttons⟩, ?_⟩
      · simp only [hear, heardBurst_run, board, Cmd.modify_apply, hfw]
        split <;> rfl
      · exact (heardBurst_emitted chip .uart2Burst _ _ fun _ _ => rfl).symm
  | buttonTask level =>
    obtain ⟨hrun, hemitted⟩ := callBacks_threads chip (buttonTask level g.buttons).2 x.threads
    refine ⟨⟨?_, hserial1, hserial2, ?_⟩, ?_⟩
    · simp only [hear, hrun, board, hbuttons]
    · simp only [hear, board, hbuttons]
    · simp only [hear, hemitted, board, hbuttons]
  | oledIteration => exact ⟨⟨rfl, hserial1, hserial2, hbuttons⟩, (List.append_nil _).symm⟩
  | start pin heap => exact ⟨⟨rfl, hserial1, hserial2, hbuttons⟩, (List.append_nil _).symm⟩
  | action => exact ⟨⟨rfl, hserial1, hserial2, hbuttons⟩, (List.append_nil _).symm⟩

/-- The events of the threads that a run of the board from its start is worth. -/
def heard (inputs : List BoardInput) : List ThreadInput := hear.inputs ⟨[], [], buttonRegister⟩ inputs

/-- **The board is the threads.** Whatever bytes come on the two lines, whenever they fall idle, whatever
the button pins do and however the tasks are scheduled in between: the threads are in the state, and have
sent and shown what, the events heard from these inputs bring about. -/
theorem board_refines_threads (chip : Chip) (s : Firmware) (inputs : List BoardInput) :
    (run (board chip) (Board.boot s) inputs).threads = run (threads chip) ⟨s, .skip⟩ (heard inputs) ∧
      emitted (board chip) (Board.boot s) inputs = emitted (threads chip) ⟨s, .skip⟩ (heard inputs) := by
  have hboot : Matches ⟨[], [], buttonRegister⟩ (Board.boot s) ⟨s, .skip⟩ :=
    ⟨rfl, idle_open.receiving, idle_open.receiving, rfl⟩
  obtain ⟨hend, hsame⟩ := hear.simulates Matches (fun _ _ _ i h => matches_step chip h i) hboot inputs
  exact ⟨hend.threads, hsame⟩

end InfraredModule.Analysis
