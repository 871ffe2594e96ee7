import InfraredModule.Model.Uart

/-!
# The firmware as a system of steps

Everything that happens to the memory is one of: a serial burst handled by its receive
callback, a button callback, an iteration of the display thread (`Peer`), or an iteration of
the serial task. `firmware` takes each of these as one step. `threads` is the finer system in
which the serial task is interrupted between its actions; `threads_iteration` says that an
iteration nobody interrupts is the step of `firmware`.
-/

set_option autoImplicit false

namespace InfraredModule.Model

open InfraredModule.Foundation

/-- The steps of the interrupt handlers, the button thread and the display thread. -/
inductive Peer where
  | uart1Burst (bytes : List U8)
  | uart2Burst (bytes : List U8)
  | enterBtn (type : PressType)
  | upBtn (type : PressType)
  | dowmBtn (type : PressType)
  | oledIteration
  deriving DecidableEq, Repr

/-- What a step of a peer does. -/
def peerStep : Peer → FwCmd
  | .uart1Burst bytes => Cmd.modify fun s => (uart1Input bytes s).2
  | .uart2Burst bytes => Cmd.modify (uart2Input bytes)
  | .enterBtn type => enterBtnCallBack type
  | .upBtn type => upBtnCallBack type
  | .dowmBtn type => dowmBtnCallBack type
  | .oledIteration => oledIteration

/-- A step of the system: a peer's, or an iteration of the serial task with the level of the
input pin and the room in the heap at that time. -/
inductive Input where
  | peer (p : Peer)
  | iteration (pin : U8) (heap : Heap)

/-- The system whose steps are whole iterations. -/
def firmware (chip : Chip) : Input → FwCmd
  | .peer p => peerStep p
  | .iteration pin heap => (uartIteration (readUniqueId chip) pin heap).exec

/-- The firmware with the serial task somewhere inside an iteration: `rest` is what remains
of it. -/
structure Threads where
  fw : Firmware
  rest : FwStmt

/-- A step of the interleaved system: a peer's, the start of an iteration, or one action of the
serial task. -/
inductive ThreadInput where
  | peer (p : Peer)
  | start (pin : U8) (heap : Heap)
  | action

/-- The system in which peers act between any two actions of the serial task. An iteration starts
only after the one before it has ended. -/
def threads (chip : Chip) : ThreadInput → Cmd Threads Obs
  | .peer p => fun t => (⟨(peerStep p t.fw).1, t.rest⟩, (peerStep p t.fw).2)
  | .start pin heap => fun t =>
    match t.rest with
    | .skip => (⟨t.fw, uartIteration (readUniqueId chip) pin heap⟩, [])
    | _ => (t, [])
  | .action => fun t => (⟨(t.rest.next t.fw).1.1, (t.rest.next t.fw).2⟩, (t.rest.next t.fw).1.2)

/-- An iteration starts when the one before it has ended; otherwise nothing happens. -/
theorem threads_start (chip : Chip) (pin : U8) (heap : Heap) (t : Threads) :
    (t.rest = .skip ∧ threads chip (.start pin heap) t =
        (⟨t.fw, uartIteration (readUniqueId chip) pin heap⟩, [])) ∨
      threads chip (.start pin heap) t = (t, []) := by
  obtain ⟨fw, rest⟩ := t
  cases rest with
  | skip => exact .inl ⟨rfl, rfl⟩
  | _ => exact .inr rfl

/-- Uninterrupted actions of the serial task are its statement left alone. -/
theorem run_actions (chip : Chip) (n : ℕ) (s : Firmware) (p : FwStmt) :
    run (threads chip) ⟨s, p⟩ (List.replicate n .action) =
      ⟨(p.runAlone n s).1.1, (p.runAlone n s).2⟩ := by
  induction n generalizing s p with
  | zero => rfl
  | succ n ih =>
    rw [List.replicate_succ, run_cons]
    exact ih _ _

/-- Actions enough bring a program of the serial task to its end, as its execution in one go does. -/
theorem run_actions_work (chip : Chip) (s : Firmware) (p : FwStmt) :
    run (threads chip) ⟨s, p⟩ (List.replicate p.work .action) = ⟨(p.exec s).1, .skip⟩ := by
  rw [run_actions, Stmt.runAlone_eq_exec]

/-- **The two systems agree.** An iteration whose actions nobody interrupts ends where the
single step of `firmware` does. -/
theorem threads_iteration (chip : Chip) (s : Firmware) (pin : U8) (heap : Heap) :
    run (threads chip) ⟨s, .skip⟩ (.start pin heap :: List.replicate
      (uartIteration (readUniqueId chip) pin heap).work .action) =
      ⟨(firmware chip (.iteration pin heap) s).1, .skip⟩ := by
  rw [run_cons]
  exact run_actions_work chip s (uartIteration (readUniqueId chip) pin heap)

end InfraredModule.Model
