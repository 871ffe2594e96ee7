import InfraredModule.Model.System

/-!
# Several modules on the line of one hub

The hub's serial line is shared: what the hub sends reaches every module, and what a module sends
reaches the hub and the other modules too (its own receiver is off while `UART1_EN` is set). The
line may lose anything: which module hears a transmission is part of the input. So is what the
others hear of what a module sends, as frames that follow each other closely arrive as one burst.
-/

set_option autoImplicit false

namespace InfraredModule.Model

open InfraredModule.Foundation

variable {M : Type} [DecidableEq M]

/-- A step on the line: the hub sends a frame; something happens in a module that does not touch the line;
an iteration of a module's serial task, with the bursts that each of the others hears of it. -/
inductive LineInput (M : Type) where
  | hub (frame : List U8) (hears : M → Bool)
  | peer (m : M) (p : Peer)
  | iteration (m : M) (pin : U8) (heap : Heap) (heard : M → List (List U8))

/-- The modules in the order they are named, each with its chip. -/
def line (chips : M → Chip) : LineInput M → Cmd (M → Firmware) (M × Obs)
  | .hub frame hears => Cmd.modify fun b m =>
    if hears m then (peerStep (.uart1Burst frame) (b m)).1 else b m
  | .peer m p => fun b =>
    (Function.update b m (peerStep p (b m)).1, (peerStep p (b m)).2.map (Prod.mk m))
  | .iteration m pin heap heard => fun b =>
    let r := firmware (chips m) (.iteration pin heap) (b m)
    (fun k => if k = m then r.1 else run peerStep (b k) ((heard k).map .uart1Burst),
      r.2.map (Prod.mk m))

end InfraredModule.Model
