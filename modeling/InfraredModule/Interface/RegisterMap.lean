import InfraredModule.Model.Uart

/-!
# The register map the hub sees

What the register protocol is for, apart from how the code does it: which registers can be
read, the number each of them stands for, and what a complete reply to a read request is. The
definitions here are the yardstick; `Analysis.RegisterProtocol` measures the code with them.
-/

set_option autoImplicit false

namespace InfraredModule.Interface

open InfraredModule.Model

/-- The registers that hold a number. -/
inductive Reg where
  | version
  | uuid1
  | uuid2
  | addr
  | type
  | ctrl
  deriving DecidableEq, Repr

/-- The number of a register in a request. -/
def Reg.number : Reg → U16
  | .version => registerVersion
  | .uuid1 => registerUuid1
  | .uuid2 => registerUuid2
  | .addr => registerAddr
  | .type => registerType
  | .ctrl => registerCtrl

/-- The 16-bit value a register stands for; the two identifier registers are the high and the low
half of the identifier. -/
def Reg.value (id : U32) (m : ModuleInfo) : Reg → U16
  | .version => m.version.setWidth 16
  | .uuid1 => (id >>> 16).setWidth 16
  | .uuid2 => id.setWidth 16
  | .addr => m.addr.setWidth 16
  | .type => m.type.setWidth 16
  | .ctrl => m.ctrl

/-- The fields of a request: its first register, and its 16-bit count. -/
def requestStart (f : List U8) : U16 := word16 (byteAt f 2) (byteAt f 3)

/-- The number of registers a read asks for. -/
def requestCount (f : List U8) : ℕ := (word16 (byteAt f 4) (byteAt f 5)).toNat

/-- The byte strings handed to the hub's serial line. -/
def uart1Sent (out : List Obs) : List (List U8) :=
  out.filterMap fun
    | .uart1Tx bytes => some bytes
    | _ => none

/-- A complete reply to a read of `n` registers: address, function, byte count `2n`, the registers
in order, and a check that passes. -/
def IsReadReply (addr : U8) (n : ℕ) (registers : List U8) (reply : List U8) : Prop :=
  ∃ count crcLow crcHigh : U8, count.toNat = 2 * n ∧
    reply = [addr, readMuti, count] ++ registers ++ [crcLow, crcHigh] ∧
    reply.length = 2 * n + 5 ∧ crcMatches reply reply.length = true

/-- Register `i` of a reply is `v`, high byte first. -/
def HighFirst (reply : List U8) (i : ℕ) (v : U16) : Prop :=
  byteAt reply (3 + 2 * i) = highByte v ∧ byteAt reply (4 + 2 * i) = lowByte v

end InfraredModule.Interface
