import NioApps.Header
import NioApps.Lib.CString
import NioApps.Lib.Memory

/-!
# Fhttpbin — the constants of `fhttpbin.c` and the calls of the network library

`fhttpbin.c` is built with cc65 and with other compilers, with different sizes. What its calls of
the FujiNet library answer is not in the repository: a call has an outcome, and everything is stated
for any outcomes.
-/

namespace NioApps.Fhttpbin

/-- The two branches of `#ifdef __CC65__`. -/
inductive Build where
  | cc65
  | other
  deriving DecidableEq

/-- `HTTPBIN_READ_CHUNK`. -/
def Build.readChunk : Build → Nat
  | .cc65 => 192
  | .other => 384

/-- `HTTPBIN_URL_MAX`. -/
def Build.urlMax : Build → Nat
  | .cc65 => 128
  | .other => 256

/-- `HTTPBIN_MAX_BODY`. -/
def maxBody : Nat := 768

/-- What `fhttpbin.c` takes from `fujinet-nio.h`. -/
structure NetworkHeader extends FujinetNio where
  errNotReady : UInt8
  errBusy : UInt8
  readEof : UInt8
  infoHasStatus : UInt8
  infoHasLength : UInt8
  methodHead : UInt8
  notReady_ne : errNotReady ≠ fnOk
  busy_ne : errBusy ≠ fnOk

/-- A header with some values for these names. -/
def sampleNetworkHeader : NetworkHeader where
  toFujinetNio := sampleHeader
  errNotReady := 4
  errBusy := 3
  readEof := 1
  infoHasStatus := 1
  infoHasLength := 2
  methodHead := 5
  notReady_ne := by decide
  busy_ne := by decide

/-- The cast to `uint32_t`. -/
def u32 (n : Nat) : Nat := n % 2 ^ 32

/-- What one `fn_read` answers: the result, the flags, and the bytes it puts in `read_buf`. -/
structure ReadOutcome (build : Build) where
  result : UInt8
  flags : UInt8
  data : List UInt8
  fits : data.length ≤ build.readChunk

/-- One `fn_read`: the offset it was issued at, and what it answered. -/
structure ReadCall (build : Build) where
  offset : Nat
  outcome : ReadOutcome build

section

variable (h : NetworkHeader) {build : Build}

/-- A result that is read again. -/
def ReadOutcome.again (o : ReadOutcome build) : Bool :=
  o.result == h.errNotReady || o.result == h.errBusy

/-- The bytes a read delivers. -/
def ReadOutcome.delivered (o : ReadOutcome build) : List UInt8 :=
  if o.result = h.fnOk then o.data else []

/-- A read at which the stream ends: nothing delivered, or the end flagged. -/
def ReadOutcome.Ends (o : ReadOutcome build) : Prop :=
  o.result = h.fnOk ∧ (o.data = [] ∨ o.flags &&& h.readEof ≠ 0)

def ReadCall.again (c : ReadCall build) : Bool := c.outcome.again h

def ReadCall.delivered (c : ReadCall build) : List UInt8 := c.outcome.delivered h

def ReadCall.Ends (c : ReadCall build) : Prop := c.outcome.Ends h

/-- The concatenated chunks. -/
def delivered (calls : List (ReadCall build)) : List UInt8 := calls.flatMap (ReadCall.delivered h)

end

@[simp] theorem delivered_nil (h : NetworkHeader) {build : Build} :
    delivered h ([] : List (ReadCall build)) = [] := rfl

theorem delivered_append (h : NetworkHeader) {build : Build} (calls : List (ReadCall build))
    (c : ReadCall build) : delivered h (calls ++ [c]) = delivered h calls ++ c.delivered h := by
  simp [delivered]

end NioApps.Fhttpbin
