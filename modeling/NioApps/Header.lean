import Mathlib.Tactic.Common

/-!
# NioApps — the constants of the headers

`include/common/fnctl.h`, `include/common/fnsvc.h` and `msdos/include/nio.h`. The header `fujinet-nio.h` of the
FujiNet library is not part of the repository: the names the code takes from it are the
fields of `FujinetNio`, and everything below is stated for any such header.
-/

namespace NioApps

/-! ## fnctl.h -/

/-- `FNCTL_SIGNATURE`, the four bytes `FUJI`. -/
def fnctlSignature : List UInt8 := [0x46, 0x55, 0x4A, 0x49]

def fnctlVersion : UInt8 := 1
def fnctlMaxData : Nat := 512
def fnctlMaxUri : Nat := 255
def fnctlMaxPath : Nat := 127
def fnctlMaxUnits : Nat := 8

/-- `FNCTL_GET_STATE`, the command byte of a state block. -/
def fnctlGetStateCommand : UInt8 := 1

/-! ## fnsvc.h and fnsvc.c -/

def fnsvcStatusOk : UInt8 := 0

inductive FnsvcErr where
  | none
  | invalidArg
  | requestTooLarge
  | transport
  | status
  | badVersion
  | shortResponse
  | entriesBounds
  | entryBounds
  deriving DecidableEq, Repr

/-- `FNSVC_IO_BUF_SIZE`, the size of `req_buf` and `resp_buf`. -/
def fnsvcIoBufSize : Nat := fnctlMaxData

def fnsvcListNameMax : Nat := 220
def fnsvcListMaxPayload : Nat := 420
def fnsvcListRequestOverhead : Nat := 6
def fnsvcResolvePathRequestOverhead : Nat := 5

def nioDeviceidDisk : UInt8 := 0xFC
def nioDeviceidFile : UInt8 := 0xFE

def nioDiskVersion : UInt8 := 1
def nioDiskMount : UInt8 := 0x01
def nioDiskUnmount : UInt8 := 0x02
def nioDiskRestoreBoot : UInt8 := 0x0A

def nioFileVersion : UInt8 := 1
def nioFileListDirectory : UInt8 := 0x02
def nioFileResolvePath : UInt8 := 0x05

def nioFileListFlagSortByName : UInt8 := 0x02
def nioFileListRespMore : UInt8 := 0x01
def nioFileListRespCompact : UInt8 := 0x02

/-! ## nio.h

The device ids and `NIO_DISK_VERSION` are the ones above. -/

def nioDiskCmdReadSector : UInt8 := 0x03

def nioStatusOk : UInt8 := 0
def nioStatusDeviceNotFound : UInt8 := 1
def nioStatusInvalidRequest : UInt8 := 2
def nioStatusDeviceBusy : UInt8 := 3
def nioStatusNotReady : UInt8 := 4
def nioStatusIoError : UInt8 := 5
def nioStatusTimeout : UInt8 := 6
def nioStatusInternalError : UInt8 := 7
def nioStatusUnsupported : UInt8 := 8

/-! ## fujinet-nio.h -/

/-- What the code takes from `fujinet-nio.h`. -/
structure FujinetNio where
  fnOk : UInt8
  appstoreReadExists : UInt8
  diskErrNone : UInt8
  diskErrUnreported : UInt8
  diskErr_ne : diskErrNone ≠ diskErrUnreported

/-- A header with some values for these names. -/
def sampleHeader : FujinetNio := ⟨0, 1, 0, 0xFF, by decide⟩

end NioApps
