/-
Access to the replay-protected block of the MMC device (proxy/rpmb.c): a
request is turned into at most three MMC commands, sent in one `ioctl`.
-/
import Microtrust.Storage.Files

namespace Storage

open Lib

def mmcBlockSize : Nat := 512

def mmcWriteFlagR : UInt32 := 0
def mmcWriteFlagW : UInt32 := 1
def mmcWriteFlagRelW : UInt32 := mmcWriteFlagW ||| 0x80000000

def mmcReadMultipleBlock : Nat := 18
def mmcWriteMultipleBlock : Nat := 25

/-- `MMC_RSP_SPI_R1 | MMC_RSP_R1 | MMC_CMD_ADTC`. -/
def mmcCmdFlags : UInt32 := 128 ||| (1 ||| 4 ||| 16) ||| 32

/-- A write of `size` bytes of the request from `src` on. -/
def mmcWrite (flag : UInt32) (r : Bytes) (src size : Nat) : MmcCmd :=
  ⟨flag, mmcWriteMultipleBlock, mmcCmdFlags, mmcBlockSize, size / mmcBlockSize, some src,
    (r.drop src).take size⟩

def mmcReadCmd (size : Nat) : MmcCmd :=
  ⟨mmcWriteFlagR, mmcReadMultipleBlock, mmcCmdFlags, mmcBlockSize, size / mmcBlockSize, none, []⟩

/-- The commands for a request whose length was right: none when a size is
not a whole number of blocks, or the read does not fit `read_buf`. -/
def mmcCmds (r : Bytes) (rel wr rd : Nat) : Option (List MmcCmd) :=
  if rel % mmcBlockSize ≠ 0 ∨ wr % mmcBlockSize ≠ 0 ∨ rd % mmcBlockSize ≠ 0 ∨ rd > maxReadSize then none
  else some
    ((if rel = 0 then [] else [mmcWrite mmcWriteFlagRelW r 16 rel]) ++
      (if wr = 0 then [] else [mmcWrite mmcWriteFlagW r (16 + rel) wr]) ++
      (if rd = 0 then [] else [mmcReadCmd rd]))

/-- `rpmb_send`: `reliable_write_size` at 0, `write_size` at 4, `read_size`
at 8, the payload from 16. -/
def rpmbSend (w : World) (msg : Msg) (r : Bytes) (reqLen : Nat) : Int × World :=
  if reqLen < 16 then ipcRespond w (msg.answer .notValid) none
  else
    let rel := leAt r 0 4
    let wr := leAt r 4 4
    let rd := leAt r 8 4
    -- the sum is taken in `size_t`
    if reqLen ≠ (16 + rel + wr) % 2 ^ w.abi.sizeBits then ipcRespond w (msg.answer .notValid) none
    else match mmcCmds r rel wr rd with
      | none => ipcRespond w (msg.answer .notValid) none
      | some cmds =>
        let filled := splice w.st.readBuf 0 ((w.mmcRead w.now ++ List.replicate rd 0).take rd)
        let (ok, w) := { w with mmc := w.mmc ++ [cmds] }.touch (.ioctl w.st.rpmbFd) w.st.rpmbFd
        if !ok then ipcRespond w (msg.answer .generic) none
        else
          let w := { w with st := { w.st with readBuf := filled } }
          ipcRespond w (msg.answer .noError) (some (w.st.readBuf.take rd))

/-- The blocks of the request that are printed, each where it starts and its
size: after the test of the size, and before the tests that follow. -/
def requestDumps (rel wr : Nat) : List (Nat × Nat) :=
  if rel % mmcBlockSize ≠ 0 then []
  else
    (if rel = 0 then [] else [(16, rel)]) ++
      (if wr % mmcBlockSize ≠ 0 ∨ wr = 0 then [] else [(16 + rel, wr)])

/-- What `rpmb_send` prints of a request (`RPMB_DEBUG` is defined). -/
def rpmbDumps (abi : Abi) (r : Bytes) (reqLen : Nat) : List (Nat × Nat) :=
  if reqLen < 16 then []
  else if reqLen ≠ (16 + leAt r 0 4 + leAt r 4 4) % 2 ^ abi.sizeBits then []
  else requestDumps (leAt r 0 4) (leAt r 4 4)

/-- `rpmb_open`. -/
def rpmbOpen (w : World) (dev : Bytes) : Option World :=
  match w.openPath dev ⟨true, false, false, false, false⟩ with
  | (.error _, _) => none
  | (.ok fd, w) => some { w with st := { w.st with rpmbFd := fd } }

end Storage
