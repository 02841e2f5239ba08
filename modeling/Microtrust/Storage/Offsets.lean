/-
Offsets and sizes of 64 bits, on a build with 64-bit and with 32-bit offsets.

A request carries an unsigned 64-bit position, and the handlers pass it on as
an `off_t`. Where that type has 32 bits only the low half of the position is
left. If this reads as a negative number the kernel refuses it; otherwise it is
acted on, whatever the upper half was.
-/
import Microtrust.Storage.Transfers

namespace Storage

open Lib

/-- A request acted at exactly the position it carries, or was answered with an
error; what a write that failed had written by then lies there too. -/
structure Honoured (w : World) (q : Request) (x pos : Nat) (w' : World) : Prop where
  write : q.cmd = some .fileWrite → ∃ c ≤ q.data.length,
    w'.kern.data = w.kern.store (toInt32 x) pos (q.data.take c) ∧
      (answered w w' .noError = true → w.kern.inode (toInt32 x) ≠ none → c = q.data.length)
  read : q.cmd = some .fileRead → w'.kern.data = w.kern.data ∧
    ∀ ino, w.kern.inode (toInt32 x) = some ino → answered w w' .noError = true →
      returned w w' = some (((w.kern.data ino).drop pos).take q.readSize)
  setSize : q.cmd = some .fileSetSize →
    answered w w' .noError = false ∧ w'.kern.data = w.kern.data ∨
      ∃ ino, w.kern.inode (toInt32 x) = some ino ∧
        w'.kern.data = Function.update w.kern.data ino (padTake (w.kern.data ino) pos)

/-- A position that is kept, or turns negative, is honoured. -/
theorem serve_honoured {M x pos : Nat} {w : World} {q : Request} (hM : 2 ^ w.abi.offBits = 2 * M)
    (hbig : reqBufferSize ≤ M) (hx : q.handle = some x) (hp : q.position = some pos)
    (hkeep : toSigned w.abi.offBits pos = pos ∨ toSigned w.abi.offBits pos < 0) :
    Honoured w q x pos (serve w q).2 := by
  constructor
  · intro hc
    obtain ⟨c, hle, hdata, hneg, hall⟩ := serve_write hc hx hp hM hbig
    refine ⟨c, hle, ?_, hall⟩
    rcases hkeep with hkeep | hlt
    · rw [hdata, hkeep, Int.toNat_natCast]
    · simp [hdata, hneg hlt]
  · intro hc
    obtain ⟨hdata, hread⟩ := serve_read hc hx hp hM (le_trans (by decide) hbig)
    refine ⟨hdata, fun ino hino hwell => ?_⟩
    obtain ⟨hlast, hret⟩ := (hread hwell).2 ino hino
    rcases hkeep with hkeep | hlt
    · rw [hret, hkeep, Int.toNat_natCast]
    · -- nothing is asked for, so there is nothing to find elsewhere
      rw [hret, hlast.resolve_right (by omega)]
      simp
  · intro hc
    rcases serve_setSize hc hx hp with hno | ⟨_, h₀, ino, hino, hdata⟩
    · exact .inl hno
    · refine .inr ⟨ino, hino, ?_⟩
      rw [hdata, hkeep.resolve_right (by omega), Int.toNat_natCast]

/-- The request is refused, or asks for nothing, before its position is used. -/
def Request.placeless (q : Request) (x : Nat) : Prop :=
  q.msg.postCommit = true ∨ 2 ^ 31 ≤ x ∨ (q.cmd = some .fileRead ∧ (q.readSize = 0 ∨ maxReadSize < q.readSize)) ∨
    (q.cmd = some .fileWrite ∧ q.data = [])

instance (q : Request) (x : Nat) : Decidable (q.placeless x) := inferInstanceAs (Decidable (_ ∨ _ ∨ _ ∨ _))

section Placeless

variable {w w' : World} {q : Request} {x pos : Nat}

theorem Honoured.refused (hdata : w'.kern.data = w.kern.data) (hno : answered w w' .noError = false) :
    Honoured w q x pos w' := by
  refine ⟨fun _ => ⟨0, Nat.zero_le _, by simp [hdata], fun hwell => ?_⟩, fun _ => ⟨hdata, fun _ _ hwell => ?_⟩,
    fun _ => .inl ⟨hno, hdata⟩⟩
  · rw [hno] at hwell
    cases hwell
  · rw [hno] at hwell
    cases hwell

/-- A command that cannot be followed by a commit is refused if one is asked for. -/
theorem serve_unimplemented {c : Cmd} (hpost : q.msg.postCommit = true) (hc : q.cmd = some c) (hne : c ≠ .rpmbSend) :
    Answers w q.msg .unimplemented none w.st.marks w.kern (serve w q).2 := by
  have hcode : q.msg.cmd ≠ Cmd.rpmbSend.code := by
    intro heq
    rw [Request.cmd, heq] at hc
    have hofCode : Cmd.ofCode Cmd.rpmbSend.code = some .rpmbSend := by decide
    exact hne (Option.some.inj (hc.symm.trans hofCode))
  have hs : serve w q = ipcRespond (receive w q) (q.msg.answer .unimplemented) none := by
    unfold serve handleReq
    dsimp only
    rw [if_pos (by simp [hpost, hcode])]
  have hf : Frame w (receive w q) := ⟨rfl, rfl, rfl, rfl⟩
  exact hf.respond rfl rfl (hs.symm.trans Prod.mk.eta.symm)

theorem Request.handle_lt (hx : q.handle = some x) : x < 2 ^ 32 := by
  have hlt (off : Nat) : leAt q.payload off 4 < 2 ^ 32 := leAt_lt q.payload off 4
  unfold Request.handle at hx
  split at hx
  all_goals
    first
      | cases hx
      | split at hx <;> (cases hx; try exact hlt _)

theorem inode_of_large (k : Kernel) (hx : q.handle = some x) (h : 2 ^ 31 ≤ x) : k.inode (toInt32 x) = none := by
  have hneg := toInt32_neg h (Request.handle_lt hx)
  simp [Kernel.inode, Kernel.desc, hneg]

/-- Such a request is honoured, wherever it points. -/
theorem serve_placeless {M : Nat} (hM : 2 ^ w.abi.offBits = 2 * M) (hbig : reqBufferSize ≤ M) (hx : q.handle = some x)
    (hp : q.position = some pos) (h : q.placeless x) : Honoured w q x pos (serve w q).2 := by
  rcases h with hpost | hlarge | ⟨hc, hsize⟩ | ⟨hc, hdata⟩
  · obtain ⟨c, hc, hne⟩ : ∃ c, q.cmd = some c ∧ c ≠ .rpmbSend := by
      unfold Request.position at hp
      split at hp
      all_goals first | cases hp | exact ⟨_, ‹_›, by simp⟩
    have ha := serve_unimplemented (w := w) hpost hc hne
    exact .refused (by rw [ha.kern]) (by rw [ha.answered]; rfl)
  · -- no file is behind a number that is read as negative
    have hi := inode_of_large w.kern hx hlarge
    constructor
    · intro hc
      obtain ⟨c, hle, hstored, _, _⟩ := serve_write hc hx hp hM hbig
      refine ⟨c, hle, ?_, fun _ hne => absurd hi hne⟩
      rw [hstored]
      simp [Kernel.store, hi]
    · intro hc
      refine ⟨(serve_read hc hx hp hM (le_trans (by decide) hbig)).1, fun ino hino _ => ?_⟩
      rw [hi] at hino
      cases hino
    · intro hc
      refine .inl ((serve_setSize hc hx hp).resolve_right ?_)
      rintro ⟨_, _, ino, hino, _⟩
      rw [hi] at hino
      cases hino
  · refine ⟨fun hw => by simp [hc] at hw, fun _ => ?_, fun hs => by simp [hc] at hs⟩
    obtain ⟨hkept, hread⟩ := serve_read hc hx hp hM (le_trans (by decide) hbig)
    refine ⟨hkept, fun ino hino hwell => ?_⟩
    obtain ⟨hle, hret⟩ := hread hwell
    have hzero : q.readSize = 0 := hsize.resolve_right (Nat.not_lt.mpr hle)
    rw [(hret ino hino).2, hzero, List.take_zero, List.take_zero]
  · refine ⟨fun _ => ?_, fun hr => by simp [hc] at hr, fun hs => by simp [hc] at hs⟩
    obtain ⟨c, hle, hstored, _, hall⟩ := serve_write hc hx hp hM hbig
    refine ⟨c, hle, ?_, hall⟩
    rw [hstored, hdata]
    simp

end Placeless

/-! ## A position that is cut -/

/-- An environment in which every call succeeds, a transfer moving all there is. -/
def wholesale : Nat → Syscall → Reply := fun _ _ => .ok reqBufferSize

section Succeeds

variable {w : World} {q : Request} {c : Cmd} {x pos ino : Nat} {d : Desc}

theorem answered_of_respond {w₁ : World} {out : Option Bytes} (hf : Frame w w₁)
    (hs : serve w q = ipcRespond w₁ (q.msg.answer .noError) out) : answered w (serve w q).2 .noError = true := by
  have hr : ipcRespond w₁ (q.msg.answer .noError) out = ((serve w q).1, (serve w q).2) := hs.symm
  rw [(hf.respond rfl rfl hr).answered]
  rfl

/-- With nothing to sync, a commit before the command changes nothing. -/
theorem serve_settled (hset : w.st.marks.Settled) (hpost : q.msg.postCommit = false) (hc : q.cmd = some c) :
    ∃ rest, serve w q = handler c (receive w q) q.msg (q.payload ++ 0 :: rest) q.payload.length := by
  refine ⟨w.st.reqBuffer.drop (q.payload.length + 1), ?_⟩
  simp only [serve, handleReq, hpost, Bool.false_and, Bool.false_eq_true, if_false]
  rw [checkpoint_settled (w := receive w q) hset]
  dsimp only
  rw [if_neg (lt_irrefl 0), ite_self, dispatch_some hc]
  rfl

theorem writeLoop_nil (n : Nat) (w : World) (fd off : Int) : writeLoop n w fd [] off = (.ok (), w) := by
  cases n <;> simp [writeLoop]

theorem readLoop_zero (n : Nat) (w : World) (fd off : Int) (rcnt : Nat) :
    readLoop n w fd 0 off rcnt = (.ok rcnt, w) := by
  cases n <;> simp [readLoop]

variable (henv : w.env = wholesale) (hset : w.st.marks.Settled) (hpost : q.msg.postCommit = false)
include henv hset hpost

/-- Writing to an open file goes well. -/
theorem serve_write_whole (hc : q.cmd = some .fileWrite) (hx : q.handle = some x) (hp : q.position = some pos)
    (hdata : q.data ≠ []) (hd : w.kern.desc (toInt32 x) = some d) (hrw : d.rdwr = true) (ho : d.obj = .file ino)
    (h₀ : 0 ≤ toSigned w.abi.offBits pos) : answered w (serve w q).2 .noError = true := by
  obtain ⟨hlen, hx, hp⟩ := write_fields hc hx hp
  obtain ⟨rest, hs⟩ := serve_settled hset hpost hc
  obtain ⟨b, bs, hb⟩ := List.exists_cons_of_ne_nil hdata
  have hb : List.drop 16 q.payload = b :: bs := hb
  have hx' := (leAt_append (b := 0 :: rest) (show 8 + 4 ≤ q.payload.length by omega)).trans hx
  have hp' := (leAt_append (b := 0 :: rest) (show 0 + 8 ≤ q.payload.length by omega)).trans hp
  have hall : min (max reqBufferSize 1) (bs.length + 1) = bs.length + 1 := by
    have hfits := q.fits
    have hdrop := congrArg List.length hb
    rw [List.length_drop, List.length_cons] at hdrop
    omega
  simp only [handler, storageFileWrite, Nat.not_lt.mpr hlen, if_false, List.take_left, hb, writeWithRetry,
    List.length_cons, writeLoop, reduceCtorEq, World.pwrite, World.sys, World.setMarks, lookupFd, if_true, receive,
    hx', hp', henv, wholesale, Kernel.pwrite, hd, hrw, ho, Bool.not_true, Bool.false_eq_true, Int.not_lt.mpr h₀, hall,
    List.drop_succ_cons, List.drop_length, writeLoop_nil] at hs
  refine answered_of_respond ?_ hs
  exact ⟨rfl, rfl, henv.symm, rfl⟩

/-- So does reading what is there. -/
theorem serve_read_whole (hc : q.cmd = some .fileRead) (hx : q.handle = some x) (hp : q.position = some pos)
    (hsize : q.readSize ≠ 0) (hmax : q.readSize ≤ maxReadSize) (hd : w.kern.desc (toInt32 x) = some d)
    (ho : d.obj = .file ino) (h₀ : 0 ≤ toSigned w.abi.offBits pos)
    (hthere : (toSigned w.abi.offBits pos).toNat + q.readSize ≤ (w.kern.data ino).length) :
    answered w (serve w q).2 .noError = true := by
  obtain ⟨hlen, hx, hp⟩ := read_fields hc hx hp
  obtain ⟨rest, hs⟩ := serve_settled hset hpost hc
  have hx' := (leAt_append (b := 0 :: rest) (show 0 + 4 ≤ q.payload.length by omega)).trans hx
  have hp' := (leAt_append (b := 0 :: rest) (show 8 + 8 ≤ q.payload.length by omega)).trans hp
  obtain ⟨s, hsize'⟩ := Nat.exists_eq_succ_of_ne_zero hsize
  rw [hsize'] at hmax hthere
  have hsize'' := (leAt_append (b := 0 :: rest) (show 4 + 4 ≤ q.payload.length by omega)).trans hsize'
  simp only [handler, storageFileRead, hlen, ne_eq, not_true_eq_false, if_false, hsize'',
    gt_iff_lt, Nat.not_lt.mpr hmax, readWithRetry, readLoop, Nat.succ_ne_zero, World.pread, World.sys,
    World.setMarks, lookupFd, receive, hx', hp', henv, wholesale, Kernel.pread, hd, ho, Bool.false_eq_true,
    Int.not_lt.mpr h₀] at hs
  generalize hbs : ((List.drop _ (w.kern.data ino)).take _).take _ = bs at hs
  have hread : bs.length = s + 1 := by
    have hbuf : s + 1 ≤ reqBufferSize := hmax.trans (by decide)
    rw [← hbs, List.length_take, List.length_take, List.length_drop]
    omega
  cases bs with
  | nil => cases hread
  | cons b bs =>
    rw [List.length_cons] at hread
    simp only [List.length_cons, hread, Nat.succ_eq_add_one, Nat.sub_self, readLoop_zero] at hs
    refine answered_of_respond ?_ hs
    exact ⟨rfl, rfl, henv.symm, rfl⟩

/-- And setting its size. -/
theorem serve_setSize_whole (hc : q.cmd = some .fileSetSize) (hx : q.handle = some x) (hp : q.position = some pos)
    (hd : w.kern.desc (toInt32 x) = some d) (hrw : d.rdwr = true) (ho : d.obj = .file ino)
    (h₀ : 0 ≤ toSigned w.abi.offBits pos) : answered w (serve w q).2 .noError = true := by
  obtain ⟨hlen, hx, hp⟩ := setSize_fields hc hx hp
  obtain ⟨rest, hs⟩ := serve_settled hset hpost hc
  have hx' := (leAt_append (b := 0 :: rest) (show 8 + 4 ≤ q.payload.length by omega)).trans hx
  have hp' := (leAt_append (b := 0 :: rest) (show 0 + 8 ≤ q.payload.length by omega)).trans hp
  simp only [handler, storageFileSetSize, hlen, ne_eq, not_true_eq_false, if_false, World.ftruncate, World.sys,
    World.setMarks, lookupFd, if_true, receive, hx', hp', henv, wholesale, Kernel.ftruncate, hd, hrw, ho, Bool.not_true,
    Bool.false_or, Int.not_lt.mpr h₀, decide_false, Bool.false_eq_true] at hs
  refine answered_of_respond ?_ hs
  exact ⟨rfl, rfl, henv.symm, rfl⟩

end Succeeds

/-- A proxy with 32-bit offsets that has a file with the given content open as
handle `x`. -/
def narrow (x : Nat) (content : Bytes) : World where
  env := wholesale
  now := 0
  mmcRead := fun _ => []
  abi := ⟨32, 32⟩
  kern := { bench with fds := fun n => if n = x then some ⟨.file 0, 0, 3, true⟩ else none, data := fun _ => content }
  st := { roots := { ssProinfoName := [] } }
  sent := []
  mmc := []
  props := []

section Cut

variable {q : Request} {x pos : Nat}

theorem narrow_settled (x : Nat) (content : Bytes) : (narrow x content).st.marks.Settled := by
  refine ⟨fun n => ?_, ?_, ?_⟩
  all_goals simp [narrow]

theorem narrow_desc (content : Bytes) (hx : x < 2 ^ 31) :
    (narrow x content).kern.desc (toInt32 x) = some ⟨.file 0, 0, 3, true⟩ := by
  rw [toInt32_of_lt hx, Kernel.desc_natCast]
  exact if_pos rfl

theorem narrow_inode (content : Bytes) (hx : x < 2 ^ 31) : (narrow x content).kern.inode (toInt32 x) = some 0 := by
  rw [Kernel.inode, narrow_desc content hx]
  rfl

theorem narrow_signed (x : Nat) (content : Bytes) (hcut : pos % 2 ^ 32 < 2 ^ 31) :
    toSigned (narrow x content).abi.offBits pos = (pos % 2 ^ 32 : Nat) := by
  have hM : 2 ^ 32 = 2 * 2 ^ 31 := by norm_num
  rcases toSigned_cases hM pos with ⟨_, heq⟩ | ⟨hlt, _⟩
  · exact heq
  · omega

variable (hcut : pos % 2 ^ 32 < 2 ^ 31) (hbig : 2 ^ 31 ≤ pos) (hx31 : x < 2 ^ 31) (hpost : q.msg.postCommit = false)
  (hx : q.handle = some x) (hp : q.position = some pos)
include hcut hbig hx31 hpost hx hp

/-- The data is written at the low half of the position. -/
theorem write_dishonoured (hc : q.cmd = some .fileWrite) (hdata : q.data ≠ []) :
    ¬ Honoured (narrow x []) q x pos (serve (narrow x []) q).2 := by
  intro hon
  have hi := narrow_inode [] hx31
  have hsigned := narrow_signed x [] hcut
  have hwell := serve_write_whole rfl (narrow_settled x []) hpost hc hx hp hdata (narrow_desc [] hx31) rfl rfl (by omega)
  have hbits : 2 ^ (narrow x []).abi.offBits = 2 * 2 ^ 31 := by rfl
  obtain ⟨c, _, hreal, _, hall⟩ := serve_write hc hx hp hbits (by decide)
  obtain ⟨c', _, hideal, hall'⟩ := hon.write hc
  rw [hall hwell (by simp [hi]), hsigned, List.take_length, Int.toNat_natCast] at hreal
  rw [hall' hwell (by simp [hi]), List.take_length] at hideal
  have hlen := congrArg (fun data => (data 0).length) (hreal.symm.trans hideal)
  simp only [Kernel.store, hi, Function.update_self, length_overlay hdata] at hlen
  simp [narrow] at hlen
  omega

/-- Bytes are read there. -/
theorem read_dishonoured (hc : q.cmd = some .fileRead) (hsize : q.readSize ≠ 0) (hmax : q.readSize ≤ maxReadSize) :
    ∃ content, ¬ Honoured (narrow x content) q x pos (serve (narrow x content) q).2 := by
  refine ⟨List.replicate (pos % 2 ^ 32 + q.readSize) 0, fun hon => ?_⟩
  generalize hcontent : List.replicate (pos % 2 ^ 32 + q.readSize) (0 : UInt8) = content at hon
  have hi := narrow_inode content hx31
  have hsigned := narrow_signed x content hcut
  have hthere : (toSigned (narrow x content).abi.offBits pos).toNat + q.readSize ≤
      ((narrow x content).kern.data 0).length := by
    rw [hsigned, Int.toNat_natCast]
    simp [narrow, ← hcontent]
  have hwell := serve_read_whole rfl (narrow_settled x content) hpost hc hx hp hsize hmax (narrow_desc content hx31) rfl
    (by omega) hthere
  have hbits : 2 ^ (narrow x content).abi.offBits = 2 * 2 ^ 31 := by rfl
  have hreal := ((serve_read hc hx hp hbits (by decide)).2 hwell).2 0 hi
  have hideal := (hon.read hc).2 0 hi hwell
  rw [hreal.2, hsigned, Int.toNat_natCast] at hideal
  have hlen := congrArg (fun out => (out.getD []).length) hideal
  have hsmall : q.readSize ≤ 4096 := hmax
  simp [narrow, ← hcontent] at hlen
  omega

/-- And the file is cut there. -/
theorem setSize_dishonoured (hc : q.cmd = some .fileSetSize) :
    ¬ Honoured (narrow x []) q x pos (serve (narrow x []) q).2 := by
  intro hon
  have hsigned := narrow_signed x [] hcut
  have hwell := serve_setSize_whole rfl (narrow_settled x []) hpost hc hx hp (narrow_desc [] hx31) rfl rfl (by omega)
  have hno : ¬ answered (narrow x []) (serve (narrow x []) q).2 .noError = false := by simp [hwell]
  obtain ⟨_, _, ino, hino, hreal⟩ := (serve_setSize hc hx hp).resolve_left fun h => hno h.1
  obtain ⟨ino', hino', hideal⟩ := (hon.setSize hc).resolve_left fun h => hno h.1
  obtain rfl : ino = ino' := Option.some.inj (hino.symm.trans hino')
  have hlen := congrArg (fun data => (data ino).length) (hreal.symm.trans hideal)
  simp only [Function.update_self, length_padTake, hsigned] at hlen
  omega

end Cut

/-! Requests of one byte, or for a size, at `pos` of the file behind handle 5. -/

def readAt (pos : Nat) : Request :=
  request .fileRead 0 ([5, 0, 0, 0, 1, 0, 0, 0] ++ leBytes 8 pos) (by simp [reqBufferSize])

def writeAt (pos : Nat) : Request :=
  request .fileWrite 0 (leBytes 8 pos ++ [5, 0, 0, 0, 0, 0, 0, 0, 1]) (by simp [reqBufferSize])

def setSizeAt (size : Nat) : Request :=
  request .fileSetSize 0 (leBytes 8 size ++ [5, 0, 0, 0, 0, 0, 0, 0]) (by simp [reqBufferSize])

theorem request_plain (c : Cmd) (payload : Bytes) (fits : payload.length ≤ reqBufferSize) :
    (request c 0 payload fits).plain := by
  constructor
  · show ((0 : UInt32) &&& flagPreCommit != 0) = false
    decide
  · show ((0 : UInt32) &&& flagPostCommit != 0) = false
    decide

/-- The request is for one byte or a size at `pos`, through handle 5. -/
structure At (c : Cmd) (q : Request) (pos : Nat) : Prop where
  cmd : q.cmd = some c
  plain : q.plain
  handle : q.handle = some 5
  position : q.position = some pos

theorem at_readAt {pos : Nat} (h : pos < 2 ^ 64) : At .fileRead (readAt pos) pos ∧ (readAt pos).readSize = 1 := by
  have hcmd : (readAt pos).cmd = some .fileRead := by rfl
  refine ⟨⟨hcmd, request_plain _ _ _, ?_, ?_⟩, by simp [Request.readSize, readAt, request, leAt, le]⟩
  · simp only [Request.handle, hcmd]
    simp [readAt, request, leAt, le]
  · simp only [Request.position, hcmd]
    simp [readAt, request, leAt, List.take_of_length_le, le_leBytes]
    omega

theorem at_writeAt {pos : Nat} (h : pos < 2 ^ 64) : At .fileWrite (writeAt pos) pos ∧ (writeAt pos).data = [1] := by
  have hcmd : (writeAt pos).cmd = some .fileWrite := by rfl
  refine ⟨⟨hcmd, request_plain _ _ _, ?_, ?_⟩, by simp [Request.data, writeAt, request, List.drop_append]⟩
  · simp only [Request.handle, hcmd]
    simp [writeAt, request, leAt, le]
  · simp only [Request.position, hcmd]
    simp [writeAt, request, leAt, le_leBytes]
    omega

theorem at_setSizeAt {pos : Nat} (h : pos < 2 ^ 64) : At .fileSetSize (setSizeAt pos) pos := by
  have hcmd : (setSizeAt pos).cmd = some .fileSetSize := by rfl
  refine ⟨hcmd, request_plain _ _ _, ?_, ?_⟩
  · simp only [Request.handle, hcmd]
    simp [setSizeAt, request, leAt, le]
  · simp only [Request.position, hcmd]
    simp [setSizeAt, request, leAt, le_leBytes]
    omega

/-- The positions that every request honours. -/
theorem kept_position {bits pos : Nat} (hbits : bits = 32 ∨ bits = 64) (hpos : pos < 2 ^ 64)
    (h : bits = 64 ∨ pos < 2 ^ 31 ∨ 2 ^ 31 ≤ pos % 2 ^ 32) : toSigned bits pos = pos ∨ toSigned bits pos < 0 := by
  have hkeep {M : Nat} (hM : 2 ^ bits = 2 * M) (h : pos < M ∨ M ≤ pos % (2 * M)) :
      toSigned bits pos = pos ∨ toSigned bits pos < 0 := by
    rcases h with h | h
    · exact .inl (toSigned_of_lt hM h)
    · rcases toSigned_cases hM pos with ⟨hlt, _⟩ | ⟨_, hneg⟩
      · omega
      · exact .inr hneg
  rcases hbits with rfl | rfl
  · exact hkeep (M := 2 ^ 31) (by norm_num) (by omega)
  · exact hkeep (M := 2 ^ 63) (by norm_num) (by omega)

theorem half_offset {bits : Nat} (hbits : bits = 32 ∨ bits = 64) : ∃ M, 2 ^ bits = 2 * M ∧ reqBufferSize ≤ M := by
  rcases hbits with rfl | rfl
  · exact ⟨2 ^ 31, by norm_num, by decide⟩
  · exact ⟨2 ^ 63, by norm_num, by decide⟩

/-- **A position is honoured by every request of a kind exactly when `off_t` has
64 bits, or the position fits the 32 bits of it, or its low half reads as a
negative number.** One request honours its position for these reasons, or because
it does not come to use it. -/
theorem positions_honoured_iff {bits pos : Nat} {c : Cmd} (hbits : bits = 32 ∨ bits = 64) (hpos : pos < 2 ^ 64)
    (hc : c = .fileRead ∨ c = .fileWrite ∨ c = .fileSetSize) :
    ((∀ w q x, w.abi.offBits = bits → q.cmd = some c → q.handle = some x → q.position = some pos →
        Honoured w q x pos (serve w q).2) ↔
      bits = 64 ∨ pos < 2 ^ 31 ∨ 2 ^ 31 ≤ pos % 2 ^ 32) ∧
    ∀ q x, q.cmd = some c → q.handle = some x → q.position = some pos →
      ((∀ w, w.abi.offBits = bits → Honoured w q x pos (serve w q).2) ↔
        bits = 64 ∨ pos < 2 ^ 31 ∨ 2 ^ 31 ≤ pos % 2 ^ 32 ∨ q.placeless x) := by
  obtain ⟨M, hM, hbuf⟩ := half_offset hbits
  have hkept (h : bits = 64 ∨ pos < 2 ^ 31 ∨ 2 ^ 31 ≤ pos % 2 ^ 32) (w : World) (q : Request) (x : Nat)
      (hw : w.abi.offBits = bits) (hx : q.handle = some x) (hp : q.position = some pos) :
      Honoured w q x pos (serve w q).2 :=
    serve_honoured (by rw [hw, hM]) hbuf hx hp (by rw [hw]; exact kept_position hbits hpos h)
  have hrequest (q : Request) (x : Nat) (hcmd : q.cmd = some c) (hx : q.handle = some x) (hp : q.position = some pos) :
      (∀ w, w.abi.offBits = bits → Honoured w q x pos (serve w q).2) ↔
        bits = 64 ∨ pos < 2 ^ 31 ∨ 2 ^ 31 ≤ pos % 2 ^ 32 ∨ q.placeless x := by
    constructor
    · intro hall
      by_contra hbad
      simp only [not_or, Nat.not_lt, Nat.not_le, Request.placeless, Bool.not_eq_true, not_and] at hbad
      obtain ⟨h64, hbig, hcut, hpost, hx31, hread, hwrite⟩ := hbad
      obtain rfl : bits = 32 := hbits.resolve_right h64
      rcases hc with rfl | rfl | rfl
      · obtain ⟨hsize, hmax⟩ := hread hcmd
        obtain ⟨content, hno⟩ := read_dishonoured hcut hbig hx31 hpost hx hp hcmd hsize hmax
        exact hno (hall _ rfl)
      · exact write_dishonoured hcut hbig hx31 hpost hx hp hcmd (hwrite hcmd) (hall _ rfl)
      · exact setSize_dishonoured hcut hbig hx31 hpost hx hp hcmd (hall _ rfl)
    · intro h w hw
      rcases h with h | h | h | h
      · exact hkept (.inl h) w q x hw hx hp
      · exact hkept (.inr (.inl h)) w q x hw hx hp
      · exact hkept (.inr (.inr h)) w q x hw hx hp
      · exact serve_placeless (by rw [hw, hM]) hbuf hx hp h
  refine ⟨⟨fun hall => ?_, fun h w q x hw _ hx hp => hkept h w q x hw hx hp⟩, hrequest⟩
  -- a request for one byte, or for a size, uses its position
  have huses {q : Request} (hat : At c q pos) (hno : ¬ q.placeless 5) :
      bits = 64 ∨ pos < 2 ^ 31 ∨ 2 ^ 31 ≤ pos % 2 ^ 32 := by
    have h := (hrequest q 5 hat.cmd hat.handle hat.position).mp fun w hw =>
      hall w q 5 hw hat.cmd hat.handle hat.position
    simpa only [or_assoc, hno, or_false] using h
  rcases hc with rfl | rfl | rfl
  · obtain ⟨hat, hsize⟩ := at_readAt hpos
    exact huses hat (by simp [Request.placeless, hat.plain.2, hat.cmd, hsize, maxReadSize])
  · obtain ⟨hat, hdata⟩ := at_writeAt hpos
    exact huses hat (by simp [Request.placeless, hat.plain.2, hat.cmd, hdata])
  · have hat := at_setSizeAt hpos
    exact huses hat (by simp [Request.placeless, hat.plain.2, hat.cmd])

/-! A 32-bit proxy creates the file `x`, writes a byte to it, and is asked to
make it 4 GiB long. -/

def narrowStarted : World := (start { dataOnly with abi := ⟨32, 32⟩ } calm (fun _ => []) bench).get (by decide)

def narrowWritten : World := (serve (serve narrowStarted createData).2 writeData).2

theorem size_cut_to_zero :
    narrowWritten.abi.offBits = 32 ∧ (setSizeAt (2 ^ 32)).cmd = some .fileSetSize ∧
      (setSizeAt (2 ^ 32)).handle = some 5 ∧ (setSizeAt (2 ^ 32)).position = some (2 ^ 32) ∧
      narrowWritten.kern.data 0 = [7] ∧
      answered narrowWritten (serve narrowWritten (setSizeAt (2 ^ 32))).2 .noError = true ∧
      (serve narrowWritten (setSizeAt (2 ^ 32))).2.kern.data 0 = [] ∧
      ¬ Honoured narrowWritten (setSizeAt (2 ^ 32)) 5 (2 ^ 32) (serve narrowWritten (setSizeAt (2 ^ 32))).2 := by
  have hat : At .fileSetSize (setSizeAt (2 ^ 32)) (2 ^ 32) := at_setSizeAt (by norm_num)
  have hwell : answered narrowWritten (serve narrowWritten (setSizeAt (2 ^ 32))).2 .noError = true := by decide
  have hempty : (serve narrowWritten (setSizeAt (2 ^ 32))).2.kern.data 0 = [] := by decide
  refine ⟨rfl, hat.cmd, hat.handle, hat.position, by decide, hwell, hempty, fun hon => ?_⟩
  rcases hon.setSize hat.cmd with ⟨hno, _⟩ | ⟨ino, hino, hdata⟩
  · rw [hwell] at hno
    cases hno
  · obtain rfl : 0 = ino := Option.some.inj ((by decide : narrowWritten.kern.inode (toInt32 5) = some 0).symm.trans hino)
    rw [hdata, Function.update_self] at hempty
    have hlen := congrArg List.length hempty
    simp at hlen

theorem positions_honoured_iff_small :
    Honoured narrowWritten (readAt 0) 5 0 (serve narrowWritten (readAt 0)).2 :=
  (positions_honoured_iff (.inl rfl) (by norm_num) (.inl rfl)).1.mpr (.inr (.inl (by norm_num))) narrowWritten (readAt 0)
    5 rfl (at_readAt (by norm_num)).1.cmd (at_readAt (by norm_num)).1.handle (at_readAt (by norm_num)).1.position

end Storage
