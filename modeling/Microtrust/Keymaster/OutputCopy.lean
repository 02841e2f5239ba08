/-
A keymaster command on the TEE client library (both forms of bp_keymaster_call
in km4.1/common/beanpod_keymaster_ipc.cpp and its copy in keymint1.0/common),
and what it copies to its caller.

The TEE returns a size for the output block. `teec_post_process_partial` stores
it whatever it is, and the command takes its low 32 bits for the number of bytes
to copy, from the block to the caller. The sizes the caller and the block have
are not looked at again.
-/
import Microtrust.Keymaster.Connect
import Microtrust.Teec.Exchange

namespace Keymaster

open Lib Teec

/-! ## The command -/

variable (v : Variant) (g : Globals)

/-- `inputSM` is given the size of the request and its bytes. -/
def fillInput (t : Teec.State) (input : Addr) (inSize : UInt32) : Teec.State :=
  let shm := { t.blocks g.inputSM with size := inSize.toUInt64 }
  { t with blocks := Function.update t.blocks g.inputSM shm }.memcpy shm.buffer input inSize.toUInt64

/-- `outputSM` is given its full size and cleared. -/
def clearOutput (t : Teec.State) : Teec.State :=
  let shm := { t.blocks g.outputSM with size := .ofNat v.bufferLength }
  { t with
    blocks := Function.update t.blocks g.outputSM shm
    mem := fun a => if shm.buffer ≤ a ∧ a < shm.buffer + v.bufferLength then 0 else t.mem a }

/-- The operation with a request: a value both ways, a part of the input block,
a part of the output block. -/
def requestOperation (inSize : UInt32) : Operation where
  paramTypes := 0x0ed3
  params := fun n =>
    if n = 1 then { memref := ⟨g.inputSM, inSize.toUInt64, 0⟩ }
    else if n = 2 then { memref := ⟨g.outputSM, .ofNat v.bufferLength, 0⟩ }
    else {}

/-- The operation without one: a part of the output block. -/
def outputOperation : Operation where
  paramTypes := 0x0e00
  params := fun n => if n = 2 then { memref := ⟨g.outputSM, .ofNat v.bufferLength, 0⟩ } else {}

/-- What a command leaves: its value, what `*out_size` is, the copy to the
caller if it came to one, and the process. -/
structure Called where
  rc : Int
  outSize : UInt32
  copy : Option Copy
  st : Client

/-- What both forms end with: the invocation, the two tests of its outcome, and
the copy. -/
def Client.invoke (c : Client) (t : Teec.State) (cmd : UInt32) (op : Operation) (out : Addr) (outSize : UInt32) :
    Called :=
  let inv := teecInvokeCommand t g.session cmd (some op)
  let op := inv.op.getD op
  let rc := asInt inv.res
  if rc ≠ 0 then ⟨rc, outSize, none, { c with teec := inv.st }⟩
  else if (op.params 0).value.a ≠ 0 then ⟨asInt (op.params 0).value.a, outSize, none, { c with teec := inv.st }⟩
  else
    let size := (op.params 2).memref.size.toUInt32
    let copy : Copy := ⟨out, (inv.st.blocks g.outputSM).buffer, size.toNat⟩
    ⟨rc, size, some copy, { c with teec := inv.st.withMem (copy.run inv.st.mem) }⟩

/-- `bp_keymaster_call` with a request. -/
def Client.bpKeymasterCall (c : Client) (cmd : UInt32) (input : Addr) (inSize : UInt32) (out : Addr)
    (outSize : UInt32) : Called :=
  if c.handle < 0 then ⟨Errno.neg .EINVAL, outSize, none, c⟩
  else if v.bufferLength < inSize.toNat ∨ v.bufferLength < outSize.toNat
  then ⟨kmErrorInvalidInputLength, outSize, none, c⟩
  else c.invoke g (clearOutput v g (fillInput g c.teec input inSize)) cmd (requestOperation v g inSize) out outSize

/-- `bp_keymaster_call` without one. -/
def Client.bpKeymasterCallNoRequest (c : Client) (cmd : UInt32) (out : Addr) (outSize : UInt32) : Called :=
  if c.handle < 0 then ⟨Errno.neg .EINVAL, outSize, none, c⟩
  else c.invoke g (clearOutput v g c.teec) cmd (outputOperation v g) out outSize

/-- Either form; a request is where it is and how long. -/
def Client.call (c : Client) (cmd : UInt32) (request : Option (Addr × UInt32)) (out : Addr) (outSize : UInt32) :
    Called :=
  match request with
  | some (input, inSize) => c.bpKeymasterCall v g cmd input inSize out outSize
  | none => c.bpKeymasterCallNoRequest v g cmd out outSize

/-! ## What is copied -/

/-- What is asked of a command: it copies no more than was offered, from within
the output block, and says how much it copied. -/
structure OutputBounded (block : SharedMemory) (out : Addr) (outSize : UInt32) (r : Called) : Prop where
  written : ∀ k ∈ r.copy, k.dst = out ∧ k.len ≤ outSize.toNat
  read : ∀ k ∈ r.copy, k.reads ⊆ cells block.buffer block.allocedSize.toNat
  size : r.rc = 0 → ∃ k ∈ r.copy, r.outSize.toNat = k.len

/-- The command gets to the TEE, and succeeds with the answer `r`. -/
structure Succeeds (c : Client) (request : Option (Addr × UInt32)) (outSize : UInt32) (r : Teec.Reply) : Prop where
  connected : 0 ≤ c.handle
  lengths : ∀ q ∈ request, q.2.toNat ≤ v.bufferLength ∧ outSize.toNat ≤ v.bufferLength
  input : request.isSome → (c.teec.blocks g.inputSM).flags &&& memInput = memInput
  output : (c.teec.blocks g.outputSM).flags &&& memOutput = memOutput
  fd : 0 ≤ (c.teec.contexts (c.teec.sessions g.session).ctx).fd
  reply : c.teec.env.tee c.teec.asked = .ok r
  ret : r.ret = success
  status : request.isSome → (r.params 0).u₀.toUInt32 = 0

/-- The size the TEE returns for the output, as it is stored in `*out_size`. -/
def returnedSize (r : Teec.Reply) : UInt32 := (r.params 2).u₁.toUInt32

variable {v g} {c : Client} {t : Teec.State} {cmd : UInt32} {out : Addr} {outSize : UInt32}

/-- Where nothing is copied, all that is asked is an error. -/
theorem outputBounded_refused {block : SharedMemory} {rc : Int} {st : Client} (h : rc ≠ 0) :
    OutputBounded block out outSize ⟨rc, outSize, none, st⟩ :=
  ⟨nofun, nofun, fun hz => absurd hz h⟩

theorem outputBounded_copied {block : SharedMemory} {rc : Int} {st : Client} {size : UInt32} :
    OutputBounded block out outSize ⟨rc, size, some ⟨out, block.buffer, size.toNat⟩, st⟩ ↔
      size ≤ outSize ∧ size.toNat ≤ block.allocedSize.toNat := by
  rw [UInt32.le_iff_toNat_le]
  refine ⟨?_, ?_⟩
  · rintro ⟨hw, hr, -⟩
    exact ⟨(hw _ rfl).2, cells_subset_iff.mp (hr _ rfl)⟩
  · rintro ⟨hw, hr⟩
    refine ⟨?_, ?_, fun _ => ⟨_, rfl, rfl⟩⟩
    · rintro k ⟨⟩
      exact ⟨rfl, hw⟩
    · rintro k ⟨⟩
      exact cells_subset_iff.mpr hr

/-- The operation as it is invoked. -/
def invoked (g : Globals) (op : Operation) : Operation := { op with session := g.session }

/-- Everything an invocation can come to whose third parameter is the output
block: the copy of what the TEE returned, or an error. -/
theorem clientInvoke_cases {op : Operation} (htemp : ∀ n < payloadRefCount, op.isTemp n = false)
    (hout : op.type 2 = some .partialOutput) :
    (∃ r st, Replied t (t.sessions g.session).ctx (invoked g op) r ∧ r.ret = success ∧
      (answered t.blocks op r.params 0).value.a = 0 ∧
      c.invoke g t cmd op out outSize =
        ⟨0, returnedSize r, some ⟨out, (t.blocks g.outputSM).buffer, (returnedSize r).toNat⟩, st⟩) ∨
    (∃ rc st, rc ≠ 0 ∧ c.invoke g t cmd op out outSize = ⟨rc, outSize, none, st⟩ ∧
      ∀ r, Replied t (t.sessions g.session).ctx (invoked g op) r → r.ret = success →
        (answered t.blocks op r.params 0).value.a ≠ 0) := by
  unfold Client.invoke teecInvokeCommand
  rw [if_neg g.session.2]
  dsimp only [Option.map_some]
  generalize hinv : exchange t _ _ (some { op with session := g.session }) (fun _ s => s) = inv
  have htemp' : ∀ n < payloadRefCount, (invoked g op).isTemp n = false := htemp
  rcases exchange_cases htemp' hinv with ⟨r, op', hr, hres, hop, hblocks, hparams⟩ | ⟨hno, hres⟩
  · have hstatus : op'.params 0 = answered t.blocks op r.params 0 := hparams 0 (by decide)
    have hsize : (op'.params 2).memref.size = (r.params 2).u₁ := by
      rw [hparams 2 (by decide)]
      refine answered_memref r.params ?_ ?_
      · rw [Operation.isRegistered, Operation.isPartial, show (invoked g op).type 2 = op.type 2 from rfl, hout]
        rfl
      · rw [Operation.isOutput, show (invoked g op).type 2 = op.type 2 from rfl, hout]
    have huniq : ∀ r', Replied t (t.sessions g.session).ctx (invoked g op) r' → r' = r := by
      intro r' hr'
      cases hr'.reply.symm.trans hr.reply
      rfl
    rw [hop, hres, hblocks, Option.getD_some, hstatus, hsize]
    by_cases hret : r.ret = success
    · have hzero : asInt r.ret = 0 := asInt_eq_zero.mpr hret
      by_cases hs : (answered t.blocks op r.params 0).value.a = 0
      · rw [if_neg (not_not.mpr hzero), if_neg (not_not.mpr hs), hzero]
        exact .inl ⟨r, _, hr, hret, hs, rfl⟩
      · rw [if_neg (not_not.mpr hzero), if_pos hs]
        exact .inr ⟨_, _, asInt_ne_zero hs, rfl, fun r' hr' _ => huniq r' hr' ▸ hs⟩
    · exact .inr ⟨_, _, asInt_ne_zero hret, if_pos (asInt_ne_zero hret),
        fun r' hr' hret' => absurd (huniq r' hr' ▸ hret') hret⟩
  · exact .inr ⟨_, _, asInt_ne_zero hres, if_pos (asInt_ne_zero hres), fun r hr => absurd hr (hno r)⟩

/-- Both forms get to the invocation under conditions on the state before. -/
theorem outputBounded_invoke {op : Operation} {block : SharedMemory} (htemp : ∀ n < payloadRefCount, op.isTemp n = false)
    (hout : op.type 2 = some .partialOutput) (hblock : (t.blocks g.outputSM).buffer = block.buffer) :
    OutputBounded block out outSize (c.invoke g t cmd op out outSize) ↔
      ∀ r, Replied t (t.sessions g.session).ctx (invoked g op) r → r.ret = success →
        (answered t.blocks op r.params 0).value.a = 0 →
        returnedSize r ≤ outSize ∧ (returnedSize r).toNat ≤ block.allocedSize.toNat := by
  rcases clientInvoke_cases htemp hout with ⟨r, st, hr, hret, hs, hcall⟩ | ⟨rc, st, hrc, hcall, hno⟩
  · rw [hcall, hblock, outputBounded_copied]
    refine ⟨?_, ?_⟩
    · intro h r' hr' _ _
      cases hr'.reply.symm.trans hr.reply
      exact h
    · intro h
      exact h r hr hret hs
  · rw [hcall]
    exact iff_of_true (outputBounded_refused hrc) fun r hr hret hs => absurd hs (hno r hr hret)

/-! ## Both forms -/

/-- Only the size of a block changes before the invocation. -/
theorem clearOutput_block (v : Variant) (g : Globals) (t : Teec.State) (a : Addr) :
    ((clearOutput v g t).blocks a).flags = (t.blocks a).flags ∧
      ((clearOutput v g t).blocks a).buffer = (t.blocks a).buffer := by
  by_cases h : a = g.outputSM
  · simp [clearOutput, h]
  · simp [clearOutput, Function.update_of_ne h]

theorem fillInput_block (g : Globals) (t : Teec.State) (input : Addr) (inSize : UInt32) (a : Addr) :
    ((fillInput g t input inSize).blocks a).flags = (t.blocks a).flags ∧
      ((fillInput g t input inSize).blocks a).buffer = (t.blocks a).buffer := by
  by_cases h : a = g.inputSM
  · simp [fillInput, State.memcpy, h]
  · simp [fillInput, State.memcpy, Function.update_of_ne h]

/-- The slots of an operation, one by one. -/
theorem slots_iff {P : Nat → Prop} : (∀ n < payloadRefCount, P n) ↔ P 0 ∧ P 1 ∧ P 2 ∧ P 3 := by
  refine ⟨?_, ?_⟩
  · intro h
    exact ⟨h 0 (by decide), h 1 (by decide), h 2 (by decide), h 3 (by decide)⟩
  · rintro ⟨h₀, h₁, h₂, h₃⟩ n hn
    have hn4 : n < 4 := hn
    match n, hn4 with
    | 0, _ => exact h₀
    | 1, _ => exact h₁
    | 2, _ => exact h₂
    | 3, _ => exact h₃

/-- An operation of a command: the output block is the third parameter, the
first is a value or none, and the second is a part of a block or none. -/
theorem types_of_request {op : Operation} (h : op.paramTypes = 0x0ed3) :
    op.type 0 = some .valueInout ∧ op.type 1 = some .partialInput ∧ op.type 2 = some .partialOutput ∧
      op.type 3 = some .none := by
  simp only [Operation.type, h]
  decide

theorem types_of_output {op : Operation} (h : op.paramTypes = 0x0e00) :
    op.type 0 = some .none ∧ op.type 1 = some .none ∧ op.type 2 = some .partialOutput ∧ op.type 3 = some .none := by
  simp only [Operation.type, h]
  decide

theorem reached_request {ctx : Addr} {inSize : UInt32} :
    reached t ctx (invoked g (requestOperation v g inSize)) payloadRefCount ↔
      (t.blocks g.inputSM).flags &&& memInput = memInput ∧ (t.blocks g.outputSM).flags &&& memOutput = memOutput := by
  have hsmall : (0x0ed3 : UInt32) ≤ 0xffff := by decide
  obtain ⟨h₀, h₁, h₂, h₃⟩ := types_of_request (rfl : (invoked g (requestOperation v g inSize)).paramTypes = 0x0ed3)
  rw [reached, slots_iff]
  simp only [passes, h₀, h₁, h₂, h₃, decide_eq_true_eq, true_and, and_true]
  exact ⟨fun h => h.2, fun h => ⟨hsmall, h⟩⟩

theorem reached_output {ctx : Addr} :
    reached t ctx (invoked g (outputOperation v g)) payloadRefCount ↔
      (t.blocks g.outputSM).flags &&& memOutput = memOutput := by
  have hsmall : (0x0e00 : UInt32) ≤ 0xffff := by decide
  obtain ⟨h₀, h₁, h₂, h₃⟩ := types_of_output (rfl : (invoked g (outputOperation v g)).paramTypes = 0x0e00)
  rw [reached, slots_iff]
  simp only [passes, h₀, h₁, h₂, h₃, decide_eq_true_eq, true_and, and_true]
  exact ⟨fun h => h.2, fun h => ⟨hsmall, h⟩⟩

theorem request_isTemp (v : Variant) (g : Globals) (inSize : UInt32) :
    ∀ n < payloadRefCount, (requestOperation v g inSize).isTemp n = false := by
  obtain ⟨h₀, h₁, h₂, h₃⟩ := types_of_request (rfl : (requestOperation v g inSize).paramTypes = 0x0ed3)
  rw [slots_iff]
  simp only [Operation.isTemp, h₀, h₁, h₂, h₃, and_self]

theorem output_isTemp (v : Variant) (g : Globals) : ∀ n < payloadRefCount, (outputOperation v g).isTemp n = false := by
  obtain ⟨h₀, h₁, h₂, h₃⟩ := types_of_output (rfl : (outputOperation v g).paramTypes = 0x0e00)
  rw [slots_iff]
  simp only [Operation.isTemp, h₀, h₁, h₂, h₃, and_self]

theorem outputBounded_request {input : Addr} {inSize : UInt32} :
    OutputBounded (c.teec.blocks g.outputSM) out outSize (c.bpKeymasterCall v g cmd input inSize out outSize) ↔
      ∀ r, Succeeds v g c (some (input, inSize)) outSize r → returnedSize r ≤ outSize ∧
        (returnedSize r).toNat ≤ (c.teec.blocks g.outputSM).allocedSize.toNat := by
  unfold Client.bpKeymasterCall
  split
  next hh =>
    exact iff_of_true (outputBounded_refused (by decide)) fun r hr => absurd hr.connected (by omega)
  next hh =>
    split
    next hlong =>
      refine iff_of_true (outputBounded_refused (by decide)) fun r hr => ?_
      have hlen : inSize.toNat ≤ v.bufferLength ∧ outSize.toNat ≤ v.bufferLength := hr.lengths _ rfl
      omega
    next hshort =>
      have hblocks (a : Addr) := clearOutput_block v g (fillInput g c.teec input inSize) a
      have hblocks' (a : Addr) := fillInput_block g c.teec input inSize a
      rw [outputBounded_invoke (request_isTemp v g inSize) (types_of_request rfl).2.2.1 ((hblocks _).2.trans (hblocks' _).2)]
      refine forall_congr' fun r => ?_
      have hiff : Replied (clearOutput v g (fillInput g c.teec input inSize)) (c.teec.sessions g.session).ctx
          (invoked g (requestOperation v g inSize)) r ∧ r.ret = success ∧ (r.params 0).u₀.toUInt32 = 0 ↔
          Succeeds v g c (some (input, inSize)) outSize r := by
        refine ⟨?_, ?_⟩
        · rintro ⟨⟨hreached, hfd, htee⟩, hret, hs⟩
          rw [reached_request, (hblocks _).1, (hblocks _).1, (hblocks' _).1, (hblocks' _).1] at hreached
          refine ⟨by omega, ?_, fun _ => hreached.1, hreached.2, hfd, htee, hret, fun _ => hs⟩
          rintro q ⟨⟩
          dsimp only
          omega
        · intro h
          refine ⟨⟨?_, h.fd, h.reply⟩, h.ret, h.status rfl⟩
          rw [reached_request, (hblocks _).1, (hblocks _).1, (hblocks' _).1, (hblocks' _).1]
          exact ⟨h.input rfl, h.output⟩
      rw [← hiff, answered_value r.params (.inr (types_of_request rfl).1)]
      refine ⟨?_, ?_⟩
      · rintro h ⟨hr, hret, hs⟩
        exact h hr hret hs
      · intro h hr hret hs
        exact h ⟨hr, hret, hs⟩

theorem outputBounded_noRequest :
    OutputBounded (c.teec.blocks g.outputSM) out outSize (c.bpKeymasterCallNoRequest v g cmd out outSize) ↔
      ∀ r, Succeeds v g c none outSize r → returnedSize r ≤ outSize ∧
        (returnedSize r).toNat ≤ (c.teec.blocks g.outputSM).allocedSize.toNat := by
  unfold Client.bpKeymasterCallNoRequest
  split
  next hh =>
    exact iff_of_true (outputBounded_refused (by decide)) fun r hr => absurd hr.connected (by omega)
  next hh =>
    have hblocks (a : Addr) := clearOutput_block v g c.teec a
    rw [outputBounded_invoke (output_isTemp v g) (types_of_output rfl).2.2.1 (hblocks _).2]
    refine forall_congr' fun r => ?_
    have hiff : Replied (clearOutput v g c.teec) (c.teec.sessions g.session).ctx
        (invoked g (outputOperation v g)) r ∧ r.ret = success ↔ Succeeds v g c none outSize r := by
      refine ⟨?_, ?_⟩
      · rintro ⟨⟨hreached, hfd, htee⟩, hret⟩
        rw [reached_output, (hblocks _).1] at hreached
        exact ⟨by omega, nofun, nofun, hreached, hfd, htee, hret, nofun⟩
      · intro h
        refine ⟨⟨?_, h.fd, h.reply⟩, h.ret⟩
        rw [reached_output, (hblocks _).1]
        exact h.output
    have hnone : (outputOperation v g).isOutput (clearOutput v g c.teec).blocks 0 = false := by
      simp only [Operation.isOutput, (types_of_output (rfl : (outputOperation v g).paramTypes = 0x0e00)).1]
    rw [← hiff, answered_of_input r.params hnone]
    refine ⟨?_, ?_⟩
    · rintro h ⟨hr, hret⟩
      exact h hr hret rfl
    · intro h hr hret _
      exact h ⟨hr, hret⟩

/-- **What a command copies is bounded by what the TEE returns, not by what was
offered.** With or without a request, the copy stays in the bytes the caller
offered and in the output block if and only if the size a successful answer
returns does, taken modulo 2 ^ 32. -/
theorem output_copy_iff (v : Variant) (g : Globals) (c : Client) (cmd : UInt32) (request : Option (Addr × UInt32))
    (out : Addr) (outSize : UInt32) :
    OutputBounded (c.teec.blocks g.outputSM) out outSize (c.call v g cmd request out outSize) ↔
      ∀ r, Succeeds v g c request outSize r → returnedSize r ≤ outSize ∧
        (returnedSize r).toNat ≤ (c.teec.blocks g.outputSM).allocedSize.toNat := by
  cases request with
  | some q => exact outputBounded_request
  | none => exact outputBounded_noRequest

/-- A TEE that answers every call and returns the size `size` for the output. -/
def returning (size : UInt64) : Teec.Env :=
  { obliging with tee := fun _ => .ok ⟨success, 4, 1, fun n => if n = 2 then { u₁ := size } else {}, fun _ => 0⟩ }

/-- A client that has connected to it. -/
def connectedTo (v : Variant) (size : UInt64) : Client :=
  ((Client.bpKeymasterConnect v bench ⟨.fresh (returning size), -1⟩).map Attempt.st).getD ⟨.fresh (returning size), -1⟩

/-- The caller offers as much as the block has; one byte more is returned, and
is copied. -/
theorem one_byte_too_many :
    ¬ OutputBounded ((connectedTo km41 71681).teec.blocks bench.outputSM) 0x5000 71680
        ((connectedTo km41 71681).call km41 bench 7 (some (0x4000, 16)) 0x5000 71680) ∧
      ¬ OutputBounded ((connectedTo keymint10 143361).teec.blocks bench.outputSM) 0x5000 143360
        ((connectedTo keymint10 143361).call keymint10 bench 7 none 0x5000 143360) := by
  refine ⟨fun h => ?_, fun h => ?_⟩
  · have hcopy : ((connectedTo km41 71681).call km41 bench 7 (some (0x4000, 16)) 0x5000 71680).copy =
        some ⟨0x5000, 0x2000, 71681⟩ := rfl
    have hlen := (h.written _ hcopy).2
    simp at hlen
  · have hcopy : ((connectedTo keymint10 143361).call keymint10 bench 7 none 0x5000 143360).copy =
        some ⟨0x5000, 0x2000, 143361⟩ := rfl
    have hlen := (h.written _ hcopy).2
    simp at hlen

end Keymaster
