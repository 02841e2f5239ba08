/-
The table of drivers the daemon asks the TEE to load (main in
teei_daemon/main.c): the UUIDs of the command line, and the built-in one.

`init_param` is a table of strings with the number of entries and a word of
flags behind it. The loop over the options looks at the number before it writes
an entry; the loop that appends the built-in UUID does not. Memory is kept by
the offset from the start of `init_param`, so that what is written past the
table lands on what lies there.
-/
import Microtrust.Lib.Bytes
import Microtrust.Lib.Copy

namespace Daemon

open Lib

/-! ## The table -/

def maxDrvUuids : Nat := 30
def uuidLen : Nat := 32

/-- An entry has room for the terminator. -/
def rowSize : Nat := uuidLen + 1

def tableSize : Nat := maxDrvUuids * rowSize

/-- Where `uuid_count` and `flag` lie, aligned to four bytes. -/
def countOffset : Nat := 992
def flagOffset : Nat := 996

/-- `sizeof(struct init_param)`. -/
def sizeofInitParam : Nat := 1000

/-- `drv_uuid`: 93feffccd8ca11e796c7c7a21acb4932. -/
def drvUuid : List Bytes := [[
  0x39, 0x33, 0x66, 0x65, 0x66, 0x66, 0x63, 0x63, 0x64, 0x38, 0x63, 0x61, 0x31, 0x31, 0x65, 0x37,
  0x39, 0x36, 0x63, 0x37, 0x63, 0x37, 0x61, 0x32, 0x31, 0x61, 0x63, 0x62, 0x34, 0x39, 0x33, 0x32]]

/-- The memory from `init_param` on, and where entries were written, by offset
and length, for the statements only. -/
structure InitParam where
  mem : Nat → UInt8
  writes : List (Nat × Nat)

namespace InitParam

def uuidCount (p : InitParam) : UInt32 := .ofNat (le (held p.mem countOffset 4))

def flag (p : InitParam) : UInt32 := .ofNat (le (held p.mem flagOffset 4))

def setUuidCount (p : InitParam) (n : UInt32) : InitParam :=
  { p with mem := stored p.mem countOffset (leBytes 4 n.toNat) }

def setFlag (p : InitParam) (n : UInt32) : InitParam := { p with mem := stored p.mem flagOffset (leBytes 4 n.toNat) }

/-- `memcpy` of a UUID to the next entry. -/
def copyUuid (p : InitParam) (uuid : Bytes) : InitParam :=
  let row := p.uuidCount.toNat * rowSize
  { mem := stored p.mem row (uuid.take uuidLen), writes := p.writes ++ [(row, (uuid.take uuidLen).length)] }

/-- An entry, with the byte for its terminator. -/
def row (p : InitParam) (i : Nat) : Bytes := held p.mem (i * rowSize) rowSize

end InitParam

/-! ## The command line -/

/-- What `getopt` returns for "r:t:h". -/
inductive Opt where
  | r (optarg : Bytes)
  | t (optarg : Bytes)
  | h
  | unknown

/-- The results of `getopt` one after the other, up to the first that is neither
`r` nor `t`: `main` exits there. An argument of the program is what is before
its terminator. -/
def getopt : List Bytes → List Opt
  | [] => []
  | (0x2d :: c :: rest) :: argv =>
    if c = 0x2d ∧ rest = [] then []
    else if c = 0x68 then [.h]
    else if c ≠ 0x72 ∧ c ≠ 0x74 then [.unknown]
    else
      let opt := if c = 0x72 then Opt.r else Opt.t
      if rest ≠ [] then opt rest :: getopt argv
      else
        match argv with
        | [] => [.unknown]
        | optarg :: argv => opt optarg :: getopt argv
  | _ :: _ => []

/-- How the daemon was built. -/
structure Build where
  drmSupport : Bool
  camSupport : Bool
  sdspSupport : Bool
  minMemSupport : Bool

/-- Whether the options are looked at. -/
def Build.loads (b : Build) : Bool := b.drmSupport || b.camSupport || b.sdspSupport

/-- What `-r` and `-t` share: the two checks, the copy, the entry's flag by
`mark`, and the count; none for an exit. -/
def acceptUuid (b : Build) (mark : UInt32 → UInt32 → UInt32) (p : InitParam) (optarg : Bytes) : Option InitParam :=
  if b.loads = false then some p
  else if optarg.length ≠ uuidLen then none
  else if maxDrvUuids ≤ p.uuidCount.toNat then some p
  else
    let p := p.copyUuid optarg
    let p := p.setFlag (mark p.flag (1 <<< p.uuidCount))
    some (p.setUuidCount (p.uuidCount + 1))

/-- One round of the loop over the options. -/
def onOption (b : Build) (p : InitParam) : Opt → Option InitParam
  | .r optarg => acceptUuid b (fun flag bit => flag &&& ~~~bit) p optarg
  | .t optarg => acceptUuid b (fun flag bit => flag ||| bit) p optarg
  | .h => none
  | .unknown => none

/-- The loop that appends the built-in UUIDs. -/
def appendDrivers : List Bytes → InitParam → InitParam
  | [], p => p
  | uuid :: uuids, p =>
    if uuid.length ≠ uuidLen then p
    else
      let p := p.copyUuid uuid
      appendDrivers uuids (p.setUuidCount (p.uuidCount + 1))

/-- `main` up to where the table is ready; none if it has exited. `before` is what
the memory held. -/
def driverTable (b : Build) (before : Nat → UInt8) (argv : List Bytes) : Option InitParam :=
  let p : InitParam := { mem := stored before 0 (List.replicate sizeofInitParam 0), writes := [] }
  let p := p.setFlag 0
  match (getopt argv).foldlM (onOption b) p with
  | none => none
  | some p => some (if b.minMemSupport then p else appendDrivers drvUuid p)

/-- An option with a UUID: whether it is `-t`, and whether the UUID follows in the
same argument. -/
structure Choice where
  ta : Bool
  uuid : {u : Bytes // u.length = uuidLen}
  attached : Bool

namespace Choice

def letter (c : Choice) : UInt8 := if c.ta then 0x74 else 0x72

/-- Its arguments. -/
def words (c : Choice) : List Bytes :=
  if c.attached then [0x2d :: c.letter :: c.uuid.1] else [[0x2d, c.letter], c.uuid.1]

def opt (c : Choice) : Opt := if c.ta then .t c.uuid.1 else .r c.uuid.1

end Choice

/-- What is asked of the table: it has room for its entries, which are the
accepted UUIDs and the built-in one, nothing was written outside, and the flags
are those of the UUIDs from `-t`. -/
structure TableSound (accepted : List Choice) (p : InitParam) : Prop where
  count : p.uuidCount.toNat ≤ maxDrvUuids
  inside : ∀ w ∈ p.writes, w.1 + w.2 ≤ tableSize
  entries : (List.range p.uuidCount.toNat).map p.row = (accepted.map (·.uuid.1) ++ drvUuid).map (· ++ [0])
  flags : ∀ i < 32, p.flag.toNat.testBit i = true ↔ ∃ c, accepted[i]? = some c ∧ c.ta = true

/-! ## The words behind the table -/

namespace InitParam

variable {p : InitParam} {n : UInt32} {i k : Nat} {uuid : Bytes}

theorem ofNat_held_stored (mem : Nat → UInt8) (a : Nat) (n : UInt32) :
    UInt32.ofNat (le (held (stored mem a (leBytes 4 n.toNat)) a 4)) = n := by
  rw [held_stored_eq (length_leBytes 4 n.toNat), le_leBytes_of_lt n.toNat_lt, UInt32.ofNat_toNat]

@[simp] theorem uuidCount_setUuidCount : (p.setUuidCount n).uuidCount = n := ofNat_held_stored ..

@[simp] theorem flag_setFlag : (p.setFlag n).flag = n := ofNat_held_stored ..

@[simp] theorem flag_setUuidCount : (p.setUuidCount n).flag = p.flag := by
  unfold flag setUuidCount
  rw [held_stored_apart (.inr (by rw [length_leBytes]; decide))]

@[simp] theorem uuidCount_setFlag : (p.setFlag n).uuidCount = p.uuidCount := by
  unfold uuidCount setFlag
  rw [held_stored_apart (.inl (by decide))]

@[simp] theorem writes_setFlag : (p.setFlag n).writes = p.writes := rfl

@[simp] theorem writes_setUuidCount : (p.setUuidCount n).writes = p.writes := rfl

theorem mem_setFlag {a : Nat} (h : a < tableSize) : (p.setFlag n).mem a = p.mem a := by
  refine stored_of_notMem ?_ p.mem
  unfold tableSize maxDrvUuids rowSize uuidLen at h
  rw [mem_cells, flagOffset]
  omega

theorem mem_setUuidCount {a : Nat} (h : a < tableSize) : (p.setUuidCount n).mem a = p.mem a := by
  refine stored_of_notMem ?_ p.mem
  unfold tableSize maxDrvUuids rowSize uuidLen at h
  rw [mem_cells, countOffset]
  omega

/-- An entry that fits leaves the words behind the table. -/
theorem copyUuid_apart (hroom : p.uuidCount.toNat < maxDrvUuids) :
    (p.copyUuid uuid).uuidCount = p.uuidCount ∧ (p.copyUuid uuid).flag = p.flag := by
  have hlen : (uuid.take uuidLen).length ≤ 32 := List.length_take_le ..
  unfold maxDrvUuids at hroom
  unfold uuidCount flag copyUuid
  refine ⟨?_, ?_⟩
  · rw [held_stored_apart (.inr ?_)]
    unfold countOffset rowSize uuidLen at *
    omega
  · rw [held_stored_apart (.inr ?_)]
    unfold flagOffset rowSize uuidLen at *
    omega

/-- The table has these entries, and is clear behind them. -/
structure Rows (us : List Bytes) (p : InitParam) : Prop where
  count : p.uuidCount.toNat = us.length
  inside : ∀ w ∈ p.writes, w.1 + w.2 ≤ tableSize
  rows : ∀ (i : Nat) (u : Bytes), us[i]? = some u → p.row i = u ++ [0]
  clear : ∀ a, us.length * rowSize ≤ a → a < tableSize → p.mem a = 0

variable {us : List Bytes} {q : InitParam}

theorem row_congr (h : ∀ a, i * rowSize ≤ a → a < i * rowSize + rowSize → q.mem a = p.mem a) : q.row i = p.row i := by
  refine List.map_congr_left fun j hj => h _ (by omega) ?_
  rw [List.mem_range] at hj
  omega

/-- An entry is written where there is room, and counted. -/
theorem Rows.push (h : p.Rows us) (hroom : us.length < maxDrvUuids) (hu : uuid.length = uuidLen)
    (hmem : ∀ a < tableSize, q.mem a = (p.copyUuid uuid).mem a) (hwrites : q.writes = (p.copyUuid uuid).writes)
    (hcount : q.uuidCount = p.uuidCount + 1) : q.Rows (us ++ [uuid]) := by
  have htake : uuid.take uuidLen = uuid := List.take_of_length_le (by omega)
  have hcopy : (p.copyUuid uuid).mem = stored p.mem (us.length * rowSize) uuid := by
    rw [copyUuid, h.count, htake]
  have hend : (us.length + 1) * rowSize ≤ tableSize := Nat.mul_le_mul_right rowSize hroom
  have hnext : (us.length + 1) * rowSize = us.length * rowSize + rowSize := Nat.succ_mul ..
  have hrow : rowSize = uuidLen + 1 := rfl
  refine ⟨?_, ?_, ?_, ?_⟩
  · rw [hcount, UInt32.toNat_add, h.count, List.length_append]
    unfold maxDrvUuids at hroom
    simp
    omega
  · intro w hw
    rw [hwrites, copyUuid, List.mem_append, List.mem_singleton] at hw
    rcases hw with hw | rfl
    · exact h.inside w hw
    · rw [h.count, htake]
      omega
  · intro i u hi
    rcases Nat.lt_trichotomy i us.length with hlt | rfl | hgt
    · rw [List.getElem?_append_left hlt] at hi
      rw [← h.rows i u hi]
      have hbefore : i * rowSize + rowSize ≤ us.length * rowSize := by
        rw [← Nat.succ_mul]
        exact Nat.mul_le_mul_right rowSize hlt
      refine row_congr fun a ha ha' => ?_
      rw [hmem a (by omega), hcopy, stored_of_notMem ?_]
      rw [mem_cells]
      omega
    · rw [List.getElem?_concat_length, Option.some.injEq] at hi
      subst hi
      have hlast : held (stored p.mem (us.length * rowSize) uuid) (us.length * rowSize + uuidLen) 1 = [0] := by
        rw [held_stored_apart (.inr (by omega))]
        exact congrArg (fun b => [b]) (h.clear (us.length * rowSize + uuidLen) (by omega) (by omega))
      have hsame : q.row us.length = (p.copyUuid uuid).row us.length := row_congr fun a _ ha => hmem a (by omega)
      rw [hsame, row, hcopy, hrow, held_add, ← hrow, hlast, held_stored_eq hu]
    · rw [List.getElem?_eq_none (by simp; omega)] at hi
      cases hi
  · intro a ha ha'
    rw [List.length_append, List.length_singleton] at ha
    rw [hmem a ha', hcopy, stored_of_notMem ?_]
    · exact h.clear a (by omega) ha'
    · rw [mem_cells]
      omega

end InitParam

/-! ## The flags -/

variable {p q : InitParam} {b : Build} {c : Choice} {cs : List Choice} {i : Nat}

theorem testBit_one_shiftLeft {n : UInt32} (hn : n.toNat < 32) (hi : i < 32) :
    ((1 : UInt32) <<< n).toNat.testBit i = decide (i = n.toNat) := by
  rw [UInt32.toNat_shiftLeft, Nat.mod_eq_of_lt hn, Nat.testBit_mod_two_pow, UInt32.toNat_one, Nat.shiftLeft_eq, one_mul,
    Nat.testBit_two_pow, decide_eq_true hi, Bool.true_and, decide_eq_decide]
  exact eq_comm

theorem testBit_and_not {f m : UInt32} (hi : i < 32) :
    (f &&& ~~~m).toNat.testBit i = (f.toNat.testBit i && !m.toNat.testBit i) := by
  have hnot : (~~~m).toNat = 2 ^ 32 - (m.toNat + 1) := by
    rw [UInt32.toNat_not, UInt32.size]
    omega
  rw [UInt32.toNat_and, Nat.testBit_and, hnot, Nat.testBit_two_pow_sub_succ m.toNat_lt, decide_eq_true hi, Bool.true_and]

/-- What a choice does to the flags. -/
def Choice.mark (c : Choice) (flag bit : UInt32) : UInt32 := if c.ta then flag ||| bit else flag &&& ~~~bit

/-- The flags are those of the choices. -/
def Flags (cs : List Choice) (flag : UInt32) : Prop :=
  ∀ i < 32, flag.toNat.testBit i = true ↔ ∃ c, cs[i]? = some c ∧ c.ta = true

theorem flags_nil : Flags [] 0 := by
  intro i _
  simp

theorem Flags.push {flag n : UInt32} (h : Flags cs flag) (hn : n.toNat = cs.length) (hroom : cs.length < maxDrvUuids) :
    Flags (cs ++ [c]) (c.mark flag (1 <<< n)) := by
  unfold maxDrvUuids at hroom
  intro i hi
  have hbit := testBit_one_shiftLeft (n := n) (by omega) hi
  have hmark : (c.mark flag (1 <<< n)).toNat.testBit i = if i = cs.length then c.ta else flag.toNat.testBit i := by
    unfold Choice.mark
    cases hta : c.ta
    · rw [if_neg Bool.false_ne_true, testBit_and_not hi, hbit, hn]
      by_cases hlast : i = cs.length <;> simp [hlast]
    · rw [if_pos rfl, UInt32.toNat_or, Nat.testBit_or, hbit, hn]
      by_cases hlast : i = cs.length <;> simp [hlast]
  rw [hmark]
  rcases Nat.lt_trichotomy i cs.length with hlt | rfl | hgt
  · rw [if_neg (by omega), List.getElem?_append_left hlt]
    exact h i hi
  · simp
  · rw [if_neg (by omega), h i hi, List.getElem?_eq_none (by omega), List.getElem?_eq_none (by simp; omega)]

/-! ## The command line, read -/

theorem getopt_words (cs : List Choice) : getopt (cs.flatMap Choice.words) = cs.map Choice.opt := by
  induction cs with
  | nil => rfl
  | cons c cs ih =>
    have hletter : c.letter = 0x74 ∧ c.ta = true ∨ c.letter = 0x72 ∧ c.ta = false := by
      unfold Choice.letter
      cases c.ta <;> simp
    have hne : c.uuid.1 ≠ [] := List.ne_nil_of_length_pos (by rw [c.uuid.2]; decide)
    rw [List.flatMap_cons, List.map_cons, ← ih]
    unfold Choice.words Choice.opt
    rcases hletter with ⟨hl, hta⟩ | ⟨hl, hta⟩
    · cases c.attached <;> simp [hl, hta, getopt, hne]
    · cases c.attached <;> simp [hl, hta, getopt, hne]

/-! ## The loop -/

/-- The table after the choices `cs` were accepted. -/
structure Filled (cs : List Choice) (p : InitParam) : Prop where
  rows : p.Rows (cs.map (·.uuid.1))
  flags : Flags cs p.flag

theorem onOption_opt (b : Build) (p : InitParam) (c : Choice) :
    onOption b p c.opt = acceptUuid b c.mark p c.uuid.1 := by
  unfold Choice.opt Choice.mark
  cases c.ta <;> rfl

theorem Filled.accept (h : Filled cs p) (hb : b.loads = true) (hroom : cs.length < maxDrvUuids) :
    ∃ q, onOption b p c.opt = some q ∧ Filled (cs ++ [c]) q := by
  have hcount : p.uuidCount.toNat = cs.length := h.rows.count.trans (List.length_map _)
  obtain ⟨hsame, hflag⟩ : (p.copyUuid c.uuid.1).uuidCount = p.uuidCount ∧ (p.copyUuid c.uuid.1).flag = p.flag :=
    InitParam.copyUuid_apart (by omega)
  rw [onOption_opt, acceptUuid, hb, if_neg Bool.noConfusion, if_neg (not_not.mpr c.uuid.2), if_neg (by omega)]
  refine ⟨_, rfl, ?_, ?_⟩
  · rw [List.map_append]
    refine h.rows.push (by simpa using hroom) c.uuid.2 ?_ rfl ?_
    · intro a ha
      rw [InitParam.mem_setUuidCount ha, InitParam.mem_setFlag ha]
    · simp [hsame]
  · simp only [InitParam.flag_setUuidCount, InitParam.flag_setFlag, hsame, hflag]
    exact h.flags.push hcount hroom

theorem Filled.skip (h : Filled cs p) (hb : b.loads = true) (hfull : maxDrvUuids ≤ cs.length) :
    onOption b p c.opt = some p := by
  have hcount : p.uuidCount.toNat = cs.length := h.rows.count.trans (List.length_map _)
  rw [onOption_opt, acceptUuid, hb, if_neg Bool.noConfusion, if_neg (not_not.mpr c.uuid.2), if_pos (by omega)]

/-- The loop over the options accepts as many as there is room for. -/
theorem Filled.loop {ds : List Choice} (h : Filled cs p) (hb : b.loads = true) (hroom : cs.length ≤ maxDrvUuids) :
    ∃ q, (ds.map Choice.opt).foldlM (onOption b) p = some q ∧ Filled ((cs ++ ds).take maxDrvUuids) q := by
  induction ds generalizing cs p with
  | nil =>
    refine ⟨p, rfl, ?_⟩
    rwa [List.append_nil, List.take_of_length_le hroom]
  | cons d ds ih =>
    rw [List.map_cons, List.foldlM_cons]
    by_cases hlt : cs.length < maxDrvUuids
    · obtain ⟨q, hq, hfilled⟩ := h.accept hb hlt (c := d)
      obtain ⟨r, hr, hall⟩ := ih hfilled (by rw [List.length_append]; exact hlt)
      rw [List.append_assoc] at hall
      refine ⟨r, ?_, hall⟩
      rw [hq]
      exact hr
    · obtain ⟨r, hr, hall⟩ := ih h hroom
      refine ⟨r, ?_, ?_⟩
      · rw [h.skip hb (by omega)]
        exact hr
      · have hfull : cs.length = maxDrvUuids := by omega
        rw [← hfull, List.take_left] at hall ⊢
        exact hall

/-! ## The table in the end -/

/-- `init_param` as `main` has cleared it. -/
def cleared (before : Nat → UInt8) : InitParam :=
  InitParam.setFlag { mem := stored before 0 (List.replicate sizeofInitParam 0), writes := [] } 0

theorem filled_cleared (before : Nat → UInt8) : Filled [] (cleared before) := by
  have hzero {a : Nat} (ha : a < sizeofInitParam) : stored before 0 (List.replicate sizeofInitParam 0) a = 0 := by
    unfold stored
    rw [dif_pos (by simpa using ha)]
    exact List.getElem_replicate _
  have hcount : (cleared before).uuidCount = 0 := by
    have hheld : held (stored before 0 (List.replicate sizeofInitParam 0)) countOffset 4 = List.replicate 4 0 := by
      refine List.map_eq_replicate_iff.mpr fun i hi => hzero ?_
      rw [List.mem_range] at hi
      unfold countOffset sizeofInitParam
      omega
    rw [cleared, InitParam.uuidCount_setFlag, InitParam.uuidCount, hheld]
    rfl
  refine ⟨⟨?_, ?_, ?_, ?_⟩, ?_⟩
  · rw [hcount]
    rfl
  · intro w hw
    rw [cleared, InitParam.writes_setFlag] at hw
    exact absurd hw List.not_mem_nil
  · intro i u hu
    cases hu
  · intro a _ ha
    have hsize : tableSize ≤ sizeofInitParam := by decide
    rw [cleared, InitParam.mem_setFlag ha]
    dsimp only
    exact hzero (lt_of_lt_of_le ha hsize)
  · rw [cleared, InitParam.flag_setFlag]
    exact flags_nil

/-- The table of a command line, as far as the options go. -/
theorem driverTable_eq (hb : b.loads = true) (hm : b.minMemSupport = false) (before : Nat → UInt8) (cs : List Choice) :
    ∃ p, Filled (cs.take maxDrvUuids) p ∧
      driverTable b before (cs.flatMap Choice.words) = some (appendDrivers drvUuid p) := by
  obtain ⟨p, hloop, hfilled⟩ : ∃ p, (cs.map Choice.opt).foldlM (onOption b) (cleared before) = some p ∧
      Filled (([] ++ cs).take maxDrvUuids) p := (filled_cleared before).loop hb (Nat.zero_le maxDrvUuids)
  rw [← getopt_words] at hloop
  rw [List.nil_append] at hfilled
  refine ⟨p, hfilled, ?_⟩
  have htable : driverTable b before (cs.flatMap Choice.words) =
      ((getopt (cs.flatMap Choice.words)).foldlM (onOption b) (cleared before)).map
        fun p => if b.minMemSupport then p else appendDrivers drvUuid p := by
    simp only [driverTable, cleared]
    cases (getopt (cs.flatMap Choice.words)).foldlM (onOption b) (InitParam.setFlag _ 0) <;> rfl
  rw [htable, hloop, hm]
  rfl

/-- With room for it, the built-in UUID completes the table. -/
theorem Filled.sound (h : Filled cs p) (hroom : cs.length < maxDrvUuids) : TableSound cs (appendDrivers drvUuid p) := by
  have hcount : p.uuidCount.toNat = cs.length := h.rows.count.trans (List.length_map _)
  obtain ⟨uuid, huuid, hlen⟩ : ∃ uuid, drvUuid = [uuid] ∧ uuid.length = uuidLen := ⟨_, rfl, rfl⟩
  obtain ⟨hsame, hflag⟩ : (p.copyUuid uuid).uuidCount = p.uuidCount ∧ (p.copyUuid uuid).flag = p.flag :=
    InitParam.copyUuid_apart (by omega)
  have happend : appendDrivers drvUuid p =
      (p.copyUuid uuid).setUuidCount ((p.copyUuid uuid).uuidCount + 1) := by
    rw [huuid, appendDrivers, if_neg (not_not.mpr hlen), appendDrivers]
  have hrows : (appendDrivers drvUuid p).Rows (cs.map (·.uuid.1) ++ [uuid]) := by
    refine h.rows.push (by simpa using hroom) hlen ?_ ?_ ?_
    · intro a ha
      rw [happend, InitParam.mem_setUuidCount ha]
    · rw [happend, InitParam.writes_setUuidCount]
    · rw [happend, InitParam.uuidCount_setUuidCount, hsame]
  refine ⟨?_, hrows.inside, ?_, ?_⟩
  · rw [hrows.count, List.length_append, List.length_map]
    exact hroom
  · have hentries : cs.map (·.uuid.1) ++ drvUuid = cs.map (·.uuid.1) ++ [uuid] := by rw [huuid]
    rw [hentries, hrows.count]
    refine List.ext_getElem (by simp) fun i hi hi' => ?_
    rw [List.getElem_map, List.getElem_map, List.getElem_range]
    exact hrows.rows i _ (List.getElem?_eq_getElem _)
  · rw [happend, InitParam.flag_setUuidCount, hflag]
    exact h.flags

/-- Behind a full table it is written outside. -/
theorem Filled.outside (h : Filled cs p) (hfull : cs.length = maxDrvUuids) :
    (tableSize, uuidLen) ∈ (appendDrivers drvUuid p).writes := by
  have hcount : p.uuidCount.toNat = maxDrvUuids := (h.rows.count.trans (List.length_map _)).trans hfull
  obtain ⟨uuid, huuid, hlen⟩ : ∃ uuid, drvUuid = [uuid] ∧ uuid.length = uuidLen := ⟨_, rfl, rfl⟩
  rw [huuid, appendDrivers, if_neg (not_not.mpr hlen), appendDrivers, InitParam.writes_setUuidCount, InitParam.copyUuid,
    hcount, List.take_of_length_le (by omega), hlen]
  exact List.mem_append_right _ (List.mem_singleton_self _)

/-- The table of a command line that fills it. -/
theorem not_sound_of_full (hb : b.loads = true) (hm : b.minMemSupport = false) (before : Nat → UInt8)
    (hfull : maxDrvUuids ≤ cs.length) :
    ¬ ∃ p, driverTable b before (cs.flatMap Choice.words) = some p ∧ TableSound (cs.take maxDrvUuids) p := by
  rintro ⟨p, htable, hsound⟩
  obtain ⟨q, hfilled, hq⟩ := driverTable_eq hb hm before cs
  rw [hq] at htable
  cases htable
  have hinside := hsound.inside _ (hfilled.outside (by rw [List.length_take]; omega))
  exact absurd hinside (by decide)

/-- **The driver table is sound unless the command line fills it.** With any
options `-r` and `-t`, all goes well exactly if there are fewer of them than the
table has entries: the built-in UUID is written behind a full table. -/
theorem driver_table_sound_iff (b : Build) (hb : b.drmSupport = true ∨ b.camSupport = true ∨ b.sdspSupport = true)
    (hm : b.minMemSupport = false) (before : Nat → UInt8) (cs : List Choice) :
    (∃ p, driverTable b before (cs.flatMap Choice.words) = some p ∧ TableSound (cs.take maxDrvUuids) p) ↔
      cs.length < maxDrvUuids := by
  have hloads : b.loads = true := by
    rw [Build.loads, Bool.or_eq_true, Bool.or_eq_true, or_assoc]
    exact hb
  by_cases hroom : cs.length < maxDrvUuids
  · obtain ⟨p, hfilled, htable⟩ := driverTable_eq hloads hm before cs
    rw [List.take_of_length_le hroom.le] at hfilled ⊢
    exact iff_of_true ⟨_, htable, hfilled.sound hroom⟩ hroom
  · exact iff_of_false (not_sound_of_full hloads hm before (not_lt.mp hroom)) hroom

/-- A build with everything. -/
def fullBuild : Build := ⟨true, true, true, false⟩

/-- `-t` with a UUID of 32 bytes 0x61. -/
def someTa : Choice := ⟨true, ⟨List.replicate 32 0x61, rfl⟩, false⟩

/-- Drivers and TAs, one of them with the UUID in the same argument. -/
def mixedOptions : List Choice :=
  [⟨false, ⟨List.replicate 32 0x62, rfl⟩, false⟩, someTa, ⟨false, ⟨List.replicate 32 0x63, rfl⟩, true⟩, someTa]

theorem mixed_options_sound : ∃ p, driverTable fullBuild (fun _ => 0) (mixedOptions.flatMap Choice.words) = some p ∧
    TableSound (mixedOptions.take maxDrvUuids) p :=
  (driver_table_sound_iff fullBuild (.inl rfl) rfl (fun _ => 0) mixedOptions).mpr (by decide)

/-- With thirty TAs the built-in UUID goes over the count and the flags. -/
theorem thirty_tas_overrun : ¬ ∃ p, driverTable fullBuild (fun _ => 0)
      ((List.replicate 30 someTa).flatMap Choice.words) = some p ∧
    TableSound ((List.replicate 30 someTa).take maxDrvUuids) p :=
  not_sound_of_full rfl rfl (fun _ => 0) (by decide)

end Daemon
