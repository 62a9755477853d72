import Clusterd.DevicesPolicy
import Clusterd.Ebpf
import Mathlib.Algebra.GroupWithZero.Nat
/-!
# The device program (`cgroups2.cpp`)

`DeviceProgram::build` compiles the allow and deny list of a cgroup to an eBPF program that the kernel asks about each
access to a device.
-/
namespace Clusterd.Devices

open Ebpf List Option
open BitVec (ofNat signExtend)
open Function (update update_self update_of_ne)

namespace DeviceProgram

/-! ## The compiler -/

def allowAccess : BitVec 32 := 1

def denyAccess : BitVec 32 := 0

inductive DeviceCheckType
  | allow
  | deny
deriving DecidableEq

/-- `BPF_DEVCG_ACC_MKNOD`, `BPF_DEVCG_ACC_READ` and `BPF_DEVCG_ACC_WRITE`. -/
def bpfAccess (access : Access) : BitVec 32 :=
  (if access.read then 2 else 0) ||| (if access.write then 4 else 0) ||| (if access.mknod then 1 else 0)

/-- `BPF_DEVCG_DEV_BLOCK` and `BPF_DEVCG_DEV_CHAR`. -/
def bpfType : DeviceType → BitVec 32
  | .block => 1
  | .character => 2

section

variable (jmpSize : BitVec 16)

def checkMajorInstructions (major : BitVec 32) : List Insn := [.jmpImm .jne .r4 major jmpSize]

def checkMinorInstructions (minor : BitVec 32) : List Insn := [.jmpImm .jne .r5 minor jmpSize]

def checkDenyAccessInstructions (access : Access) : List Insn :=
  [.mov32Reg .r1 .r3, .alu32Imm .and .r1 (bpfAccess access), .jmpImm .jeq .r1 0 (jmpSize - 2)]

def checkAllowAccessInstructions (access : Access) : List Insn :=
  [.mov32Reg .r1 .r3, .alu32Imm .and .r1 (bpfAccess access), .jmpReg .jne .r1 .r3 (jmpSize - 2)]

def checkTypeInstructions (type : DeviceType) : List Insn := [.jmpImm .jne .r2 (bpfType type) jmpSize]

end

section

variable (selector : Selector) (jmpSize : BitVec 16)

def checkMajor : List Insn :=
  match selector.major with
  | some major => checkMajorInstructions jmpSize major
  | none => []

def checkMinor : List Insn :=
  match selector.minor with
  | some minor => checkMinorInstructions jmpSize minor
  | none => []

def checkType : List Insn :=
  match selector.type with
  | .block => checkTypeInstructions jmpSize .block
  | .character => checkTypeInstructions jmpSize .character
  | .all => []

end

def checkAccess (deviceCheckType : DeviceCheckType) (access : Access) (jmpSize : BitVec 16) : List Insn :=
  if !access.mknod || !access.read || !access.write then
    match deviceCheckType with
    | .allow => checkAllowAccessInstructions jmpSize access
    | .deny => checkDenyAccessInstructions jmpSize access
  else []

def addDeviceChecks (entry : Entry) (trailerLength : Nat) (deviceCheckType : DeviceCheckType) : List Insn :=
  if entry.isCatchAll then []
  else
    let selector := entry.selector
    let access := entry.access
    let size := trailerLength + (checkMajor selector 0).length + (checkMinor selector 0).length
      + (checkAccess deviceCheckType access 0).length + (checkType selector 0).length
    let nxtBlkJmpSize := BitVec.ofNat 16 size - 1
    let major := checkMajor selector nxtBlkJmpSize
    let nxtBlkJmpSize := nxtBlkJmpSize - BitVec.ofNat 16 major.length
    let minor := checkMinor selector nxtBlkJmpSize
    let nxtBlkJmpSize := nxtBlkJmpSize - BitVec.ofNat 16 minor.length
    let type := checkType selector nxtBlkJmpSize
    let nxtBlkJmpSize := nxtBlkJmpSize - BitVec.ofNat 16 type.length
    major ++ minor ++ type ++ checkAccess deviceCheckType access nxtBlkJmpSize

def allowBlockTrailer (jmpSizeToDenySection : BitVec 16) : List Insn := [.jmpA jmpSizeToDenySection]

def allowSectionTrailer : List Insn := [.exit]

def denyBlockTrailer : List Insn := [.exit]

def denySectionTrailer : List Insn := [.mov64Imm .r0 allowAccess, .exit]

def appendAllowBlocks : List (List Insn) → BitVec 16 → List Insn
  | [], _ => []
  | allowBlock :: rest, startOfDenyJmpSize =>
    let startOfDenyJmpSize := startOfDenyJmpSize - BitVec.ofNat 16 (allowBlock.length + (allowBlockTrailer 0).length)
    allowBlock ++ allowBlockTrailer startOfDenyJmpSize ++ appendAllowBlocks rest startOfDenyJmpSize

def allowSection (allow : List Entry) : List Insn :=
  let allowDeviceCheckBlocks := allow.map (addDeviceChecks · (allowBlockTrailer 0).length .allow)
  let startOfDenyJmpSize := allowDeviceCheckBlocks.foldl
    (fun size allowBlock => size + BitVec.ofNat 16 (allowBlock.length + (allowBlockTrailer 0).length))
    (BitVec.ofNat 16 allowSectionTrailer.length)
  appendAllowBlocks allowDeviceCheckBlocks startOfDenyJmpSize ++ allowSectionTrailer

def denyBlocks (deny : List Entry) : List Insn :=
  deny.flatMap fun entry => addDeviceChecks entry denyBlockTrailer.length .deny ++ denyBlockTrailer

/-- The fields of `bpf_cgroup_dev_ctx` are put into registers, and the result is to deny access. -/
def prologue : List Insn :=
  [.ldxMem .r2 .r1 0, .alu32Imm .and .r2 0xFFFF, .ldxMem .r3 .r1 0, .alu32Imm .rsh .r3 16, .ldxMem .r4 .r1 4,
    .ldxMem .r5 .r1 8, .mov64Imm .r0 denyAccess]

def build (allow deny : List Entry) : List Insn :=
  if deny.any Entry.isCatchAll then prologue ++ [.exit]
  else if allow.isEmpty then prologue ++ [.exit]
  else if allow.any Entry.isCatchAll then prologue ++ denyBlocks deny ++ denySectionTrailer
  else prologue ++ allowSection allow ++ denyBlocks deny ++ denySectionTrailer

/-! ## A request of the kernel -/

structure Request where
  device : Device
  access : Access

def Request.query (request : Request) : Entry := ⟨request.device.selector, request.access⟩

/-- `access_type` of `bpf_cgroup_dev_ctx`. -/
def Request.accessType (request : Request) : BitVec 32 :=
  (bpfAccess request.access <<< 16) ||| bpfType request.device.type

structure Context (memory : Memory) (address : BitVec 64) (request : Request) : Prop where
  accessType : memory address = some request.accessType
  major : memory (address + 4) = some request.device.major
  minor : memory (address + 8) = some request.device.minor

def start (address : BitVec 64) (regs : Regs) : State := ⟨0, Function.update regs .r1 address⟩

structure Ready (request : Request) (regs : Regs) : Prop where
  r0 : regs .r0 = 0
  r2 : regs .r2 = (bpfType request.device.type).setWidth 64
  r3 : regs .r3 = (bpfAccess request.access).setWidth 64
  r4 : regs .r4 = request.device.major.setWidth 64
  r5 : regs .r5 = request.device.minor.setWidth 64

end DeviceProgram

/-!
# The device program enforces the device policy

The checks of an entry come to their end if the entry matches the request, and to the next block if not; from there the
sections are put together by the rules for guards and stops.
-/
namespace DeviceProgram

variable {memory : Memory} {request : Request}

/-! ## Bits -/

theorem accessType_type (request : Request) :
    (Op.eval .and ((request.accessType.setWidth 64).setWidth 32) 0xFFFF).setWidth 64 =
      (bpfType request.device.type).setWidth 64 := by
  obtain ⟨⟨type, _, _⟩, read, write, mknod⟩ := request
  simp only [Request.accessType]
  cases type <;> revert read write mknod <;> decide

theorem accessType_access (request : Request) :
    (Op.eval .rsh ((request.accessType.setWidth 64).setWidth 32) 16).setWidth 64 =
      (bpfAccess request.access).setWidth 64 := by
  obtain ⟨⟨type, _, _⟩, read, write, mknod⟩ := request
  simp only [Request.accessType]
  cases type <;> revert read write mknod <;> decide

theorem setWidth_eq_signExtend {a b : BitVec 32} (ha : a.toNat < 2 ^ 31) : a.setWidth 64 = b.signExtend 64 ↔ b = a := by
  have hmsb : a.msb = false := by
    rw [BitVec.msb_eq_false_iff_two_mul_lt]
    omega
  rw [← BitVec.signExtend_eq_setWidth_of_msb_false hmsb]
  constructor
  · intro h
    have hv := congrArg BitVec.toInt h
    rw [BitVec.toInt_signExtend_of_le (by decide), BitVec.toInt_signExtend_of_le (by decide)] at hv
    exact (BitVec.toInt_inj.mp hv).symm
  · rintro rfl
    rfl

variable {address : BitVec 64}

theorem toInt_ofNat_of_lt {n : Nat} (h : n < 2 ^ 15) : (ofNat 16 n).toInt = n := by
  rw [BitVec.toInt_ofNat', Int.bmod_eq_of_le] <;> omega

theorem ofNat_add_sub (a b : Nat) : ofNat 16 (a + b) - ofNat 16 a = ofNat 16 b := by
  rw [BitVec.ofNat_add, BitVec.add_comm, BitVec.add_sub_cancel]

/-! ## The prologue -/

theorem moves_prologue (hcontext : Context memory address request) :
    Moves memory (fun regs => regs .r1 = address) prologue (Ready request) := by
  refine moves_of_assign fun regs hr1 => ?_
  have ht : memory (address + signExtend 64 (0 : BitVec 16)) = some request.accessType := by
    simpa using hcontext.accessType
  have hm : memory (address + signExtend 64 (4 : BitVec 16)) = some request.device.major := hcontext.major
  have hmi : memory (address + signExtend 64 (8 : BitVec 16)) = some request.device.minor := hcontext.minor
  have hr12 : Reg.r1 ≠ .r2 := by decide
  have hr13 : Reg.r1 ≠ .r3 := by decide
  have hr14 : Reg.r1 ≠ .r4 := by decide
  refine ⟨update (update (update (update (update regs
    .r2 ((bpfType request.device.type).setWidth 64)) .r3 ((bpfAccess request.access).setWidth 64))
    .r4 (request.device.major.setWidth 64)) .r5 (request.device.minor.setWidth 64)) .r0 0, ?_, ?_⟩
  · constructor <;> rfl
  simp only [prologue, foldlM_cons, foldlM_nil, assign, hr1, ht, hm, hmi, map_some,
    bind_eq_bind, bind_some, update_self, update_of_ne hr12, update_of_ne hr13,
    update_of_ne hr14, Function.update_idem, accessType_type, accessType_access, Option.pure_def]
  rfl

/-! ## The checks -/

variable {off : BitVec 16} {skip : Nat} {reg : Reg}

theorem guards_jne {I : Regs → Prop} {a b : BitVec 32}
    (hreg : ∀ regs, I regs → regs reg = a.setWidth 64) (ha : a.toNat < 2 ^ 31) (hoff : off.toInt = skip) :
    Guards memory I [.jmpImm .jne reg b off] skip (b = a) := by
  refine guards_jump fun _ regs hr => ?_
  simp only [State.exec, Cond.holds, hreg regs hr, bne_iff_ne, ne_eq, setWidth_eq_signExtend ha]
  by_cases hb : b = a
  · simp [hb]
  · simp only [hb, not_false_eq_true, if_true, decide_false, Bool.false_eq_true, if_false]
    exact jump_ahead hoff

def masked (access : Access) (request : Request) : BitVec 64 :=
  (bpfAccess request.access &&& bpfAccess access).setWidth 64

theorem moves_mask (access : Access) : Moves memory (Ready request)
    [.mov32Reg .r1 .r3, .alu32Imm .and .r1 (bpfAccess access)]
    (fun regs => Ready request regs ∧ regs .r1 = masked access request) := by
  refine moves_of_assign fun regs hr => ?_
  refine ⟨update regs .r1 (masked access request), ⟨⟨?_, ?_, ?_, ?_, ?_⟩, update_self ..⟩, ?_⟩
  · exact hr.r0
  · exact hr.r2
  · exact hr.r3
  · exact hr.r4
  · exact hr.r5
  · simp [assign, hr.r3, masked, Op.eval]

theorem masked_eq_access (access : Access) (request : Request) :
    masked access request = (bpfAccess request.access).setWidth 64 ↔ access.includes request.access = true := by
  obtain ⟨read, write, mknod⟩ := access
  obtain ⟨_, read', write', mknod'⟩ := request
  simp only [masked]
  revert read write mknod read' write' mknod'
  decide

theorem masked_eq_zero (access : Access) (request : Request) :
    masked access request = 0 ↔ access.overlaps request.access = false := by
  obtain ⟨read, write, mknod⟩ := access
  obtain ⟨_, read', write', mknod'⟩ := request
  simp only [masked]
  revert read write mknod read' write' mknod'
  decide

variable {access : Access} {entry : Entry}

theorem guards_allowAccess (hoff : (off - 2).toInt = skip) :
    Guards memory (Ready request) (checkAllowAccessInstructions off access) skip (access.includes request.access) := by
  refine (moves_mask access).guards (guards_jump fun _ regs hr => ?_) fun _ hr => hr.1
  simp only [State.exec, Cond.holds, hr.2, hr.1.r3, bne_iff_ne, ne_eq, masked_eq_access]
  by_cases hi : access.includes request.access = true
  · simp [hi]
  · simp only [hi, not_false_eq_true, if_true, Bool.false_eq_true, if_false]
    exact jump_ahead hoff

theorem guards_denyAccess (hoff : (off - 2).toInt = skip) :
    Guards memory (Ready request) (checkDenyAccessInstructions off access) skip (access.overlaps request.access) := by
  refine (moves_mask access).guards (guards_jump fun _ regs hr => ?_) fun _ hr => hr.1
  have hz : signExtend 64 (0 : BitVec 32) = 0 := by decide
  simp only [State.exec, Cond.holds, hr.2, hz, beq_iff_eq, masked_eq_zero]
  by_cases ho : access.overlaps request.access = true
  · simp [ho]
  · simp only [ho, if_true, Bool.false_eq_true, if_false]
    exact jump_ahead hoff

/-! ## The block of an entry -/

/-- Some of the checks of a block, given how far the next block is: they come to their end if a test succeeds, and to the
next block if not. -/
structure Part (memory : Memory) (request : Request) (part : BitVec 16 → List Insn) (length : Nat) (test : Bool) :
    Prop where
  length_eq : ∀ off, (part off).length = length
  guards : ∀ rest, length + rest < 2 ^ 15 →
    Guards memory (Ready request) (part (BitVec.ofNat 16 (length + rest))) (rest + 1) test
  lands : ∀ rest, length + rest < 2 ^ 15 → Lands (part (BitVec.ofNat 16 (length + rest))) (rest + 1)

theorem part_nil : Part memory request (fun _ => []) 0 true :=
  ⟨fun _ => rfl, fun _ _ => guards_nil, fun _ _ => lands_of_forall (by simp) _⟩

theorem part_jne {a b : BitVec 32} (hreg : ∀ regs, Ready request regs → regs reg = a.setWidth 64)
    (ha : a.toNat < 2 ^ 31) : Part memory request (fun off => [.jmpImm .jne reg b off]) 1 (b = a) := by
  have hoff : ∀ rest, 1 + rest < 2 ^ 15 → (ofNat 16 (1 + rest)).toInt = ((rest + 1 : Nat) : Int) :=
    fun rest hr => by rw [toInt_ofNat_of_lt hr, add_comm]
  refine ⟨fun _ => rfl, fun rest hr => guards_jne hreg ha (hoff rest hr), fun rest hr => ?_⟩
  refine lands_singleton fun _ h => ?_
  cases h
  rw [hoff rest hr]
  omega

theorem Part.append {part more : BitVec 16 → List Insn} {m n : Nat} {test other : Bool}
    (h : Part memory request part m test) (h' : Part memory request more n other) :
    Part memory request (fun off => part off ++ more (off - ofNat 16 (part off).length)) (m + n)
      (test && other) := by
  have hoff : ∀ rest, more (ofNat 16 (m + n + rest) -
      ofNat 16 (part (ofNat 16 (m + n + rest))).length) = more (ofNat 16 (n + rest)) := fun rest => by
    rw [h.length_eq, add_assoc, ofNat_add_sub]
  refine ⟨fun _ => ?_, fun rest hr => ?_, fun rest _ => ?_⟩
  · rw [length_append, h.length_eq, h'.length_eq]
  · have hf := h.guards (n + rest) (by omega)
    have hs := h'.guards rest (by omega)
    rw [← add_assoc] at hf
    rw [hoff]
    refine Guards.append ?_ hs
    rwa [h'.length_eq, ← add_assoc]
  · have hf := h.lands (n + rest) (by omega)
    have hs := h'.lands rest (by omega)
    rw [← add_assoc] at hf
    rw [hoff]
    refine Lands.append ?_ hs
    rwa [h'.length_eq, ← add_assoc]

theorem part_major (hm : request.device.major.toNat < 2 ^ 31) (selector : Selector) :
    Part memory request (checkMajor selector) (if selector.major.isSome then 1 else 0)
      (selector.major = none ∨ selector.major = some request.device.major) := by
  rw [show checkMajor selector = fun off => checkMajor selector off from rfl]
  cases h : selector.major with
  | none => simpa [checkMajor, h] using part_nil
  | some major =>
    simpa [checkMajor, h, checkMajorInstructions] using part_jne (b := major) (fun _ hr => hr.r4) hm

theorem part_minor (hm : request.device.minor.toNat < 2 ^ 31) (selector : Selector) :
    Part memory request (checkMinor selector) (if selector.minor.isSome then 1 else 0)
      (selector.minor = none ∨ selector.minor = some request.device.minor) := by
  rw [show checkMinor selector = fun off => checkMinor selector off from rfl]
  cases h : selector.minor with
  | none => simpa [checkMinor, h] using part_nil
  | some minor =>
    simpa [checkMinor, h, checkMinorInstructions] using part_jne (b := minor) (fun _ hr => hr.r5) hm

theorem part_type (selector : Selector) : Part memory request (checkType selector) (if selector.type = .all then 0 else 1)
      (selector.type = .all ∨ selector.type = request.device.selector.type) := by
  have hs : (bpfType request.device.type).toNat < 2 ^ 31 := by cases request.device.type <;> decide
  have hb := @part_jne memory request .r2 _ (bpfType .block) (fun _ hr => hr.r2) hs
  have hc := @part_jne memory request .r2 _ (bpfType .character) (fun _ hr => hr.r2) hs
  rw [show checkType selector = fun off => checkType selector off from rfl, Device.selector]
  cases h : selector.type with
  | all => simpa [checkType, h] using part_nil
  | block =>
    cases ht : request.device.type <;> rw [ht] at hb <;>
      simpa [checkType, h, checkTypeInstructions, bpfType] using hb
  | character =>
    cases ht : request.device.type <;> rw [ht] at hc <;>
      simpa [checkType, h, checkTypeInstructions, bpfType] using hc

def accessMatches (deviceCheckType : DeviceCheckType) (access : Access) (request : Request) : Bool :=
  match deviceCheckType with
  | .allow => access.includes request.access
  | .deny => access.overlaps request.access

section
variable (ha : request.access.isNone = false) (kind : DeviceCheckType)
include ha

theorem accessMatches_all (hall : ∀ bit, access.has bit = true) : accessMatches kind access request = true := by
  cases kind with
  | allow => exact Access.includes_iff.mpr fun bit _ => hall bit
  | deny =>
    obtain ⟨bit, hbit⟩ := Access.isNone_eq_false_iff.mp ha
    exact Access.overlaps_iff.mpr ⟨bit, hall bit, hbit⟩

theorem part_access (access : Access) :
    Part memory request (checkAccess kind access) (if !access.mknod || !access.read || !access.write then 3 else 0)
      (accessMatches kind access request) := by
  rw [show checkAccess kind access = fun off => checkAccess kind access off from rfl]
  by_cases hc : (!access.mknod || !access.read || !access.write) = true
  · have hoff : ∀ rest, 3 + rest < 2 ^ 15 → (ofNat 16 (3 + rest) - 2).toInt = ((rest + 1 : Nat) : Int) := by
      intro rest hr
      rw [show 3 + rest = 2 + (rest + 1) by omega, show (2 : BitVec 16) = ofNat 16 2 from rfl, ofNat_add_sub,
        toInt_ofNat_of_lt (by omega)]
    have hl : ∀ rest, 3 + rest < 2 ^ 15 → ∀ last : Insn, last.offset = some (ofNat 16 (3 + rest) - 2) →
        Lands [.mov32Reg .r1 .r3, .alu32Imm .and .r1 (bpfAccess access), last] (rest + 1) := by
      intro rest hr last hla
      show Lands ([.mov32Reg .r1 .r3, .alu32Imm .and .r1 (bpfAccess access)] ++ [last]) (rest + 1)
      refine Lands.append (lands_of_forall (by simp [Insn.offset]) _) (lands_singleton fun _ h => ?_)
      cases hla.symm.trans h
      rw [hoff rest hr]
      omega
    simp only [checkAccess, hc, if_true]
    cases kind with
    | allow =>
      exact ⟨fun _ => rfl, fun rest hr => guards_allowAccess (hoff rest hr), fun rest hr => hl rest hr _ rfl⟩
    | deny =>
      exact ⟨fun _ => rfl, fun rest hr => guards_denyAccess (hoff rest hr), fun rest hr => hl rest hr _ rfl⟩
  · have hall : ∀ bit, access.has bit = true := by
      rw [Access.forall_bit]
      simp only [Bool.or_eq_true, Bool.not_eq_true', not_or, Bool.not_eq_false] at hc
      exact ⟨hc.1.2, hc.2, hc.1.1⟩
    rw [accessMatches_all ha kind hall]
    simpa only [checkAccess, hc, if_false, Bool.false_eq_true] using part_nil

end

def entryMatches (deviceCheckType : DeviceCheckType) (request : Request) (entry : Entry) : Bool :=
  entry.selector.encompasses request.device.selector && accessMatches deviceCheckType entry.access request

/-- A request that the kernel can make. -/
structure Request.Valid (request : Request) : Prop where
  major : request.device.major.toNat < 2 ^ 31
  minor : request.device.minor.toNat < 2 ^ 31
  access : request.access.isNone = false

theorem entryMatches_catchAll (hv : request.Valid) (kind : DeviceCheckType)
    (hc : entry.isCatchAll = true) : entryMatches kind request entry = true := by
  simp only [Entry.isCatchAll, Bool.and_eq_true, Bool.not_eq_true', decide_eq_true_eq, isSome_eq_false_iff,
    isNone_iff_eq_none] at hc
  obtain ⟨⟨⟨⟨⟨hm, hmi⟩, ht⟩, hmk⟩, hr⟩, hw⟩ := hc
  rw [entryMatches, Bool.and_eq_true]
  exact ⟨Selector.encompasses_iff.mpr ⟨.inl ht, .inl hm, .inl hmi⟩,
    accessMatches_all hv.access kind (Access.forall_bit.mpr ⟨hr, hw, hmk⟩)⟩

def checks (entry : Entry) (kind : DeviceCheckType) (off : BitVec 16) : List Insn :=
  let major := checkMajor entry.selector off
  let off := off - BitVec.ofNat 16 major.length
  let minor := checkMinor entry.selector off
  let off := off - BitVec.ofNat 16 minor.length
  let type := checkType entry.selector off
  let off := off - BitVec.ofNat 16 type.length
  major ++ (minor ++ (type ++ checkAccess kind entry.access off))

def checksLength (entry : Entry) : Nat :=
  (if entry.selector.major.isSome then 1 else 0) + ((if entry.selector.minor.isSome then 1 else 0) +
    ((if entry.selector.type = .all then 0 else 1) +
      (if !entry.access.mknod || !entry.access.read || !entry.access.write then 3 else 0)))

theorem checksLength_lt (entry : Entry) : checksLength entry + 0 < 2 ^ 15 := by
  rw [checksLength]
  split_ifs <;> decide

theorem addDeviceChecks_eq (hv : request.Valid) (kind : DeviceCheckType) (hc : ¬entry.isCatchAll = true) :
    addDeviceChecks entry 1 kind = checks entry kind (ofNat 16 (checksLength entry)) := by
  -- The lengths do not depend on the jumps, nor on the request.
  have hm := (@part_major (fun _ => none) request hv.major entry.selector).length_eq 0
  have hmi := (@part_minor (fun _ => none) request hv.minor entry.selector).length_eq 0
  have ht := (@part_type (fun _ => none) request entry.selector).length_eq 0
  have ha := (@part_access (fun _ => none) request hv.access kind entry.access).length_eq 0
  have hs : 1 + (checkMajor entry.selector 0).length + (checkMinor entry.selector 0).length
      + (checkAccess kind entry.access 0).length + (checkType entry.selector 0).length = 1 + checksLength entry := by
    rw [checksLength]
    omega
  rw [addDeviceChecks, if_neg hc]
  simp only [hs, show (1 : BitVec 16) = ofNat 16 1 from rfl, ofNat_add_sub, checks, append_assoc]

section
variable (hv : request.Valid) (entry : Entry) (kind : DeviceCheckType)
include hv

theorem part_checks :
    Part memory request (checks entry kind) (checksLength entry) (entryMatches kind request entry) := by
  have ht : (decide (entry.selector.major = none ∨ entry.selector.major = some request.device.major) &&
      (decide (entry.selector.minor = none ∨ entry.selector.minor = some request.device.minor) &&
        (decide (entry.selector.type = .all ∨ entry.selector.type = request.device.selector.type) &&
          accessMatches kind entry.access request))) = entryMatches kind request entry := by
    have hn : request.device.selector.major = some request.device.major ∧
      request.device.selector.minor = some request.device.minor := ⟨rfl, rfl⟩
    rw [Bool.eq_iff_iff]
    simp only [entryMatches, Bool.and_eq_true, decide_eq_true_eq, Selector.encompasses_iff, hn.1, hn.2]
    tauto
  rw [← ht]
  exact (part_major hv.major entry.selector).append ((part_minor hv.minor entry.selector).append
    ((part_type entry.selector).append (part_access hv.access kind entry.access)))

/-- **The checks of an entry** come to the trailer of the block if the entry matches, and past it if not. -/
theorem guards_addDeviceChecks :
    Guards memory (Ready request) (addDeviceChecks entry 1 kind) 1 (entryMatches kind request entry) ∧
      Lands (addDeviceChecks entry 1 kind) 1 := by
  by_cases hc : entry.isCatchAll = true
  · rw [addDeviceChecks, if_pos hc, entryMatches_catchAll hv kind hc]
    exact ⟨guards_nil, lands_of_forall (by simp) 1⟩
  · rw [addDeviceChecks_eq hv kind hc]
    exact ⟨(part_checks hv entry kind).guards 0 (checksLength_lt entry),
      (@part_checks (fun _ => none) request hv entry kind).lands 0 (checksLength_lt entry)⟩

end

/-! ## The sections -/

def blocksLength (blocks : List (List Insn)) : Nat := (blocks.map fun block => block.length + 1).sum

theorem length_appendAllowBlocks : ∀ (blocks : List (List Insn)) (size : BitVec 16),
    (appendAllowBlocks blocks size).length = blocksLength blocks
  | [], _ => rfl
  | block :: rest, size => by
    simp only [appendAllowBlocks, length_append, length_appendAllowBlocks rest, blocksLength, map_cons,
      sum_cons, allowBlockTrailer, length_singleton]

/-- **The allow blocks** come to their end if no entry matches, and past the instruction after it if one does. -/
theorem guards_allowBlocks (hv : request.Valid) : ∀ (allow : List Entry) (size : BitVec 16),
    size = ofNat 16 (blocksLength (allow.map (addDeviceChecks · 1 .allow)) + 1) →
    blocksLength (allow.map (addDeviceChecks · 1 .allow)) + 1 < 2 ^ 15 →
    Guards memory (Ready request) (appendAllowBlocks (allow.map (addDeviceChecks · 1 .allow)) size) 1
        (!allow.any (entryMatches .allow request)) ∧
      Lands (appendAllowBlocks (allow.map (addDeviceChecks · 1 .allow)) size) 1
  | [], _, _, _ => ⟨guards_nil, lands_of_forall (by simp [appendAllowBlocks]) 1⟩
  | entry :: rest, size, hs, hlt => by
    obtain ⟨hg, hl⟩ := @guards_addDeviceChecks memory request hv entry .allow
    set block := addDeviceChecks entry 1 .allow with hbl
    set blocks := rest.map (addDeviceChecks · 1 .allow) with hb
    have hc : blocksLength (block :: blocks) = block.length + 1 + blocksLength blocks := by
      rw [blocksLength, map_cons, sum_cons, blocksLength]
    rw [map_cons, hc] at hs hlt
    have hr : size - ofNat 16 (block.length + (allowBlockTrailer 0).length) =
        ofNat 16 (blocksLength blocks + 1) := by
      rw [hs, add_assoc, allowBlockTrailer, length_singleton, ofNat_add_sub]
    obtain ⟨hg', hl'⟩ := guards_allowBlocks hv rest _ hr (by rw [← hb]; omega)
    have hoff : (ofNat 16 (blocksLength blocks + 1)).toInt =
        (((appendAllowBlocks blocks (ofNat 16 (blocksLength blocks + 1))).length + 1 : Nat) : Int) := by
      rw [length_appendAllowBlocks]
      exact toInt_ofNat_of_lt (by omega)
    rw [hr] at hg' hl'
    rw [map_cons, ← hb, appendAllowBlocks, hr]
    refine ⟨hg.orElse hg' hoff, ?_⟩
    rw [append_assoc]
    refine Lands.append ?_ (Lands.append (lands_singleton fun _ h => ?_) hl')
    · exact hl.mono (by omega)
    · cases h
      omega

theorem foldl_size (blocks : List (List Insn)) : ∀ n : Nat,
    blocks.foldl (fun size block => size + ofNat 16 (block.length + (allowBlockTrailer 0).length))
      (ofNat 16 n) = ofNat 16 (blocksLength blocks + n) := by
  induction blocks with
  | nil => exact fun n => by rw [foldl_nil, blocksLength, map_nil, sum_nil, zero_add]
  | cons _ _ ih =>
    intro _
    rw [foldl_cons, ← BitVec.ofNat_add, ih, blocksLength, blocksLength, map_cons, sum_cons,
      allowBlockTrailer, length_singleton]
    congr 1
    omega

/-- **The allow section** denies the access if no entry matches, and comes to its end if one does. -/
theorem stops_allowSection (hv : request.Valid) (allow : List Entry) (hlt : (allowSection allow).length < 2 ^ 15) :
    Stops memory (Ready request) (allowSection allow) 0 (!allow.any (entryMatches .allow request)) ∧
      Lands (allowSection allow) 0 := by
  set blocks := allow.map (addDeviceChecks · 1 .allow) with hb
  have hs : allowSection allow = appendAllowBlocks blocks (ofNat 16 (blocksLength blocks + 1)) ++ [.exit] := by
    rw [← foldl_size blocks 1]
    rfl
  rw [hs, length_append, length_appendAllowBlocks] at hlt
  obtain ⟨hg, hl⟩ := @guards_allowBlocks memory request hv allow _ rfl hlt
  rw [hs]
  exact ⟨hg.stops fun _ hr => hr.r0, hl.append (lands_of_forall (by simp [Insn.offset]) 0)⟩

/-- **The deny blocks** deny the access if an entry matches, and come to their end if none does. -/
theorem stops_denyBlocks (hv : request.Valid) : ∀ deny : List Entry,
    Stops memory (Ready request) (denyBlocks deny) 0 (deny.any (entryMatches .deny request)) ∧ Lands (denyBlocks deny) 0
  | [] => ⟨stops_nil, lands_of_forall (by simp [denyBlocks]) 0⟩
  | entry :: rest => by
    obtain ⟨hg, hl⟩ := @guards_addDeviceChecks memory request hv entry .deny
    obtain ⟨hs, hl'⟩ := @stops_denyBlocks hv rest
    refine ⟨(hg.stops fun regs hr => hr.r0).append hs, Lands.append ?_ hl'⟩
    exact (hl.append (lands_of_forall (by simp [denyBlockTrailer, Insn.offset]) 0)).mono (Nat.zero_le _)

/-! ## The program -/

theorem offset_prologue : ∀ insn ∈ prologue, insn.offset = none := by
  simp [prologue, Insn.offset]

variable {body : List Insn} (hcontext : Context memory address request) (regs : Regs)
include hcontext regs

theorem run_stopped (hs : Stops memory (Ready request) body 0 true) (tail : List Insn) :
    ∃ fuel, run (prologue ++ body ++ tail) memory fuel (start address regs) = some 0 := by
  obtain ⟨ready, hr, hpr⟩ := moves_prologue hcontext [] (body ++ tail) (update regs .r1 address)
    (update_self ..)
  obtain ⟨_, ht, he⟩ := hs prologue tail ready hr
  exact run_of_reaches (hpr.trans ht) he

theorem run_passed (hs : Stops memory (Ready request) body 0 false) :
    ∃ fuel, run (prologue ++ body ++ denySectionTrailer) memory fuel (start address regs) = some 1 := by
  obtain ⟨ready, hr, hpr⟩ := moves_prologue hcontext [] (body ++ denySectionTrailer)
    (update regs .r1 address) (update_self ..)
  obtain ⟨after, -, haf⟩ := hs prologue denySectionTrailer ready hr
  have hm : Reaches (prologue ++ body ++ [.mov64Imm .r0 allowAccess] ++ [.exit]) memory
      ⟨(prologue ++ body).length, after⟩ ⟨(prologue ++ body).length + 1, update after .r0 1⟩ :=
    reaches_of_assign [.mov64Imm .r0 allowAccess] rfl
  rw [length_append, append_assoc _ _ [Insn.exit]] at hm
  have he := @step_at memory (prologue ++ body ++ [.mov64Imm .r0 allowAccess]) [] .exit (update after .r0 1)
  rw [length_append, length_append, append_assoc _ _ [Insn.exit]] at he
  exact run_of_reaches ((hpr.trans haf).trans hm) he

/-- **A program of blocks** gives 0 where its blocks stop, and 1 where it comes past them. -/
theorem run_blocks {test : Bool} (h : Stops memory (Ready request) body 0 test ∧ Lands body 0) :
    JumpsInside (prologue ++ body ++ denySectionTrailer) ∧
      ∃ fuel, run (prologue ++ body ++ denySectionTrailer) memory fuel (start address regs) =
        some (if !test then 1 else 0) := by
  constructor
  · exact ((lands_of_forall offset_prologue _).append h.2).inside (by simp [denySectionTrailer, Insn.offset])
      (by decide)
  · cases test with
    | true => exact run_stopped hcontext regs h.1 denySectionTrailer
    | false => exact run_passed hcontext regs h.1

theorem run_exit :
    JumpsInside (prologue ++ [.exit]) ∧ ∃ fuel, run (prologue ++ [.exit]) memory fuel (start address regs) = some 0 := by
  have he : Stops memory (Ready request) ([] ++ [.exit]) 0 true := guards_nil.stops fun regs hr => hr.r0
  have hrun := run_stopped hcontext regs he []
  exact ⟨(lands_of_forall offset_prologue 0).inside (by simp [Insn.offset]) (by decide), hrun⟩

omit hcontext regs

theorem isAccessGranted_eq {allow deny : List Entry} (ha : normalized allow = true) (hd : normalized deny = true)
    (request : Request) : CgroupDeviceAccess.isAccessGranted ⟨allow, deny⟩ request.query =
      some (allow.any (entryMatches .allow request) && !deny.any (entryMatches .deny request)) := by
  have hm : (fun entry : Entry => entry.encompasses request.query) = entryMatches .allow request := by
    funext entry
    exact Entry.encompasses_eq entry request.query
  rw [CgroupDeviceAccess.isAccessGranted, ha, hd, ← hm]
  rfl

theorem run_build {allow deny : List Entry} (hs : (build allow deny).length < 32768) (hv : request.Valid) (hcontext : Context memory address request) (regs : Regs) :
    JumpsInside (build allow deny) ∧ ∃ fuel, run (build allow deny) memory fuel (start address regs) =
      some (if allow.any (entryMatches .allow request) && !deny.any (entryMatches .deny request) then 1 else 0) := by
  have hei := run_exit hcontext regs
  have hca : ∀ {kind : DeviceCheckType} {entries : List Entry}, entries.any Entry.isCatchAll = true →
      entries.any (entryMatches kind request) = true := by
    intro kind _ h
    obtain ⟨entry, hen, hc⟩ := any_eq_true.mp h
    exact any_eq_true.mpr ⟨entry, hen, entryMatches_catchAll hv kind hc⟩
  rw [build] at hs ⊢
  by_cases hda : deny.any Entry.isCatchAll = true
  · rw [if_pos hda, hca hda, Bool.not_true, Bool.and_false]
    exact hei
  rw [if_neg hda] at hs ⊢
  by_cases he : allow.isEmpty = true
  · rw [isEmpty_iff.mp he]
    exact hei
  rw [if_neg he] at hs ⊢
  by_cases haa : allow.any Entry.isCatchAll = true
  · rw [if_pos haa, hca haa]
    exact run_blocks hcontext regs (stops_denyBlocks hv deny)
  rw [if_neg haa] at hs ⊢
  have hsh : (allowSection allow).length < 2 ^ 15 := by
    simp only [length_append] at hs
    omega
  obtain ⟨ha, hl⟩ := @stops_allowSection memory request hv allow hsh
  obtain ⟨hd, hl'⟩ := @stops_denyBlocks memory request hv deny
  have hb := run_blocks hcontext regs ⟨ha.append hd, (hl.mono (Nat.zero_le _)).append hl'⟩
  rwa [← append_assoc, Bool.not_or, Bool.not_not] at hb

/-- **The compiled device program enforces the device policy.** For normalized lists, a program of less than 2¹⁵
instructions and every request of the kernel, every jump lands inside the program, which comes to an exit with 1 if the
lists grant the access and with 0 if not. -/
theorem build_enforces {allow deny : List Entry} (hallow : normalized allow = true) (hdeny : normalized deny = true)
    (hsize : (build allow deny).length < 32768) {request : Request} (hvalid : request.Valid) {memory : Memory}
    {address : BitVec 64} (hcontext : Context memory address request) (regs : Regs) :
    JumpsInside (build allow deny) ∧
      ∃ granted, CgroupDeviceAccess.isAccessGranted ⟨allow, deny⟩ request.query = some granted ∧
        ∃ fuel, run (build allow deny) memory fuel (start address regs) = some (if granted then 1 else 0) := by
  obtain ⟨hjumps, hrun⟩ := run_build hsize hvalid hcontext regs
  exact ⟨hjumps, _, isAccessGranted_eq hallow hdeny request, hrun⟩

/-- Reading one device that a wildcard allows, where writing it is denied. -/
theorem build_enforces_read :
    let allow : List Entry := [⟨⟨.character, some 5, none⟩, ⟨true, true, false⟩⟩]
    let deny : List Entry := [⟨⟨.character, some 5, some 1⟩, ⟨false, true, false⟩⟩]
    let request : Request := ⟨⟨.character, 5, 1⟩, ⟨true, false, false⟩⟩
    let memory : Memory := fun address =>
      if address = 0 then some request.accessType else if address = 4 then some 5 else if address = 8 then some 1 else none
    Context memory 0 request ∧ request.Valid ∧ ∃ fuel, run (build allow deny) memory fuel (start 0 fun _ => 0) = some 1 := by
  intro allow deny request memory
  have hcontext : Context memory 0 request := ⟨rfl, rfl, rfl⟩
  have hvalid : request.Valid := ⟨by decide, by decide, rfl⟩
  obtain ⟨-, granted, hgranted, hrun⟩ := @build_enforces allow deny (by decide) (by decide) (by decide)
    request hvalid memory 0 hcontext fun _ => 0
  have htrue : granted = true := Option.some.inj (hgranted.symm.trans (by decide))
  rw [htrue] at hrun
  exact ⟨hcontext, hvalid, hrun⟩

/-- **The device programs enforce the policy.** After any calls on the manager, the program of a cgroup answers 1 to each
request for one kind of access that the calls leave granted, and 0 to every other. -/
theorem programs_follow_policy (calls : List Call) :
    ∃ after, calls.foldlM Manager.call {} = some after ∧
      ∀ cgroup grants, calls.foldl Policy.call (fun _ => none) cgroup = some grants →
        ∃ allow deny, after.deviceAccessPerCgroup.lookup cgroup = some ⟨allow, deny⟩ ∧
          ((build allow deny).length < 32768 → ∀ (request : Request) bit memory address regs,
            request.query = query request.device bit → request.Valid → Context memory address request →
            ∃ granted, (granted = true ↔ grants request.device bit) ∧
              ∃ fuel, run (build allow deny) memory fuel (start address regs) = some (if granted then 1 else 0)) := by
  obtain ⟨after, hcalls, hwf, hpolicy⟩ := @Manager.Wf.calls calls {} nofun
  refine ⟨after, hcalls, fun cgroup grants hgrants => ?_⟩
  obtain ⟨⟨allow, deny⟩, hlookup, rfl⟩ := map_eq_some_iff.mp ((congrFun hpolicy cgroup).trans hgrants)
  refine ⟨allow, deny, hlookup, fun hsize request bit _ _ regs hquery hvalid hcontext => ?_⟩
  obtain ⟨hallow, hdeny, -⟩ := hwf cgroup _ hlookup
  refine ⟨_, ?_, (run_build hsize hvalid hcontext regs).2⟩
  rw [CgroupDeviceAccess.grants, ← hquery, isAccessGranted_eq hallow hdeny, some_inj]

/-- Reading all terminals is configured and removed for one of them: the program lets another be read, and not this one. -/
theorem programs_follow_policy_terminals :
    let calls : List Call := [.configure "1" [⟨⟨.character, some 5, none⟩, ⟨true, false, false⟩⟩] [],
      .reconfigure "1" [] [⟨⟨.character, 5, 1⟩, ⟨true, false, false⟩⟩]]
    let request : BitVec 32 → Request := fun minor => ⟨⟨.character, 5, minor⟩, ⟨true, false, false⟩⟩
    let memory : BitVec 32 → Memory := fun minor address =>
      if address = 0 then some (request minor).accessType else if address = 4 then some 5 else if address = 8 then some minor
      else none
    ∃ after allow deny, calls.foldlM Manager.call {} = some after ∧
      after.deviceAccessPerCgroup.lookup "1" = some ⟨allow, deny⟩ ∧
      (∃ fuel, run (build allow deny) (memory 2) fuel (start 0 fun _ => 0) = some 1) ∧
      ∃ fuel, run (build allow deny) (memory 1) fuel (start 0 fun _ => 0) = some 0 := by
  intro calls request memory
  obtain ⟨after, hcalls, h⟩ := programs_follow_policy calls
  obtain ⟨allow, deny, hlookup, h⟩ := h "1" _ rfl
  have hlists : (calls.foldlM Manager.call {}).bind (·.deviceAccessPerCgroup.lookup "1") =
    some ⟨[⟨⟨.character, some 5, none⟩, ⟨true, false, false⟩⟩], [⟨⟨.character, some 5, some 1⟩, ⟨true, false, false⟩⟩]⟩ := rfl
  rw [hcalls, Option.bind_some, hlookup] at hlists
  cases hlists
  have hrun : ∀ minor : BitVec 32, minor.toNat < 2 ^ 31 → _ := fun minor hminor =>
    h (by decide) (request minor) .read (memory minor) 0 (fun _ => 0) rfl ⟨(by decide : (5 : BitVec 32).toNat < 2 ^ 31), hminor, rfl⟩ ⟨rfl, rfl, rfl⟩
  refine ⟨after, _, _, hcalls, hlookup, ?_, ?_⟩
  · obtain ⟨granted, hgranted, hrun⟩ := hrun 2 (by decide)
    have hlisted : ¬Lists [⟨⟨.character, 5, 1⟩, ⟨true, false, false⟩⟩] (request 2).device .read := by
      rintro ⟨entry, hentry, hselector, -⟩
      rw [mem_singleton.1 hentry] at hselector
      exact nomatch hselector
    have htrue : granted = true :=
      hgranted.2 ⟨hlisted, .inr ⟨⟨_, mem_singleton_self _, by decide, rfl⟩, fun ⟨_, hentry, _⟩ => not_mem_nil hentry⟩⟩
    rwa [htrue] at hrun
  · obtain ⟨granted, hgranted, hrun⟩ := hrun 1 (by decide)
    have hfalse : granted = false := Bool.eq_false_iff.2 fun h => (hgranted.1 h).1 ⟨_, mem_singleton_self _, rfl, rfl⟩
    rwa [hfalse] at hrun

end DeviceProgram

end Clusterd.Devices
