import Mathlib.Data.List.Basic
import Mathlib.Logic.Relation
/-!
# A machine for eBPF programs

Registers have 64 bits, jumps are relative to the next instruction and have 16 bits.  A program is put together from pieces of
code: `Guards` says of a piece that it comes to its end if a test succeeds, and some instructions past it if not, wherever it
stands; `Lands` bounds where its jumps go.
-/
namespace Ebpf

open List Relation.ReflTransGen

inductive Reg
  | r0 | r1 | r2 | r3 | r4 | r5 | r6 | r7 | r8 | r9 | r10
deriving DecidableEq

inductive Op
  | and
  | rsh

def Op.eval : Op → BitVec 32 → BitVec 32 → BitVec 32
  | .and, a, b => a &&& b
  | .rsh, a, b => a >>> (b.toNat % 32)

inductive Cond
  | jeq
  | jne

def Cond.holds : Cond → BitVec 64 → BitVec 64 → Bool
  | .jeq, a, b => a == b
  | .jne, a, b => a != b

inductive Insn
  | alu32Imm (op : Op) (dst : Reg) (imm : BitVec 32)
  | mov32Reg (dst src : Reg)
  | mov64Imm (dst : Reg) (imm : BitVec 32)
  /-- Load a word. -/
  | ldxMem (dst src : Reg) (off : BitVec 16)
  | jmpA (off : BitVec 16)
  | jmpImm (cond : Cond) (dst : Reg) (imm : BitVec 32) (off : BitVec 16)
  | jmpReg (cond : Cond) (dst src : Reg) (off : BitVec 16)
  | exit

abbrev Memory := BitVec 64 → Option (BitVec 32)

abbrev Regs := Reg → BitVec 64

structure State where
  pc : Nat
  regs : Regs

inductive Outcome
  | next (state : State)
  | exited (r0 : BitVec 64)
  | fault

def assign (memory : Memory) (regs : Regs) : Insn → Option Regs
  | .alu32Imm op dst imm => some (Function.update regs dst ((op.eval ((regs dst).setWidth 32) imm).setWidth 64))
  | .mov32Reg dst src => some (Function.update regs dst (((regs src).setWidth 32).setWidth 64))
  | .mov64Imm dst imm => some (Function.update regs dst (imm.signExtend 64))
  | .ldxMem dst src off =>
    (memory (regs src + off.signExtend 64)).map fun word => Function.update regs dst (word.setWidth 64)
  | .jmpA _ | .jmpImm _ _ _ _ | .jmpReg _ _ _ _ | .exit => none

namespace State

def jump (s : State) (off : BitVec 16) : Outcome :=
  let target := (s.pc : Int) + 1 + off.toInt
  if 0 ≤ target then .next { s with pc := target.toNat } else .fault

def exec (memory : Memory) (s : State) : Insn → Outcome
  | .jmpA off => s.jump off
  | .jmpImm cond dst imm off =>
    if cond.holds (s.regs dst) (imm.signExtend 64) then s.jump off else .next { s with pc := s.pc + 1 }
  | .jmpReg cond dst src off =>
    if cond.holds (s.regs dst) (s.regs src) then s.jump off else .next { s with pc := s.pc + 1 }
  | .exit => .exited (s.regs .r0)
  | insn =>
    match assign memory s.regs insn with
    | some regs => .next { pc := s.pc + 1, regs }
    | none => .fault

end State

def step (program : List Insn) (memory : Memory) (s : State) : Outcome :=
  match program[s.pc]? with
  | some insn => s.exec memory insn
  | none => .fault

def run (program : List Insn) (memory : Memory) : Nat → State → Option (BitVec 64)
  | 0, _ => none
  | fuel + 1, s =>
    match step program memory s with
    | .next s' => run program memory fuel s'
    | .exited r0 => some r0
    | .fault => none

/-! ## Going through a program -/

def Reaches (program : List Insn) (memory : Memory) : State → State → Prop :=
  Relation.ReflTransGen fun s t => step program memory s = .next t

variable {program : List Insn} {memory : Memory} {s t u : State} {pre post code more : List Insn} {insn : Insn}
  {regs : Regs} {off : BitVec 16}

theorem Reaches.trans (h : Reaches program memory s t) (h' : Reaches program memory t u) : Reaches program memory s u :=
  Relation.ReflTransGen.trans h h'

theorem step_at (regs : Regs) :
    step (pre ++ insn :: post) memory ⟨pre.length, regs⟩ = State.exec memory ⟨pre.length, regs⟩ insn := by
  have hf : (pre ++ insn :: post)[pre.length]? = some insn := by
    rw [getElem?_append_right (Nat.le_refl _), Nat.sub_self, getElem?_cons_zero]
  simp only [step, hf]

theorem reaches_of_exec (h : State.exec memory ⟨pre.length, regs⟩ insn = .next t) :
    Reaches (pre ++ insn :: post) memory ⟨pre.length, regs⟩ t :=
  Relation.ReflTransGen.single ((step_at regs).trans h)

/-- **A program that comes to an exit gives its result**, in some number of steps. -/
theorem run_of_reaches {r0 : BitVec 64} (h : Reaches program memory s t) (he : step program memory t = .exited r0) :
    ∃ fuel, run program memory fuel s = some r0 := by
  induction h using head_induction_on with
  | refl => exact ⟨1, by rw [run, he]⟩
  | head hs _ ih =>
    obtain ⟨fuel, hf⟩ := ih
    exact ⟨fuel + 1, by rw [run, hs]; exact hf⟩

theorem jump_ahead {pc n : Nat} (h : off.toInt = n) : State.jump ⟨pc, regs⟩ off = .next ⟨pc + 1 + n, regs⟩ := by
  have hta : (pc : Int) + 1 + off.toInt = ((pc + 1 + n : Nat) : Int) := by
    rw [h]
    push_cast
    rfl
  simp only [State.jump, hta, Int.toNat_natCast]
  exact if_pos (Int.natCast_nonneg _)

/-! ## Straight code -/

def Moves (memory : Memory) (I : Regs → Prop) (code : List Insn) (J : Regs → Prop) : Prop :=
  ∀ (pre post : List Insn) (regs : Regs), I regs → ∃ regs', J regs' ∧
    Reaches (pre ++ code ++ post) memory ⟨pre.length, regs⟩ ⟨pre.length + code.length, regs'⟩

variable {I J : Regs → Prop} {skip : Nat} {test other : Bool}

theorem exec_of_assign {pc : Nat} {regs' : Regs} (h : assign memory regs insn = some regs') :
    State.exec memory ⟨pc, regs⟩ insn = .next ⟨pc + 1, regs'⟩ := by
  cases insn with
  | alu32Imm | mov32Reg | mov64Imm | ldxMem => simp only [State.exec, h]
  | jmpA | jmpImm | jmpReg | exit => cases h

/-- **Code without jumps** does one assignment after the other. -/
theorem reaches_of_assign : ∀ (code : List Insn) {pre post : List Insn} {regs regs' : Regs},
    code.foldlM (assign memory) regs = some regs' →
    Reaches (pre ++ code ++ post) memory ⟨pre.length, regs⟩ ⟨pre.length + code.length, regs'⟩
  | [], _, _, _, _, h => by
    cases h
    exact refl
  | insn :: code, pre, post, regs, regs', h => by
    obtain ⟨middle, hm, h⟩ := Option.bind_eq_some_iff.mp h
    have hf : Reaches (pre ++ insn :: (code ++ post)) memory ⟨pre.length, regs⟩ ⟨pre.length + 1, middle⟩ :=
      reaches_of_exec (exec_of_assign hm)
    have hr : Reaches (pre ++ [insn] ++ code ++ post) memory _ _ := reaches_of_assign code h
    have hpr : pre ++ [insn] ++ code ++ post = pre ++ insn :: (code ++ post) := by simp
    rw [hpr, length_append] at hr
    rw [append_assoc, length_cons, Nat.add_comm code.length, ← Nat.add_assoc]
    exact hf.trans hr

theorem moves_of_assign (h : ∀ regs, I regs → ∃ regs', J regs' ∧ code.foldlM (assign memory) regs = some regs') :
    Moves memory I code J := by
  intro _ _ regs hr
  obtain ⟨regs', hr', ha⟩ := h regs hr
  exact ⟨regs', hr', reaches_of_assign code ha⟩

/-! ## Guards -/

/-- Where the registers meet `I` they do so after `code`, which comes to its end if the test succeeds and `skip`
instructions further if not. -/
def Guards (memory : Memory) (I : Regs → Prop) (code : List Insn) (skip : Nat) (test : Bool) : Prop :=
  ∀ (pre post : List Insn) (regs : Regs), I regs → ∃ regs', I regs' ∧
    Reaches (pre ++ code ++ post) memory ⟨pre.length, regs⟩
      ⟨pre.length + code.length + (if test then 0 else skip), regs'⟩

theorem guards_nil : Guards memory I [] skip true :=
  fun _ _ regs hr => ⟨regs, hr, refl⟩

/-- **One test after another.** -/
theorem Guards.append (h : Guards memory I code (more.length + skip) test) (h' : Guards memory I more skip other) :
    Guards memory I (code ++ more) skip (test && other) := by
  intro pre post regs hre
  obtain ⟨middle, hm, hr⟩ := h pre (more ++ post) regs hre
  rw [← append_assoc, append_assoc pre code more] at hr
  cases test with
  | false =>
    refine ⟨middle, hm, ?_⟩
    rw [length_append, ← Nat.add_assoc, Nat.add_assoc]
    exact hr
  | true =>
    obtain ⟨after, haf, hr'⟩ := h' (pre ++ code) post middle hm
    rw [append_assoc pre code more, length_append] at hr'
    refine ⟨after, haf, hr.trans ?_⟩
    rw [length_append, ← Nat.add_assoc]
    exact hr'

theorem Moves.guards (h : Moves memory I code J) (h' : Guards memory J more skip test) (hJI : ∀ regs, J regs → I regs) :
    Guards memory I (code ++ more) skip test := by
  intro pre post regs hre
  obtain ⟨middle, hm, hr⟩ := h pre (more ++ post) regs hre
  obtain ⟨after, haf, hr'⟩ := h' (pre ++ code) post middle hm
  rw [← append_assoc, append_assoc pre code more] at hr
  rw [append_assoc pre code more, length_append] at hr'
  refine ⟨after, hJI after haf, hr.trans ?_⟩
  rw [length_append, ← Nat.add_assoc]
  exact hr'

theorem guards_jump (he : ∀ pc regs, I regs →
      State.exec memory ⟨pc, regs⟩ insn = .next ⟨pc + 1 + (if test then 0 else skip), regs⟩) :
    Guards memory I [insn] skip test := by
  intro pre _ regs hr
  refine ⟨regs, hr, ?_⟩
  rw [append_assoc]
  exact reaches_of_exec (he pre.length regs hr)

/-- **One alternative after another**: the end of all is where none has succeeded. -/
theorem Guards.orElse (h : Guards memory I code 1 test) (h' : Guards memory I more skip !other)
    (hoff : off.toInt = ((more.length + skip : Nat) : Int)) :
    Guards memory I (code ++ [Insn.jmpA off] ++ more) skip !(test || other) := by
  intro pre post regs hre
  obtain ⟨middle, hm, hr⟩ := h pre (Insn.jmpA off :: more ++ post) regs hre
  have hpr : pre ++ code ++ (Insn.jmpA off :: more ++ post) = pre ++ (code ++ [Insn.jmpA off] ++ more) ++ post := by
    simp
  rw [hpr] at hr
  have hl : pre.length + (code ++ [Insn.jmpA off] ++ more).length = pre.length + code.length + 1 + more.length := by
    simp only [length_append, length_singleton]
    omega
  rw [hl]
  cases test with
  | true =>
    refine ⟨middle, hm, hr.trans ?_⟩
    have hj : Reaches (pre ++ code ++ Insn.jmpA off :: (more ++ post)) memory ⟨(pre ++ code).length, middle⟩
        ⟨(pre ++ code).length + 1 + (more.length + skip), middle⟩ := reaches_of_exec (jump_ahead hoff)
    rw [cons_append] at hpr
    rw [hpr, length_append, ← Nat.add_assoc (pre.length + code.length + 1)] at hj
    exact hj
  | false =>
    obtain ⟨after, haf, hr'⟩ := h' (pre ++ code ++ [Insn.jmpA off]) post middle hm
    have hpr' : pre ++ code ++ [Insn.jmpA off] ++ more ++ post = pre ++ (code ++ [Insn.jmpA off] ++ more) ++ post := by
      simp
    rw [hpr', length_append, length_append] at hr'
    exact ⟨after, haf, hr.trans hr'⟩

/-! ## Stops -/

def Stops (memory : Memory) (I : Regs → Prop) (code : List Insn) (value : BitVec 64) (test : Bool) : Prop :=
  ∀ (pre post : List Insn) (regs : Regs), I regs →
    if test then ∃ t, Reaches (pre ++ code ++ post) memory ⟨pre.length, regs⟩ t ∧
      step (pre ++ code ++ post) memory t = .exited value
    else ∃ regs', I regs' ∧ Reaches (pre ++ code ++ post) memory ⟨pre.length, regs⟩ ⟨pre.length + code.length, regs'⟩

variable {value : BitVec 64} {slack : Nat}

theorem stops_nil : Stops memory I [] value false :=
  fun _ _ regs hr => ⟨regs, hr, refl⟩

theorem Guards.stops (h : Guards memory I code 1 test) (hI : ∀ regs, I regs → regs .r0 = value) :
    Stops memory I (code ++ [.exit]) value test := by
  intro pre post regs hre
  obtain ⟨after, haf, hr⟩ := h pre (.exit :: post) regs hre
  have hpr : pre ++ code ++ .exit :: post = pre ++ (code ++ [.exit]) ++ post := by
    simp
  cases test with
  | true =>
    refine ⟨⟨(pre ++ code).length, after⟩, ?_, ?_⟩
    · rw [← hpr, length_append]
      exact hr
    · rw [← hpr, step_at]
      exact congrArg Outcome.exited (hI after haf)
  | false =>
    refine ⟨after, haf, ?_⟩
    rw [← hpr, length_append]
    exact hr

theorem Stops.append (h : Stops memory I code value test) (h' : Stops memory I more value other) :
    Stops memory I (code ++ more) value (test || other) := by
  intro pre post regs hre
  have hf := h pre (more ++ post) regs hre
  rw [← append_assoc, append_assoc pre code more] at hf
  cases test with
  | true => exact hf
  | false =>
    obtain ⟨middle, hm, hr⟩ := hf
    have hs := h' (pre ++ code) post middle hm
    rw [append_assoc pre code more, length_append] at hs
    cases other with
    | true =>
      obtain ⟨t, ht, he⟩ := hs
      exact ⟨t, hr.trans ht, he⟩
    | false =>
      obtain ⟨after, haf, hr'⟩ := hs
      refine ⟨after, haf, hr.trans ?_⟩
      rw [length_append, ← Nat.add_assoc]
      exact hr'

/-! ## Where jumps land -/

def Insn.offset : Insn → Option (BitVec 16)
  | .jmpA off | .jmpImm _ _ _ off | .jmpReg _ _ _ off => some off
  | .alu32Imm .. | .mov32Reg .. | .mov64Imm .. | .ldxMem .. | .exit => none

def Lands (code : List Insn) (slack : Nat) : Prop :=
  ∀ (i : Nat) (insn : Insn) (off : BitVec 16), code[i]? = some insn → insn.offset = some off →
    0 ≤ off.toInt ∧ (i : Int) + 1 + off.toInt ≤ code.length + slack

theorem lands_of_forall (h : ∀ insn ∈ code, insn.offset = none) (slack : Nat) : Lands code slack := by
  intro _ insn _ hi hoff
  rw [h insn (mem_of_getElem? hi)] at hoff
  cases hoff

theorem Lands.mono {slack' : Nat} (h : Lands code slack) (hle : slack ≤ slack') : Lands code slack' := by
  intro i insn off hi hoff
  have hl := h i insn off hi hoff
  omega

theorem Lands.append (h : Lands code (more.length + slack)) (h' : Lands more slack) : Lands (code ++ more) slack := by
  intro i insn off hin hoff
  rw [length_append]
  push_cast
  by_cases hi : i < code.length
  · rw [getElem?_append_left hi] at hin
    have hl := h i insn off hin hoff
    push_cast at hl
    omega
  · rw [getElem?_append_right (Nat.not_lt.mp hi)] at hin
    have hl := h' (i - code.length) insn off hin hoff
    omega

theorem lands_singleton (h : ∀ off, insn.offset = some off → 0 ≤ off.toInt ∧ off.toInt ≤ slack) :
    Lands [insn] slack := by
  intro i _ off hi hoff
  cases i with
  | zero =>
    cases hi
    have hl := h off hoff
    simp only [length_singleton]
    omega
  | succ => cases hi

def JumpsInside (program : List Insn) : Prop :=
  ∀ (i : Nat) (insn : Insn) (off : BitVec 16), program[i]? = some insn → insn.offset = some off →
    0 ≤ (i : Int) + 1 + off.toInt ∧ (i : Int) + 1 + off.toInt < program.length

theorem Lands.inside (h : Lands code 0) (hm : ∀ insn ∈ more, insn.offset = none) (hne : 0 < more.length) :
    JumpsInside (code ++ more) := by
  intro i insn off hin hoff
  rw [length_append]
  by_cases hi : i < code.length
  · rw [getElem?_append_left hi] at hin
    have hl := h i insn off hin hoff
    omega
  · rw [getElem?_append_right (Nat.not_lt.mp hi)] at hin
    rw [hm insn (mem_of_getElem? hin)] at hoff
    cases hoff

end Ebpf
