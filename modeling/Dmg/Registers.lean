import Dmg.Flags
import Dmg.Word

/-! # Registers

Seven 8-bit registers, the flags, the stack pointer and the program counter. Instructions name
single registers (`Reg`) and three overlapping sets of 16-bit pairs: those of loads and 16-bit
arithmetic (`Pair`) and those of the stack (`StackPair`), where AF takes the place of SP. -/

namespace Dmg

/-- The 8-bit registers an instruction can name, in the order of their encoding. -/
inductive Reg where
  | b | c | d | e | h | l | a
deriving DecidableEq

/-- The pairs of 16-bit loads and arithmetic, in the order of their encoding. -/
inductive Pair where
  | bc | de | hl | sp
deriving DecidableEq

/-- The pairs that are pushed and popped, in the order of their encoding. -/
inductive StackPair where
  | bc | de | hl | af
deriving DecidableEq

structure Registers where
  a : UInt8 := 0
  flags : Flags := {}
  b : UInt8 := 0
  c : UInt8 := 0
  d : UInt8 := 0
  e : UInt8 := 0
  h : UInt8 := 0
  l : UInt8 := 0
  sp : UInt16 := 0
  pc : UInt16 := 0
deriving DecidableEq

namespace Registers

/-- The registers as the boot image leaves them. -/
def postBoot : Registers where
  a := 0x01
  flags := .ofByte 0xB0
  b := 0x00
  c := 0x13
  d := 0x00
  e := 0xD8
  h := 0x01
  l := 0x4D
  sp := 0xFFFE
  pc := 0x0100

/-- The byte F. -/
def f (r : Registers) : UInt8 := r.flags.toByte
def af (r : Registers) : UInt16 := word r.a r.f
def bc (r : Registers) : UInt16 := word r.b r.c
def de (r : Registers) : UInt16 := word r.d r.e
def hl (r : Registers) : UInt16 := word r.h r.l

def setF (r : Registers) (v : UInt8) : Registers := { r with flags := .ofByte v }
def setAf (r : Registers) (v : UInt16) : Registers := { r with a := hi v, flags := .ofByte (lo v) }
def setBc (r : Registers) (v : UInt16) : Registers := { r with b := hi v, c := lo v }
def setDe (r : Registers) (v : UInt16) : Registers := { r with d := hi v, e := lo v }
def setHl (r : Registers) (v : UInt16) : Registers := { r with h := hi v, l := lo v }

def get (r : Registers) : Reg → UInt8
  | .a => r.a
  | .b => r.b
  | .c => r.c
  | .d => r.d
  | .e => r.e
  | .h => r.h
  | .l => r.l

def set (r : Registers) (x : Reg) (v : UInt8) : Registers :=
  match x with
  | .a => { r with a := v }
  | .b => { r with b := v }
  | .c => { r with c := v }
  | .d => { r with d := v }
  | .e => { r with e := v }
  | .h => { r with h := v }
  | .l => { r with l := v }

def getPair (r : Registers) : Pair → UInt16
  | .bc => r.bc
  | .de => r.de
  | .hl => r.hl
  | .sp => r.sp

def setPair (r : Registers) (p : Pair) (v : UInt16) : Registers :=
  match p with
  | .bc => r.setBc v
  | .de => r.setDe v
  | .hl => r.setHl v
  | .sp => { r with sp := v }

def getStackPair (r : Registers) : StackPair → UInt16
  | .bc => r.bc
  | .de => r.de
  | .hl => r.hl
  | .af => r.af

/-- Popping AF keeps only the flags of its low byte. -/
def setStackPair (r : Registers) (p : StackPair) (v : UInt16) : Registers :=
  match p with
  | .bc => r.setBc v
  | .de => r.setDe v
  | .hl => r.setHl v
  | .af => r.setAf v

@[simp] theorem get_set_self (r : Registers) (x : Reg) (v : UInt8) : (r.set x v).get x = v := by
  cases x <;> rfl

theorem get_set_of_ne (r : Registers) {x y : Reg} (v : UInt8) (h : y ≠ x) :
    (r.set x v).get y = r.get y := by
  cases x <;> cases y <;> first | rfl | exact absurd rfl h

@[simp] theorem getPair_setPair (r : Registers) (p : Pair) (v : UInt16) :
    (r.setPair p v).getPair p = v := by
  cases p <;> simp [setPair, getPair, setBc, setDe, setHl, bc, de, hl]

theorem getStackPair_setStackPair (r : Registers) (p : StackPair) (v : UInt16) :
    (r.setStackPair p v).getStackPair p = if p = .af then word (hi v) (lo v &&& 0xF0) else v := by
  cases p <;> simp [setStackPair, getStackPair, setAf, setBc, setDe, setHl, af, bc, de, hl, f,
    Flags.toByte_ofByte]

end Registers

end Dmg
