import Mathlib.Data.BitVec

/-!
# Joystick keys and commands

The joystick of the board, as `readKeys` reports it, and the commands that the
test programs make of it: two for a counter and two for a duty cycle.  A
program remembers the command of the last key, and evaluates it when it has
seen a key pressed and no key pressed.
-/

namespace EmbBoard.Joystick

/-! ## Keys -/

/-- The four keys that stand for a command. -/
inductive Key
  | up | down | left | right
deriving DecidableEq, Repr

def Key.code : Key → BitVec 32
  | .up => 0x02000000
  | .down => 0x08000000
  | .left => 0x00800000
  | .right => 0x04000000

/-- `CENTER`. -/
def center : BitVec 32 := 0x00400000

/-- `KEY_MASK`. -/
def keyMask : BitVec 32 :=
  center ||| Key.left.code ||| Key.right.code ||| Key.up.code ||| Key.down.code

/-- `readKeys`; the buttons are active low. -/
def readKeys (fio2Pin : BitVec 32) : BitVec 32 := ~~~fio2Pin &&& keyMask

/-- The result of `readKeys` for one of the four keys, or for none. -/
def code : Option Key → BitVec 32
  | some k => k.code
  | none => 0

/-- Each of these results is read from some state of the pins. -/
theorem exists_readKeys_eq (r : Option Key) :
    ∃ fio2Pin, readKeys fio2Pin = code r := by
  refine ⟨~~~code r, ?_⟩
  cases r with
  | none => decide
  | some k => cases k <;> decide

/-! ## Commands -/

/-- `cmd_t`. -/
inductive Cmd
  | cntUp | cntDwn | pwmUp | pwmDwn
deriving DecidableEq, Repr

/-- The command of a key. -/
def Key.cmd : Key → Cmd
  | .up => .cntUp
  | .down => .cntDwn
  | .left => .pwmUp
  | .right => .pwmDwn

/-- The variables of a main loop and the two output registers it writes.  The
flags are only ever 0 or 1; `cmd` is `none` while it holds no command. -/
structure Loop where
  count : BitVec 16
  pwm : BitVec 16
  pressed : Bool
  released : Bool
  cmd : Option Cmd
  wboReg1 : BitVec 16
  wboReg2 : BitVec 16
deriving DecidableEq, Repr

namespace Loop

/-- "evaluate command". -/
def apply (cmd : Option Cmd) (s : Loop) : Loop :=
  match cmd with
  | some .cntUp => { s with count := s.count + 1 }
  | some .cntDwn => { s with count := s.count - 1 }
  | some .pwmUp => { s with pwm := s.pwm + 0x1000 }
  | some .pwmDwn => { s with pwm := s.pwm - 0x1000 }
  | none => s

/-- "detect button press/releases". -/
def evaluate (s : Loop) : Loop :=
  if s.pressed && s.released then
    { s.apply s.cmd with pressed := false, released := false }
  else s

/-- The variables when the loop is entered; what `cmd` and the registers hold
is open. -/
def start (cmd : Option Cmd) (wboReg1 wboReg2 : BitVec 16) : Loop where
  count := 0
  pwm := 0x8000
  pressed := false
  released := false
  cmd := cmd
  wboReg1 := wboReg1
  wboReg2 := wboReg2

/-- Counter and duty cycle. -/
def position (s : Loop) : BitVec 16 × BitVec 16 := (s.count, s.pwm)

end Loop

/-- What a command adds to counter and duty cycle. -/
def Cmd.move : Cmd → BitVec 16 × BitVec 16
  | .cntUp => (1, 0)
  | .cntDwn => (-1, 0)
  | .pwmUp => (0, 0x1000)
  | .pwmDwn => (0, -0x1000)

theorem Loop.position_apply (cmd : Cmd) (s : Loop) :
    (s.apply (some cmd)).position = s.position + cmd.move := by
  cases cmd <;>
    simp [Loop.apply, Loop.position, Cmd.move, sub_eq_add_neg]

end EmbBoard.Joystick
