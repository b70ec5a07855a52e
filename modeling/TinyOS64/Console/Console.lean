/-
  File:      TinyOS64/Console/Console.lean
  Subject:   What a command handler talks to: registers, verbs, memory, the firmware.

  A handler of commands.cpp is a program in `ConsoleM`: it asks the questions of `ConsoleOp` and
  may stop with a `Fault`. The programs of the driver run in it through `register` and `verb`.
-/
import TinyOS64.Console.Line
import TinyOS64.Hda.Verbs
import TinyOS64.Lib.Stopping

namespace TinyOS64

open Interaction

/-- What `gop->Mode` points to. -/
structure GraphicsMode where
  m_maxMode : BitVec 32
  m_mode : BitVec 32
  m_frameBufferBase : BitVec 64
  m_frameBufferSize : BitVec 64
  deriving DecidableEq, Repr

/-- The questions of a command handler. -/
inductive ConsoleOp where
  | register (o : MmioOp)
  /-- A verb sent with `sendVerb`, and the response read after it. -/
  | verb (word : BitVec 32)
  /-- A load through a pointer to CPU memory. -/
  | load32 (address : BitVec 64)
  /-- `m_setMode` and `m_queryMode` of the text console. -/
  | setMode (modeNumber : BitVec 64)
  | queryMode (modeNumber : BitVec 64)
  /-- `m_locateProtocol` for the graphics protocol, and `QueryMode` of that protocol. -/
  | locateGraphics
  | queryGraphics (modeNumber : BitVec 32)

/-- Their answers: `queryMode` a status, columns and rows; `locateGraphics` a status and what
    `Mode` points to, if it is not null; `queryGraphics` the two resolutions in `*info`. -/
@[reducible] def ConsoleOp.Ans : ConsoleOp → Type
  | register o => o.Ans
  | verb _ => Option (BitVec 32)
  | load32 _ => BitVec 32
  | setMode _ => BitVec 64
  | queryMode _ => BitVec 64 × BitVec 64 × BitVec 64
  | locateGraphics => BitVec 64 × Option GraphicsMode
  | queryGraphics _ => BitVec 32 × BitVec 32

/-- The signature of command handlers. -/
@[reducible] def Console : Sig := ⟨ConsoleOp, ConsoleOp.Ans⟩

/-- Command handlers. -/
abbrev ConsoleM := ExceptT Fault (Prog Console)

/-- A question of the driver's verb programs, asked from the console. -/
def VerbOp.onConsole : (o : VerbOp) → Prog Console o.Ans
  | .verb codec node v command => .ask (S := Console) (.verb (verbWord codec node v command)) .ret
  | .print fmt va => .ask (S := Console) (.register (.print fmt va)) .ret

instance : MonadLift (Prog Mmio) (Prog Console) where
  monadLift p := p.lower fun o => .ask (S := Console) (.register o) .ret

instance : MonadLift (Prog Verbs) (Prog Console) where
  monadLift p := p.lower VerbOp.onConsole

namespace Console

def ask (o : ConsoleOp) : Prog Console o.Ans := .ask (S := Console) o .ret

/-- `print` where its result is not used. -/
def print (fmt : String) (va : List Arg) : Prog Console Unit := do
  let _ ← ask (.register (.print fmt va))

/-- A guarded `print`. -/
def printIf (c : Bool) (fmt : String) (va : List Arg) : Prog Console Unit :=
  if c then print fmt va else pure ()

/-- `print` where its result, the number of characters put, is used. -/
def printed (fmt : String) (va : List Arg) : Prog Console Nat := ask (.register (.print fmt va))

/-- Some answer to every question: nothing answers, and every status is success. -/
def silent : (o : ConsoleOp) → o.Ans
  | .register (.read8 _) => 0
  | .register (.read16 _) => 0
  | .register (.read32 _) => 0
  | .register (.write8 ..) | .register (.write16 ..) | .register (.write32 ..) => ()
  | .register (.store32 ..) => ()
  | .register (.print ..) => 0
  | .verb _ => none
  | .load32 _ => 0
  | .setMode _ => 0
  | .queryMode _ => (0, 0, 0)
  | .locateGraphics => (0, none)
  | .queryGraphics _ => (0, 0)

end Console

/-- What a run of a command prints. -/
def printedLines (ops : List ConsoleOp) : List (String × List Arg) :=
  ops.filterMap fun o =>
    match o with
    | .register (.print fmt va) => some (fmt, va)
    | _ => none

end TinyOS64
